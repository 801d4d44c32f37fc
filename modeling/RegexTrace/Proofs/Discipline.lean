import RegexTrace.Proofs.Backtracking
import RegexTrace.Proofs.Congruence

/-!
# The discipline of checkpoints

Every stream takes back what it recorded. Whatever its consumer records between an offer and the
resumption has to be gone again before the resumption; then the trace goes on from where the stream
was begun at every offer, is back there when the stream runs dry, and no checkpoint is ever asked
for that the trace does not have.

## Implementation notes

The stacks of suspended streams are nested resumptions here, so the promise of a consumer to each of
them is part of one induction on the stream. The inside of a visit need not take back its steps,
since the visit does; this is why the state at the end of a stream is a parameter.
-/

namespace RegexTrace.Search

/-- The points that a stream comes to as long as its consumer keeps the promise: it resumes the
stream with the trace as it was at the last offer. -/
inductive ComesTo : Candidates → Candidates → Prop
  | here (cs : Candidates) : ComesTo cs cs
  | resumed {stop : Nat} {s s' : State} {resume : Stream} {cs : Candidates}
      (kept : s'.trace = s.trace) (later : ComesTo (resume s') cs) :
      ComesTo (.offer stop s resume) cs

/-- A search for one acceptable candidate keeps the promise, and where it accepts one it abandons
the stream. -/
theorem exists_comesTo_of_first {accept : Nat → Bool} {cs : Candidates} {stop : Nat} {s : State}
    (h : cs.first accept = .accepted stop s) : ∃ resume, ComesTo cs (.offer stop s resume) := by
  induction cs with
  | exhausted s' => cases h
  | aborted failure s' => cases h
  | offer other s' resume ih =>
      rw [Candidates.first] at h
      split at h
      · obtain ⟨rfl, rfl⟩ := Candidates.First.accepted.inj h
        exact ⟨resume, .here _⟩
      · obtain ⟨later, hlater⟩ := ih s' h
        exact ⟨later, .resumed rfl hlater⟩

/-- What a point of a stream owes to the trace with which the stream was begun: an offer goes on
from it, the end is back at it, and no stop comes from a checkpoint that a trace does not have. -/
def Candidates.Disciplined (begun : Trace Nat Occurrence) : Candidates → Prop
  | .offer _ s _ => begun.toList <+: s.trace.toList
  | .exhausted s => s.trace = begun
  | .aborted failure _ => ∀ checkpoint length, failure ≠ .invalidCheckpoint checkpoint length

/-- A stream that was begun with a trace goes on from it at each offer, and at its end the trace is
as `dry` says. -/
inductive Keeps (begun : Trace Nat Occurrence) (dry : Trace Nat Occurrence → Prop) :
    Candidates → Prop
  | exhausted {s : State} (h : dry s.trace) : Keeps begun dry (.exhausted s)
  | offer {stop : Nat} {s : State} {resume : Stream} (h : begun.toList <+: s.trace.toList)
      (hresume : ∀ s', s'.trace = s.trace → Keeps begun dry (resume s')) :
      Keeps begun dry (.offer stop s resume)
  | aborted {failure : Failure} {s : State}
      (h : ∀ checkpoint length, failure ≠ .invalidCheckpoint checkpoint length) :
      Keeps begun dry (.aborted failure s)

namespace Keeps

variable {begun earlier : Trace Nat Occurrence} {dry dry' : Trace Nat Occurrence → Prop}
  {cs : Candidates}

theorem weaken (h : Keeps begun dry cs) (hbegun : earlier.toList <+: begun.toList)
    (hdry : ∀ t, dry t → dry' t) : Keeps earlier dry' cs := by
  induction h with
  | exhausted hend => exact .exhausted (hdry _ hend)
  | offer hprefix _ ih => exact .offer (hbegun.trans hprefix) ih
  | aborted hfailure => exact .aborted hfailure

theorem orElse {next : Stream} (h : Keeps begun dry cs)
    (hnext : ∀ s, dry s.trace → Keeps begun dry' (next s)) :
    Keeps begun dry' (cs.orElse next) := by
  induction h with
  | exhausted hend => exact hnext _ hend
  | offer hprefix _ ih => exact .offer hprefix ih
  | aborted hfailure => exact .aborted hfailure

theorem andThen {next : Nat → Stream} (h : Keeps begun dry cs)
    (hnext : ∀ stop s, Keeps s.trace (· = s.trace) (next stop s)) :
    Keeps begun dry (cs.andThen next) := by
  induction h with
  | exhausted hend => exact .exhausted hend
  | @offer stop s resume hprefix _ ih =>
      have hstop : Keeps begun (· = s.trace) (next stop s) :=
        (hnext stop s).weaken hprefix fun _ ht => ht
      exact hstop.orElse ih
  | aborted hfailure => exact .aborted hfailure

/-- A search for one candidate abandons the stream with a trace that goes on from the beginning, or
runs it dry. -/
theorem probe {accept : Nat → Bool} {found missing : Stream} (h : Keeps begun dry cs)
    (hfound : ∀ s, begun.toList <+: s.trace.toList → Keeps begun dry' (found s))
    (hmissing : ∀ s, dry s.trace → Keeps begun dry' (missing s)) :
    Keeps begun dry' (cs.probe accept found missing) := by
  induction h with
  | exhausted hend => exact hmissing _ hend
  | @offer stop s resume hprefix _ ih =>
      rw [Candidates.probe_offer]
      split
      · exact hfound s hprefix
      · exact ih s rfl
  | aborted hfailure => exact .aborted hfailure

/-- A stream that keeps its beginning is disciplined wherever it comes to. -/
theorem disciplined {point : Candidates} (h : Keeps begun (· = begun) cs)
    (hpoint : ComesTo cs point) : point.Disciplined begun := by
  induction hpoint with
  | here cs =>
      cases h with
      | exhausted hend => exact hend
      | offer hprefix _ => exact hprefix
      | aborted hfailure => exact hfailure
  | resumed kept _ ih =>
      cases h with
      | offer _ hresume => exact ih (hresume _ kept)

end Keeps

section Visit

variable {ctx : Context} {begun : Trace Nat Occurrence}

theorem leave_keeps {s : State} (h : begun.toList <+: s.trace.toList) :
    Keeps begun (· = begun) (leave begun.length s) := by
  rw [leave, Trace.rollback?_of_prefix h]
  exact .exhausted rfl

/-- A visit takes back its step and whatever its inside leaves behind. -/
theorem visit_keeps {inside : Stream} (o : Occurrence) (pos : Nat) (s : State)
    (hinside : ∀ entered : State,
      Keeps entered.trace (entered.trace.toList <+: ·.toList) (inside entered)) :
    Keeps s.trace (· = s.trace) (visit ctx o pos s inside) := by
  unfold visit
  rcases enter_cases ctx o pos s with ⟨limit, stopped, -, henter⟩ | ⟨entered, henter, htrace⟩
  · rw [henter]
    exact .aborted nofun
  · rw [henter]
    have hprefix : s.trace.toList <+: entered.trace.toList := by
      rw [htrace, Trace.toList_append]
      exact List.prefix_append _ _
    have hweak : Keeps s.trace (s.trace.toList <+: ·.toList) (inside entered) :=
      (hinside entered).weaken hprefix fun t ht => hprefix.trans ht
    exact hweak.orElse fun s' hs' => leave_keeps hs'

end Visit

/-- Every way of building streams keeps the discipline; what stands inside of a visit may leave
steps behind. -/
theorem keeps_congruence (ctx : Context) (limit : Option Nat) :
    Congruence ctx limit limit (fun f _ => ∀ s, Keeps s.trace (· = s.trace) (f s))
      (fun f _ => ∀ s, Keeps s.trace (s.trace.toList <+: ·.toList) (f s)) := by
  constructor
  case exhausted => exact fun s => .exhausted rfl
  case noticed => exact fun notice s => .exhausted rfl
  case fault => exact fun cause s => .aborted nofun
  case offerOnce =>
      intro stop s
      apply Keeps.offer List.prefix_rfl
      exact fun s' hs' => .exhausted hs'
  case orElse =>
      intro f f' g g' hf hg s
      apply (hf s).orElse
      intro s' hs'
      exact hs' ▸ hg s'
  case andThen =>
      intro f f' next next' hf hnext s
      exact (hf s).andThen hnext
  case inside =>
      intro f f' hf s
      exact (hf s).weaken List.prefix_rfl fun t ht => ht ▸ List.prefix_rfl
  case probe =>
      intro f f' found found' missing missing' accept hf hfound hmissing s
      apply (hf s).probe
      · intro s' hs'
        exact (hfound s').weaken hs' fun t ht => ht ▸ hs'
      · intro s' hs'
        exact hs' ▸ hmissing s'
  case visit =>
      intro f f' o pos hf s
      exact visit_keeps o pos s hf

/-- The stream of a node keeps the trace with which it is begun. -/
theorem candidates_keeps (ctx : Context) (address : Address) (node : Node) (pos : Nat) (s : State) :
    Keeps s.trace (· = s.trace) (candidates ctx address node pos s) :=
  (keeps_congruence ctx ctx.options.maxSteps).candidates address node pos s

theorem rootCandidates_keeps (ctx : Context) (root : Node) (pos : Nat) (s : State) :
    Keeps s.trace (· = s.trace) (rootCandidates ctx root pos s) :=
  (keeps_congruence ctx ctx.options.maxSteps).rootCandidates root pos s

/-- A scan never asks for a checkpoint that a trace does not have. -/
theorem scanFrom_ne_invalidCheckpoint (ctx : Context) (root : Node) (starts : List Nat) (s : State)
    (checkpoint length : Nat) :
    (scanFrom ctx root starts s).result ≠ .error (.invalidCheckpoint checkpoint length) := by
  induction starts generalizing s with
  | nil =>
      intro h
      cases h
  | cons start rest ih =>
      have hkeeps := rootCandidates_keeps ctx root start
        { s with trace := Trace.append {} start .start }
      rw [scanFrom]
      generalize rootCandidates ctx root start _ = cs at hkeeps
      cases hkeeps with
      | exhausted _ => exact ih _
      | offer _ _ =>
          intro h
          cases h
      | aborted hfailure => exact fun h => hfailure checkpoint length (Except.error.inj h)

/-- The trace at the start of a trial: the start mark and nothing else. -/
abbrev freshTrace (start : Nat) : Trace Nat Occurrence := Trace.append {} start .start

/-- The stream of every node is disciplined at all points that a consumer comes to who keeps the
promise; a stream that is abandoned at an accepted candidate has lost nothing of the trace it was
begun with. So a start that fails leaves the start mark alone, and no search asks for a checkpoint
that a trace does not have. -/
theorem checkpoints_disciplined (ctx : Context) :
    (∀ address node pos s point, ComesTo (candidates ctx address node pos s) point →
      point.Disciplined s.trace) ∧
    (∀ address body pos s accept stop s',
      (sequence ctx address 0 body pos s).first accept = .accepted stop s' →
        s.trace.toList <+: s'.trace.toList) ∧
    (∀ root start (s s' : State),
      rootCandidates ctx root start { s with trace := freshTrace start } = .exhausted s' →
        s'.trace = freshTrace start) ∧
    ∀ root text checkpoint length,
      trace ctx.options root text ≠ .error (.invalidCheckpoint checkpoint length) := by
  refine ⟨?node, ?abandoned, ?failed, ?unreachable⟩
  case node =>
      intro address node pos s point hpoint
      exact (candidates_keeps ctx address node pos s).disciplined hpoint
  case abandoned =>
      intro address body pos s accept stop s' hfirst
      obtain ⟨resume, hpoint⟩ := exists_comesTo_of_first hfirst
      have hkeeps := (keeps_congruence ctx ctx.options.maxSteps).sequence address 0 body pos s
      exact hkeeps.disciplined hpoint
  case failed =>
      intro root start s s' hfailed
      have hkeeps := rootCandidates_keeps ctx root start { s with trace := freshTrace start }
      rw [hfailed] at hkeeps
      exact hkeeps.disciplined (.here _)
  case unreachable =>
      intro root text checkpoint length
      unfold trace run
      split
      · exact nofun
      · exact scanFrom_ne_invalidCheckpoint _ root _ _ checkpoint length

/-- A lookahead whose body is abandoned where it succeeds, resumed after its only candidate, and the
start that fails because the element after it does. -/
theorem checkpoints_disciplined_lookahead :
    let ctx : Context := ⟨Utf16.encode "ab", { lookaround := .assert }⟩
    let body : List Node := [.value 'a'.toNat]
    let ahead : Node := .group (.look false false) body none none
    let s : State := { trace := freshTrace 0 }
    (∃ stop offered resume,
      candidates ctx [.element 0] ahead 0 s = .offer stop offered resume ∧
        (resume offered).Disciplined s.trace) ∧
    (∃ stop s', (sequence ctx [.element 0] 0 body 0 s).first (fun _ => true) = .accepted stop s' ∧
      s.trace.toList <+: s'.trace.toList) ∧
    ∃ s' : State,
      rootCandidates ctx (.alternative [ahead, .value 'c'.toNat]) 0 s = .exhausted s' ∧
        s'.trace = freshTrace 0 := by
  intro ctx body ahead s
  obtain ⟨hnode, habandoned, hfailed, -⟩ := checkpoints_disciplined ctx
  refine ⟨⟨_, _, _, rfl, ?_⟩, ⟨_, _, rfl, ?_⟩, ⟨_, rfl, ?_⟩⟩
  · exact hnode [.element 0] ahead 0 s _ (.resumed rfl (.here _))
  · exact habandoned [.element 0] body 0 s (fun _ => true) _ _ rfl
  · exact hfailed (.alternative [ahead, .value 'c'.toNat]) 0 s _ rfl

end RegexTrace.Search
