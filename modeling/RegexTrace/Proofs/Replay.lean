import RegexTrace.Proofs.Positions

/-!
# The search replays the ways

The stream of candidates of a node offers the ways of the node, one by one and in their order. What
the trace holds beyond its beginning is at every offer the steps of the way that is offered, and
when the stream runs dry the trace is back at its beginning. This holds as long as the consumer
keeps its promise: it resumes a stream with the trace as it was at the last offer.

## Implementation notes

The inside of a node may leave steps behind when it runs dry, since the node itself takes them back.
So the trace at the end of a stream is described by a property that differs between a node and its
inside. A budget may cut a replay at any point.
-/

namespace RegexTrace.Search

/-- The steps of a trace, the oldest first. -/
abbrev Steps := List (Step Nat Occurrence)

/-- A stream offers ways, recording their steps after the steps in `base`; at its end the trace is
as `dry` says. Under a limit of node entries it may be cut. -/
inductive Replays (limit : Option Nat) (base : Steps) (dry : Steps → Prop) :
    Ways → Candidates → Prop
  | exhausted {s : State} (h : dry s.trace.toList) :
      Replays limit base dry .none (.exhausted s)
  | fault (cause : Node.Fault) (s : State) :
      Replays limit base dry (.fault cause) (.aborted (.fault cause) s)
  | cut {ws : Ways} {s : State} {n : Nat} (h : limit = some n) :
      Replays limit base dry ws (.aborted (.budgetExceeded n) s)
  | offer {way : Way} {rest : Ways} {s : State} {resume : State → Candidates}
      (h : s.trace.toList = base ++ way.steps)
      (hresume : ∀ s', s'.trace = s.trace → Replays limit base dry rest (resume s')) :
      Replays limit base dry (.more way rest) (.offer way.stop s resume)

/-- A stream that leaves nothing behind when it runs dry. -/
abbrev Restores (limit : Option Nat) (base : Steps) : Ways → Candidates → Prop :=
  Replays limit base (· = base)

theorem trace_eq_of_toList {t t' : Trace Nat Occurrence} (h : t.toList = t'.toList) : t = t' := by
  cases t
  cases t'
  exact congrArg Trace.mk (Array.toList_inj.mp h)

namespace Replays

variable {limit : Option Nat} {base steps : Steps} {dry dry' : Steps → Prop} {ws later : Ways}
  {cs : Candidates}

theorem append {next : State → Candidates} (h : Replays limit base dry ws cs)
    (hnext : ∀ s, dry s.trace.toList → Replays limit base dry' later (next s)) :
    Replays limit base dry' (ws.append later) (cs.orElse next) := by
  induction h with
  | exhausted hdry => exact hnext _ hdry
  | fault cause s => exact .fault cause s
  | cut hlimit => exact .cut hlimit
  | offer hsteps _ ih => exact .offer hsteps ih

/-- Steps that were recorded before a stream belong to each of its ways as well. -/
theorem after (h : Replays limit (base ++ steps) dry ws cs) :
    Replays limit base dry (ws.after steps) cs := by
  induction h with
  | exhausted hdry => exact .exhausted hdry
  | fault cause s => exact .fault cause s
  | cut hlimit => exact .cut hlimit
  | @offer way rest s resume hsteps _ ih =>
      have hall : s.trace.toList = base ++ (steps ++ way.steps) := by
        rw [hsteps, List.append_assoc]
      exact @Replays.offer _ _ _ ⟨way.stop, steps ++ way.steps⟩ _ _ _ hall ih

/-- Going on from every candidate replays going on from every way. -/
theorem andThen {f : Nat → Ways} {next : Nat → State → Candidates}
    (h : Replays limit base dry ws cs)
    (hnext : ∀ way ∈ ws.toList, ∀ s, s.trace.toList = base ++ way.steps →
      Restores limit s.trace.toList (f way.stop) (next way.stop s)) :
    Replays limit base dry (ws.andThen f) (cs.andThen next) := by
  induction h with
  | exhausted hdry => exact .exhausted hdry
  | fault cause s => exact .fault cause s
  | cut hlimit => exact .cut hlimit
  | @offer way rest s resume hsteps _ ih =>
      have hway := hnext way List.mem_cons_self s hsteps
      rw [hsteps] at hway
      -- What follows the way leaves its steps as they were, so the promise to its stream is kept.
      refine hway.after.append fun s' hs' => ih s' ?_ ?_
      · exact trace_eq_of_toList (hs'.trans hsteps.symm)
      · exact fun other hother => hnext other (List.mem_cons_of_mem _ hother)

theorem weaken (h : Replays limit base dry ws cs) (himp : ∀ t, dry t → dry' t) :
    Replays limit base dry' ws cs := by
  induction h with
  | exhausted hdry => exact .exhausted (himp _ hdry)
  | fault cause s => exact .fault cause s
  | cut hlimit => exact .cut hlimit
  | offer hsteps _ ih => exact .offer hsteps ih

end Replays

theorem offerOnce_restores (limit : Option Nat) (stop : Nat) (s : State) :
    Restores limit s.trace.toList (.single stop) (offerOnce stop s) := by
  refine @Replays.offer _ _ _ ⟨stop, []⟩ _ _ _ (List.append_nil _).symm fun s' hs' => ?_
  exact .exhausted (congrArg Trace.toList hs')

theorem offerIf_restores (limit : Option Nat) (condition : Bool) (stop : Nat) (s : State) :
    Restores limit s.trace.toList (.singleIf condition stop) (offerIf condition stop s) := by
  cases condition with
  | true => exact offerOnce_restores limit stop s
  | false => exact .exhausted rfl

/-- What a search for one candidate finds is what the ways have to offer. -/
inductive Finds (limit : Option Nat) (base : Steps) (dry : Steps → Prop) :
    Except Node.Fault (Option Way) → Candidates.First → Prop
  | accepted {way : Way} {s : State} (h : s.trace.toList = base ++ way.steps) :
      Finds limit base dry (.ok (some way)) (.accepted way.stop s)
  | none {s : State} (h : dry s.trace.toList) : Finds limit base dry (.ok none) (.none s)
  | fault (cause : Node.Fault) (s : State) :
      Finds limit base dry (.error cause) (.aborted (.fault cause) s)
  | cut {found : Except Node.Fault (Option Way)} {s : State} {n : Nat} (h : limit = some n) :
      Finds limit base dry found (.aborted (.budgetExceeded n) s)

variable {limit : Option Nat} {base : Steps} {dry : Steps → Prop}

/-- The first acceptable candidate is the first acceptable way. -/
theorem Replays.first {ws : Ways} {cs : Candidates} (h : Replays limit base dry ws cs)
    (accept : Nat → Bool) : Finds limit base dry (ws.first? accept) (cs.first accept) := by
  induction h with
  | exhausted hdry => exact .none hdry
  | fault cause s => exact .fault cause s
  | cut hlimit => exact .cut hlimit
  | @offer way rest s resume hsteps _ ih =>
      rw [Ways.first?, Candidates.first]
      split
      · exact .accepted hsteps
      · exact ih s rfl

/-- The starts of a lookbehind are tried alike. -/
theorem firstBehind_finds {body : Nat → Ways} {stream : Nat → State → Candidates} {pos : Nat}
    {starts : List Nat}
    (hbody : ∀ start ∈ starts, ∀ s : State,
      Restores limit s.trace.toList (body start) (stream start s)) (s : State) :
    Finds limit s.trace.toList (· = s.trace.toList) (firstBehind? body pos starts)
      (firstBehind stream pos starts s) := by
  induction starts generalizing s with
  | nil => exact .none rfl
  | cons start rest ih =>
      have hfirst := (hbody start List.mem_cons_self s).first (· == pos)
      rw [firstBehind?, firstBehind]
      generalize (body start).first? (· == pos) = found at hfirst
      generalize (stream start s).first (· == pos) = finding at hfirst
      cases hfirst with
      | accepted hsteps => exact .accepted hsteps
      | @none s' hdry =>
          have hrest := ih (fun other hother => hbody other (List.mem_cons_of_mem _ hother)) s'
          rw [hdry] at hrest
          exact hrest
      | fault cause s' => exact .fault cause s'
      | cut hlimit =>
          exact .cut hlimit

/-- An assertion replays the ways of the assertion; it may leave the steps of its body behind. -/
theorem assertInside_replays {behind negative : Bool} {body : Nat → Ways}
    {stream : Nat → State → Candidates} {pos : Nat}
    (hbody : ∀ start ≤ pos, ∀ s : State,
      Restores limit s.trace.toList (body start) (stream start s)) (s : State) :
    Replays limit s.trace.toList (s.trace.toList <+: ·) (assertion behind negative body pos)
      (assertInside behind negative stream pos s) := by
  unfold assertion assertInside
  simp only
  have hfinds : Finds limit s.trace.toList (· = s.trace.toList)
      (if behind then firstBehind? body pos (List.range (pos + 1))
        else (body pos).first? fun _ => true)
      (if behind then firstBehind stream pos (List.range (pos + 1)) s
        else (stream pos s).first fun _ => true) := by
    split
    · refine firstBehind_finds (fun start hstart => hbody start ?_) s
      exact Nat.le_of_lt_succ (List.mem_range.mp hstart)
    · exact (hbody pos (Nat.le_refl pos) s).first _
  generalize (if behind then firstBehind? body pos (List.range (pos + 1))
    else (body pos).first? fun _ => true) = found at hfinds
  generalize (if behind then firstBehind stream pos (List.range (pos + 1)) s
    else (stream pos s).first fun _ => true) = finding at hfinds
  cases hfinds with
  | @accepted way s' hsteps =>
      have hprefix : s.trace.toList <+: s'.trace.toList := ⟨way.steps, hsteps.symm⟩
      cases negative with
      | true => exact .exhausted hprefix
      | false =>
          refine @Replays.offer _ _ _ ⟨pos, way.steps⟩ _ _ _ hsteps fun s'' hs'' => ?_
          exact .exhausted (congrArg Trace.toList hs'' ▸ hprefix)
  | @none s' hdry =>
      have h := offerIf_restores limit negative pos s'
      rw [hdry] at h
      exact h.weaken fun t ht => ht ▸ List.prefix_rfl
  | fault cause s' => exact .fault cause s'
  | cut hlimit => exact .cut hlimit

end RegexTrace.Search
