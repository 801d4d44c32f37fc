import RegexTrace.Proofs.Congruence

/-!
# Searches under a budget

A budget of node entries does not change a search that keeps to it, and stops every other one. The
search without a budget and the one under it go through the same states as long as these lie within
the budget; the first entry beyond it stops the one, and the other never comes back to a state
within the budget, since entries are only ever added.

The entries that a search reports are those of its visits. A visit counts one beside those made
inside of it, a scan adds up what its starts count, and no step is recorded without an entry.

## Implementation notes

The two streams of a node are compared wherever their consumers may resume them. A stream is told
apart from the rest of the search by the states in which it is resumed, so the comparison has two
parts: resumed within the budget the streams go on alike or one of them is cut, and resumed beyond
it the stream of the free search stays beyond.
-/

namespace RegexTrace.Search

/-- A stream whose states all have a property, if it is resumed in such states only. -/
inductive Candidates.Holds (P : State → Prop) : Candidates → Prop
  | exhausted {s : State} (h : P s) : Holds P (.exhausted s)
  | offer {stop : Nat} {s : State} {resume : Stream} (h : P s)
      (hresume : ∀ s', P s' → Holds P (resume s')) : Holds P (.offer stop s resume)
  | aborted {failure : Failure} {s : State} (h : P s) : Holds P (.aborted failure s)

/-- A stream that comes to states with more than `n` node entries only. -/
abbrev Beyond (n : Nat) : Candidates → Prop := Candidates.Holds fun s => n < s.entries

/-- A stream of a search without a budget beside the stream of the search under the budget `n`: they
go on alike up to `n` node entries, and where the second one is cut the first one has gone beyond.
-/
inductive Cut (n : Nat) : Candidates → Candidates → Prop
  | exhausted {s : State} (h : s.entries ≤ n) : Cut n (.exhausted s) (.exhausted s)
  | offer {stop : Nat} {s : State} {resume resume' : Stream} (h : s.entries ≤ n)
      (hwithin : ∀ s', s'.entries ≤ n → Cut n (resume s') (resume' s'))
      (hbeyond : ∀ s', n < s'.entries → Beyond n (resume s')) :
      Cut n (.offer stop s resume) (.offer stop s resume')
  | aborted {failure : Failure} {s : State} (h : s.entries ≤ n) :
      Cut n (.aborted failure s) (.aborted failure s)
  | cut {cs : Candidates} {s : State} (h : Beyond n cs) :
      Cut n cs (.aborted (.budgetExceeded n) s)

/-- Streams that have not begun are comparable when they are comparable from every state. -/
structure Budgeted (n : Nat) (f f' : Stream) : Prop where
  within : ∀ s, s.entries ≤ n → Cut n (f s) (f' s)
  beyond : ∀ s, n < s.entries → Beyond n (f s)

variable {n : Nat}

namespace Candidates.Holds

variable {P : State → Prop} {cs : Candidates}

theorem orElse {next : Stream} (h : cs.Holds P) (hnext : ∀ s, P s → (next s).Holds P) :
    (cs.orElse next).Holds P := by
  induction h with
  | exhausted hs => exact hnext _ hs
  | offer hs _ ih => exact .offer hs ih
  | aborted hs => exact .aborted hs

theorem andThen {next : Nat → Stream} (h : cs.Holds P)
    (hnext : ∀ stop s, P s → (next stop s).Holds P) : (cs.andThen next).Holds P := by
  induction h with
  | exhausted hs => exact .exhausted hs
  | offer hs _ ih => exact (hnext _ _ hs).orElse ih
  | aborted hs => exact .aborted hs

theorem probe {accept : Nat → Bool} {found missing : Stream} (h : cs.Holds P)
    (hfound : ∀ s, P s → (found s).Holds P) (hmissing : ∀ s, P s → (missing s).Holds P) :
    (cs.probe accept found missing).Holds P := by
  induction h with
  | exhausted hs => exact hmissing _ hs
  | offer hs _ ih =>
      rw [Candidates.probe_offer]
      split
      · exact hfound _ hs
      · exact ih _ hs
  | aborted hs => exact .aborted hs

end Candidates.Holds

namespace Cut

variable {cs cs' : Candidates}

theorem orElse {next next' : Stream} (h : Cut n cs cs') (hnext : Budgeted n next next') :
    Cut n (cs.orElse next) (cs'.orElse next') := by
  induction h with
  | exhausted hs => exact hnext.within _ hs
  | offer hs _ hbeyond ih => exact .offer hs ih fun s' hs' => (hbeyond s' hs').orElse hnext.beyond
  | aborted hs => exact .aborted hs
  | cut hcs => exact .cut (hcs.orElse hnext.beyond)

theorem andThen {next next' : Nat → Stream} (h : Cut n cs cs')
    (hnext : ∀ stop, Budgeted n (next stop) (next' stop)) :
    Cut n (cs.andThen next) (cs'.andThen next') := by
  have hnextBeyond : ∀ stop s, n < s.entries → Beyond n (next stop s) :=
    fun stop => (hnext stop).beyond
  induction h with
  | exhausted hs => exact .exhausted hs
  | @offer stop s _ _ hs _ hbeyond ih =>
      apply ((hnext stop).within s hs).orElse
      exact ⟨ih, fun s' hs' => (hbeyond s' hs').andThen hnextBeyond⟩
  | aborted hs => exact .aborted hs
  | cut hcs => exact .cut (hcs.andThen hnextBeyond)

theorem probe {accept : Nat → Bool} {found found' missing missing' : Stream} (h : Cut n cs cs')
    (hfound : Budgeted n found found') (hmissing : Budgeted n missing missing') :
    Cut n (cs.probe accept found missing) (cs'.probe accept found' missing') := by
  induction h with
  | exhausted hs => exact hmissing.within _ hs
  | offer hs _ _ ih =>
      rw [Candidates.probe_offer, Candidates.probe_offer]
      split
      · exact hfound.within _ hs
      · exact ih _ hs
  | aborted hs => exact .aborted hs
  | cut hcs => exact .cut (hcs.probe hfound.beyond hmissing.beyond)

end Cut

/-- A stream that ends at once counts no entry. -/
theorem budgeted_of_ends {f : Stream} (h : ∀ s, ∃ s', s'.entries = s.entries ∧
    (f s = .exhausted s' ∨ ∃ failure, f s = .aborted failure s')) : Budgeted n f f := by
  constructor
  · intro s hs
    obtain ⟨s', hentries, hend | ⟨failure, hend⟩⟩ := h s
    · exact hend ▸ .exhausted (hentries ▸ hs)
    · exact hend ▸ .aborted (hentries ▸ hs)
  · intro s hs
    obtain ⟨s', hentries, hend | ⟨failure, hend⟩⟩ := h s
    · exact hend ▸ .exhausted (hentries ▸ hs)
    · exact hend ▸ .aborted (hentries ▸ hs)

section Visit

theorem leave_budgeted (checkpoint : Nat) : Budgeted n (leave checkpoint) (leave checkpoint) := by
  apply budgeted_of_ends
  intro s
  unfold leave
  split
  · next trace _ => exact ⟨{ s with trace }, rfl, Or.inl rfl⟩
  · exact ⟨s, rfl, Or.inr ⟨_, rfl⟩⟩

/-- The state in which a node has been entered. -/
def State.entered (s : State) (o : Occurrence) (pos : Nat) : State :=
  { s with entries := s.entries + 1, trace := s.trace.append pos (.visit o) }

/-- Without a budget every node is entered. -/
theorem visit_free (ctx : Context) (o : Occurrence) (pos : Nat) (s : State) (inside : Stream) :
    visit (ctx.limited none) o pos s inside =
      (inside (s.entered o pos)).orElse (leave s.trace.length) := rfl

/-- Under a budget a node is entered as long as the entry lies within it. -/
theorem visit_within (ctx : Context) (o : Occurrence) (pos : Nat) {s : State} (inside : Stream)
    (h : s.entries + 1 ≤ n) :
    visit (ctx.limited (some n)) o pos s inside =
      (inside (s.entered o pos)).orElse (leave s.trace.length) := by
  have hnot : ¬ n < s.entries + 1 := Nat.not_lt.mpr h
  have henter : enter (ctx.limited (some n)) o pos s = .ok (s.entered o pos) := by
    simp only [enter, Context.limited, if_neg hnot]
    rfl
  rw [visit, henter]

/-- Under a budget the first entry beyond it stops the search. It is counted, but not recorded. -/
theorem exists_visit_eq_aborted (ctx : Context) (o : Occurrence) (pos : Nat) {s : State}
    (inside : Stream) (h : n < s.entries + 1) :
    ∃ stopped : State, stopped.entries = s.entries + 1 ∧ stopped.trace = s.trace ∧
      visit (ctx.limited (some n)) o pos s inside = .aborted (.budgetExceeded n) stopped := by
  let stopped : State := ⟨s.trace, s.entries + 1, s.notices.push (.budgetExhausted n)⟩
  have henter : enter (ctx.limited (some n)) o pos s = .error (.budgetExceeded n, stopped) := by
    simp only [enter, Context.limited, if_pos h]
    rfl
  exact ⟨stopped, rfl, rfl, by rw [visit, henter]⟩

/-- A visit counts one entry. Where that is the first entry beyond the budget, the visit under the
budget is cut and the free one goes on beyond it. -/
theorem visit_budgeted (ctx : Context) {f f' : Stream} (o : Occurrence) (pos : Nat)
    (h : Budgeted n f f') :
    Budgeted n (fun s => visit (ctx.limited none) o pos s f)
      (fun s => visit (ctx.limited (some n)) o pos s f') := by
  have hbeyond : ∀ s : State, n < s.entries + 1 →
      Beyond n (visit (ctx.limited none) o pos s f) := by
    intro s hs
    rw [visit_free]
    exact (h.beyond (s.entered o pos) hs).orElse (leave_budgeted _).beyond
  constructor
  · intro s hs
    rcases Nat.lt_or_ge n (s.entries + 1) with hover | hwithin
    · obtain ⟨stopped, -, -, hvisit⟩ := exists_visit_eq_aborted ctx o pos f' hover
      rw [hvisit]
      exact .cut (hbeyond s hover)
    · rw [visit_free, visit_within ctx o pos f' hwithin]
      exact (h.within (s.entered o pos) hwithin).orElse (leave_budgeted _)
  · intro s hs
    exact hbeyond s (Nat.lt_succ_of_lt hs)

end Visit

/-- Every way of building streams keeps a search without a budget comparable to the search under
one. -/
theorem budgeted_congruence (ctx : Context) (n : Nat) :
    Congruence ctx none (some n) (Budgeted n) (Budgeted n) := by
  constructor
  case exhausted => exact budgeted_of_ends fun s => ⟨s, rfl, Or.inl rfl⟩
  case noticed =>
      intro notice
      apply budgeted_of_ends
      exact fun s => ⟨{ s with notices := s.notices.push notice }, rfl, Or.inl rfl⟩
  case fault => exact fun cause => budgeted_of_ends fun s => ⟨s, rfl, Or.inr ⟨_, rfl⟩⟩
  case offerOnce =>
      intro stop
      constructor
      · intro s hs
        exact .offer hs (fun s' hs' => .exhausted hs') fun s' hs' => .exhausted hs'
      · intro s hs
        exact .offer hs fun s' hs' => .exhausted hs'
  case orElse =>
      intro f f' g g' hf hg
      exact ⟨fun s hs => (hf.within s hs).orElse hg, fun s hs => (hf.beyond s hs).orElse hg.beyond⟩
  case andThen =>
      intro f f' next next' hf hnext
      exact ⟨fun s hs => (hf.within s hs).andThen hnext,
        fun s hs => (hf.beyond s hs).andThen fun stop => (hnext stop).beyond⟩
  case inside => exact fun hf => hf
  case probe =>
      intro f f' found found' missing missing' accept hf hfound hmissing
      exact ⟨fun s hs => (hf.within s hs).probe hfound hmissing,
        fun s hs => (hf.beyond s hs).probe hfound.beyond hmissing.beyond⟩
  case visit => exact fun o pos hf => visit_budgeted ctx o pos hf

/-! ## What is counted -/

section Counting

variable {d : Nat}

/-- A state that differs from another one in what was noticed and in `d` more entries. -/
structure State.Ahead (d : Nat) (s t : State) : Prop where
  trace : t.trace = s.trace
  entries : t.entries = s.entries + d

/-- Streams that go on alike, the second one `d` entries ahead. -/
inductive Candidates.Ahead (d : Nat) : Candidates → Candidates → Prop
  | exhausted {s t : State} (h : s.Ahead d t) : Ahead d (.exhausted s) (.exhausted t)
  | offer {stop : Nat} {s t : State} {resume resume' : Stream} (h : s.Ahead d t)
      (hresume : ∀ s' t', s'.Ahead d t' → Ahead d (resume s') (resume' t')) :
      Ahead d (.offer stop s resume) (.offer stop t resume')
  | aborted {failure : Failure} {s t : State} (h : s.Ahead d t) :
      Ahead d (.aborted failure s) (.aborted failure t)

/-- Streams that have not begun and do not ask how many entries there were. -/
def AheadFrom (d : Nat) (f f' : Stream) : Prop := ∀ s t, s.Ahead d t → (f s).Ahead d (f' t)

namespace Candidates.Ahead

variable {cs cs' : Candidates}

theorem orElse {next next' : Stream} (h : cs.Ahead d cs') (hnext : AheadFrom d next next') :
    (cs.orElse next).Ahead d (cs'.orElse next') := by
  induction h with
  | exhausted hs => exact hnext _ _ hs
  | offer hs _ ih => exact .offer hs ih
  | aborted hs => exact .aborted hs

theorem andThen {next next' : Nat → Stream} (h : cs.Ahead d cs')
    (hnext : ∀ stop, AheadFrom d (next stop) (next' stop)) :
    (cs.andThen next).Ahead d (cs'.andThen next') := by
  induction h with
  | exhausted hs => exact .exhausted hs
  | offer hs _ ih => exact (hnext _ _ _ hs).orElse ih
  | aborted hs => exact .aborted hs

theorem probe {accept : Nat → Bool} {found found' missing missing' : Stream}
    (h : cs.Ahead d cs') (hfound : AheadFrom d found found')
    (hmissing : AheadFrom d missing missing') :
    (cs.probe accept found missing).Ahead d (cs'.probe accept found' missing') := by
  induction h with
  | exhausted hs => exact hmissing _ _ hs
  | offer hs _ ih =>
      rw [Candidates.probe_offer, Candidates.probe_offer]
      split
      · exact hfound _ _ hs
      · exact ih _ _ hs
  | aborted hs => exact .aborted hs

end Candidates.Ahead

/-- Without a budget a search does not ask how many entries there were. -/
theorem ahead_congruence (ctx : Context) (d : Nat) :
    Congruence ctx none none (AheadFrom d) (AheadFrom d) := by
  constructor
  case exhausted => exact fun s t h => .exhausted h
  case noticed => exact fun notice s t h => .exhausted ⟨h.trace, h.entries⟩
  case fault => exact fun cause s t h => .aborted h
  case offerOnce => exact fun stop s t h => .offer h fun s' t' h' => .exhausted h'
  case orElse => exact fun hf hg s t h => (hf s t h).orElse hg
  case andThen => exact fun hf hnext s t h => (hf s t h).andThen hnext
  case inside => exact fun hf => hf
  case probe => exact fun accept hf hfound hmissing s t h => (hf s t h).probe hfound hmissing
  case visit =>
      intro f f' o pos hf s t h
      simp only [visit_free, h.trace]
      have hentered : (s.entered o pos).Ahead d (t.entered o pos) := by
        constructor
        · simp only [State.entered, h.trace]
        · simp only [State.entered, h.entries]
          omega
      refine (hf _ _ hentered).orElse fun s' t' h' => ?_
      unfold leave
      rw [h'.trace]
      split
      · exact .exhausted ⟨rfl, h'.entries⟩
      · exact .aborted h'

/-- The entries that were made when a stream offers a candidate or ends. -/
def Candidates.entries : Candidates → Nat
  | .exhausted s | .offer _ s _ | .aborted _ s => s.entries

theorem Candidates.Ahead.entries {cs cs' : Candidates} (h : cs.Ahead d cs') :
    cs'.entries = cs.entries + d := by
  cases h with
  | exhausted h | offer h | aborted h => exact h.entries

/-- A visit counts one entry, and those made inside of it. -/
theorem entries_visit (ctx : Context) (o : Occurrence) (pos : Nat) (s : State) {inside : Stream}
    (h : ∀ d, AheadFrom d inside inside) :
    (visit (ctx.limited none) o pos s inside).entries =
      s.entries + 1 + (inside { trace := s.trace.append pos (.visit o) }).entries := by
  have hleave : ∀ cs : Candidates, (cs.orElse (leave s.trace.length)).entries = cs.entries := by
    intro cs
    cases cs with
    | exhausted s' =>
        rw [Candidates.orElse, leave]
        split <;> rfl
    | offer | aborted => rfl
  have hahead : State.Ahead (s.entries + 1) { trace := s.trace.append pos (.visit o) }
      (s.entered o pos) := ⟨rfl, (Nat.zero_add _).symm⟩
  rw [visit_free, hleave, (h _ _ _ hahead).entries, Nat.add_comm]

/-- The entries of a scan are added to those made before, and the answer does not depend on them. -/
theorem scanFrom_ahead (ctx : Context) (root : Node) (starts : List Nat) {s t : State}
    (h : t.entries = s.entries + d) :
    (scanFrom (ctx.limited none) root starts t).entries =
        (scanFrom (ctx.limited none) root starts s).entries + d ∧
      (scanFrom (ctx.limited none) root starts t).result =
        (scanFrom (ctx.limited none) root starts s).result := by
  induction starts generalizing s t with
  | nil => exact ⟨h, rfl⟩
  | cons start rest ih =>
      have hahead := (ahead_congruence ctx d).rootCandidates root start
        { s with trace := Trace.append {} start .start }
        { t with trace := Trace.append {} start .start } ⟨rfl, h⟩
      rw [scanFrom, scanFrom]
      generalize rootCandidates (ctx.limited none) root start _ = cs at hahead
      generalize rootCandidates (ctx.limited none) root start _ = cs' at hahead
      cases hahead with
      | exhausted h' => exact ih h'.entries
      | offer h' => exact ⟨h'.entries, by simp only [Report.found, h'.trace]⟩
      | aborted h' => exact ⟨h'.entries, rfl⟩

/-- Where a start has no candidate, a scan makes the entries of this start and those of a scan of
the later starts. -/
theorem entries_scanFrom_cons (ctx : Context) (root : Node) (start : Nat) (rest : List Nat)
    {s : State} (h : rootCandidates (ctx.limited none) root start
      { trace := Trace.append {} start .start } = .exhausted s) :
    (scanFrom (ctx.limited none) root (start :: rest) {}).entries =
      s.entries + (scanFrom (ctx.limited none) root rest {}).entries := by
  have hrest := scanFrom_ahead ctx root rest (s := {}) (t := s) (Nat.zero_add _).symm
  rw [scanFrom]
  simp only [h]
  rw [hrest.1, Nat.add_comm]

/-- The recorded steps but the first one are among the entries that were made. -/
def State.Covered (s : State) : Prop := s.trace.length ≤ s.entries + 1

theorem leave_covered (checkpoint : Nat) {s : State} (hs : s.Covered) :
    (leave checkpoint s).Holds State.Covered := by
  unfold leave
  split
  · next trace htrace =>
      exact .exhausted (Nat.le_trans (Trace.length_le_of_rollback? htrace) hs)
  · exact .aborted hs

/-- Every step of a trace but its first one is recorded by an entry. -/
theorem covered_congruence (ctx : Context) (limit : Option Nat) :
    Congruence ctx limit limit (fun f _ => ∀ s, s.Covered → (f s).Holds State.Covered)
      fun f _ => ∀ s, s.Covered → (f s).Holds State.Covered := by
  constructor
  case exhausted => exact fun s hs => .exhausted hs
  case noticed => exact fun notice s hs => .exhausted hs
  case fault => exact fun cause s hs => .aborted hs
  case offerOnce => exact fun stop s hs => .offer hs fun s' hs' => .exhausted hs'
  case orElse => exact fun hf hg s hs => (hf s hs).orElse hg
  case andThen => exact fun hf hnext s hs => (hf s hs).andThen hnext
  case inside => exact fun hf => hf
  case probe => exact fun accept hf hfound hmissing s hs => (hf s hs).probe hfound hmissing
  case visit =>
      intro f f' o pos hf s hs
      have hentered : (s.entered o pos).Covered := by
        rw [State.Covered, State.entered, Trace.length_append]
        exact Nat.succ_le_succ hs
      have hleft : ((f (s.entered o pos)).orElse (leave s.trace.length)).Holds State.Covered :=
        (hf _ hentered).orElse fun s' hs' => leave_covered _ hs'
      cases limit with
      | none => exact hleft
      | some n =>
          rcases Nat.lt_or_ge n (s.entries + 1) with hover | hwithin
          · obtain ⟨stopped, hentries, htrace, hvisit⟩ := exists_visit_eq_aborted ctx o pos f hover
            have hstopped : stopped.Covered := by
              rw [State.Covered, hentries, htrace]
              exact Nat.le_succ_of_le hs
            simp only [hvisit]
            exact .aborted hstopped
          · simp only [visit_within ctx o pos f hwithin]
            exact hleft

/-- A trace has no more steps than there were entries, and its two marks. -/
theorem length_trace_le_entries {options : Options} {root : Node} {text : Text}
    {found : Trace Nat Occurrence} (h : trace options root text = .ok found) :
    found.length ≤ (run options root text).entries + 2 := by
  have hscan : ∀ (starts : List Nat) (s : State) (ctx : Context),
      (scanFrom ctx root starts s).result = .ok found →
      found.length ≤ (scanFrom ctx root starts s).entries + 2 := by
    intro starts s ctx hfound
    induction starts generalizing s with
    | nil =>
        cases hfound
        exact Nat.zero_le _
    | cons start rest ih =>
        have hcovered := (covered_congruence ctx ctx.options.maxSteps).rootCandidates root start
          { s with trace := Trace.append {} start .start } (Nat.le_add_left 1 s.entries)
        rw [scanFrom] at hfound ⊢
        change (rootCandidates ctx root start _).Holds _ at hcovered
        generalize rootCandidates ctx root start _ = cs at hcovered hfound
        cases hcovered with
        | exhausted _ => exact ih _ hfound
        | offer hs =>
            cases hfound
            rw [Trace.length_append]
            exact Nat.succ_le_succ hs
        | aborted _ => cases hfound
  unfold trace at h
  unfold run at h ⊢
  split at h
  · cases h
    exact Nat.zero_le _
  · next hroot =>
      rw [if_neg hroot]
      exact hscan _ _ _ h

end Counting

/-! ## Scans under a budget -/

/-- A scan without a budget that is beyond `n` entries stays there. -/
theorem lt_entries_scanFrom (ctx : Context) (root : Node) (starts : List Nat) (s : State)
    (hs : n < s.entries) : n < (scanFrom (ctx.limited none) root starts s).entries := by
  induction starts generalizing s with
  | nil => exact hs
  | cons start rest ih =>
      have hbeyond := ((budgeted_congruence ctx n).rootCandidates root start).beyond
        { s with trace := Trace.append {} start .start } hs
      rw [scanFrom]
      generalize rootCandidates (ctx.limited none) root start _ = cs at hbeyond
      cases hbeyond with
      | exhausted hs' => exact ih _ hs'
      | offer hs' _ => exact hs'
      | aborted hs' => exact hs'

/-- A scan under a budget reports what the scan without one does if that keeps to the budget, and is
stopped otherwise. -/
theorem scanFrom_limited (ctx : Context) (root : Node) (starts : List Nat) (s : State)
    (hs : s.entries ≤ n) :
    if (scanFrom (ctx.limited none) root starts s).entries ≤ n then
      scanFrom (ctx.limited (some n)) root starts s = scanFrom (ctx.limited none) root starts s
    else (scanFrom (ctx.limited (some n)) root starts s).result = .error (.budgetExceeded n) := by
  induction starts generalizing s with
  | nil => exact (if_pos hs).mpr rfl
  | cons start rest ih =>
      have hcut := ((budgeted_congruence ctx n).rootCandidates root start).within
        { s with trace := Trace.append {} start .start } hs
      rw [scanFrom, scanFrom]
      generalize rootCandidates (ctx.limited none) root start _ = cs at hcut
      generalize rootCandidates (ctx.limited (some n)) root start _ = cs' at hcut
      cases hcut with
      | exhausted hs' => exact ih _ hs'
      | offer hs' _ _ => exact (if_pos hs').mpr rfl
      | aborted hs' => exact (if_pos hs').mpr rfl
      | cut hbeyond =>
          cases hbeyond with
          | exhausted hs' =>
              rw [if_neg (Nat.not_le.mpr (lt_entries_scanFrom ctx root rest _ hs'))]
          | offer hs' _ => exact (if_neg (Nat.not_le.mpr hs')).mpr rfl
          | aborted hs' => exact (if_neg (Nat.not_le.mpr hs')).mpr rfl

/-- The run without a budget enters some number of nodes. A run under a budget of at least so many
entries has the same report, be it a trace, no match or a fault, and a run under a smaller budget is
stopped for exceeding it. -/
theorem run_maxSteps (options : Options) (root : Node) (text : Text) (n : Nat) :
    if (run { options with maxSteps := none } root text).entries ≤ n then
      run { options with maxSteps := some n } root text =
        run { options with maxSteps := none } root text
    else
      (run { options with maxSteps := some n } root text).result = .error (.budgetExceeded n) := by
  unfold run
  split
  · exact (if_pos (Nat.zero_le n)).mpr rfl
  · exact scanFrom_limited ⟨Utf16.encode text, options⟩ root _ {} (Nat.zero_le n)

end RegexTrace.Search
