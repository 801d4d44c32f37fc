import RegexTrace.Proofs.Replay

/-!
# The search is backtracking

For each kind of node the stream of candidates replays the ways, and so the trace of a search
without a budget is the trace of the best way: that of the first start that has a way, and the first
way from there.

## Implementation notes

A repetition has a bound on its recursion. The rounds up to the minimum and the units that are left
decrease with every round that counts, so the bound is not reached as long as it is greater than
their sum.
-/

namespace RegexTrace

namespace Trace

variable {ι α : Type}

theorem eq_empty_of_isEmpty {t : Trace ι α} (h : t.isEmpty = true) : t = {} :=
  congrArg mk (Array.isEmpty_iff.mp h)

/-- A trace that goes on from another one can be taken back to it. -/
theorem rollback?_of_prefix {base t : Trace ι α} (h : base.toList <+: t.toList) :
    t.rollback? base.length = some base := by
  have hlength : base.length = base.toList.length := Array.length_toList.symm
  have hle : base.length ≤ t.length := by
    rw [hlength]
    exact Nat.le_trans h.length_le (Nat.le_of_eq Array.length_toList)
  rw [rollback?_of_le t hle]
  refine congrArg some (congrArg mk (Array.toList_inj.mp ?_))
  rw [Array.toList_shrink, hlength]
  exact (List.prefix_iff_eq_take.mp h).symm

end Trace

namespace Search

theorem Bounds.min_le_of_reached {min : Int} {max : Option Int} {bounds : Bounds}
    (h : Bounds.ofInts? min max = some bounds) {count : Nat} (hreached : bounds.reached count) :
    bounds.min ≤ count := by
  unfold Bounds.ofInts? at h
  split at h
  · cases h
  · cases max with
    | none =>
        obtain rfl := Option.some.inj h
        cases hreached
    | some max =>
        simp only at h
        split at h
        · cases h
        · obtain rfl := Option.some.inj h
          have hmax : max.toNat ≤ count := of_decide_eq_true hreached
          simp only
          omega

variable {ctx : Context} {o : Occurrence} {pos : Nat} {s : State}

/-- A node is entered and recorded, or the budget is used up. -/
theorem enter_cases (ctx : Context) (o : Occurrence) (pos : Nat) (s : State) :
    (∃ n s', ctx.options.maxSteps = some n ∧ enter ctx o pos s = .error (.budgetExceeded n, s')) ∨
      ∃ entered, enter ctx o pos s = .ok entered ∧
        entered.trace = s.trace.append pos (.visit o) := by
  unfold enter
  cases hmax : ctx.options.maxSteps with
  | none => exact Or.inr ⟨_, rfl, rfl⟩
  | some n =>
      simp only
      split
      · exact Or.inl ⟨n, _, rfl, rfl⟩
      · exact Or.inr ⟨_, rfl, rfl⟩

/-- Leaving a node takes everything back that was recorded since it was entered. -/
theorem leave_restores {limit : Option Nat} {base : Trace Nat Occurrence}
    (h : base.toList <+: s.trace.toList) :
    Restores limit base.toList .none (leave base.length s) := by
  unfold leave
  rw [Trace.rollback?_of_prefix h]
  exact .exhausted rfl

/-- A visit replays the ways of the inside after the entry of the node. -/
theorem visit_restores {ws : Ways} {inside : State → Candidates}
    (hinside : ∀ entered : State, entered.trace = s.trace.append pos (.visit o) →
      Replays ctx.options.maxSteps entered.trace.toList (entered.trace.toList <+: ·) ws
        (inside entered)) :
    Restores ctx.options.maxSteps s.trace.toList (ws.after [⟨pos, .visit o⟩])
      (visit ctx o pos s inside) := by
  unfold visit
  rcases enter_cases ctx o pos s with ⟨n, s', hmax, henter⟩ | ⟨entered, henter, htrace⟩
  · rw [henter]
    exact .cut hmax
  · rw [henter]
    have hsteps : entered.trace.toList = s.trace.toList ++ [⟨pos, .visit o⟩] := by
      rw [htrace, Trace.toList_append]
    have h := hinside entered htrace
    rw [hsteps] at h
    rw [← Ways.append_none (ws.after _)]
    exact h.after.append fun s' hs' => leave_restores ((List.prefix_append _ _).trans hs')

theorem visit_restores_of_restores {ws : Ways} {inside : State → Candidates}
    (hinside : ∀ entered : State,
      Restores ctx.options.maxSteps entered.trace.toList ws (inside entered)) :
    Restores ctx.options.maxSteps s.trace.toList (ws.after [⟨pos, .visit o⟩])
      (visit ctx o pos s inside) :=
  visit_restores fun entered _ => (hinside entered).weaken fun _ ht => ht ▸ List.prefix_rfl

theorem leafInside_restores (node : Node) :
    Restores ctx.options.maxSteps s.trace.toList (leafWays ctx node pos)
      (leafInside ctx node pos s) := by
  unfold leafWays leafInside
  cases Utf16.codePointAt? ctx.units pos with
  | none => exact .exhausted rfl
  | some c =>
      simp only
      cases Leaf.accepts ctx.options.rules node c with
      | ok accepted => exact offerIf_restores _ _ _ s
      | error cause => exact .fault cause s

section Rounds

variable {limit : Option Nat} {bounds : Bounds} {size : Nat} {body : Nat → Ways}
  {round : Nat → State → Candidates}

theorem again_restores {few : Bool} {count here : Nat} {next : Nat → State → Candidates}
    (hbody : Restores limit s.trace.toList (body here) (round here s))
    (hwithin : (body here).Within here size)
    (hnext : ∀ stop s', here ≤ stop → stop ≤ size → ¬(bounds.min ≤ count ∧ stop = here) →
      Restores limit s'.trace.toList (rounds few bounds size body (count + 1) stop)
        (next stop s')) :
    Restores limit s.trace.toList
      ((body here).andThen fun stop =>
        if bounds.min ≤ count ∧ stop = here then .none
        else rounds few bounds size body (count + 1) stop)
      ((round here s).andThen fun stop s' =>
        if bounds.min ≤ count ∧ stop = here then .exhausted s' else next stop s') := by
  refine hbody.andThen fun way hway s' _ => ?_
  obtain ⟨hfrom, hto⟩ := hwithin way hway
  by_cases hdrop : bounds.min ≤ count ∧ way.stop = here
  · rw [if_pos hdrop, if_pos hdrop]
    exact .exhausted rfl
  · rw [if_neg hdrop, if_neg hdrop]
    exact hnext way.stop s' hfrom hto hdrop

variable
  (hbody : ∀ pos ≤ size, ∀ s : State, Restores limit s.trace.toList (body pos) (round pos s))
  (hwithin : ∀ pos ≤ size, (body pos).Within pos size)
include hbody hwithin

/-- A repetition with many rounds first replays its rounds. -/
theorem repeatMany_restores (hmin : ∀ count, bounds.reached count → bounds.min ≤ count)
    (fuel : Nat) (earlier : List Nat) (here : Nat) (s : State) (hhere : here ≤ size)
    (hfuel : (bounds.min - earlier.length) + (size - here) < fuel) :
    Restores limit s.trace.toList (rounds false bounds size body earlier.length here)
      (repeatMany bounds round fuel earlier here s) := by
  induction fuel generalizing earlier here s with
  | zero => exact absurd hfuel (Nat.not_lt_zero _)
  | succ fuel ih =>
      rw [repeatMany, rounds_eq (hwithin here hhere), Ways.ordered, if_neg Bool.false_ne_true]
      by_cases hreached : bounds.reached earlier.length = true
      · rw [if_pos hreached, if_pos hreached, decide_eq_true (hmin _ hreached)]
        exact offerOnce_restores limit here s
      · rw [if_neg hreached, if_neg hreached]
        refine (again_restores (hbody here hhere s) (hwithin here hhere) ?_).append ?_
        · intro stop s' hfrom hto hon
          exact ih (here :: earlier) stop s' hto (by simp only [List.length_cons]; omega)
        · intro s' hs'
          rw [← hs']
          exact offerIf_restores limit _ here s'

theorem repeatFew_restores (fuel : Nat) (earlier : List Nat) (here : Nat) (s : State)
    (hhere : here ≤ size) (hfuel : (bounds.min - earlier.length) + (size - here) < fuel) :
    Restores limit s.trace.toList (rounds true bounds size body earlier.length here)
      (repeatFew bounds round fuel earlier here s) := by
  induction fuel generalizing earlier here s with
  | zero => exact absurd hfuel (Nat.not_lt_zero _)
  | succ fuel ih =>
      rw [repeatFew, rounds_eq (hwithin here hhere), Ways.ordered, if_pos rfl]
      refine (offerIf_restores limit _ here s).append fun s' hs' => ?_
      rw [← hs']
      by_cases hreached : bounds.reached earlier.length = true
      · rw [if_pos hreached, if_pos hreached]
        exact .exhausted rfl
      · rw [if_neg hreached, if_neg hreached]
        refine again_restores (hbody here hhere s') (hwithin here hhere) ?_
        intro stop s'' hfrom hto hon
        exact ih (here :: earlier) stop s'' hto (by simp only [List.length_cons]; omega)

end Rounds

/-- A repetition replays its rounds in the order that is asked for. -/
theorem repeat_restores {min : Int} {max : Option Int} {bounds : Bounds}
    (hbounds : Bounds.ofInts? min max = some bounds) {body : Nat → Ways}
    {round : Nat → State → Candidates}
    (hbody : ∀ pos ≤ ctx.units.size, ∀ s : State,
      Restores ctx.options.maxSteps s.trace.toList (body pos) (round pos s))
    (hwithin : ∀ pos ≤ ctx.units.size, (body pos).Within pos ctx.units.size) (few : Bool)
    (hpos : pos ≤ ctx.units.size) (s : State) :
    Restores ctx.options.maxSteps s.trace.toList (rounds few bounds ctx.units.size body 0 pos)
      ((if few then repeatFew else repeatMany) bounds round (roundLimit ctx bounds pos) [] pos
        s) := by
  have hfuel : (bounds.min - 0) + (ctx.units.size - pos) < roundLimit ctx bounds pos := by
    unfold roundLimit
    omega
  cases few with
  | true => exact repeatFew_restores hbody hwithin _ [] pos s hpos hfuel
  | false =>
      exact repeatMany_restores hbody hwithin (fun _ => Bounds.min_le_of_reached hbounds) _ [] pos s
        hpos hfuel

/-- A group replays what it does with its body. -/
theorem group_restores {body : List Node} {address : Address} {node : Node}
    (hbody : ∀ pos ≤ ctx.units.size, ∀ s : State,
      Restores ctx.options.maxSteps s.trace.toList (sequenceWays ctx address 0 body pos)
        (sequence ctx address 0 body pos s))
    (behaviour : Behaviour) (hpos : pos ≤ ctx.units.size) (s : State) :
    Restores ctx.options.maxSteps s.trace.toList
      ((groupWays ctx.options.lookaround behaviour (sequenceWays ctx address 0 body) pos).after
        [entry address node pos])
      (visit ctx ⟨address, node⟩ pos s
        (match behaviour, ctx.options.lookaround with
          | .look behind negative, .assert =>
            assertInside behind negative (sequence ctx address 0 body) pos
          | _, _ => sequence ctx address 0 body pos)) := by
  refine visit_restores fun entered _ => ?_
  have hplain : Replays ctx.options.maxSteps entered.trace.toList (entered.trace.toList <+: ·)
      (sequenceWays ctx address 0 body pos) (sequence ctx address 0 body pos entered) :=
    (hbody pos hpos entered).weaken fun _ ht => ht ▸ List.prefix_rfl
  unfold groupWays
  generalize ctx.options.lookaround = mode
  cases mode with
  | consume => cases behaviour <;> exact hplain
  | assert =>
      cases behaviour with
      | look behind negative =>
          exact assertInside_replays
            (fun start hstart => hbody start (Nat.le_trans hstart hpos)) entered
      | _ => exact hplain

mutual

/-- The stream of a node replays the ways of the node. -/
theorem candidates_restores (closed : Utf16.Closed ctx.units) (address : Address) :
    ∀ (node : Node) (pos : Nat) (s : State), pos ≤ ctx.units.size →
      Restores ctx.options.maxSteps s.trace.toList (ways ctx address node pos)
        (candidates ctx address node pos s)
  | .anchor kind, pos, s, hpos => by
      rw [ways, candidates]
      exact visit_restores_of_restores fun entered => offerIf_restores _ _ pos entered
  | .value c, pos, s, hpos => by
      rw [ways, candidates]
      exact visit_restores_of_restores fun entered => leafInside_restores _
  | .dot, pos, s, hpos => by
      rw [ways, candidates]
      exact visit_restores_of_restores fun entered => leafInside_restores _
  | .escape kind, pos, s, hpos => by
      rw [ways, candidates]
      exact visit_restores_of_restores fun entered => leafInside_restores _
  | .charClass negative items, pos, s, hpos => by
      rw [ways, candidates]
      exact visit_restores_of_restores fun entered => leafInside_restores _
  | .unsupported kind raw, pos, s, hpos => by
      rw [ways, candidates]
      have hinside : ∀ entered : State,
          Restores ctx.options.maxSteps entered.trace.toList .none (.exhausted entered) :=
        fun entered => .exhausted rfl
      exact visit_restores_of_restores hinside
  | .alternative body, pos, s, hpos => by
      rw [ways, candidates]
      exact visit_restores_of_restores fun entered =>
        sequence_restores closed address 0 body pos entered hpos
  | .disjunction branches, pos, s, hpos => by
      rw [ways, candidates]
      exact visit_restores_of_restores fun entered =>
        choice_restores closed address 0 branches pos entered hpos
  | .group behaviour body name number, pos, s, hpos => by
      rw [ways]
      unfold candidates
      exact group_restores
        (fun start hstart s => sequence_restores closed address 0 body start s hstart) behaviour
        hpos s
  | .quantifier min max greedy body shorthand, pos, s, hpos => by
      rw [ways, candidates]
      cases hbounds : Bounds.ofInts? min max with
      | none => exact .exhausted rfl
      | some bounds =>
          exact visit_restores_of_restores fun entered =>
            repeat_restores hbounds
              (fun start hstart s => candidates_restores closed _ body start s hstart)
              (fun start hstart => ways_within closed _ body start hstart) _ hpos entered
  | .range min max, pos, s, hpos => by
      rw [ways, candidates]
      exact .fault _ s
  | .alien, pos, s, hpos => by
      rw [ways, candidates]
      exact .fault _ s
  | .absent, pos, s, hpos => by
      rw [ways, candidates]
      exact .fault _ s

theorem sequence_restores (closed : Utf16.Closed ctx.units) (address : Address) (index : Nat) :
    ∀ (body : List Node) (pos : Nat) (s : State), pos ≤ ctx.units.size →
      Restores ctx.options.maxSteps s.trace.toList (sequenceWays ctx address index body pos)
        (sequence ctx address index body pos s)
  | [], pos, s, hpos => by
      rw [sequenceWays, sequence]
      exact offerOnce_restores _ pos s
  | node :: rest, pos, s, hpos => by
      rw [sequenceWays, sequence]
      refine (candidates_restores closed _ node pos s hpos).andThen fun way hway s' _ => ?_
      have hstop := (ways_within closed _ node pos hpos way hway).2
      exact sequence_restores closed address (index + 1) rest way.stop s' hstop

theorem choice_restores (closed : Utf16.Closed ctx.units) (address : Address) (index : Nat) :
    ∀ (branches : List Node) (pos : Nat) (s : State), pos ≤ ctx.units.size →
      Restores ctx.options.maxSteps s.trace.toList (choiceWays ctx address index branches pos)
        (choice ctx address index branches pos s)
  | [], pos, s, hpos => by
      rw [choiceWays, choice]
      exact .exhausted rfl
  | node :: rest, pos, s, hpos => by
      rw [choiceWays, choice]
      refine (candidates_restores closed _ node pos s hpos).append fun s' hs' => ?_
      rw [← hs']
      exact choice_restores closed address (index + 1) rest pos s' hpos

end

theorem rootCandidates_restores (closed : Utf16.Closed ctx.units) (root : Node) (start : Nat)
    (s : State) (hstart : start ≤ ctx.units.size) :
    Restores ctx.options.maxSteps s.trace.toList (rootWays ctx root start)
      (rootCandidates ctx root start s) := by
  cases root with
  | alternative body => exact sequence_restores closed [] 0 body start s hstart
  | disjunction branches => exact choice_restores closed [] 0 branches start s hstart
  | _ => exact candidates_restores closed [] _ start s hstart

/-- A scan reports the trace of the best way, unless it is cut. -/
theorem scanFrom_result (closed : Utf16.Closed ctx.units) (root : Node) (starts : List Nat)
    (hstarts : ∀ start ∈ starts, start ≤ ctx.units.size) (s : State) :
    (scanFrom ctx root starts s).result = bestTrace ctx root starts ∨
      ∃ n, ctx.options.maxSteps = some n ∧
        (scanFrom ctx root starts s).result = .error (.budgetExceeded n) := by
  induction starts generalizing s with
  | nil => exact Or.inl rfl
  | cons start rest ih =>
      have hrest := ih fun other hother => hstarts other (List.mem_cons_of_mem _ hother)
      have h := rootCandidates_restores closed root start
        { s with trace := Trace.append {} start .start } (hstarts start List.mem_cons_self)
      rw [scanFrom, bestTrace]
      generalize rootWays ctx root start = ws at h
      generalize rootCandidates ctx root start _ = cs at h
      cases h with
      | @exhausted s' _ => exact hrest s'
      | fault cause s' => exact Or.inl rfl
      | cut hlimit => exact Or.inr ⟨_, hlimit, rfl⟩
      | @offer way _ s' _ hsteps _ =>
          refine Or.inl (congrArg Except.ok (trace_eq_of_toList ?_))
          rw [Trace.toList_append, hsteps]
          rfl

/-- The best trace is that of the first way from the first start that has one. It is empty where no
start has a way. -/
theorem bestTrace_cases {root : Node} {starts : List Nat} (hsorted : starts.Pairwise (· < ·))
    {found : Trace Nat Occurrence} (h : bestTrace ctx root starts = .ok found) :
    (found = {} ∧ ∀ start ∈ starts, rootWays ctx root start = .none) ∨
      ∃ start ∈ starts, ∃ way rest, rootWays ctx root start = .more way rest ∧
        found = way.trace start ∧
        ∀ earlier ∈ starts, earlier < start → rootWays ctx root earlier = .none := by
  induction starts with
  | nil => exact Or.inl ⟨(Except.ok.inj h).symm, nofun⟩
  | cons start rest ih =>
      obtain ⟨hbefore, hsorted⟩ := List.pairwise_cons.mp hsorted
      rw [bestTrace] at h
      cases hways : rootWays ctx root start with
      | none =>
          rw [hways] at h
          rcases ih hsorted h with
            ⟨hempty, hnone⟩ | ⟨other, hother, way, later, hway, hfound, hnone⟩
          · exact Or.inl ⟨hempty, List.forall_mem_cons.mpr ⟨hways, hnone⟩⟩
          · refine Or.inr ⟨other, List.mem_cons_of_mem _ hother, way, later, hway, hfound, ?_⟩
            exact List.forall_mem_cons.mpr ⟨fun _ => hways, hnone⟩
      | fault cause =>
          rw [hways] at h
          cases h
      | more way later =>
          rw [hways] at h
          refine Or.inr ⟨start, List.mem_cons_self, way, later, hways, (Except.ok.inj h).symm, ?_⟩
          refine List.forall_mem_cons.mpr ⟨fun hlt => absurd hlt (Nat.lt_irrefl start), ?_⟩
          exact fun earlier hearlier hlt => absurd hlt (Nat.lt_asymm (hbefore earlier hearlier))

/-- The trace of a pattern in a text by backtracking: from the first start, in order, that has a
way, the start mark, the steps of the best way and the end mark; empty without a way. -/
def backtrack (options : Options) (root : Node) (text : Text) :
    Except Failure (Trace Nat Occurrence) :=
  if root.isAbsent then .ok {}
  else
    let units := Utf16.encode text
    bestTrace ⟨units, options⟩ root (List.range (units.size + 1))

/-- Every trace is the trace by backtracking, unless the budget is used up. -/
theorem trace_eq_or_cut (options : Options) (root : Node) (text : Text) :
    trace options root text = backtrack options root text ∨
      ∃ n, options.maxSteps = some n ∧ trace options root text = .error (.budgetExceeded n) := by
  unfold trace run backtrack
  split
  · exact Or.inl rfl
  · have closed : Utf16.Closed (Context.mk (Utf16.encode text) options).units :=
      Utf16.closed_encode text
    exact scanFrom_result closed root _
      (fun start hstart => Nat.le_of_lt_succ (List.mem_range.mp hstart)) {}

/-- Without a budget, a search of any tree in any text has the trace by backtracking. -/
theorem trace_eq_backtrack (options : Options) (root : Node) (text : Text) :
    trace { options with maxSteps := none } root text =
      backtrack { options with maxSteps := none } root text := by
  rcases trace_eq_or_cut { options with maxSteps := none } root text with h | ⟨n, hn, _⟩
  · exact h
  · cases hn

/-- A trace that is not empty is that of the first way from the first start that has one. -/
theorem exists_way_of_trace {options : Options} {root : Node} {text : Text}
    {found : Trace Nat Occurrence} (h : trace options root text = .ok found)
    (hfound : found.isEmpty = false) :
    ∃ start ≤ (Utf16.encode text).size, ∃ way rest,
      rootWays ⟨Utf16.encode text, options⟩ root start = .more way rest ∧
        found = way.trace start ∧
        ∀ earlier < start, rootWays ⟨Utf16.encode text, options⟩ root earlier = .none := by
  have hbacktrack : backtrack options root text = .ok found := by
    rcases trace_eq_or_cut options root text with heq | ⟨n, -, hcut⟩
    · exact heq ▸ h
    · rw [hcut] at h
      cases h
  have hempty : ∀ t : Trace Nat Occurrence, t = {} → t ≠ found := by
    rintro t rfl rfl
    cases hfound
  unfold backtrack at hbacktrack
  split at hbacktrack
  · exact absurd (Except.ok.inj hbacktrack) (hempty _ rfl)
  · rcases bestTrace_cases List.pairwise_lt_range hbacktrack with
      ⟨hnone, -⟩ | ⟨start, hstart, way, rest, hway, htrace, hnone⟩
    · exact absurd rfl (hempty found hnone)
    · have hle := Nat.le_of_lt_succ (List.mem_range.mp hstart)
      refine ⟨start, hle, way, rest, hway, htrace, fun earlier hlt => ?_⟩
      have hrange : earlier < (Utf16.encode text).size + 1 :=
        Nat.lt_succ_of_le (Nat.le_trans (Nat.le_of_lt hlt) hle)
      exact hnone earlier (List.mem_range.mpr hrange) hlt

end Search

end RegexTrace
