import RegexTrace.Proofs.Interchange

/-!
# Repetitions can be unrolled

The rounds that a repetition must have can be written out: as many copies of its body one after the
other, and then a repetition of the rounds that are left to choose. The two forms offer the same
ends in the same order, whether many rounds come first or few, and so a search has the same answer
for both, wherever in a tree the repetition stands.
-/

namespace RegexTrace

namespace Node

/-- The bounds of a repetition are in order and not negative. -/
def ProperBounds (min : Int) (max : Option Int) : Prop :=
  0 ≤ min ∧ ∀ limit, max = some limit → min ≤ limit

/-- A repetition with its least rounds written out: a group that holds nothing but a copy of the
body for each of them and the repetition of the other rounds. -/
def unrolled (min : Int) (max : Option Int) (greedy : Bool) (body : Node) : Node :=
  .group .plain
    (List.replicate min.toNat body ++
      [.quantifier 0 (max.map fun limit => limit - min) greedy body none])
    none none

end Node

namespace Search

section Rounds

variable (few : Bool) (bounds : Bounds) (size : Nat) (body : Nat → Ways)

/-- As long as rounds are missing, one more round is the only way to go on. -/
theorem rounds_missing {count : Nat} (hcount : count < bounds.min)
    (hreached : bounds.reached count = false) (here : Nat) :
    rounds few bounds size body count here =
      (body here).andThen (rounds few bounds size body (count + 1)) := by
  have hstop : Ways.singleIf (bounds.min ≤ count) here = .none :=
    if_neg (by simpa using hcount)
  have hround : ((body here).andThen fun stop =>
      if count < bounds.min ∨ here < stop ∧ stop ≤ size then
        rounds few bounds size body (count + 1) stop else .none) =
      (body here).andThen (rounds few bounds size body (count + 1)) :=
    Ways.andThen_congr fun way _ => if_pos (Or.inl hcount)
  rw [rounds, hstop, if_neg (by simp [hreached]), hround, Ways.ordered]
  split
  · rfl
  · exact Ways.append_none _

theorem Bounds.reached_eq_false_of_lt
    (hordered : ∀ limit, bounds.max = some limit → bounds.min ≤ limit) {count : Nat}
    (hcount : count < bounds.min) : bounds.reached count = false := by
  unfold reached
  cases hmax : bounds.max with
  | none => rfl
  | some limit =>
      have hle := hordered limit hmax
      exact decide_eq_false (by omega)

/-- The bounds of the rounds that are left to choose. -/
def Bounds.chosen : Bounds := ⟨0, bounds.max.map fun limit => limit - bounds.min⟩

theorem Bounds.reached_chosen (hordered : ∀ limit, bounds.max = some limit → bounds.min ≤ limit)
    (count : Nat) : bounds.chosen.reached count = bounds.reached (bounds.min + count) := by
  obtain ⟨min, max⟩ := bounds
  cases max with
  | none => rfl
  | some limit =>
      have hle : min ≤ limit := hordered limit rfl
      simp only [chosen, reached, Option.map_some]
      exact decide_eq_decide.mpr (by omega)

/-- Beyond the least number of rounds there are as many as of the rounds that are left to choose. -/
theorem rounds_beyond (hordered : ∀ limit, bounds.max = some limit → bounds.min ≤ limit)
    (count here : Nat) :
    rounds few bounds size body (bounds.min + count) here =
      rounds few bounds.chosen size body count here := by
  induction count, here using rounds.induct bounds.chosen size with
  | case1 count here ih =>
      rw [rounds, rounds.eq_def few bounds.chosen, Bounds.reached_chosen bounds hordered]
      have hstop : decide (bounds.min ≤ bounds.min + count) = decide (bounds.chosen.min ≤ count) :=
        decide_eq_decide.mpr (iff_of_true (Nat.le_add_right _ _) (Nat.zero_le count))
      have hon (stop : Nat) : (bounds.min + count < bounds.min ∨ here < stop ∧ stop ≤ size) ↔
          (count < bounds.chosen.min ∨ here < stop ∧ stop ≤ size) := by
        simp only [Bounds.chosen]
        omega
      have hround (stop : Nat) :
          (if bounds.min + count < bounds.min ∨ here < stop ∧ stop ≤ size then
            rounds few bounds size body (bounds.min + count + 1) stop else .none) =
          if count < bounds.chosen.min ∨ here < stop ∧ stop ≤ size then
            rounds few bounds.chosen size body (count + 1) stop else .none := by
        by_cases h : count < bounds.chosen.min ∨ here < stop ∧ stop ≤ size
        · rw [if_pos h, if_pos ((hon stop).mpr h)]
          exact ih stop h
        · rw [if_neg h, if_neg (mt (hon stop).mp h)]
      rw [hstop, funext hround]

end Rounds

section Copies

variable {ctx : Context} {bounds : Bounds} {body last : Node}
  (hordered : ∀ limit, bounds.max = some limit → bounds.min ≤ limit)

include hordered

/-- Copies of a body and a repetition of the rounds that are left have the ends of the rounds from
the count of which as many as there are copies are missing. -/
theorem sequenceWays_copies (few : Bool)
    (hlast : ∀ address pos, (ways ctx address last pos).bare =
      rounds few bounds.chosen ctx.units.size (fun start => (ways ctx [] body start).bare) 0 pos)
    (address : Address) (missing index pos : Nat) (hmissing : missing ≤ bounds.min) :
    (sequenceWays ctx address index (List.replicate missing body ++ [last]) pos).bare =
      rounds few bounds ctx.units.size (fun start => (ways ctx [] body start).bare)
        (bounds.min - missing) pos := by
  induction missing generalizing index pos with
  | zero =>
      have hnothing : (fun stop => (sequenceWays ctx address (index + 1) [] stop).bare) =
          Ways.single := by
        funext stop
        rw [sequenceWays]
        rfl
      rw [List.replicate_zero, List.nil_append, sequenceWays, Ways.bare_andThen, hnothing,
        Ways.bare_andThen_single, hlast, ← rounds_beyond few bounds _ _ hordered, Nat.add_zero,
        Nat.sub_zero]
  | succ missing ih =>
      have hcount : bounds.min - (missing + 1) < bounds.min := by omega
      have hreached : bounds.reached (bounds.min - (missing + 1)) = false :=
        bounds.reached_eq_false_of_lt hordered hcount
      have hnext : bounds.min - (missing + 1) + 1 = bounds.min - missing := by omega
      rw [List.replicate_succ, List.cons_append, sequenceWays, Ways.bare_andThen,
        rounds_missing few bounds _ _ hcount hreached, Alike.refl ctx body _ [], hnext]
      exact Ways.andThen_congr fun way _ => ih (index + 1) way.stop (by omega)

end Copies

/-- Proper bounds are bounds of a search, and so are those of the rounds that are left to choose. -/
theorem Bounds.exists_of_proper {min : Int} {max : Option Int} (h : Node.ProperBounds min max) :
    ∃ bounds, Bounds.ofInts? min max = some bounds ∧ bounds.min = min.toNat ∧
      (∀ limit, bounds.max = some limit → bounds.min ≤ limit) ∧
      Bounds.ofInts? 0 (max.map fun limit => limit - min) = some bounds.chosen := by
  obtain ⟨nonnegative, ordered⟩ := h
  have hmin : ¬ min < 0 := by omega
  cases max with
  | none => exact ⟨⟨min.toNat, none⟩, if_neg hmin, rfl, nofun, rfl⟩
  | some max =>
      have hle : min ≤ max := ordered max rfl
      have hmax : ¬ max < min := by omega
      have hleft : ¬ max - min < 0 := by omega
      have hchosen : (max - min).toNat = max.toNat - min.toNat := by omega
      refine ⟨⟨min.toNat, some max.toNat⟩, ?_, rfl, ?_, ?_⟩
      · rw [ofInts?, if_neg hmin]
        exact if_neg hmax
      · intro limit hlimit
        obtain rfl := Option.some.inj hlimit
        simp only
        omega
      · rw [Option.map_some, ofInts?, if_neg (Int.lt_irrefl 0)]
        simp only [if_neg hleft, hchosen, chosen, Option.map_some]
        rfl

/-- A repetition and its unrolled form are alike. -/
theorem alike_unrolled (ctx : Context) {min : Int} {max : Option Int}
    (proper : Node.ProperBounds min max) (greedy : Bool) (body : Node)
    (shorthand : Option Shorthand) :
    Alike ctx (.quantifier min max greedy body shorthand)
      (Node.unrolled min max greedy body) := by
  obtain ⟨bounds, hbounds, hmin, hordered, hchosen⟩ := Bounds.exists_of_proper proper
  have hbody (address : Address) : (fun start => (ways ctx address body start).bare) =
      fun start => (ways ctx [] body start).bare :=
    funext fun start => Alike.refl ctx body address [] start
  intro address address' pos
  rw [Node.unrolled, ways, ways, hbounds]
  simp only [Ways.bare_after, bare_groupWays, bare_rounds]
  have hgroup : groupWays ctx.options.lookaround .plain
      (fun start => (sequenceWays ctx address' 0 (List.replicate min.toNat body ++
        [.quantifier 0 (max.map fun limit => limit - min) greedy body none]) start).bare) pos =
      (sequenceWays ctx address' 0 (List.replicate min.toNat body ++
        [.quantifier 0 (max.map fun limit => limit - min) greedy body none]) pos).bare := rfl
  rw [hgroup, ← hmin, sequenceWays_copies hordered (ctx.options.honorLazy && !greedy)]
  · rw [hbody, Nat.sub_self]
  · intro address pos
    rw [ways, hchosen]
    simp only [Ways.bare_after, bare_rounds]
    rw [hbody]
  · exact Nat.le_refl bounds.min

/-- A repetition with proper bounds can be unrolled wherever it stands in a tree. A search without a
budget has the same answer before and after; and at every position of a text the streams of the two
forms offer the same ends in the same order and fail alike, whether many rounds come first or
few. -/
theorem repetition_unrolls (options : Options) {root : Node} {address : Address} {min : Int}
    {max : Option Int} {greedy : Bool} {body : Node} {shorthand : Option Shorthand}
    (proper : Node.ProperBounds min max)
    (hat : root.at? address = some (.quantifier min max greedy body shorthand)) :
    (∀ text, span? { options with maxSteps := none }
        (root.replaceAt address (.unrolled min max greedy body)) text =
      span? { options with maxSteps := none } root text) ∧
    ∀ text pos here there s s', pos ≤ (Utf16.encode text).size →
      let ctx : Context := ⟨Utf16.encode text, { options with maxSteps := none }⟩
      ∃ ends failure,
        (candidates ctx here (.quantifier min max greedy body shorthand) pos s).Offers ends
          failure ∧
        (candidates ctx there (.unrolled min max greedy body) pos s').Offers ends failure := by
  have halike (ctx : Context) := alike_unrolled ctx proper greedy body shorthand
  constructor
  · intro text
    have habsent : (root.replaceAt address (.unrolled min max greedy body)).isAbsent =
        root.isAbsent := Node.isAbsent_replaceAt hat rfl
    exact (span?_eq_of_alike rfl habsent.symm ((halike _).replaceAt hat)).symm
  · intro text pos here there s s' hpos ctx
    exact exists_offers_of_alike rfl (Utf16.closed_encode text) (halike ctx) hpos here there s s'

/-- A lazy repetition behind which something has to stand: two to three rounds become two copies and
at most one more round. -/
theorem repetition_unrolls_lookbehind :
    let body : Node := .disjunction [.value 'a'.toNat, .alternative []]
    let repetition : Node := .quantifier 2 (some 3) false body none
    let root : Node := .alternative [.group (.look true false) [repetition] none none,
      .value 'c'.toNat]
    let unrolled : Node := .group .plain [body, body, .quantifier 0 (some 1) false body none]
      none none
    let options : Options := { honorLazy := true, lookaround := .assert }
    Node.ProperBounds 2 (some 3) ∧ root.at? [.element 0, .element 0] = some repetition ∧
      root.replaceAt [.element 0, .element 0] unrolled =
        .alternative [.group (.look true false) [unrolled] none none, .value 'c'.toNat] ∧
      (∀ text, span? options (root.replaceAt [.element 0, .element 0] unrolled) text =
        span? options root text) ∧
      ∀ text pos here there s s', pos ≤ (Utf16.encode text).size →
        let ctx : Context := ⟨Utf16.encode text, options⟩
        ∃ ends failure, (candidates ctx here repetition pos s).Offers ends failure ∧
          (candidates ctx there unrolled pos s').Offers ends failure := by
  intro body repetition root unrolled options
  have proper : Node.ProperBounds 2 (some 3) :=
    ⟨by decide, fun limit hlimit => by
      obtain rfl := Option.some.inj hlimit
      decide⟩
  have hat : root.at? [.element 0, .element 0] = some repetition := rfl
  have hreplaced : root.replaceAt [.element 0, .element 0] unrolled =
      .alternative [.group (.look true false) [unrolled] none none, .value 'c'.toNat] := rfl
  have hunrolls := repetition_unrolls options proper hat
  exact ⟨proper, hat, hreplaced, hunrolls⟩

end Search

end RegexTrace
