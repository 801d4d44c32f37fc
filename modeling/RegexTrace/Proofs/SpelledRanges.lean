import Mathlib.Data.Int.Range
import Mathlib.Data.List.Basic
import RegexTrace.Node.Leaf
import RegexTrace.Proofs.OneWayCases
import RegexTrace.Proofs.Stops

/-!
# Ranges and the values they cover

A range in a class stands for the values that it covers. Where case is regarded, writing these
values in its place changes nothing. Without regard to case a range asks for the cases of the code
point only, while a value is also accepted through its own cases; so the two differ exactly where a
range covers a code point with a case that does not lead back to it.
-/

namespace RegexTrace

namespace Node

/-- A range between two code points in order. -/
def IsProperRange (min max : Int) : Prop := 0 ≤ min ∧ min ≤ max ∧ max < codePointLimit

instance (min max : Int) : Decidable (IsProperRange min max) :=
  inferInstanceAs (Decidable (_ ∧ _ ∧ _))

/-- The values that a range covers, in order. -/
def coveredValues (min max : Int) : List Node := (Int.range min (max + 1)).map .value

/-- An item, or the values in its place if it is a range. -/
def spelledOut : Node → List Node
  | .range min max => if IsProperRange min max then coveredValues min max else [.range min max]
  | item => [item]

/-- A range covers a code point of which `c` is a case that does not lead back. -/
def CoversOneWay (c : CodePoint) : Node → Prop
  | .range min max =>
    IsProperRange min max ∧ ∃ pair ∈ Unicode.oneWayCases, pair.2 = c ∧ min ≤ pair.1 ∧ pair.1 ≤ max
  | _ => False

instance (c : CodePoint) : (item : Node) → Decidable (item.CoversOneWay c)
  | .range _ _ => inferInstanceAs (Decidable (_ ∧ ∃ _ ∈ Unicode.oneWayCases, _))
  | .anchor _ | .value _ | .dot | .escape _ | .charClass _ _ | .unsupported _ _ | .alternative _
  | .disjunction _ | .group _ _ _ _ | .quantifier _ _ _ _ _ | .alien | .absent => .isFalse id

end Node

namespace Leaf

open Node Unicode

variable {ignoreCase : Bool}

/-- Items are asked in order: the later ones only if none of the earlier ones accepts. -/
theorem someItemAccepts_append (n : Int) (items later : List Node) :
    someItemAccepts ignoreCase n (items ++ later) =
      (someItemAccepts ignoreCase n items).bind fun found =>
        if found then .ok true else someItemAccepts ignoreCase n later := by
  induction items with
  | nil => rfl
  | cons item rest ih =>
      rw [List.cons_append, someItemAccepts, someItemAccepts, ih]
      cases itemAccepts ignoreCase item n with
      | error fault => rfl
      | ok accepted => cases accepted <;> rfl

theorem someItemAccepts_singleton (n : Int) (item : Node) :
    someItemAccepts ignoreCase n [item] = itemAccepts ignoreCase item n := by
  rw [someItemAccepts]
  cases itemAccepts ignoreCase item n with
  | error fault => rfl
  | ok accepted => cases accepted <;> rfl

theorem someItemAccepts_values {n : Int} {values : List Int} {answer : Int → Bool}
    (h : ∀ w ∈ values, itemAccepts ignoreCase (.value w) n = .ok (answer w)) :
    someItemAccepts ignoreCase n (values.map .value) = .ok (values.any answer) := by
  induction values with
  | nil => rfl
  | cons w rest ih =>
      obtain ⟨hfirst, hrest⟩ := List.forall_mem_cons.mp h
      rw [List.map_cons, someItemAccepts, hfirst, ih hrest, List.any_cons]
      cases answer w <;> rfl

section Folded

variable {c : CodePoint} (hc : c < codePointLimit)

include hc

theorem variants_natCast : variants c = .ok ((caseVariants c).map Int.ofNat) := by
  rw [variants, character_eq_ok ⟨Int.natCast_nonneg c, by exact_mod_cast hc⟩]
  rfl

/-- Without regard to case a value accepts its cases and what it is a case of. -/
theorem itemAccepts_value {v : CodePoint} (hv : v < codePointLimit) :
    itemAccepts true (.value v) c =
      .ok (decide (v ∈ caseVariants c) || decide (c ∈ caseVariants v)) := by
  have hmem : ∀ a b : CodePoint, ((caseVariants a).map Int.ofNat).contains (b : Int) =
      decide (b ∈ caseVariants a) := by
    intro a b
    rw [Bool.eq_iff_iff, List.contains_iff_mem, decide_eq_true_iff]
    exact List.mem_map_of_injective (fun _ _ => Int.ofNat.inj)
  rw [itemAccepts, if_pos rfl, valueAcceptsFolded, variants_natCast hc, variants_natCast hv]
  simp only [bind, Except.bind, pure, Except.pure, hmem]
  by_cases h : v ∈ caseVariants c <;> simp [h]

theorem itemAccepts_range (min max : Int) :
    itemAccepts true (.range min max) c =
      .ok (decide (∃ v ∈ caseVariants c, min ≤ v ∧ (v : Int) ≤ max)) := by
  rw [itemAccepts, if_pos rfl, variants_natCast hc]
  refine congrArg Except.ok (Bool.eq_iff_iff.mpr ?_)
  simp

/-- Without regard to case the values of a range accept also what they are reached from one way. -/
theorem someItemAccepts_coveredValues_folded {min max : Int} (hproper : IsProperRange min max) :
    someItemAccepts true c (coveredValues min max) =
      .ok (decide (∃ v ∈ caseVariants c, min ≤ v ∧ (v : Int) ≤ max) ||
        decide ((Node.range min max).CoversOneWay c)) := by
  have ⟨hmin, _, hmax⟩ := hproper
  have hanswer : ∀ w ∈ Int.range min (max + 1), itemAccepts true (.value w) c =
      .ok (decide (w.toNat ∈ caseVariants c) || decide (c ∈ caseVariants w.toNat)) := by
    intro w hw
    obtain ⟨hlow, hhigh⟩ := Int.mem_range_iff.mp hw
    have hnat : w = (w.toNat : Int) := (Int.toNat_of_nonneg (by omega)).symm
    have hlimit : w.toNat < codePointLimit := by omega
    conv_lhs => rw [hnat]
    exact itemAccepts_value hc hlimit
  rw [coveredValues, someItemAccepts_values hanswer]
  refine congrArg Except.ok (Bool.eq_iff_iff.mpr ?_)
  simp only [List.any_eq_true, Bool.or_eq_true, decide_eq_true_iff, Int.mem_range_iff]
  constructor
  · rintro ⟨w, ⟨hlow, hhigh⟩, hcase⟩
    have hnat : (w.toNat : Int) = w := Int.toNat_of_nonneg (by omega)
    have hinside : min ≤ (w.toNat : Int) ∧ (w.toNat : Int) ≤ max := by omega
    rcases hcase with hcase | hcase
    · exact Or.inl ⟨w.toNat, hcase, hinside⟩
    · rcases mem_caseVariants_or_oneWayCases hcase with hback | hlisted
      · exact Or.inl ⟨w.toNat, hback, hinside⟩
      · exact Or.inr ⟨hproper, (w.toNat, c), hlisted, rfl, hinside⟩
  · rintro (⟨v, hcase, hlow, hhigh⟩ | ⟨-, ⟨v, d⟩, hlisted, rfl, hlow, hhigh⟩)
    · exact ⟨v, ⟨hlow, by omega⟩, Or.inl hcase⟩
    · exact ⟨v, ⟨hlow, by omega⟩, Or.inr (mem_oneWayCases_iff.mp hlisted).1⟩

end Folded

theorem someItemAccepts_coveredValues_regarding (min max n : Int) :
    someItemAccepts false n (coveredValues min max) = itemAccepts false (.range min max) n := by
  rw [coveredValues, someItemAccepts_values fun w _ => rfl, itemAccepts]
  refine congrArg Except.ok (Bool.eq_iff_iff.mpr ?_)
  simp only [List.any_eq_true, Int.mem_range_iff, Int.lt_add_one_iff, beq_iff_eq, exists_eq_right,
    Bool.and_eq_true, decide_eq_true_eq]

/-- An item spelled out gains exactly the code points that its range covers one way. -/
theorem someItemAccepts_spelledOut {c : CodePoint} (hc : c < codePointLimit) (item : Node) :
    someItemAccepts ignoreCase c item.spelledOut =
      (itemAccepts ignoreCase item c).map (· || ignoreCase && decide (item.CoversOneWay c)) := by
  have hkept : ∀ other : Node, ¬other.CoversOneWay c →
      someItemAccepts ignoreCase c [other] =
        (itemAccepts ignoreCase other c).map
          (· || ignoreCase && decide (other.CoversOneWay c)) := by
    intro other hnone
    rw [someItemAccepts_singleton, decide_eq_false hnone]
    cases itemAccepts ignoreCase other c <;> simp [Except.map]
  cases item with
  | range min max =>
      rw [spelledOut]
      split
      · next hproper =>
          cases ignoreCase with
          | false =>
              rw [someItemAccepts_coveredValues_regarding]
              cases itemAccepts false (.range min max) c <;> simp [Except.map]
          | true =>
              rw [someItemAccepts_coveredValues_folded hc hproper, itemAccepts_range hc,
                Except.map, Bool.true_and]
      · next himproper => exact hkept _ fun hcovers => himproper hcovers.1
  | _ => exact hkept _ id

/-- A class none of whose ranges covers the code point one way is left as it is. -/
theorem someItemAccepts_flatMap_eq {c : CodePoint} (hc : c < codePointLimit) {items : List Node}
    (h : ignoreCase = true → ∀ item ∈ items, ¬item.CoversOneWay c) :
    someItemAccepts ignoreCase c (items.flatMap spelledOut) =
      someItemAccepts ignoreCase c items := by
  induction items with
  | nil => rfl
  | cons item rest ih =>
      have hgain : (ignoreCase && decide (item.CoversOneWay c)) = false := by
        simpa using fun hfolded => h hfolded item List.mem_cons_self
      rw [List.flatMap_cons, someItemAccepts_append, someItemAccepts_spelledOut hc, hgain,
        ih fun hfolded other hother => h hfolded other (List.mem_cons_of_mem item hother),
        someItemAccepts]
      cases itemAccepts ignoreCase item c with
      | error fault => rfl
      | ok accepted => cases accepted <;> rfl

/-- A class that has an answer is given every code point that one of its ranges covers one way. -/
theorem someItemAccepts_flatMap_of_coversOneWay {c : CodePoint} (hc : c < codePointLimit)
    {items : List Node} (h : ∃ item ∈ items, item.CoversOneWay c) {accepted : Bool}
    (hanswer : someItemAccepts true c items = .ok accepted) :
    someItemAccepts true c (items.flatMap spelledOut) = .ok true := by
  induction items with
  | nil => simp at h
  | cons item rest ih =>
      rw [List.flatMap_cons, someItemAccepts_append, someItemAccepts_spelledOut hc]
      rw [someItemAccepts] at hanswer
      cases hitem : itemAccepts true item c with
      | error fault => rw [hitem] at hanswer; cases hanswer
      | ok found =>
          by_cases hcovers : found = true ∨ item.CoversOneWay c
          · have hfound : (found || decide (item.CoversOneWay c)) = true := by simpa using hcovers
            simp [Except.map, Except.bind, hfound]
          · obtain ⟨hrefused, hnone⟩ := not_or.mp hcovers
            obtain rfl := Bool.eq_false_iff.mpr hrefused
            rw [hitem] at hanswer
            have hrest : ∃ other ∈ rest, other.CoversOneWay c := by simpa [hnone] using h
            simpa [Except.map, Except.bind, hnone] using ih hrest hanswer

/-- Writing the covered values in the place of a range changes what a class accepts only without
regard to case, and only for a case of a covered code point that does not lead back to it: such a
code point is always in the class that is spelled out. -/
theorem accepts_spelledOut (rules : Rules) (negative : Bool) (items : List Node) {c : CodePoint}
    (hc : c < codePointLimit) :
    ((rules.ignoreCase = true → ∀ item ∈ items, ¬item.CoversOneWay c) →
      accepts rules (.charClass negative (items.flatMap spelledOut)) c =
        accepts rules (.charClass negative items) c) ∧
    ((rules.ignoreCase = true ∧ ∃ item ∈ items, item.CoversOneWay c) →
      ∀ accepted, accepts rules (.charClass negative items) c = .ok accepted →
        accepts rules (.charClass negative (items.flatMap spelledOut)) c = .ok !negative) := by
  refine ⟨fun hnone => ?_, fun ⟨hfolded, hsome⟩ accepted hanswer => ?_⟩
  · rw [accepts, accepts, someItemAccepts_flatMap_eq hc hnone]
  · rw [accepts, hfolded] at hanswer
    rw [accepts, hfolded]
    cases hfound : someItemAccepts true c items with
    | error fault => rw [hfound] at hanswer; cases hanswer
    | ok found =>
        rw [someItemAccepts_flatMap_of_coversOneWay hc hsome hfound]
        cases negative <;> rfl

/-- Between the signs around the Kelvin sign, `k` is gained one way and `a` stays refused. -/
theorem accepts_kelvin_spelledOut :
    let items := [Node.range 0x2129 0x212B]
    107 < codePointLimit ∧ 97 < codePointLimit ∧
      accepts { ignoreCase := true } (.charClass false (items.flatMap spelledOut)) 107 = .ok true ∧
      accepts { ignoreCase := true } (.charClass false (items.flatMap spelledOut)) 97 =
        .ok false := by
  intro items
  have hk : 107 < codePointLimit := by decide
  have ha : 97 < codePointLimit := by decide
  have hcovers : ∃ item ∈ items, item.CoversOneWay 107 := by decide
  have hnone : ∀ item ∈ items, ¬item.CoversOneWay 97 := by decide
  exact ⟨hk, ha,
    (accepts_spelledOut { ignoreCase := true } false items hk).2 ⟨rfl, hcovers⟩ false rfl,
    (accepts_spelledOut { ignoreCase := true } false items ha).1 fun _ => hnone⟩

/-- The range from the Kelvin sign to itself refuses `k`, the sign alone accepts it. -/
theorem accepts_range_ne_accepts_value :
    [Node.range 0x212A 0x212A].flatMap spelledOut = [.value 0x212A] ∧
      accepts { ignoreCase := true } (.charClass false [.range 0x212A 0x212A]) 107 = .ok false ∧
      accepts { ignoreCase := true } (.charClass false [.value 0x212A]) 107 = .ok true :=
  ⟨rfl, rfl, rfl⟩

end Leaf

end RegexTrace
