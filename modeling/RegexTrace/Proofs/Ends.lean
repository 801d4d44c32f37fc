import Mathlib.Data.List.Basic
import RegexTrace.Proofs.Boundaries
import RegexTrace.Proofs.Stops

/-!
# Where a tree ends, by indices

The ends of a tree in the order of preference, as indices of the text and without a trace. A round
of a repetition beyond the minimum may be empty; either such a round is dropped, or it is kept and
ends the repetition.

The search drops empty rounds. At the offset of an index its ways end at the offsets of the ends of
the tree.

## Implementation notes

The flag `keep` says which rule about empty rounds holds. Both kinds of ends come from one
definition, so what they have in common is proved once.
-/

namespace RegexTrace.Search

/-- The options under which lazy repetitions are tried with few rounds first. -/
def lazyOptions : Options := { honorLazy := true }

/-- Two lists of ends, the first one put first or last. -/
def inOrder (firstFirst : Bool) (first later : List Nat) : List Nat :=
  if firstFirst then first ++ later else later ++ first

@[simp] theorem mem_inOrder {firstFirst : Bool} {first later : List Nat} {j : Nat} :
    j ∈ inOrder firstFirst first later ↔ j ∈ first ∨ j ∈ later := by
  cases firstFirst with
  | true => exact List.mem_append
  | false => exact List.mem_append.trans or_comm

/-- The ends of a repetition at `here` after `count` rounds. Beyond the minimum a round that stays
at `here` is dropped or, if it is kept, ends the repetition there. -/
def roundEnds (keep few : Bool) (bounds : Bounds) (size : Nat) (body : Nat → List Nat)
    (count here : Nat) : List Nat :=
  inOrder few (if bounds.min ≤ count then [here] else [])
    (if bounds.reached count then []
      else
        (body here).flatMap fun mid =>
          if count < bounds.min ∨ here < mid ∧ mid ≤ size then
            roundEnds keep few bounds size body (count + 1) mid
          else if keep then [here] else [])
termination_by (bounds.min - count, size - here)
decreasing_by
  rw [Prod.lex_def]
  simp only
  omega

/-- A leaf ends after the code point at hand if it accepts that. -/
def leafEnds (text : Text) (node : Node) (i : Nat) : List Nat :=
  match text[i]? with
  | none => []
  | some c =>
    match Leaf.accepts {} node c with
    | .ok accepted => if accepted then [i + 1] else []
    | .error _ => []

/-- The code point before an index. -/
def charBefore? (text : Text) (i : Nat) : Option CodePoint := if i = 0 then none else text[i - 1]?

/-- An anchor holds at an index. -/
def anchorHoldsAt (text : Text) (kind : AnchorKind) (i : Nat) : Bool :=
  match kind with
  | .start => i == 0
  | .finish => i == text.length
  | kind =>
    (Leaf.isWordAt (charBefore? text i) != Leaf.isWordAt text[i]?) == (kind == .boundary)

mutual

/-- The ends of a node at an index. -/
def ends (keep : Bool) (text : Text) : Node → Nat → List Nat
  | .anchor kind, i => if anchorHoldsAt text kind i then [i] else []
  | .value c, i => leafEnds text (.value c) i
  | .dot, i => leafEnds text .dot i
  | .escape kind, i => leafEnds text (.escape kind) i
  | .charClass negative items, i => leafEnds text (.charClass negative items) i
  | .unsupported _ _, _ => []
  | .alternative body, i => sequenceEnds keep text body i
  | .disjunction branches, i => choiceEnds keep text branches i
  | .group _ body _ _, i => sequenceEnds keep text body i
  | .quantifier min max greedy body _, i =>
    match Bounds.ofInts? min max with
    | none => []
    | some bounds => roundEnds keep (!greedy) bounds text.length (ends keep text body) 0 i
  | .range _ _, _ | .alien, _ | .absent, _ => []

/-- The ends of elements one after the other. -/
def sequenceEnds (keep : Bool) (text : Text) : List Node → Nat → List Nat
  | [], i => [i]
  | node :: rest, i => (ends keep text node i).flatMap (sequenceEnds keep text rest)

/-- The ends of branches in order. -/
def choiceEnds (keep : Bool) (text : Text) : List Node → Nat → List Nat
  | [], _ => []
  | node :: rest, i => ends keep text node i ++ choiceEnds keep text rest i

end

/-- Ends lie at or after an index, and beyond the end of the text only at the index itself. -/
def Forward (size : Nat) (body : Nat → List Nat) : Prop :=
  ∀ i, ∀ j ∈ body i, i ≤ j ∧ j ≤ max i size

theorem mem_keptEnds {keep : Bool} {here j : Nat} (h : j ∈ if keep then [here] else []) :
    j = here := by
  cases keep with
  | true => exact List.mem_singleton.mp h
  | false => cases h

section Forward

variable {size : Nat} {body next : Nat → List Nat}

theorem Forward.flatMap (hbody : Forward size body) (hnext : Forward size next) :
    Forward size fun i => (body i).flatMap next := by
  intro i j hj
  obtain ⟨mid, hmid, hj⟩ := List.mem_flatMap.mp hj
  have hfirst := hbody i mid hmid
  have hrest := hnext mid j hj
  omega

/-- The rounds of a repetition move forward if those of its body do. -/
theorem roundEnds_forward {keep few : Bool} {bounds : Bounds} (hbody : Forward size body)
    (count : Nat) : Forward size (roundEnds keep few bounds size body count) := by
  intro here
  induction count, here using roundEnds.induct bounds size with
  | case1 count here ih =>
      intro j hj
      rw [roundEnds, mem_inOrder] at hj
      have hself : j = here → here ≤ j ∧ j ≤ max here size := by
        rintro rfl
        exact ⟨Nat.le_refl j, Nat.le_max_left j size⟩
      rcases hj with hj | hj
      · split at hj
        · exact hself (List.mem_singleton.mp hj)
        · cases hj
      · split at hj
        · cases hj
        · obtain ⟨mid, hmid, hj⟩ := List.mem_flatMap.mp hj
          have hfirst := hbody here mid hmid
          split at hj
          · next hon =>
              have hrest := ih mid hon j hj
              omega
          · exact hself (mem_keptEnds hj)

/-- A leaf moves forward. -/
theorem leafEnds_forward (text : Text) (node : Node) :
    Forward text.length (leafEnds text node) := by
  intro i j hj
  unfold leafEnds at hj
  split at hj
  · cases hj
  · next c hc =>
      have hi := (List.getElem?_eq_some_iff.mp hc).1
      split at hj
      · split at hj
        · obtain rfl := List.mem_singleton.mp hj
          omega
        · cases hj
      · cases hj

mutual

/-- The ends of a node move forward. -/
theorem ends_forward (keep : Bool) (text : Text) :
    ∀ node : Node, Forward text.length (ends keep text node)
  | .anchor kind => by
      intro i j hj
      rw [ends] at hj
      split at hj
      · obtain rfl := List.mem_singleton.mp hj
        exact ⟨Nat.le_refl j, Nat.le_max_left j _⟩
      · cases hj
  | .value c => fun i j hj => leafEnds_forward text (.value c) i j (by rwa [ends] at hj)
  | .dot => fun i j hj => leafEnds_forward text .dot i j (by rwa [ends] at hj)
  | .escape kind => fun i j hj => leafEnds_forward text (.escape kind) i j (by rwa [ends] at hj)
  | .charClass negative items => fun i j hj =>
      leafEnds_forward text (.charClass negative items) i j (by rwa [ends] at hj)
  | .unsupported kind raw => fun i j hj => by simp [ends] at hj
  | .alternative body => fun i j hj => sequenceEnds_forward keep text body i j (by rwa [ends] at hj)
  | .disjunction branches => fun i j hj =>
      choiceEnds_forward keep text branches i j (by rwa [ends] at hj)
  | .group behaviour body name number => fun i j hj =>
      sequenceEnds_forward keep text body i j (by rwa [ends] at hj)
  | .quantifier min max greedy body shorthand => fun i j hj => by
      rw [ends] at hj
      split at hj
      · cases hj
      · exact roundEnds_forward (ends_forward keep text body) 0 i j hj
  | .range min max => fun i j hj => by simp [ends] at hj
  | .alien => fun i j hj => by simp [ends] at hj
  | .absent => fun i j hj => by simp [ends] at hj

theorem sequenceEnds_forward (keep : Bool) (text : Text) :
    ∀ body : List Node, Forward text.length (sequenceEnds keep text body)
  | [] => fun i j hj => by
      rw [sequenceEnds] at hj
      obtain rfl := List.mem_singleton.mp hj
      exact ⟨Nat.le_refl j, Nat.le_max_left j _⟩
  | node :: rest => fun i j hj =>
      (ends_forward keep text node).flatMap (sequenceEnds_forward keep text rest) i j
        (by rwa [sequenceEnds] at hj)

theorem choiceEnds_forward (keep : Bool) (text : Text) :
    ∀ branches : List Node, Forward text.length (choiceEnds keep text branches)
  | [] => fun i j hj => by simp [choiceEnds] at hj
  | node :: rest => fun i j hj => by
      rw [choiceEnds] at hj
      rcases List.mem_append.mp hj with hj | hj
      · exact ends_forward keep text node i j hj
      · exact choiceEnds_forward keep text rest i j hj

end

end Forward

/-- Ways have no fault, and they end at the offsets of some ends. -/
structure Ways.EndsAt (text : Text) (ws : Ways) (stops : List Nat) : Prop where
  faultless : ws.Faultless
  stops_eq : ws.stops = stops.map (Utf16.offset text)

namespace Ways.EndsAt

variable {text : Text} {ws later : Ways} {l l' : List Nat}

theorem none (text : Text) : Ways.none.EndsAt text [] := ⟨trivial, rfl⟩

theorem singleIf (text : Text) (condition : Bool) (i : Nat) :
    (Ways.singleIf condition (Utf16.offset text i)).EndsAt text
      (if condition then [i] else []) := by
  cases condition with
  | true => exact ⟨trivial, rfl⟩
  | false => exact ⟨trivial, rfl⟩

theorem after (h : ws.EndsAt text l) (steps : List (Step Nat Occurrence)) :
    (ws.after steps).EndsAt text l :=
  ⟨faultless_after_iff.mpr h.faultless, (stops_after ws steps).trans h.stops_eq⟩

theorem append (h : ws.EndsAt text l) (hlater : later.EndsAt text l') :
    (ws.append later).EndsAt text (l ++ l') := by
  refine ⟨faultless_append_iff.mpr ⟨h.faultless, hlater.faultless⟩, ?_⟩
  rw [stops_append h.faultless, h.stops_eq, hlater.stops_eq, List.map_append]

theorem ordered (h : ws.EndsAt text l) (hlater : later.EndsAt text l') (firstFirst : Bool) :
    (ws.ordered firstFirst later).EndsAt text (inOrder firstFirst l l') := by
  cases firstFirst with
  | true => exact h.append hlater
  | false => exact hlater.append h

/-- Going on from ends ends at what follows each of them. -/
theorem andThen {next : Nat → Ways} {nextEnds : Nat → List Nat} (h : ws.EndsAt text l)
    (hnext : ∀ i ∈ l, (next (Utf16.offset text i)).EndsAt text (nextEnds i)) :
    (ws.andThen next).EndsAt text (l.flatMap nextEnds) := by
  have hfault : ∀ stop ∈ ws.stops, (next stop).Faultless := by
    intro stop hstop
    rw [h.stops_eq] at hstop
    obtain ⟨i, hi, rfl⟩ := List.mem_map.mp hstop
    exact (hnext i hi).faultless
  refine ⟨faultless_andThen_iff.mpr ⟨h.faultless, hfault⟩, ?_⟩
  rw [stops_andThen h.faultless hfault, h.stops_eq, List.flatMap_map, List.map_flatMap]
  exact List.flatMap_congr fun i hi => (hnext i hi).stops_eq

end Ways.EndsAt

section Offsets

variable {text : Text}

/-- The rounds of a repetition end where the rounds of the ends do, dropping empty ones. -/
theorem rounds_endsAt (few : Bool) (bounds : Bounds) {body : Nat → Ways}
    {bodyEnds : Nat → List Nat} (hforward : Forward text.length bodyEnds)
    (hbody : ∀ i ≤ text.length, (body (Utf16.offset text i)).EndsAt text (bodyEnds i))
    (count i : Nat) (hi : i ≤ text.length) :
    (rounds few bounds (Utf16.encode text).size body count (Utf16.offset text i)).EndsAt text
      (roundEnds false few bounds text.length bodyEnds count i) := by
  induction count, i using roundEnds.induct bounds text.length with
  | case1 count i ih =>
      have hnext : ∀ mid ∈ bodyEnds i,
          (if count < bounds.min ∨ Utf16.offset text i < Utf16.offset text mid ∧
              Utf16.offset text mid ≤ (Utf16.encode text).size then
            rounds few bounds (Utf16.encode text).size body (count + 1) (Utf16.offset text mid)
          else .none).EndsAt text
          (if count < bounds.min ∨ i < mid ∧ mid ≤ text.length then
            roundEnds false few bounds text.length bodyEnds (count + 1) mid
          else []) := by
        intro mid hmid
        have hmidle := hforward i mid hmid
        have hiff : (count < bounds.min ∨ Utf16.offset text i < Utf16.offset text mid ∧
            Utf16.offset text mid ≤ (Utf16.encode text).size) ↔
            (count < bounds.min ∨ i < mid ∧ mid ≤ text.length) := by
          rw [Utf16.size_encode, Utf16.offset_lt_iff, Utf16.offset_le_iff]
        by_cases hon : count < bounds.min ∨ i < mid ∧ mid ≤ text.length
        · rw [if_pos (hiff.mpr hon), if_pos hon]
          exact ih mid hon (by omega)
        · rw [if_neg (mt hiff.mp hon), if_neg hon]
          exact .none text
      rw [rounds, roundEnds]
      refine Ways.EndsAt.ordered ?_ ?_ few
      · simpa using Ways.EndsAt.singleIf text (bounds.min ≤ count) i
      · split
        · exact .none text
        · exact (hbody i hi).andThen hnext

section Units

variable (valid : text.Valid) (unsplit : Utf16.Unsplit text)

include valid unsplit

/-- A leaf at an offset ends as the leaf at the index. -/
theorem leafWays_endsAt {node : Node} {i : Nat} (hi : i ≤ text.length)
    (hfault : (leafWays ⟨Utf16.encode text, lazyOptions⟩ node (Utf16.offset text i)).Faultless) :
    (leafWays ⟨Utf16.encode text, lazyOptions⟩ node (Utf16.offset text i)).EndsAt text
      (leafEnds text node i) := by
  have hread := Utf16.codePointAt?_offset valid unsplit hi
  unfold leafWays at hfault ⊢
  unfold leafEnds
  simp only [hread] at hfault ⊢
  cases hc : text[i]? with
  | none => exact .none text
  | some c =>
      have hrules : lazyOptions.rules = {} := rfl
      simp only [hc, hrules] at hfault ⊢
      cases haccepts : Leaf.accepts {} node c with
      | error cause =>
          rw [haccepts] at hfault
          exact hfault.elim
      | ok accepted =>
          rw [← Utf16.offset_succ hc]
          exact Ways.EndsAt.singleIf text accepted (i + 1)

/-- An anchor holds at an offset as at the index. -/
theorem anchorHolds_offset (kind : AnchorKind) {i : Nat} (hi : i ≤ text.length) :
    anchorHolds ⟨Utf16.encode text, lazyOptions⟩ kind (Utf16.offset text i) =
      anchorHoldsAt text kind i := by
  have hat := Utf16.codePointAt?_offset valid unsplit hi
  have hbefore : Utf16.codePointBefore? (Utf16.encode text) (Utf16.offset text i) =
      charBefore? text i := by
    cases i with
    | zero => rw [Utf16.offset_zero, Utf16.codePointBefore?_zero, charBefore?, if_pos rfl]
    | succ i =>
        have hc : text[i]? = some text[i] := List.getElem?_eq_getElem (Nat.lt_of_succ_le hi)
        rw [Utf16.codePointBefore?_offset valid unsplit hc, charBefore?,
          if_neg (Nat.succ_ne_zero i), Nat.add_sub_cancel, hc]
  have hstart : (Utf16.offset text i == 0) = (i == 0) := by
    have hzero := Utf16.offset_inj (t := text) (i := i) (j := 0)
    rwa [Utf16.offset_zero, ← beq_iff_eq, ← beq_iff_eq (b := 0), ← Bool.eq_iff_iff] at hzero
  have hfinish : (Utf16.offset text i == (Utf16.encode text).size) = (i == text.length) := by
    rw [Bool.eq_iff_iff, beq_iff_eq, beq_iff_eq, Utf16.size_encode, Utf16.offset_inj]
  unfold anchorHolds anchorHoldsAt
  cases kind <;> simp [hat, hbefore, hstart, hfinish, lazyOptions]

end Units

mutual

/-- The ways of a node at an offset end where the ends of the node at the index do. -/
theorem ways_endsAt (valid : text.Valid) (unsplit : Utf16.Unsplit text) (address : Address) :
    ∀ (node : Node), node.Testable false → ∀ i ≤ text.length,
      (ways ⟨Utf16.encode text, lazyOptions⟩ address node (Utf16.offset text i)).EndsAt text
        (ends false text node i)
  | .anchor kind, _, i, hi => by
      rw [ways, ends, anchorHolds_offset valid unsplit kind hi]
      exact (Ways.EndsAt.singleIf text _ i).after _
  | .value c, h, i, hi => by
      have hfault := ways_faultless (Context.readable_encode valid lazyOptions) address (.value c) h
        (Utf16.offset text i)
      rw [ways, Ways.faultless_after_iff] at hfault
      rw [ways, ends]
      exact (leafWays_endsAt valid unsplit hi hfault).after _
  | .dot, h, i, hi => by
      have hfault := ways_faultless (Context.readable_encode valid lazyOptions) address .dot h
        (Utf16.offset text i)
      rw [ways, Ways.faultless_after_iff] at hfault
      rw [ways, ends]
      exact (leafWays_endsAt valid unsplit hi hfault).after _
  | .escape kind, h, i, hi => by
      have hfault := ways_faultless (Context.readable_encode valid lazyOptions) address
        (.escape kind) h (Utf16.offset text i)
      rw [ways, Ways.faultless_after_iff] at hfault
      rw [ways, ends]
      exact (leafWays_endsAt valid unsplit hi hfault).after _
  | .charClass negative items, h, i, hi => by
      have hfault := ways_faultless (Context.readable_encode valid lazyOptions) address
        (.charClass negative items) h (Utf16.offset text i)
      rw [ways, Ways.faultless_after_iff] at hfault
      rw [ways, ends]
      exact (leafWays_endsAt valid unsplit hi hfault).after _
  | .unsupported kind raw, _, i, _ => by
      rw [ways, ends]
      exact .none text
  | .alternative body, h, i, hi => by
      rw [Node.Testable] at h
      rw [ways, ends]
      exact (sequenceWays_endsAt valid unsplit address 0 body h i hi).after _
  | .disjunction branches, h, i, hi => by
      rw [Node.Testable] at h
      rw [ways, ends]
      exact (choiceWays_endsAt valid unsplit address 0 branches h i hi).after _
  | .group behaviour body name number, h, i, hi => by
      rw [Node.Testable] at h
      rw [ways, ends]
      have hbody := sequenceWays_endsAt valid unsplit address 0 body h i hi
      cases behaviour <;> exact hbody.after _
  | .quantifier min max greedy body shorthand, h, i, hi => by
      rw [Node.Testable] at h
      rw [ways, ends]
      cases Bounds.ofInts? min max with
      | none => exact .none text
      | some bounds =>
          have hbody := ways_endsAt valid unsplit (address ++ [.repeated]) body h
          have hforward := ends_forward false text body
          exact (rounds_endsAt (!greedy) bounds hforward hbody 0 i hi).after _
  | .range min max, h, _, _ => by
      rw [Node.Testable] at h
      exact h.elim
  | .alien, h, _, _ => by
      rw [Node.Testable] at h
      exact h.elim
  | .absent, h, _, _ => by
      rw [Node.Testable] at h
      exact h.elim

theorem sequenceWays_endsAt (valid : text.Valid) (unsplit : Utf16.Unsplit text)
    (address : Address) (index : Nat) :
    ∀ (body : List Node), Node.TestableAll false body → ∀ i ≤ text.length,
      (sequenceWays ⟨Utf16.encode text, lazyOptions⟩ address index body
        (Utf16.offset text i)).EndsAt text (sequenceEnds false text body i)
  | [], _, i, _ => by
      rw [sequenceWays, sequenceEnds]
      exact Ways.EndsAt.singleIf text true i
  | node :: rest, h, i, hi => by
      rw [Node.TestableAll] at h
      rw [sequenceWays, sequenceEnds]
      refine (ways_endsAt valid unsplit _ node h.1 i hi).andThen fun mid hmid => ?_
      have hmidle := ends_forward false text node i mid hmid
      exact sequenceWays_endsAt valid unsplit address (index + 1) rest h.2 mid (by omega)

theorem choiceWays_endsAt (valid : text.Valid) (unsplit : Utf16.Unsplit text)
    (address : Address) (index : Nat) :
    ∀ (branches : List Node), Node.TestableAll false branches → ∀ i ≤ text.length,
      (choiceWays ⟨Utf16.encode text, lazyOptions⟩ address index branches
        (Utf16.offset text i)).EndsAt text (choiceEnds false text branches i)
  | [], _, i, _ => by
      rw [choiceWays, choiceEnds]
      exact .none text
  | node :: rest, h, i, hi => by
      rw [Node.TestableAll] at h
      rw [choiceWays, choiceEnds]
      exact (ways_endsAt valid unsplit _ node h.1 i hi).append
        (choiceWays_endsAt valid unsplit address (index + 1) rest h.2 i hi)

end

/-- The ways of a whole pattern at an offset end where the ends of its tree at the index do. -/
theorem rootWays_endsAt (valid : text.Valid) (unsplit : Utf16.Unsplit text) {root : Node}
    (h : root.Testable false) {i : Nat} (hi : i ≤ text.length) :
    (rootWays ⟨Utf16.encode text, lazyOptions⟩ root (Utf16.offset text i)).EndsAt text
      (ends false text root i) := by
  cases root with
  | alternative body =>
      rw [Node.Testable] at h
      rw [ends]
      exact sequenceWays_endsAt valid unsplit [] 0 body h i hi
  | disjunction branches =>
      rw [Node.Testable] at h
      rw [ends]
      exact choiceWays_endsAt valid unsplit [] 0 branches h i hi
  | _ => exact ways_endsAt valid unsplit [] _ h i hi

end Offsets

end RegexTrace.Search
