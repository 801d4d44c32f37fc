import Mathlib.Data.List.TakeWhile
import RegexTrace.Proofs.Ends
import RegexTrace.Proofs.Relation

/-!
# Two rules about empty rounds

A repetition that drops its empty rounds and one that keeps the first of them and ends there have
the same ends, in another order. The order, as far as a search for the first acceptable end can see
it, is the same where no repetition offers an empty round ahead of a longer one.
-/

namespace RegexTrace.Search

/-- Two lists of ends agree when every search for a first answer has the same answer in both. -/
def Agree (l l' : List Nat) : Prop := ∀ g : Nat → Option Nat, l.findSome? g = l'.findSome? g

theorem findSome?_congr {l : List Nat} {g g' : Nat → Option Nat} (h : ∀ j ∈ l, g j = g' j) :
    l.findSome? g = l.findSome? g' := by
  induction l with
  | nil => rfl
  | cons j rest ih =>
      obtain ⟨hj, hrest⟩ := List.forall_mem_cons.mp h
      rw [List.findSome?_cons, List.findSome?_cons, hj, ih hrest]

theorem findSome?_flatMap (l : List Nat) (f : Nat → List Nat) (g : Nat → Option Nat) :
    (l.flatMap f).findSome? g = l.findSome? fun j => (f j).findSome? g := by
  induction l with
  | nil => rfl
  | cons j rest ih =>
      rw [List.flatMap_cons, List.findSome?_append, ih, List.findSome?_cons]
      cases (f j).findSome? g <;> rfl

namespace Agree

variable {l l' m m' : List Nat}

theorem refl (l : List Nat) : Agree l l := fun _ => rfl

theorem append (h : Agree l l') (hm : Agree m m') : Agree (l ++ m) (l' ++ m') := by
  intro g
  rw [List.findSome?_append, List.findSome?_append, h g, hm g]

theorem flatMap {f f' : Nat → List Nat} (h : Agree l l') (hf : ∀ j ∈ l', Agree (f j) (f' j)) :
    Agree (l.flatMap f) (l'.flatMap f') := by
  intro g
  rw [findSome?_flatMap, findSome?_flatMap, h]
  exact findSome?_congr fun j hj => hf j hj g

end Agree

/-- Every end other than `here` is offered before `here` is. -/
def EmptyLast (here : Nat) (l : List Nat) : Prop :=
  ∀ j ∈ l, j ≠ here → j ∈ l.takeWhile (· != here)

/-- Where `here` is offered last, it does not matter whether its answer comes from the list or
after it. -/
theorem findSome?_or_of_emptyLast {here : Nat} {l : List Nat} (hlast : EmptyLast here l)
    {g g' : Nat → Option Nat} (hsame : ∀ j ∈ l, j ≠ here → g j = g' j) {found : Nat}
    (hkeep : g here = some found) (hdrop : g' here = none) :
    (l.findSome? g).or (some found) = (l.findSome? g').or (some found) := by
  have hsplit := List.takeWhile_append_dropWhile (p := (· != here)) (l := l)
  have hbefore : ∀ j ∈ l.takeWhile (· != here), g j = g' j := fun j hj =>
    hsame j ((List.takeWhile_sublist _).mem hj) (by simpa using List.mem_takeWhile_imp hj)
  rw [← hsplit, List.findSome?_append, List.findSome?_append, findSome?_congr hbefore]
  cases hfirst : (l.takeWhile (· != here)).findSome? g' with
  | some j => rfl
  | none =>
      have hnone := List.findSome?_eq_none_iff.mp hfirst
      have hafter : (l.dropWhile (· != here)).findSome? g' = none := by
        refine List.findSome?_eq_none_iff.mpr fun j hj => ?_
        by_cases hhere : j = here
        · exact hhere ▸ hdrop
        · exact hnone j (hlast j ((List.dropWhile_sublist _).mem hj) hhere)
      rw [hafter]
      cases hrest : l.dropWhile (· != here) with
      | nil => rfl
      | cons j rest =>
          have hhead := List.head_dropWhile_not (· != here) (l := l) (by simp [hrest])
          obtain rfl : j = here := by simpa [hrest] using hhead
          simp [hkeep]

theorem Bounds.max_eq_min_of_ofInts? {min : Int} {max : Option Int} {bounds : Bounds}
    (h : Bounds.ofInts? min max = some bounds) (hmax : max = some min) :
    bounds.max = some bounds.min := by
  subst hmax
  unfold Bounds.ofInts? at h
  by_cases hmin : min < 0
  · simp [hmin] at h
  · obtain rfl : ⟨min.toNat, some min.toNat⟩ = bounds := by simpa [hmin] using h
    rfl

/-- A search in two lists in either order asks the one that comes first, and then the other. -/
theorem findSome?_inOrder (firstFirst : Bool) (l l' : List Nat) (g : Nat → Option Nat) :
    (inOrder firstFirst l l').findSome? g =
      if firstFirst then (l.findSome? g).or (l'.findSome? g)
      else (l'.findSome? g).or (l.findSome? g) := by
  cases firstFirst with
  | true => exact List.findSome?_append
  | false => exact List.findSome?_append

section Rounds

variable {few : Bool} {bounds : Bounds} {size : Nat} {body body' : Nat → List Nat}

/-- The answer of a round that leads to `mid`: that of the rounds after it, or of an empty round
that is kept. -/
def onward (keep few : Bool) (bounds : Bounds) (size : Nat) (body : Nat → List Nat)
    (g : Nat → Option Nat) (count here mid : Nat) : Option Nat :=
  if count < bounds.min ∨ here < mid ∧ mid ≤ size then
    (roundEnds keep few bounds size body (count + 1) mid).findSome? g
  else if keep then g here else none

theorem onward_self {count : Nat} (hmin : bounds.min ≤ count) (keep : Bool)
    (g : Nat → Option Nat) (here : Nat) :
    onward keep few bounds size body g count here here = if keep then g here else none :=
  if_neg (by omega)

/-- A search in the rounds of a repetition asks about stopping and about the rounds that follow. -/
theorem findSome?_roundEnds (keep few : Bool) (bounds : Bounds) (size : Nat)
    (body : Nat → List Nat) (g : Nat → Option Nat) (count here : Nat) :
    (roundEnds keep few bounds size body count here).findSome? g =
      let stopping := if bounds.min ≤ count then g here else none
      let going := if bounds.reached count then none
        else (body here).findSome? (onward keep few bounds size body g count here)
      if few then stopping.or going else going.or stopping := by
  have hstop : (if bounds.min ≤ count then [here] else []).findSome? g =
      if bounds.min ≤ count then g here else none := by
    split
    · exact List.findSome?_singleton
    · rfl
  have hon : ∀ mid, (if count < bounds.min ∨ here < mid ∧ mid ≤ size then
        roundEnds keep few bounds size body (count + 1) mid
      else if keep then [here] else []).findSome? g =
      onward keep few bounds size body g count here mid := by
    intro mid
    unfold onward
    split
    · rfl
    · cases keep with
      | true => exact List.findSome?_singleton
      | false => rfl
  have hgo : (if bounds.reached count then []
      else (body here).flatMap fun mid =>
        if count < bounds.min ∨ here < mid ∧ mid ≤ size then
          roundEnds keep few bounds size body (count + 1) mid
        else if keep then [here] else []).findSome? g =
      if bounds.reached count then none
        else (body here).findSome? (onward keep few bounds size body g count here) := by
    split
    · rfl
    · rw [findSome?_flatMap]
      exact findSome?_congr fun mid _ => hon mid
  rw [roundEnds, findSome?_inOrder, hstop, hgo]

/-- Keeping an empty round adds no end: where it may stand, the repetition may stop. -/
theorem mem_roundEnds_iff (hbody : ∀ i j, j ∈ body i ↔ j ∈ body' i) (count here j : Nat) :
    j ∈ roundEnds true few bounds size body count here ↔
      j ∈ roundEnds false few bounds size body' count here := by
  induction count, here using roundEnds.induct bounds size with
  | case1 count here ih =>
      have hon : ∀ mid, (j ∈ if count < bounds.min ∨ here < mid ∧ mid ≤ size then
          roundEnds true few bounds size body (count + 1) mid else [here]) →
          (j ∈ if count < bounds.min ∨ here < mid ∧ mid ≤ size then
            roundEnds false few bounds size body' (count + 1) mid else []) ∨
          bounds.min ≤ count ∧ j = here := by
        intro mid hj
        split at hj
        · next hon =>
            rw [if_pos hon]
            exact Or.inl ((ih mid hon).mp hj)
        · next hoff => exact Or.inr ⟨by omega, List.mem_singleton.mp hj⟩
      rw [roundEnds, roundEnds, mem_inOrder, mem_inOrder]
      constructor
      · rintro (hj | hj)
        · exact Or.inl hj
        · split at hj
          · cases hj
          · next hreached =>
              obtain ⟨mid, hmid, hj⟩ := List.mem_flatMap.mp hj
              rcases hon mid hj with hj | ⟨hmin, rfl⟩
              · rw [if_neg hreached]
                exact Or.inr (List.mem_flatMap.mpr ⟨mid, (hbody here mid).mp hmid, hj⟩)
              · rw [if_pos hmin]
                exact Or.inl (List.mem_singleton.mpr rfl)
      · rintro (hj | hj)
        · exact Or.inl hj
        · split at hj
          · cases hj
          · next hreached =>
              obtain ⟨mid, hmid, hj⟩ := List.mem_flatMap.mp hj
              rw [if_neg hreached]
              refine Or.inr (List.mem_flatMap.mpr ⟨mid, (hbody here mid).mpr hmid, ?_⟩)
              split at hj
              · next hon =>
                  rw [if_pos hon]
                  exact (ih mid hon).mpr hj
              · cases hj

/-- The rounds of a repetition agree under both rules where rounds are tried with few first, where
none is left to choose, or where the body offers its empty round last. -/
theorem roundEnds_agree (hforward : Forward size body')
    (hbody : ∀ i ≤ size, Agree (body i) (body' i))
    (hlast : few = true ∨ bounds.max = some bounds.min ∨ ∀ i ≤ size, EmptyLast i (body' i))
    (count here : Nat) (hhere : here ≤ size) :
    Agree (roundEnds true few bounds size body count here)
      (roundEnds false few bounds size body' count here) := by
  induction count, here using roundEnds.induct bounds size with
  | case1 count here ih =>
      intro g
      have hon : ∀ mid ∈ body' here, count < bounds.min ∨ mid ≠ here →
          onward true few bounds size body g count here mid =
            onward false few bounds size body' g count here mid := by
        intro mid hmid hmoves
        have hmidle := hforward here mid hmid
        have hgoes : count < bounds.min ∨ here < mid ∧ mid ≤ size := by omega
        rw [onward, onward, if_pos hgoes, if_pos hgoes]
        exact ih mid hgoes (by omega) g
      rw [findSome?_roundEnds, findSome?_roundEnds, hbody here hhere]
      simp only
      rcases Nat.lt_or_ge count bounds.min with hmin | hmin
      · rw [findSome?_congr fun mid hmid => hon mid hmid (Or.inl hmin)]
      · cases hg : g here with
        | none =>
            rw [findSome?_congr fun mid hmid => ?_]
            by_cases hmoves : mid = here
            · rw [hmoves, onward_self hmin, onward_self hmin, hg]
              rfl
            · exact hon mid hmid (Or.inr hmoves)
        | some found =>
            rw [if_pos hmin]
            rcases hlast with rfl | hmax | hlast
            · rfl
            · rw [Bounds.reached_eq_true hmax hmin]
              rfl
            · cases few with
              | true => rfl
              | false =>
                  cases bounds.reached count with
                  | true => rfl
                  | false =>
                      refine findSome?_or_of_emptyLast (hlast here hhere) ?_ ?_ ?_
                      · exact fun mid hmid hmoves => hon mid hmid (Or.inr hmoves)
                      · exact (onward_self hmin true g here).trans hg
                      · exact onward_self hmin false g here

end Rounds

mutual

/-- Keeping empty rounds adds no end to a node. -/
theorem mem_ends_iff (text : Text) :
    ∀ (node : Node) (i j : Nat), j ∈ ends true text node i ↔ j ∈ ends false text node i
  | .anchor kind, i, j => by rw [ends, ends]
  | .value c, i, j => by rw [ends, ends]
  | .dot, i, j => by rw [ends, ends]
  | .escape kind, i, j => by rw [ends, ends]
  | .charClass negative items, i, j => by rw [ends, ends]
  | .unsupported kind raw, i, j => by rw [ends, ends]
  | .alternative body, i, j => by
      rw [ends, ends]
      exact mem_sequenceEnds_iff text body i j
  | .disjunction branches, i, j => by
      rw [ends, ends]
      exact mem_choiceEnds_iff text branches i j
  | .group behaviour body name number, i, j => by
      rw [ends, ends]
      exact mem_sequenceEnds_iff text body i j
  | .quantifier min max greedy body shorthand, i, j => by
      rw [ends, ends]
      cases Bounds.ofInts? min max with
      | none => rfl
      | some bounds => exact mem_roundEnds_iff (mem_ends_iff text body) 0 i j
  | .range min max, i, j => by rw [ends, ends]
  | .alien, i, j => by rw [ends, ends]
  | .absent, i, j => by rw [ends, ends]

theorem mem_sequenceEnds_iff (text : Text) :
    ∀ (body : List Node) (i j : Nat),
      j ∈ sequenceEnds true text body i ↔ j ∈ sequenceEnds false text body i
  | [], i, j => by rw [sequenceEnds, sequenceEnds]
  | node :: rest, i, j => by
      rw [sequenceEnds, sequenceEnds, List.mem_flatMap, List.mem_flatMap]
      exact exists_congr fun mid =>
        and_congr (mem_ends_iff text node i mid) (mem_sequenceEnds_iff text rest mid j)

theorem mem_choiceEnds_iff (text : Text) :
    ∀ (branches : List Node) (i j : Nat),
      j ∈ choiceEnds true text branches i ↔ j ∈ choiceEnds false text branches i
  | [], i, j => by rw [choiceEnds, choiceEnds]
  | node :: rest, i, j => by
      rw [choiceEnds, choiceEnds, List.mem_append, List.mem_append]
      exact or_congr (mem_ends_iff text node i j) (mem_choiceEnds_iff text rest i j)

end

mutual

/-- No greedy repetition of a node that has a choice of rounds offers an empty round ahead of a
longer one, wherever in the text it begins. -/
def Settled (text : Text) : Node → Prop
  | .alternative body => SettledAll text body
  | .disjunction branches => SettledAll text branches
  | .group _ body _ _ => SettledAll text body
  | .quantifier min max greedy body _ =>
    Settled text body ∧
      (greedy = true → max ≠ some min → ∀ i ≤ text.length, EmptyLast i (ends false text body i))
  | _ => True

/-- No greedy repetition of several nodes offers an empty round ahead of a longer one. -/
def SettledAll (text : Text) : List Node → Prop
  | [] => True
  | node :: rest => Settled text node ∧ SettledAll text rest

end

mutual

/-- The ends of a settled node agree under both rules about empty rounds. -/
theorem ends_agree (text : Text) :
    ∀ node : Node, Settled text node → ∀ i ≤ text.length,
      Agree (ends true text node i) (ends false text node i)
  | .anchor kind, _, i, _ => by
      rw [ends, ends]
      exact .refl _
  | .value c, _, i, _ => by
      rw [ends, ends]
      exact .refl _
  | .dot, _, i, _ => by
      rw [ends, ends]
      exact .refl _
  | .escape kind, _, i, _ => by
      rw [ends, ends]
      exact .refl _
  | .charClass negative items, _, i, _ => by
      rw [ends, ends]
      exact .refl _
  | .unsupported kind raw, _, i, _ => by
      rw [ends, ends]
      exact .refl _
  | .alternative body, h, i, hi => by
      rw [Settled] at h
      rw [ends, ends]
      exact sequenceEnds_agree text body h i hi
  | .disjunction branches, h, i, hi => by
      rw [Settled] at h
      rw [ends, ends]
      exact choiceEnds_agree text branches h i hi
  | .group behaviour body name number, h, i, hi => by
      rw [Settled] at h
      rw [ends, ends]
      exact sequenceEnds_agree text body h i hi
  | .quantifier min max greedy body shorthand, h, i, hi => by
      rw [Settled] at h
      rw [ends, ends]
      cases hbounds : Bounds.ofInts? min max with
      | none => exact .refl _
      | some bounds =>
          have hforward := ends_forward false text body
          refine roundEnds_agree hforward (ends_agree text body h.1) ?_ 0 i hi
          cases greedy with
          | false => exact Or.inl rfl
          | true =>
              by_cases hmax : max = some min
              · exact Or.inr (Or.inl (Bounds.max_eq_min_of_ofInts? hbounds hmax))
              · exact Or.inr (Or.inr (h.2 rfl hmax))
  | .range min max, _, i, _ => by
      simp only [ends]
      exact .refl _
  | .alien, _, i, _ => by
      simp only [ends]
      exact .refl _
  | .absent, _, i, _ => by
      simp only [ends]
      exact .refl _

theorem sequenceEnds_agree (text : Text) :
    ∀ body : List Node, SettledAll text body → ∀ i ≤ text.length,
      Agree (sequenceEnds true text body i) (sequenceEnds false text body i)
  | [], _, i, _ => by
      rw [sequenceEnds, sequenceEnds]
      exact .refl _
  | node :: rest, h, i, hi => by
      rw [SettledAll] at h
      rw [sequenceEnds, sequenceEnds]
      refine (ends_agree text node h.1 i hi).flatMap fun mid hmid => ?_
      have hmidle := ends_forward false text node i mid hmid
      exact sequenceEnds_agree text rest h.2 mid (by omega)

theorem choiceEnds_agree (text : Text) :
    ∀ branches : List Node, SettledAll text branches → ∀ i ≤ text.length,
      Agree (choiceEnds true text branches i) (choiceEnds false text branches i)
  | [], _, i, _ => by
      rw [choiceEnds, choiceEnds]
      exact .refl _
  | node :: rest, h, i, hi => by
      rw [SettledAll] at h
      rw [choiceEnds, choiceEnds]
      exact (ends_agree text node h.1 i hi).append (choiceEnds_agree text rest h.2 i hi)

end

end RegexTrace.Search
