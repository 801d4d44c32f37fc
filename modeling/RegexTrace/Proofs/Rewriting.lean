import RegexTrace.Host.Branches
import RegexTrace.Host.CharacterSet
import RegexTrace.Proofs.Offers

/-!
# What the host rewrites

Before it matches, the host moves out of branches what all of them begin with, turns branches that
are single characters into a set, puts the bodies of plain groups in their place, and keeps a set of
one literal as that literal. None of this changes what is matched, as long as case is regarded.
-/

namespace RegexTrace.Host

theorem Flags.inside_eq_self (f : Flags) {on off : Flags} (hon : on.any = false)
    (hoff : off.any = false) : f.inside on off = f := by
  cases f
  cases on
  cases off
  simp_all [Flags.any, Flags.inside, Flags.union, Flags.without]

section Groups

variable (text : Array CodePoint) (f : Flags) (i : Nat) (captures : Captures) (k : Continuation)

/-- The body of a plain group without flags is matched as the group. -/
theorem matchItem_of_plainBody? {item : Item} {body : List Item}
    (h : item.plainBody? = some body) :
    matchItem text f item i captures k = matchItems text f body i captures k := by
  unfold Item.plainBody? at h
  split at h
  · next on off inner =>
      split at h
      · cases h
      · next hflags =>
          obtain ⟨hon, hoff⟩ := Bool.or_eq_false_iff.mp (Bool.eq_false_iff.mpr hflags)
          rw [matchItem_plainGroup, Flags.inside_eq_self f hon hoff, Option.some.inj h]
  · cases h

theorem matchItems_plainBody? (item : Item) :
    matchItems text f (item.plainBody?.getD [item]) i captures k =
      matchItem text f item i captures k := by
  cases hbody : item.plainBody? with
  | none => exact matchItems_singleton text f item i captures k
  | some body => exact (matchItem_of_plainBody? text f i captures k hbody).symm

theorem matchItems_completeBranch (items : List Item) :
    matchItems text f (completeBranch items) i captures k =
      matchItems text f items i captures k := by
  induction items generalizing i captures with
  | nil => rfl
  | cons item rest ih =>
      have hsplit : completeBranch (item :: rest) =
          item.plainBody?.getD [item] ++ completeBranch rest := rfl
      rw [hsplit, matchItems_append, matchItems_plainBody?, matchItems_cons]
      exact congrArg _ (funext fun j => funext fun captures => ih j captures)

end Groups

section Factors

variable (text : Array CodePoint) (f : Flags)

theorem matchItem_of_sameLeaf {leaf item : Item} (h : leaf.sameLeaf item = true) (i : Nat)
    (captures : Captures) (k : Continuation) :
    matchItem text f item i captures k = matchItem text f leaf i captures k := by
  cases leaf <;> cases item <;> simp_all [Item.sameLeaf]

/-- A matcher has at most one way, which captures nothing. -/
def OneWay (matcher : Matcher) : Prop :=
  ∃ step : Nat → Captures → Option Nat,
    ∀ i captures k, matcher i captures k = (step i captures).bind fun j => k j captures

theorem oneWay_matchCharacter (property : CodePoint → Bool) :
    OneWay (matchCharacter text property) := by
  refine ⟨fun i _ => (text[i]?).bind fun c => if property c then some (i + 1) else none, ?_⟩
  intro i captures k
  unfold matchCharacter
  dsimp only
  cases text[i]? with
  | none => rfl
  | some c => cases hc : property c <;> simp [hc]

/-- A leaf has at most one way. -/
theorem oneWay_of_sameLeaf {leaf : Item} (h : leaf.sameLeaf leaf = true) :
    OneWay (matchItem text f leaf) := by
  cases leaf with
  | literal negated c => exact oneWay_matchCharacter text fun d => literalAccepts f c d != negated
  | any => exact oneWay_matchCharacter text fun d => f.dotAll || d != Ascii.newline
  | set negated items => exact oneWay_matchCharacter text (setAccepts f negated items)
  | place place =>
      refine ⟨fun i _ => if placeHolds f text i place then some i else none, ?_⟩
      intro i captures k
      rw [matchItem_place]
      dsimp only
      cases placeHolds f text i place <;> rfl
  | reference group widths =>
      refine ⟨fun i captures => (captures.span? group).bind fun span =>
        if repeatsAt f text span.1 i (span.2 - span.1) then some (i + (span.2 - span.1))
        else none, ?_⟩
      intro i captures k
      rw [matchItem_reference]
      dsimp only
      cases captures.span? group with
      | none => rfl
      | some span => cases hc : repeatsAt f text span.1 i (span.2 - span.1) <;> simp [hc]
  | _ => cases h

/-- Branches that begin with a leaf are matched by the leaf and then by what is left of them. -/
theorem matchBranches_of_beginsWith {leaf : Item} (hleaf : leaf.sameLeaf leaf = true)
    {branches : List (List Item)} (h : ∀ branch ∈ branches, beginsWith leaf branch = true)
    (i : Nat) (captures : Captures) (k : Continuation) :
    matchBranches text f branches i captures k =
      matchItem text f leaf i captures fun j captures =>
        matchBranches text f (branches.map List.tail) j captures k := by
  obtain ⟨step, hstep⟩ := oneWay_of_sameLeaf text f hleaf
  rw [hstep]
  induction branches with
  | nil => cases step i captures <;> simp
  | cons branch rest ih =>
      obtain ⟨hbranch, hrest⟩ := List.forall_mem_cons.mp h
      cases branch with
      | nil => cases hbranch
      | cons item items =>
          rw [matchBranches_cons, matchItems_cons, matchItem_of_sameLeaf text f hbranch, hstep,
            ih hrest]
          cases step i captures with
          | none => rfl
          | some j =>
              rw [Option.bind_some, Option.bind_some, Option.bind_some, List.map_cons,
                List.tail_cons, matchBranches_cons]

/-- What branches begin with is matched first, and then what is left of them. -/
theorem matchBranches_factor (first : List Item) (others : List (List Item)) (i : Nat)
    (captures : Captures) (k : Continuation) :
    matchBranches text f (first :: others) i captures k =
      matchItems text f (factor first others).1 i captures fun j captures =>
        matchBranches text f (factor first others).2 j captures k := by
  induction first generalizing others i captures with
  | nil => rw [factor, matchItems_nil]
  | cons leaf rest ih =>
      rw [factor]
      split
      · next hcommon =>
          obtain ⟨hleaf, hothers⟩ := Bool.and_eq_true_iff.mp hcommon
          have hall : ∀ branch ∈ (leaf :: rest) :: others, beginsWith leaf branch = true :=
            List.forall_mem_cons.mpr ⟨hleaf, List.all_eq_true.mp hothers⟩
          rw [matchBranches_of_beginsWith text f hleaf hall, matchItems_cons]
          exact congrArg _ (funext fun j => funext fun captures => ih _ j captures)
      · rw [matchItems_nil]

end Factors

section Sets

variable (text : Array CodePoint)

theorem setAccepts_eq (negated : Bool) (items : List SetItem) :
    setAccepts {} negated items = fun c => items.any (setItemAccepts {} c) != negated :=
  funext fun _ => rfl

/-- A character that has one of two properties is matched as by a choice between them. -/
theorem matchCharacter_or (property other : CodePoint → Bool) (i : Nat) (captures : Captures)
    (k : Continuation) :
    matchCharacter text (fun c => property c || other c) i captures k =
      (matchCharacter text property i captures k).or (matchCharacter text other i captures k) := by
  unfold matchCharacter
  cases text[i]? with
  | none => rfl
  | some c =>
      by_cases hproperty : property c = true <;> by_cases hother : other c = true <;>
        simp [hproperty, hother]

/-- A branch that a set could replace is matched as the set. -/
theorem matchItems_of_setItems? {branch : List Item} {items : List SetItem}
    (h : setItems? branch = some items) (i : Nat) (captures : Captures) (k : Continuation) :
    matchItems text {} branch i captures k =
      matchCharacter text (fun c => items.any (setItemAccepts {} c)) i captures k := by
  unfold setItems? at h
  split at h
  · next c =>
      obtain rfl := Option.some.inj h
      rw [matchItems_singleton, matchItem_literal]
      simp [literalAccepts, setItemAccepts]
  · next inner =>
      obtain rfl := Option.some.inj h
      rw [matchItems_singleton, matchItem_set, setAccepts_eq]
      simp
  · cases h

/-- Branches that sets could replace are matched as one set. -/
theorem matchBranches_of_mapM {branches : List (List Item)} {sets : List (List SetItem)}
    (h : branches.mapM setItems? = some sets) (i : Nat) (captures : Captures) (k : Continuation) :
    matchBranches text {} branches i captures k =
      matchCharacter text (fun c => sets.flatten.any (setItemAccepts {} c)) i captures k := by
  induction branches generalizing sets with
  | nil =>
      obtain rfl : sets = [] := by simpa using h.symm
      unfold matchCharacter
      cases text[i]? <;> simp
  | cons branch rest ih =>
      rw [List.mapM_cons] at h
      obtain ⟨items, hitems, h⟩ := Option.bind_eq_some_iff.mp h
      obtain ⟨more, hmore, h⟩ := Option.bind_eq_some_iff.mp h
      obtain rfl : items :: more = sets := Option.some.inj h
      rw [matchBranches_cons, matchItems_of_setItems? text hitems, ih hmore, ← matchCharacter_or]
      simp

theorem any_eraseDups (items : List SetItem) (property : SetItem → Bool) :
    items.eraseDups.any property = items.any property := by
  rw [Bool.eq_iff_iff]
  simp [List.mem_eraseDups]

/-- A choice between branches is matched as the branches. -/
theorem matchItem_chooseFrom (branches : List (List Item)) (i : Nat) (captures : Captures)
    (k : Continuation) :
    matchItem text {} (chooseFrom branches) i captures k =
      matchBranches text {} branches i captures k := by
  unfold chooseFrom
  split
  · next sets hsets =>
      rw [matchBranches_of_mapM text hsets, matchItem_set, setAccepts_eq]
      simp only [any_eraseDups, Bool.bne_false]
  · rw [matchItem_branch]

/-- The items for branches are matched as the branches. -/
theorem matchItems_itemsOfBranches {branches : List (List Item)} (h : branches ≠ []) (i : Nat)
    (captures : Captures) (k : Continuation) :
    matchItems text {} (itemsOfBranches branches) i captures k =
      matchBranches text {} branches i captures k := by
  unfold itemsOfBranches
  split
  · exact absurd rfl h
  · rw [matchBranches_cons, matchBranches_nil, Option.or_none]
  · next first others _ =>
      rw [matchBranches_factor, matchItems_append]
      refine congrArg _ (funext fun j => funext fun captures => ?_)
      rw [matchItems_singleton, matchItem_chooseFrom]

/-- A set accepts what one of its items accepts or, if it is negated, what none does. -/
theorem matchItem_itemOfSet (negated : Bool) (items : List SetItem) (i : Nat) (captures : Captures)
    (k : Continuation) :
    matchItem text {} (itemOfSet negated items) i captures k =
      matchCharacter text (fun c => items.any (setItemAccepts {} c) != negated) i captures k := by
  unfold itemOfSet
  split
  · next c hitems =>
      rw [matchItem_literal]
      simp [← any_eraseDups items, hitems, literalAccepts, setItemAccepts]
  · rw [matchItem_set, setAccepts_eq]
    simp only [any_eraseDups]

end Sets

end RegexTrace.Host
