import RegexTrace.Host.Matching
import RegexTrace.Proofs.Agreement

/-!
# What the host's matcher offers

The host tries the ways of an item in order and goes on with the rest of the program. Where only the
end of a match is looked at, that is a search among the ends of the item: the matcher offers them to
what is done afterwards. The host keeps an empty round of a repetition and ends there.

## Implementation notes

What is done afterwards may be asked only at positions from where the item began up to the end of
the text, so a statement about the rest has to be known there only. That is what makes the induction
on the rounds of a repetition go through: the fuel that is left suffices from there on.
-/

namespace RegexTrace.Host

open Search

/-- A matcher of a part of a program, which goes on with a continuation. -/
abbrev Matcher := Nat → Captures → Continuation → Option Finish

/-- From a position on, a continuation finds the ends that `g` tells. -/
def Answers (text : Text) (i : Nat) (k : Continuation) (g : Nat → Option Nat) : Prop :=
  ∀ j, i ≤ j → j ≤ text.length → ∀ captures, (k j captures).map Prod.fst = g j

/-- A matcher finds what a search among some ends finds. -/
def Offers (text : Text) (matcher : Matcher) (ends : Nat → List Nat) : Prop :=
  ∀ i ≤ text.length, ∀ captures k g, Answers text i k g →
    (matcher i captures k).map Prod.fst = (ends i).findSome? g

theorem Answers.mono {text : Text} {i j : Nat} {k : Continuation} {g : Nat → Option Nat}
    (h : Answers text i k g) (hij : i ≤ j) : Answers text j k g :=
  fun mid hmid hend => h mid (Nat.le_trans hij hmid) hend

section Equations

variable (text : Array CodePoint) (f : Flags) (i : Nat) (captures : Captures) (k : Continuation)

@[simp] theorem matchItem_literal (negated : Bool) (c : CodePoint) :
    matchItem text f (.literal negated c) i captures k =
      matchCharacter text (fun d => literalAccepts f c d != negated) i captures k := rfl

@[simp] theorem matchItem_any :
    matchItem text f .any i captures k =
      matchCharacter text (fun d => f.dotAll || d != Ascii.newline) i captures k := rfl

@[simp] theorem matchItem_set (negated : Bool) (items : List SetItem) :
    matchItem text f (.set negated items) i captures k =
      matchCharacter text (setAccepts f negated items) i captures k := rfl

@[simp] theorem matchItem_place (place : Place) :
    matchItem text f (.place place) i captures k =
      if placeHolds f text i place then k i captures else none := rfl

/-- A reference finds the captured text again. -/
@[simp] theorem matchItem_reference (group : Nat) (widths : Widths) :
    matchItem text f (.reference group widths) i captures k =
      (captures.span? group).bind fun span =>
        if repeatsAt f text span.1 i (span.2 - span.1) then k (i + (span.2 - span.1)) captures
        else none := by
  cases hspan : captures.span? group <;> simp only [matchItem, hspan] <;> rfl

@[simp] theorem matchItem_plainGroup (on off : Flags) (body : List Item) :
    matchItem text f (.group none on off body) i captures k =
      matchItems text (f.inside on off) body i captures k := rfl

@[simp] theorem matchItem_captureGroup (number : Nat) (on off : Flags) (body : List Item) :
    matchItem text f (.group (some number) on off body) i captures k =
      matchItems text (f.inside on off) body i (captures.openAt number i) fun j captures =>
        k j (captures.closeAt number j) := rfl

@[simp] theorem matchItem_branch (branches : List (List Item)) :
    matchItem text f (.branch branches) i captures k =
      matchBranches text f branches i captures k := rfl

@[simp] theorem matchItems_nil : matchItems text f [] i captures k = k i captures := rfl

@[simp] theorem matchItems_cons (item : Item) (rest : List Item) :
    matchItems text f (item :: rest) i captures k =
      matchItem text f item i captures fun j captures => matchItems text f rest j captures k := rfl

@[simp] theorem matchBranches_nil : matchBranches text f [] i captures k = none := rfl

@[simp] theorem matchBranches_cons (body : List Item) (rest : List (List Item)) :
    matchBranches text f (body :: rest) i captures k =
      (matchItems text f body i captures k).or (matchBranches text f rest i captures k) := by
  rw [matchBranches]
  cases matchItems text f body i captures k <;> rfl

end Equations

namespace Offers

variable {text : Text} {m m' : Matcher} {e e' : Nat → List Nat}

theorem congr (h : Offers text m e) (hm : ∀ i captures k, m' i captures k = m i captures k) :
    Offers text m' e := by
  intro i hi captures k g hk
  rw [hm]
  exact h i hi captures k g hk

theorem self (text : Text) : Offers text (fun i captures k => k i captures) fun i => [i] := by
  intro i hi captures k g hk
  rw [hk i (Nat.le_refl i) hi captures]
  exact List.findSome?_singleton.symm

theorem nothing (text : Text) : Offers text (fun _ _ _ => none) fun _ => [] :=
  fun _ _ _ _ _ _ => rfl

/-- Going on under a condition offers the position under that condition. -/
theorem selfIf {condition : Nat → Bool} {holds : Nat → Bool}
    (h : ∀ i ≤ text.length, condition i = holds i) :
    Offers text (fun i captures k => if condition i then k i captures else none)
      fun i => if holds i then [i] else [] := by
  intro i hi captures k g hk
  simp only [h i hi]
  cases holds i with
  | true => exact self text i hi captures k g hk
  | false => rfl

theorem seq (h : Offers text m e) (h' : Offers text m' e') :
    Offers text (fun i captures k => m i captures fun j captures => m' j captures k)
      fun i => (e i).flatMap e' := by
  intro i hi captures k g hk
  have hrest : Answers text i (fun j captures => m' j captures k) fun j => (e' j).findSome? g :=
    fun j hij hj captures => h' j hj captures k g (hk.mono hij)
  rw [findSome?_flatMap]
  exact h i hi captures _ _ hrest

theorem orElse (h : Offers text m e) (h' : Offers text m' e') :
    Offers text (fun i captures k => (m i captures k).or (m' i captures k))
      fun i => e i ++ e' i := by
  intro i hi captures k g hk
  rw [List.findSome?_append, ← h i hi captures k g hk, ← h' i hi captures k g hk]
  exact Option.map_or

end Offers

section Parts

variable {text : Text}

/-- One code point offers the next position where the leaf accepts it. -/
theorem offers_character {property : CodePoint → Bool} {node : Node}
    (h : ∀ c ∈ text, Leaf.accepts {} node c = .ok (property c)) :
    Offers text (matchCharacter text.toArray property) (leafEnds text node) := by
  intro i hi captures k g hk
  unfold matchCharacter leafEnds
  rw [List.getElem?_toArray]
  cases hc : text[i]? with
  | none => rfl
  | some c =>
      have hlt := (List.getElem?_eq_some_iff.mp hc).1
      simp only [h c (List.mem_of_getElem? hc)]
      cases property c with
      | true =>
          rw [if_pos rfl, if_pos rfl, hk (i + 1) (Nat.le_succ i) hlt captures]
          exact List.findSome?_singleton.symm
      | false => rfl

/-- The place of the host that stands for an anchor. -/
def placeOf : AnchorKind → Place
  | .start => .start
  | .finish => .textEnd
  | .boundary => .boundary
  | .notBoundary => .notBoundary
  | .other _ => .boundary

theorem placeHolds_before_eq (text : Text) (i : Nat) :
    placeHolds.before {} text.toArray i = Leaf.isWordAt (charBefore? text i) := by
  unfold placeHolds.before charBefore?
  cases i with
  | zero => rfl
  | succ i =>
      rw [if_neg (Nat.succ_ne_zero i), List.getElem?_toArray]
      cases text[i + 1 - 1]? <;> simp [Leaf.isWordAt, categoryHolds, categoryHolds.wordHolds]

theorem placeHolds_after_eq (text : Text) (i : Nat) :
    placeHolds.after {} text.toArray i = Leaf.isWordAt text[i]? := by
  unfold placeHolds.after
  rw [List.getElem?_toArray]
  cases text[i]? <;> simp [Leaf.isWordAt, categoryHolds, categoryHolds.wordHolds]

theorem not_anchorHoldsAt_boundary_nil (i : Nat) : anchorHoldsAt [] .boundary i = false := by
  simp [anchorHoldsAt, charBefore?, Leaf.isWordAt]

/-- An anchor offers the position where its place holds. Only in an empty text the host knows no
place that is not at a word boundary. -/
theorem placeHolds_placeOf {text : Text} {kind : AnchorKind} (hkind : kind.Known)
    (hempty : kind = .notBoundary → text ≠ []) (i : Nat) :
    placeHolds {} text.toArray i (placeOf kind) = anchorHoldsAt text kind i := by
  have hbefore := placeHolds_before_eq text i
  have hafter := placeHolds_after_eq text i
  cases kind with
  | start => simp [placeOf, placeHolds, anchorHoldsAt]
  | finish => simp [placeOf, placeHolds, anchorHoldsAt]
  | boundary =>
      cases text with
      | nil => exact (not_anchorHoldsAt_boundary_nil i).symm
      | cons c rest => simp [placeOf, placeHolds, anchorHoldsAt, hbefore, hafter]
  | notBoundary =>
      cases text with
      | nil => exact absurd rfl (hempty rfl)
      | cons c rest =>
          simp only [placeOf, placeHolds, anchorHoldsAt, hbefore, hafter]
          cases Leaf.isWordAt (charBefore? (c :: rest) i) <;>
            cases Leaf.isWordAt (c :: rest)[i]? <;> rfl
  | other name => exact hkind.elim

theorem offers_nil (keep : Bool) (text : Text) :
    Offers text (matchItems text.toArray {} []) (sequenceEnds keep text []) :=
  (Offers.self text).congr fun i captures k => matchItems_nil text.toArray {} i captures k

/-- Items one after the other are matched one after the other. -/
theorem matchItems_append (text : Array CodePoint) (f : Flags) (items more : List Item) (i : Nat)
    (captures : Captures) (k : Continuation) :
    matchItems text f (items ++ more) i captures k =
      matchItems text f items i captures fun j captures => matchItems text f more j captures k := by
  induction items generalizing i captures with
  | nil => rw [List.nil_append, matchItems_nil]
  | cons item rest ih =>
      rw [List.cons_append, matchItems_cons, matchItems_cons]
      exact congrArg _ (funext fun j => funext fun captures => ih j captures)

theorem matchItems_singleton (text : Array CodePoint) (f : Flags) (item : Item) (i : Nat)
    (captures : Captures) (k : Continuation) :
    matchItems text f [item] i captures k = matchItem text f item i captures k := by
  simp only [matchItems_cons, matchItems_nil]

variable {body : List Item} {e : Nat → List Nat}

theorem offers_plainGroup (h : Offers text (matchItems text.toArray {} body) e) :
    Offers text (matchItem text.toArray {} (.group none {} {} body)) e :=
  h.congr fun i captures k => matchItem_plainGroup text.toArray {} i captures k {} {} body

theorem offers_captureGroup (number : Nat) (h : Offers text (matchItems text.toArray {} body) e) :
    Offers text (matchItem text.toArray {} (.group (some number) {} {} body)) e := by
  intro i hi captures k g hk
  rw [matchItem_captureGroup]
  exact h i hi _ _ g fun j hij hj captures => hk j hij hj _

end Parts

section Rounds

variable {text : Text} {round : Matcher} {e : Nat → List Nat} {few : Bool} {min : Nat}
  {max : Option Nat} {k : Continuation} {g : Nat → Option Nat}

/-- What is done after a round answers as the rounds from there on do, if what is done after a round
that moved does, and if the repetition ends after an empty round. -/
theorem answers_onward (loop : Option Nat → Continuation) {count here : Nat} {last : Option Nat}
    (hlast : ∀ before, last = some before → before < here)
    (hmoves : ∀ last mid, here ≤ mid → mid ≤ text.length → count < min ∨ here < mid →
      (∀ before, last = some before → before < mid) → ∀ captures,
        (loop last mid captures).map Prod.fst =
          (roundEnds true few ⟨min, max⟩ text.length e (count + 1) mid).findSome? g)
    (hstays : min ≤ count → ∀ captures, (loop (some here) here captures).map Prod.fst = g here) :
    Answers text here (loop (if count < min then last else some here))
      (onward true few ⟨min, max⟩ text.length e g count here) := by
  intro mid hmid hend captures
  rcases Nat.lt_or_ge count min with hcount | hcount
  · rw [if_pos hcount, onward, if_pos (Or.inl hcount)]
    exact hmoves last mid hmid hend (Or.inl hcount)
      (fun before hbefore => Nat.lt_of_lt_of_le (hlast before hbefore) hmid) captures
  · rw [if_neg (Nat.not_lt.mpr hcount)]
    rcases Nat.eq_or_lt_of_le hmid with rfl | hlt
    · rw [onward_self hcount, if_pos rfl]
      exact hstays hcount captures
    · rw [onward, if_pos (Or.inr ⟨hlt, hend⟩)]
      refine hmoves (some here) mid hmid hend (Or.inr hlt) (fun before hbefore => ?_) captures
      exact Option.some.inj hbefore ▸ hlt

theorem roundsReached_eq (min : Nat) (max : Option Nat) (count : Nat) :
    roundsReached max count = Bounds.reached ⟨min, max⟩ count := by
  cases max <;> rfl

theorem matchGreedy_stays {fuel count pos : Nat} (hmin : min ≤ count) (captures : Captures) :
    matchGreedy round min max k (fuel + 1) count (some pos) pos captures = k pos captures := by
  rw [matchGreedy, if_neg (Nat.not_lt.mpr hmin), if_pos (by simp)]

theorem matchReluctant_stays {fuel count pos : Nat} (hmin : min ≤ count) (captures : Captures) :
    matchReluctant round min max k (fuel + 1) count (some pos) pos captures = k pos captures := by
  rw [matchReluctant, if_neg (Nat.not_lt.mpr hmin)]
  cases k pos captures with
  | some found => rfl
  | none => exact if_pos (by simp)

theorem last_ne_self {pos : Nat} {last : Option Nat}
    (hlast : ∀ before, last = some before → before < pos) : (last == some pos) = false :=
  beq_eq_false_iff_ne.mpr fun hsame => Nat.lt_irrefl pos (hlast pos hsame)

variable (hround : Offers text round e) (hordered : ∀ limit, max = some limit → min ≤ limit)

include hordered in
theorem findSome?_roundEnds_of_lt {count : Nat} (hcount : count < min) (pos : Nat) :
    (roundEnds true few ⟨min, max⟩ text.length e count pos).findSome? g =
      (e pos).findSome? (onward true few ⟨min, max⟩ text.length e g count pos) := by
  have hreached : Bounds.reached ⟨min, max⟩ count = false :=
    Bounds.reached_eq_false fun limit hlimit => Nat.lt_of_lt_of_le hcount (hordered limit hlimit)
  rw [findSome?_roundEnds, hreached]
  cases few <;> simp [Nat.not_le.mpr hcount]

include hround hordered

/-- A greedy repetition finds what a search in its rounds finds, where empty rounds are kept. -/
theorem matchGreedy_finds {fuel count pos : Nat} {last : Option Nat}
    (hpos : pos ≤ text.length) (hk : Answers text pos k g)
    (hlast : ∀ before, last = some before → before < pos)
    (hfuel : (min - count) + (text.length - pos) + 2 ≤ fuel) (captures : Captures) :
    (matchGreedy round min max k fuel count last pos captures).map Prod.fst =
      (roundEnds true false ⟨min, max⟩ text.length e count pos).findSome? g := by
  induction fuel generalizing count pos last captures with
  | zero => omega
  | succ fuel ih =>
      have hrest : Answers text pos
          (matchGreedy round min max k fuel (count + 1) (if count < min then last else some pos))
          (onward true false ⟨min, max⟩ text.length e g count pos) := by
        refine answers_onward _ hlast (fun last mid hmid hend hmoves hlast captures => ?_)
          (fun hcount captures => ?_)
        · exact ih hend (hk.mono hmid) hlast (by omega) captures
        · obtain ⟨fuel, rfl⟩ : ∃ n, fuel = n + 1 := ⟨fuel - 1, by omega⟩
          rw [matchGreedy_stays (by omega)]
          exact hk pos (Nat.le_refl pos) hpos captures
      have hgoing := hround pos hpos captures _ _ hrest
      rw [matchGreedy]
      rcases Nat.lt_or_ge count min with hcount | hcount
      · rw [if_pos hcount] at hgoing
        rw [if_pos hcount, hgoing, findSome?_roundEnds_of_lt hordered hcount]
      · have hstop := hk pos (Nat.le_refl pos) hpos captures
        rw [if_neg (Nat.not_lt.mpr hcount)] at hgoing
        rw [findSome?_roundEnds, if_neg (Nat.not_lt.mpr hcount), roundsReached_eq min,
          last_ne_self hlast, Bool.or_false]
        simp only [if_pos hcount, Bool.false_eq_true, if_false]
        cases Bounds.reached ⟨min, max⟩ count with
        | true => exact hstop
        | false =>
            rw [if_neg Bool.false_ne_true, if_neg Bool.false_ne_true, ← hgoing, ← hstop]
            cases round pos captures _ <;> rfl

/-- A reluctant repetition finds what a search in its rounds with few first finds, where empty
rounds are kept. -/
theorem matchReluctant_finds {fuel count pos : Nat} {last : Option Nat}
    (hpos : pos ≤ text.length) (hk : Answers text pos k g)
    (hlast : ∀ before, last = some before → before < pos)
    (hfuel : (min - count) + (text.length - pos) + 2 ≤ fuel) (captures : Captures) :
    (matchReluctant round min max k fuel count last pos captures).map Prod.fst =
      (roundEnds true true ⟨min, max⟩ text.length e count pos).findSome? g := by
  induction fuel generalizing count pos last captures with
  | zero => omega
  | succ fuel ih =>
      have hrest : Answers text pos
          (matchReluctant round min max k fuel (count + 1) (if count < min then last else some pos))
          (onward true true ⟨min, max⟩ text.length e g count pos) := by
        refine answers_onward _ hlast (fun last mid hmid hend hmoves hlast captures => ?_)
          (fun hcount captures => ?_)
        · exact ih hend (hk.mono hmid) hlast (by omega) captures
        · obtain ⟨fuel, rfl⟩ : ∃ n, fuel = n + 1 := ⟨fuel - 1, by omega⟩
          rw [matchReluctant_stays (by omega)]
          exact hk pos (Nat.le_refl pos) hpos captures
      have hgoing := hround pos hpos captures _ _ hrest
      rw [matchReluctant]
      rcases Nat.lt_or_ge count min with hcount | hcount
      · rw [if_pos hcount] at hgoing
        rw [if_pos hcount, hgoing, findSome?_roundEnds_of_lt hordered hcount]
      · have hstop := hk pos (Nat.le_refl pos) hpos captures
        rw [if_neg (Nat.not_lt.mpr hcount)] at hgoing
        rw [findSome?_roundEnds, if_neg (Nat.not_lt.mpr hcount), roundsReached_eq min,
          last_ne_self hlast, Bool.or_false]
        simp only [if_pos hcount, if_true]
        rw [← hstop]
        cases hfound : k pos captures with
        | some found => rfl
        | none =>
            cases Bounds.reached ⟨min, max⟩ count with
            | true => rfl
            | false => exact hgoing

end Rounds

/-- A repetition offers its rounds, where empty rounds are kept. -/
theorem offers_repetition {text : Text} {body : List Item} {e : Nat → List Nat}
    (h : Offers text (matchItems text.toArray {} body) e) {min : Nat} {max : Option Nat}
    (hordered : ∀ limit, max = some limit → min ≤ limit) (greedy : Bool) :
    Offers text
      (matchItem text.toArray {}
        (.repetition (if greedy then .greedy else .reluctant) min max body))
      (roundEnds true (!greedy) ⟨min, max⟩ text.length e 0) := by
  intro i hi captures k g hk
  have hfuel : (min - 0) + (text.length - i) + 2 ≤ min + (text.toArray.size - i) + 3 := by
    rw [List.size_toArray]
    omega
  have hfresh : ∀ before, (none : Option Nat) = some before → before < i := nofun
  cases greedy with
  | true =>
      rw [if_pos rfl]
      exact matchGreedy_finds h hordered hi hk hfresh hfuel captures
  | false =>
      rw [if_neg Bool.false_ne_true]
      exact matchReluctant_finds h hordered hi hk hfresh hfuel captures

end RegexTrace.Host
