import Mathlib.Data.List.Forall2
import RegexTrace.Proofs.Parsing
import RegexTrace.Proofs.Tokens

/-!
# What two readers have read

The levels that the two readers fill correspond when the items of each branch offer the ends of its
terms. Reading a term, a bar or a parenthesis keeps that, and a level that is complete offers the
ends of its tree.
-/

namespace RegexTrace.Search

theorem sequenceEnds_append (keep : Bool) (text : Text) (body more : List Node) (i : Nat) :
    sequenceEnds keep text (body ++ more) i =
      (sequenceEnds keep text body i).flatMap (sequenceEnds keep text more) := by
  induction body generalizing i with
  | nil => simp [sequenceEnds]
  | cons node body ih =>
      rw [List.cons_append, sequenceEnds, sequenceEnds, List.flatMap_assoc]
      exact List.flatMap_congr fun mid _ => ih mid

theorem sequenceEnds_singleton (keep : Bool) (text : Text) (node : Node) (i : Nat) :
    sequenceEnds keep text [node] i = ends keep text node i := by
  rw [sequenceEnds]
  have hself : sequenceEnds keep text [] = fun i => [i] := funext fun i => by rw [sequenceEnds]
  rw [hself, List.flatMap_singleton']

end RegexTrace.Search

namespace RegexTrace.Host

open Search

variable {text : Text}

/-- The items of a branch offer the ends of its terms. -/
def BodyFits (text : Text) (terms : List Node) (items : List Item) : Prop :=
  Offers text (matchItems text.toArray {} items) (sequenceEnds true text terms)

/-- An item offers the ends of a term. -/
def ItemFits (text : Text) (term : Node) (item : Item) : Prop :=
  Offers text (matchItem text.toArray {} item) (ends true text term)

namespace BodyFits

variable {terms : List Node} {items : List Item}

/-- An item that is added offers the ends of the term that is added. -/
theorem push (h : BodyFits text terms items) {term : Node} {item : Item}
    (hitem : ItemFits text term item) : BodyFits text (terms ++ [term]) (items ++ [item]) := by
  have hends : sequenceEnds true text (terms ++ [term]) =
      fun i => (sequenceEnds true text terms i).flatMap (ends true text term) := by
    funext i
    rw [sequenceEnds_append]
    exact List.flatMap_congr fun mid _ => sequenceEnds_singleton true text term mid
  rw [BodyFits, hends]
  refine (Offers.seq h hitem).congr fun i captures k => ?_
  rw [matchItems_append]
  refine congrArg _ (funext fun j => funext fun captures => ?_)
  rw [matchItems_singleton]

theorem complete (h : BodyFits text terms items) : BodyFits text terms (completeBranch items) :=
  Offers.congr h fun i captures k => matchItems_completeBranch text.toArray {} i captures k items

end BodyFits

/-- Branches offer the ends of a choice between their terms. -/
theorem offers_branches {bodies : List (List Node)} {branches : List (List Item)}
    (h : List.Forall₂ (BodyFits text) bodies branches) :
    Offers text (matchBranches text.toArray {} branches)
      (choiceEnds true text (bodies.map .alternative)) := by
  induction h with
  | nil =>
      have hnone : choiceEnds true text ([].map .alternative) = fun _ => [] :=
        funext fun i => by rw [List.map_nil, choiceEnds]
      rw [hnone]
      exact (Offers.nothing text).congr (matchBranches_nil text.toArray {})
  | @cons terms items bodies branches hbody _ ih =>
      have hcons : choiceEnds true text ((terms :: bodies).map .alternative) = fun i =>
          sequenceEnds true text terms i ++ choiceEnds true text (bodies.map .alternative) i :=
        funext fun i => by rw [List.map_cons, choiceEnds, ends]
      rw [hcons]
      exact (Offers.orElse hbody ih).congr fun i captures k => matchBranches_cons _ _ _ _ _ _ _

/-- Two levels hold branches that correspond. -/
structure LevelFits (text : Text) (level : Pattern.Level) (host : Level) : Prop where
  branches : List.Forall₂ (BodyFits text) level.branches host.branches
  items : BodyFits text level.terms.reverse host.items.reverse

namespace LevelFits

variable {level : Pattern.Level} {host : Level}

theorem start (text : Text) : LevelFits text {} {} := ⟨.nil, offers_nil true text⟩

theorem push (h : LevelFits text level host) {term : Node} {item : Item}
    (hitem : ItemFits text term item) : LevelFits text (level.push term) (host.push item) := by
  refine ⟨h.branches, ?_⟩
  rw [Pattern.Level.push, Level.push, List.reverse_cons, List.reverse_cons]
  exact h.items.push hitem

theorem split (h : LevelFits text level host) : LevelFits text level.split host.split :=
  ⟨.cons h.items.complete h.branches, offers_nil true text⟩

theorem allBranches (h : LevelFits text level host) :
    List.Forall₂ (BodyFits text) level.allBranches host.allBranches :=
  List.forall₂_reverse_iff.mpr h.split.branches

theorem offers_choice (h : LevelFits text level host) :
    Offers text (matchItems text.toArray {} host.body)
      (choiceEnds true text (level.allBranches.map .alternative)) := by
  have hne : host.allBranches ≠ [] := by
    simp [Level.allBranches, Level.split]
  exact (offers_branches h.allBranches).congr fun i captures k =>
    matchItems_itemsOfBranches text.toArray hne i captures k

theorem root (h : LevelFits text level host) :
    Offers text (matchItems text.toArray {} host.body) (ends true text level.root) := by
  have hends : ends true text level.root =
      choiceEnds true text (level.allBranches.map .alternative) := by
    funext i
    rcases level.root_cases with ⟨body, hbranches, hroot, -⟩ | ⟨-, hroot, -⟩
    · rw [hroot, hbranches, List.map_singleton, choiceEnds, choiceEnds, List.append_nil]
    · rw [hroot, ends]
  exact hends ▸ h.offers_choice

/-- The items of a level offer the ends of the body of a group. -/
theorem body (h : LevelFits text level host) : BodyFits text level.body host.body := by
  have hends : sequenceEnds true text level.body =
      choiceEnds true text (level.allBranches.map .alternative) := by
    funext i
    rcases level.root_cases with ⟨body, hbranches, -, hbody⟩ | ⟨-, -, hbody⟩
    · rw [hbody, hbranches, List.map_singleton, choiceEnds, choiceEnds, List.append_nil, ends]
    · rw [hbody, sequenceEnds_singleton, ends]
  rw [BodyFits, hends]
  exact h.offers_choice

end LevelFits

/-- Two openings are of groups that capture or of plain ones, in levels that correspond. -/
structure OpeningFits (text : Text) (opening : Pattern.Opening) (host : Opening) : Prop where
  outer : LevelFits text opening.outer host.outer
  kind : (∃ number, host.kind = .capture number) ∨ host.kind = .plain {} {}
  verboseOutside : host.verboseOutside = false

/-- Two readers have read what corresponds, and the host has no flags. -/
structure ProgressFits (text : Text) (p : Pattern.Progress) (q : Progress) : Prop where
  flags : q.flags = {}
  verbose : q.verbose = false
  level : LevelFits text p.level q.level
  openings : List.Forall₂ (OpeningFits text) p.openings q.openings

/-- A group that is closed offers the ends of its node. -/
theorem OpeningFits.close {opening : Pattern.Opening} {host : Opening}
    (h : OpeningFits text opening host) {inner : Pattern.Level} {level : Level}
    (hinner : LevelFits text inner level) :
    ItemFits text (opening.close inner) (Progress.itemOf host.kind level) := by
  have hends : ends true text (opening.close inner) = sequenceEnds true text inner.body :=
    funext fun i => by rw [Pattern.Opening.close, ends]
  rw [ItemFits, hends]
  rcases h.kind with ⟨number, hkind⟩ | hkind
  · rw [hkind]
    exact offers_captureGroup number hinner.body
  · rw [hkind]
    exact offers_plainGroup hinner.body

theorem OpeningFits.repeatable {opening : Pattern.Opening} {host : Opening}
    (h : OpeningFits text opening host) (level : Level) :
    (Progress.itemOf host.kind level).Repeatable := by
  rcases h.kind with ⟨number, hkind⟩ | hkind <;> rw [hkind] <;> trivial

theorem Progress.closeGroup_verbose (q : Progress) (opening : Opening) (openings : List Opening) :
    (q.closeGroup opening openings).verbose = opening.verboseOutside := by
  unfold Progress.closeGroup
  split <;> rfl

theorem Progress.closeGroup_level (q : Progress) (opening : Opening) (openings : List Opening) :
    (q.closeGroup opening openings).level =
      opening.outer.push (Progress.itemOf opening.kind q.level) := by
  unfold Progress.closeGroup
  split <;> rfl

namespace ProgressFits

variable {p : Pattern.Progress} {q : Progress}

theorem start (text : Text) : ProgressFits text {} { flags := {}, verbose := false } :=
  ⟨rfl, rfl, LevelFits.start text, .nil⟩

theorem push (h : ProgressFits text p q) {term : Node} {item : Item}
    (hitem : ItemFits text term item) :
    ProgressFits text { p with level := p.level.push term } (q.push item) :=
  ⟨h.flags, h.verbose, h.level.push hitem, h.openings⟩

/-- A bar has been read. -/
theorem split (h : ProgressFits text p q) {position : Nat} {q' : Progress}
    (hread : q.splitBranch position = .ok q') :
    ProgressFits text { p with level := p.level.split } q' := by
  have hsplit := h.level.split
  obtain ⟨flags, verbose, level, openings⟩ := q
  have hflags : flags = {} := h.flags
  subst hflags
  cases openings with
  | nil =>
      cases hread
      exact ⟨rfl, rfl, hsplit, h.openings⟩
  | cons opening openings =>
      obtain ⟨openedAt, kind, verboseOutside, outer⟩ := opening
      obtain ⟨outer, rest, hopening, -⟩ := List.forall₂_cons_right_iff.mp h.openings
      rcases hopening.kind with ⟨number, hkind⟩ | hkind
      · obtain rfl : kind = .capture number := hkind
        cases hread
        exact ⟨rfl, h.verbose, hsplit, h.openings⟩
      · obtain rfl : kind = .plain {} {} := hkind
        cases hread
        exact ⟨rfl, h.verbose, hsplit, h.openings⟩

/-- An opening parenthesis has been read. -/
theorem openGroup (h : ProgressFits text p q) {pos openedAt groupCount : Nat}
    {behaviour : Behaviour} {kind : Opening.Kind}
    (hkind : (∃ number, kind = .capture number) ∨ kind = .plain {} {}) :
    ProgressFits text (p.openGroup pos behaviour none)
      (Progress.openGroup { q with groupCount } openedAt kind q.verbose) :=
  ⟨h.flags, h.verbose, LevelFits.start text, .cons ⟨h.level, hkind, h.verbose⟩ h.openings⟩

/-- A closing parenthesis has been read, and what became of the group may have been repeated. -/
theorem closeGroup {opening : Pattern.Opening} {openings : List Pattern.Opening}
    {host : Opening} {hosts : List Opening} {level : Pattern.Level} {count : Nat}
    (h : ProgressFits text ⟨level, opening :: openings, count⟩ q)
    (hhosts : q.openings = host :: hosts)
    {term : Node} {item : Item} (hitem : ItemFits text term item) :
    ProgressFits text ⟨opening.outer.push term, openings, count⟩
      { q.closeGroup host hosts with level := host.outer.push item } := by
  have hopenings := h.openings
  rw [hhosts] at hopenings
  obtain ⟨hopening, hrest⟩ := List.forall₂_cons.mp hopenings
  have hflags : (q.closeGroup host hosts).flags = {} := by
    unfold Progress.closeGroup
    split <;> exact h.flags
  have hverbose : (q.closeGroup host hosts).verbose = false :=
    (q.closeGroup_verbose host hosts).trans hopening.verboseOutside
  have hleft : (q.closeGroup host hosts).openings = hosts := by
    unfold Progress.closeGroup
    split <;> rfl
  refine ⟨hflags, hverbose, hopening.outer.push hitem, ?_⟩
  exact hleft.symm ▸ hrest

end ProgressFits

end RegexTrace.Host
