import RegexTrace.Proofs.Occurrences
import RegexTrace.Proofs.Parsing

/-!
# Where the nodes of a tree come from

Every node of the tree of a pattern was read somewhere in the pattern: as an atom, as an item of a
class, with a repetition mark, or when a group or the pattern was complete. So a property that all
that is read has, at every place of the pattern, is a property of every node of its tree.
-/

namespace RegexTrace

namespace Node

/-- All nodes of a tree have a property. -/
def Everywhere (property : Node → Prop) (node : Node) : Prop :=
  ∀ moves inner, node.at? moves = some inner → property inner

variable {property : Node → Prop}

theorem Everywhere.intro {node : Node} (h : property node)
    (hchildren : ∀ move child, node.child? move = some child → child.Everywhere property) :
    node.Everywhere property := by
  intro moves inner hat
  cases moves with
  | nil => exact Option.some.inj hat ▸ h
  | cons move rest =>
      obtain ⟨child, hchild, hrest⟩ := Option.bind_eq_some_iff.mp hat
      exact hchildren move child hchild rest inner hrest

theorem Everywhere.leaf {node : Node} (h : property node)
    (hleaf : ∀ move, node.child? move = none) : node.Everywhere property := by
  apply Everywhere.intro h
  intro move child hchild
  rw [hleaf move] at hchild
  cases hchild

theorem Everywhere.alternative {body : List Node} (h : property (.alternative body))
    (hbody : ∀ term ∈ body, term.Everywhere property) :
    (Node.alternative body).Everywhere property := by
  apply Everywhere.intro h
  intro move child hchild
  cases move with
  | element i => exact hbody child (List.mem_of_getElem? hchild)
  | _ => cases hchild

theorem Everywhere.disjunction {branches : List Node} (h : property (.disjunction branches))
    (hbranches : ∀ branch ∈ branches, branch.Everywhere property) :
    (Node.disjunction branches).Everywhere property := by
  apply Everywhere.intro h
  intro move child hchild
  cases move with
  | branch i => exact hbranches child (List.mem_of_getElem? hchild)
  | _ => cases hchild

theorem Everywhere.group {behaviour : Behaviour} {body : List Node} {name : Option Text}
    {number : Option Int} (h : property (.group behaviour body name number))
    (hbody : ∀ term ∈ body, term.Everywhere property) :
    (Node.group behaviour body name number).Everywhere property := by
  apply Everywhere.intro h
  intro move child hchild
  cases move with
  | element i => exact hbody child (List.mem_of_getElem? hchild)
  | _ => cases hchild

theorem Everywhere.quantifier {min : Int} {max : Option Int} {greedy : Bool} {body : Node}
    {shorthand : Option Shorthand} (h : property (.quantifier min max greedy body shorthand))
    (hbody : body.Everywhere property) :
    (Node.quantifier min max greedy body shorthand).Everywhere property := by
  apply Everywhere.intro h
  intro move child hchild
  cases move with
  | repeated => exact Option.some.inj hchild ▸ hbody
  | _ => cases hchild

end Node

namespace Pattern

open Node

/-- What all that is read in a pattern has: a property of items for the items of its classes, and a
property of nodes for whatever becomes part of its tree. -/
structure ReadOff (pattern : Text) (item property : Node → Prop) : Prop where
  literalItem (c : CodePoint) : item (.value c)
  escapeItem {t : Text} {node : Node} {width : Nat} (left : Ascii.backslash :: t <:+ pattern)
    (h : readEscape true t = .ok (node, width)) : item node
  range {low high : Int} (ordered : low ≤ high) : item (.range low high)
  charClass (negative : Bool) {items : List Node} (h : ∀ i ∈ items, item i) :
    property (.charClass negative items)
  dot : property .dot
  anchor (kind : AnchorKind) : property (.anchor kind)
  literal (c : CodePoint) : property (.value c)
  escape {t : Text} {node : Node} {width : Nat} (left : Ascii.backslash :: t <:+ pattern)
    (h : readEscape false t = .ok (node, width)) : property node
  group (behaviour : Behaviour) (body : List Node) (name : Option Text) (number : Option Int) :
    property (.group behaviour body name number)
  alternative (body : List Node) : property (.alternative body)
  disjunction (branches : List Node) : property (.disjunction branches)
  repeated {t : Text} {repetition : Repetition} (body : Node) (left : t <:+ pattern)
    (h : Repetition.read? t = .ok (some repetition)) : property (repetition.apply body)

variable {pattern : Text} {item property : Node → Prop}

namespace ReadOff

variable (h : ReadOff pattern item property)

include h

/-- A class atom is a literal or an escape. -/
theorem classAtom {t : Text} {node : Node} {width : Nat} (left : t <:+ pattern)
    (hatom : readClassAtom t = .ok (node, width)) : item node := by
  unfold readClassAtom at hatom
  split at hatom
  · obtain ⟨⟨inner, taken⟩, hescape, heq⟩ := exists_of_map_ok hatom
    obtain ⟨rfl, -⟩ := Prod.mk.inj heq
    exact h.escapeItem left hescape
  · cases hatom
    exact h.literalItem _
  · cases hatom

/-- One or several items are class atoms, a range, or the range sign. -/
theorem classItems {t : Text} {items : List Node} {width : Nat} (left : t <:+ pattern)
    (hitems : readClassItems t = .ok (items, width)) : ∀ i ∈ items, item i := by
  unfold readClassItems at hitems
  obtain ⟨⟨lower, lowerWidth⟩, hlower, hitems⟩ := exists_of_bind_ok hitems
  have hlowerItem := h.classAtom left hlower
  simp only at hitems
  split at hitems
  · split at hitems
    · cases hitems
    · next upper upperWidth hupper =>
        have hrest : (t.drop lowerWidth).tail <:+ pattern :=
          ((List.tail_suffix _).trans (List.drop_suffix _ _)).trans left
        have hupperItem := h.classAtom hrest hupper
        unfold rangeItems at hitems
        split at hitems
        · split at hitems
          · cases hitems
          · next hordered =>
              cases hitems
              exact List.forall_mem_singleton.mpr (h.range (Int.not_lt.mp hordered))
        · cases hitems
          refine List.forall_mem_cons.mpr ⟨hlowerItem, List.forall_mem_cons.mpr ⟨?_, ?_⟩⟩
          · exact h.literalItem _
          · exact List.forall_mem_singleton.mpr hupperItem
  · cases hitems
    exact List.forall_mem_singleton.mpr hlowerItem

/-- The items up to the closing bracket are items that were read there. -/
theorem classBody {t : Text} (left : t <:+ pattern) {skip distance last : Nat}
    {items found : List Node} (hitems : ∀ i ∈ items, item i)
    (hbody : readClassBody skip distance items t = .ok (found, last)) : ∀ i ∈ found, item i := by
  induction t generalizing skip distance items with
  | nil =>
      rw [readClassBody] at hbody
      cases hbody
  | cons c rest ih =>
      have hrest : rest <:+ pattern := (List.suffix_cons c rest).trans left
      cases skip with
      | succ skip =>
          rw [readClassBody] at hbody
          exact ih hrest hitems hbody
      | zero =>
          rw [readClassBody] at hbody
          split at hbody
          · cases hbody
            exact fun i hi => hitems i (List.mem_reverse.mp hi)
          · split at hbody
            · cases hbody
            · next more width hmore =>
                apply ih hrest _ hbody
                intro i hi
                rcases List.mem_append.mp hi with hi | hi
                · exact h.classItems left hmore i (List.mem_reverse.mp hi)
                · exact hitems i hi

/-- A class is made of items that were read in it. -/
theorem ofClass {t : Text} {atom : Node} {width : Nat} (left : t <:+ pattern)
    (hclass : readClass t = .ok (atom, width)) :
    ∃ negative items, atom = .charClass negative items ∧ ∀ i ∈ items, item i := by
  unfold readClass at hclass
  split at hclass
  · obtain ⟨⟨items, last⟩, hbody, heq⟩ := exists_of_map_ok hclass
    obtain ⟨rfl, -⟩ := Prod.mk.inj heq
    have hrest := (List.suffix_cons _ _).trans left
    exact ⟨true, items, rfl, h.classBody hrest (List.forall_mem_nil _) hbody⟩
  · obtain ⟨⟨items, last⟩, hbody, heq⟩ := exists_of_map_ok hclass
    obtain ⟨rfl, -⟩ := Prod.mk.inj heq
    exact ⟨false, items, rfl, h.classBody left (List.forall_mem_nil _) hbody⟩

/-- An atom that is read has the property, and no node is below it. -/
theorem atom (valid : pattern.Valid) {c : CodePoint} {rest : Text} {atom : Node} {width : Nat}
    (left : c :: rest <:+ pattern) (hatom : readAtom c rest = .ok (atom, width)) :
    atom.Everywhere property := by
  have hrest : rest <:+ pattern := (List.suffix_cons c rest).trans left
  unfold readAtom at hatom
  split at hatom
  · obtain ⟨negative, items, rfl, hitems⟩ := h.ofClass hrest hatom
    exact .leaf (h.charClass negative hitems) fun move => by cases move <;> rfl
  split at hatom
  · cases hatom
    exact .leaf h.dot fun move => by cases move <;> rfl
  split at hatom
  · cases hatom
    exact .leaf (h.anchor .start) fun move => by cases move <;> rfl
  split at hatom
  · cases hatom
    exact .leaf (h.anchor .finish) fun move => by cases move <;> rfl
  split at hatom
  · next hbackslash =>
      have hfits := readEscape_fits false fun d hd => valid d (hrest.subset hd)
      rw [hatom] at hfits
      apply Everywhere.leaf (h.escape (hbackslash ▸ left) hatom)
      intro move
      cases atom <;> first | exact hfits.1.elim | (cases move <;> rfl)
  split at hatom
  · cases hatom
  · cases hatom
    exact .leaf (h.literal c) fun move => by cases move <;> rfl

/-- A term has the property everywhere if its atom has. -/
theorem term {t : Text} {atom term : Node} {start next taken : Nat} (left : t <:+ pattern)
    (hatom : atom.Everywhere property) (hterm : readTerm atom start next t = .ok (term, taken)) :
    term.Everywhere property := by
  unfold readTerm at hterm
  split at hterm
  · cases hterm
  · cases hterm
  · cases hterm
    exact hatom
  · next repetition hrepetition =>
      split at hterm
      · cases hterm
      · cases hterm
        exact .quantifier (h.repeated atom left hrepetition) hatom

end ReadOff

namespace Level

/-- All nodes of a level have a property. -/
def Everywhere (property : Node → Prop) (level : Level) : Prop :=
  ∀ branch ∈ level.allBranches, ∀ term ∈ branch, term.Everywhere property

theorem everywhere_start : Level.Everywhere property {} := by
  simp [Level.Everywhere, allBranches]

theorem Everywhere.push {level : Level} (h : level.Everywhere property) {term : Node}
    (hterm : term.Everywhere property) : (level.push term).Everywhere property := by
  rw [Level.Everywhere, allBranches_eq] at h
  rw [Level.Everywhere, allBranches_push]
  intro branch hbranch other hother
  rcases List.mem_append.mp hbranch with hbranch | hbranch
  · exact h branch (List.mem_append_left _ hbranch) other hother
  · rw [List.mem_singleton.mp hbranch] at hother
    rcases List.mem_append.mp hother with hother | hother
    · exact h _ (List.mem_append_right _ List.mem_cons_self) other hother
    · exact List.mem_singleton.mp hother ▸ hterm

theorem Everywhere.split {level : Level} (h : level.Everywhere property) :
    level.split.Everywhere property := by
  rw [Level.Everywhere, allBranches_split]
  intro branch hbranch
  rcases List.mem_append.mp hbranch with hbranch | hbranch
  · exact h branch hbranch
  · exact List.mem_singleton.mp hbranch ▸ nofun

/-- The tree of a level has the property everywhere, and so has the body of a group. -/
theorem Everywhere.root_body {level : Level} (h : level.Everywhere property)
    (hread : ReadOff pattern item property) :
    level.root.Everywhere property ∧ ∀ term ∈ level.body, term.Everywhere property := by
  rcases level.root_cases with ⟨body, hbranches, hroot, hbody⟩ | ⟨-, hroot, hbody⟩
  · have hterms : ∀ term ∈ body, term.Everywhere property :=
      h body (hbranches ▸ List.mem_cons_self)
    rw [hroot, hbody]
    exact ⟨.alternative (hread.alternative body) hterms, hterms⟩
  · have hchoice : (Node.disjunction (level.allBranches.map .alternative)).Everywhere property := by
      apply Node.Everywhere.disjunction (hread.disjunction _)
      intro branch hbranch
      obtain ⟨body, hmem, rfl⟩ := List.mem_map.mp hbranch
      exact .alternative (hread.alternative body) (h body hmem)
    rw [hroot, hbody]
    exact ⟨hchoice, List.forall_mem_singleton.mpr hchoice⟩

end Level

namespace Progress

/-- All nodes that were read have a property. -/
structure Everywhere (property : Node → Prop) (p : Progress) : Prop where
  level : p.level.Everywhere property
  openings : ∀ opening ∈ p.openings, opening.outer.Everywhere property

theorem everywhere_start : Progress.Everywhere property {} := ⟨Level.everywhere_start, nofun⟩

/-- A step brings only nodes with the property. -/
theorem Everywhere.step (hread : ReadOff pattern item property) (valid : pattern.Valid)
    {p q : Progress} {pos taken : Nat} {c : CodePoint} {rest : Text} (h : p.Everywhere property)
    (left : c :: rest <:+ pattern) (hstep : p.step pos c rest = .ok (q, taken)) :
    q.Everywhere property := by
  have hrest : rest <:+ pattern := (List.suffix_cons c rest).trans left
  rcases step_cases hstep with ⟨-, rfl, -⟩ | ⟨-, opening, openings, term, hopenings, hterm, rfl⟩ |
    ⟨-, behaviour, name, -, rfl⟩ | ⟨-, atom, width, term, markWidth, hatom, hterm, rfl, -⟩
  · exact ⟨h.level.split, h.openings⟩
  · have houter := h.openings
    rw [hopenings] at houter
    obtain ⟨hopening, hothers⟩ := List.forall_mem_cons.mp houter
    have hclosed : (opening.close p.level).Everywhere property :=
      .group (hread.group _ _ _ _) (h.level.root_body hread).2
    exact ⟨hopening.push (hread.term hrest hclosed hterm), hothers⟩
  · exact ⟨Level.everywhere_start, List.forall_mem_cons.mpr ⟨h.level, h.openings⟩⟩
  · have hdrop := (List.drop_suffix width rest).trans hrest
    exact ⟨h.level.push (hread.term hdrop (hread.atom valid left hatom) hterm), h.openings⟩

/-- A run that ends well ends in a tree that has the property everywhere. -/
theorem Everywhere.run (hread : ReadOff pattern item property) (valid : pattern.Valid) {pos : Nat}
    {p : Progress} {t : Text} {parsed : Parsed} (hrun : Progress.run 0 pos p t = .ok parsed)
    (h : p.Everywhere property) (left : t <:+ pattern) : parsed.root.Everywhere property := by
  induction pos, p, t, hrun using Progress.run_induction with
  | done pos p hrun =>
      obtain ⟨level, openings, count⟩ := p
      rw [Progress.run, finish] at hrun
      cases openings with
      | cons opening openings => cases hrun
      | nil =>
          cases hrun
          exact (h.level.root_body hread).1
  | step pos p c rest q taken _ _ hstep ih =>
      apply ih (h.step hread valid left hstep)
      exact ((List.drop_suffix taken rest).trans (List.suffix_cons c rest)).trans left

end Progress

theorem ReadOff.everywhere (h : ReadOff pattern item property) (valid : pattern.Valid)
    {parsed : Parsed} (hparse : parse pattern = .ok parsed) : parsed.root.Everywhere property :=
  Progress.everywhere_start.run h valid hparse List.suffix_rfl

end Pattern

end RegexTrace
