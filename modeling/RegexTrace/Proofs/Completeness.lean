import RegexTrace.Proofs.Parsing
import RegexTrace.Proofs.Spelling

/-!
# Every well-formed tree is the tree of a pattern

A well-formed tree that can be spelled is read back from its spelling. A term is read from its own
spelling whatever was read before it, as long as the numbers of its groups go on from there and no
mark follows; the tree of a whole pattern is read from the terms of its branches.

## Implementation notes

What can be repeated is read from its spelling even before a mark: then its term is still to be
read, from it and the mark together. This is what a repetition needs of its body.
-/

namespace RegexTrace

namespace Node

/-- The spelling of sequences with bars between them. -/
def spellBranches (branches : List (List Node)) : Text :=
  Text.join [Ascii.bar] (branches.map fun body => (spellEach body).flatten)

theorem spell_disjunction (branches : List (List Node)) :
    spell (.disjunction (branches.map .alternative)) = spellBranches branches := by
  rw [spell, spellEach_eq_map, List.map_map, spellBranches]
  exact congrArg _ (List.map_congr_left fun body _ => by rw [Function.comp_apply, spell])

theorem spellBranches_cons (body next : List Node) (rest : List (List Node)) :
    spellBranches (body :: next :: rest) =
      (spellEach body).flatten ++ Ascii.bar :: spellBranches (next :: rest) := by
  simp [spellBranches, Text.join]

end Node

namespace Pattern

/-- The numbers of capturing groups go on after so many groups. -/
def CountsOn : Nat → List (Option Int) → Prop
  | _, [] => True
  | count, number :: rest => number = some ((count + 1 : Nat) : Int) ∧ CountsOn (count + 1) rest

theorem countsOn_append {count : Nat} {numbers later : List (Option Int)} :
    CountsOn count (numbers ++ later) ↔
      CountsOn count numbers ∧ CountsOn (count + numbers.length) later := by
  induction numbers generalizing count with
  | nil => simp [CountsOn]
  | cons number numbers ih =>
      rw [List.cons_append, CountsOn, CountsOn, ih, List.length_cons, and_assoc,
        Nat.add_assoc, Nat.add_comm 1]

/-- The numbers from one on go on after no groups. -/
theorem countsOn_numbersTo (count : Nat) : CountsOn 0 (numbersTo count) := by
  induction count with
  | zero => trivial
  | succ count ih =>
      have hnumbers : numbersTo (count + 1) =
          numbersTo count ++ [some ((count + 1 : Nat) : Int)] := by
        simp [numbersTo, List.range_succ]
      have hlength : (numbersTo count).length = count := by simp [numbersTo]
      rw [hnumbers, countsOn_append, hlength, Nat.zero_add]
      exact ⟨ih, rfl, trivial⟩

/-- A text that begins with no sign of a mark. -/
def FreeOfMark (t : Text) : Prop :=
  ∀ c ∈ t.head?, c ∉ [Ascii.star, Ascii.plus, Ascii.question, Ascii.openBrace]

instance (t : Text) : Decidable (FreeOfMark t) :=
  inferInstanceAs (Decidable (∀ c ∈ t.head?, _))

theorem freeOfMark_cons {c : CodePoint} (h : FreeOfMark [c]) (t : Text) : FreeOfMark (c :: t) := h

/-- What was read once a term was read too, which is a node or a repetition of it. -/
def Progress.after (p : Progress) (node term : Node) : Progress :=
  { p with level := p.level.push term, groupCount := p.groupCount + node.captures.length }

/-- A node is read from its spelling as an atom, whatever follows it. -/
def ReadsAtom (node : Node) : Prop :=
  ∀ (p : Progress) (pos : Nat) (t : Text), CountsOn p.groupCount node.captures →
    ∃ start next, Progress.run 0 pos p (node.spell ++ t) =
      readTerm node start next t >>= fun (term, width) =>
        Progress.run 0 (next + width) (p.after node term) (t.drop width)

/-- A node is read back from its spelling as a term where no mark follows, and as an atom if it can
be repeated. -/
structure ReadsBack (node : Node) : Prop where
  valid : node.spell.Valid
  first : ∃ c l, node.spell = c :: l ∧ FreeOfMark [c]
  term : ∀ (p : Progress) (pos : Nat) (t : Text), FreeOfMark t →
    CountsOn p.groupCount node.captures →
    ∃ next, Progress.run 0 pos p (node.spell ++ t) = Progress.run 0 next (p.after node node) t
  atom : node.Repeatable → ReadsAtom node

namespace ReadsBack

/-- A node that is read as an atom is read as a term where no mark follows. -/
theorem of_readsAtom {node : Node} (valid : node.spell.Valid)
    (first : ∃ c l, node.spell = c :: l ∧ FreeOfMark [c]) (h : ReadsAtom node) :
    ReadsBack node where
  valid := valid
  first := first
  term := by
    intro p pos t ht hcount
    obtain ⟨start, next, hrun⟩ := h p pos t hcount
    rw [readTerm_eq_atom ht] at hrun
    exact ⟨next, hrun⟩
  atom := fun _ => h

/-- A node without groups that is no parenthesis and no bar is read by one step. -/
theorem of_readAtom {node : Node} {c : CodePoint} {l : Text} (hspell : node.spell = c :: l)
    (valid : Text.Valid (c :: l)) (hmark : FreeOfMark [c])
    (hstructure : c ∉ [Ascii.bar, Ascii.closeParen, Ascii.openParen])
    (hcaptures : node.captures = []) (h : ∀ t, readAtom c (l ++ t) = .ok (node, l.length)) :
    ReadsBack node := by
  simp only [List.mem_cons, List.not_mem_nil, or_false, not_or] at hstructure
  obtain ⟨hbar, hclose, hopen⟩ := hstructure
  apply of_readsAtom
  · rw [hspell]
    exact valid
  · exact ⟨c, l, hspell, hmark⟩
  · intro p pos t _
    refine ⟨pos, pos + 1 + l.length, ?_⟩
    rw [hspell, List.cons_append, Progress.run, Progress.step, if_neg hbar, if_neg hclose,
      if_neg hopen, h]
    simp only [List.drop_left, Progress.after, hcaptures, List.length_nil, Nat.add_zero]
    cases readTerm node pos (pos + 1 + l.length) t with
    | error fault => rfl
    | ok answer =>
        simp only [bind, Except.bind, pure, Except.pure]
        rw [Progress.run_skip, ← List.drop_drop, List.drop_left, Nat.add_assoc (pos + 1)]

end ReadsBack

section Sequences

variable {body : List Node} {branches : List (List Node)} {t : Text}

theorem ReadsBack.freeOfMark {node : Node} (h : ReadsBack node) (t : Text) :
    FreeOfMark (node.spell ++ t) := by
  obtain ⟨c, l, hspell, hc⟩ := h.first
  rw [hspell]
  exact hc

theorem freeOfMark_spellEach (h : ∀ term ∈ body, ReadsBack term) (ht : FreeOfMark t) :
    FreeOfMark ((Node.spellEach body).flatten ++ t) := by
  cases body with
  | nil => exact ht
  | cons term body =>
      rw [Node.spellEach, List.flatten_cons, List.append_assoc]
      exact (h term List.mem_cons_self).freeOfMark _

theorem freeOfMark_spellBranches (h : ∀ body ∈ branches, ∀ term ∈ body, ReadsBack term)
    (ht : FreeOfMark t) : FreeOfMark (Node.spellBranches branches ++ t) := by
  match branches with
  | [] => exact ht
  | [body] => exact freeOfMark_spellEach (h body List.mem_cons_self) ht
  | body :: next :: rest =>
      rw [Node.spellBranches_cons, List.append_assoc]
      exact freeOfMark_spellEach (h body List.mem_cons_self) (freeOfMark_cons (by decide) _)

/-- Terms are read one after the other. -/
theorem run_spellEach (h : ∀ term ∈ body, ReadsBack term) (ht : FreeOfMark t) (p : Progress)
    (pos : Nat) (hcount : CountsOn p.groupCount (Node.capturesAll body)) :
    ∃ next, Progress.run 0 pos p ((Node.spellEach body).flatten ++ t) =
      Progress.run 0 next ⟨⟨p.level.branches, body.reverse ++ p.level.terms⟩, p.openings,
        p.groupCount + (Node.capturesAll body).length⟩ t := by
  induction body generalizing p pos with
  | nil => exact ⟨pos, rfl⟩
  | cons term body ih =>
      obtain ⟨hterm, hbody⟩ := List.forall_mem_cons.mp h
      rw [Node.capturesAll, countsOn_append] at hcount
      obtain ⟨next, hfirst⟩ := hterm.term p pos ((Node.spellEach body).flatten ++ t)
        (freeOfMark_spellEach hbody ht) hcount.1
      obtain ⟨last, hrest⟩ := ih hbody (p.after term term) next hcount.2
      refine ⟨last, ?_⟩
      rw [Node.spellEach, List.flatten_cons, List.append_assoc, hfirst, hrest]
      simp [Progress.after, Level.push, Node.capturesAll, Nat.add_assoc]

/-- Branches are read one after the other. -/
theorem run_spellBranches (hne : branches ≠ [])
    (h : ∀ body ∈ branches, ∀ term ∈ body, ReadsBack term) (ht : FreeOfMark t) (p : Progress)
    (pos : Nat) (hterms : p.level.terms = [])
    (hcount : CountsOn p.groupCount (branches.flatMap Node.capturesAll)) :
    ∃ next level, level.allBranches = p.level.branches.reverse ++ branches ∧
      Progress.run 0 pos p (Node.spellBranches branches ++ t) =
        Progress.run 0 next ⟨level, p.openings,
          p.groupCount + (branches.flatMap Node.capturesAll).length⟩ t := by
  induction branches generalizing p pos with
  | nil => exact absurd rfl hne
  | cons body rest ih =>
      obtain ⟨hbody, hrest⟩ := List.forall_mem_cons.mp h
      rw [List.flatMap_cons, countsOn_append] at hcount
      cases rest with
      | nil =>
          obtain ⟨next, hrun⟩ := run_spellEach hbody ht p pos hcount.1
          refine ⟨next, ⟨p.level.branches, body.reverse ++ p.level.terms⟩, ?_, ?_⟩
          · simp [Level.allBranches, hterms]
          · simpa [Node.spellBranches, Text.join] using hrun
      | cons second rest =>
          obtain ⟨next, hrun⟩ := run_spellEach (t := Ascii.bar ::
            (Node.spellBranches (second :: rest) ++ t)) hbody (freeOfMark_cons (by decide) _)
            p pos hcount.1
          obtain ⟨last, level, hlevel, hrun'⟩ := ih (List.cons_ne_nil second rest) hrest
            ⟨⟨(body.reverse ++ p.level.terms).reverse :: p.level.branches, []⟩, p.openings,
              p.groupCount + (Node.capturesAll body).length⟩ (next + 1) rfl hcount.2
          refine ⟨last, level, ?_, ?_⟩
          · simp [hlevel, hterms]
          · rw [Node.spellBranches_cons, List.append_assoc, List.cons_append, hrun, Progress.run]
            rw [List.flatMap_cons, List.length_append, ← Nat.add_assoc, ← hrun']
            rfl

theorem valid_spellEach (h : ∀ term ∈ body, ReadsBack term) :
    Text.Valid (Node.spellEach body).flatten := by
  intro c hc
  rw [Node.spellEach_eq_map] at hc
  obtain ⟨t, ht, hc⟩ := List.mem_flatten.mp hc
  obtain ⟨term, hterm, rfl⟩ := List.mem_map.mp ht
  exact (h term hterm).valid c hc

/-- Branches are spelled by code points. -/
theorem valid_spellBranches (h : ∀ body ∈ branches, ∀ term ∈ body, ReadsBack term) :
    (Node.spellBranches branches).Valid := by
  induction branches with
  | nil => exact nofun
  | cons body rest ih =>
      obtain ⟨hbody, hrest⟩ := List.forall_mem_cons.mp h
      cases rest with
      | nil => exact valid_spellEach hbody
      | cons next rest =>
          rw [Node.spellBranches_cons]
          have hlater : Text.Valid (Ascii.bar :: Node.spellBranches (next :: rest)) :=
            List.forall_mem_cons.mpr ⟨by decide, ih hrest⟩
          exact List.forall_mem_append.mpr ⟨valid_spellEach hbody, hlater⟩

end Sequences

theorem valid_spellCodePoint (c : Int) : (spellCodePoint c).Valid := by
  have hdigits := Text.valid_map_toNat (Nat.toDigits 16 c.toNat)
  rw [← Text.hex_zero] at hdigits
  have hrest : Text.Valid (Text.hex 0 c.toNat ++ [Ascii.closeBrace]) :=
    List.forall_mem_append.mpr ⟨hdigits, by decide⟩
  refine List.forall_mem_cons.mpr ⟨by decide, List.forall_mem_cons.mpr ⟨by decide, ?_⟩⟩
  exact List.forall_mem_cons.mpr ⟨by decide, hrest⟩

theorem valid_spellEscape {kind : EscapeKind} (h : kind.Known) :
    Text.Valid (Ascii.backslash :: kind.letter) := by
  have shared : (ClassSign.escape kind).Shared := h
  exact Text.valid_of_isSpelling shared.isSpelling

/-- Items are spelled by code points. -/
theorem valid_spellItem {item : Node} (h : item.IsItem) (supported : item.Spellable) :
    item.spellItem.Valid := by
  cases item with
  | value c => exact valid_spellCodePoint c
  | range min max =>
      refine List.forall_mem_append.mpr ⟨valid_spellCodePoint min, ?_⟩
      exact List.forall_mem_cons.mpr ⟨by decide, valid_spellCodePoint max⟩
  | escape kind => exact valid_spellEscape h
  | unsupported kind raw => exact supported.elim
  | _ => exact h.elim

/-- What opens a group is spelled by code points. -/
theorem valid_spellOpening (behaviour : Behaviour) {name : Option Text}
    (named : ∀ t ∈ name, Node.IsGroupName t) : (spellOpening behaviour name).Valid := by
  unfold spellOpening
  split
  · next name =>
      have hname : name.Valid := by
        intro c hc
        rcases (named name rfl).2.1 c hc with hc | rfl | rfl
        · exact Nat.lt_of_le_of_lt (Ascii.IsSpelling.of_isAlphanumeric hc).2.1 (by decide)
        · decide
        · decide
      refine List.forall_mem_cons.mpr ⟨by decide, List.forall_mem_cons.mpr ⟨by decide, ?_⟩⟩
      exact List.forall_mem_append.mpr ⟨hname, by decide⟩
  · decide
  · decide +revert
  · decide +revert
  · exact nofun

section Groups

/-- What opens a group is taken with its parenthesis. -/
theorem run_opening {opening t : Text} {behaviour : Behaviour} {name : Option Text}
    (h : readOpening (opening ++ t) = .ok (behaviour, name, opening.length)) (p : Progress)
    (pos : Nat) :
    Progress.run 0 pos p (Ascii.openParen :: (opening ++ t)) =
      Progress.run 0 (pos + 1 + opening.length) (p.openGroup pos behaviour name) t := by
  rw [Progress.run, Progress.step, if_neg (by decide), if_neg (by decide), if_pos rfl, h]
  simp only [bind, Except.bind]
  rw [Progress.run_skip, List.drop_left]

/-- A closing parenthesis makes a term of the innermost level. -/
theorem run_closing (level : Level) (opening : Opening) (openings : List Opening)
    (count next : Nat) (t : Text) :
    Progress.run 0 next ⟨level, opening :: openings, count⟩ (Ascii.closeParen :: t) =
      readTerm (opening.close level) opening.openedAt (next + 1) t >>= fun (term, width) =>
        Progress.run 0 (next + 1 + width) ⟨opening.outer.push term, openings, count⟩
          (t.drop width) := by
  rw [Progress.run, Progress.step, if_neg (by decide), if_pos rfl]
  cases hterm : readTerm (opening.close level) opening.openedAt (next + 1) t with
  | error fault =>
      simp only [hterm]
      rfl
  | ok answer =>
      simp only [hterm, bind, Except.bind, pure, Except.pure]
      rw [Progress.run_skip]

/-- A group that is closed has its label, its body and, if it captures, the number that is next. -/
theorem close_eq_group {behaviour : Behaviour} {body : List Node} {name : Option Text}
    {number : Option Int} (labels : Node.LabelsFit behaviour name number) {count pos : Nat}
    (hcount : CountsOn count (if behaviour = .capturing then [number] else []))
    {level : Level} (hbody : level.body = body) (outer : Level) :
    Opening.close ⟨pos, behaviour, name,
      if behaviour = .capturing then some (count + 1) else none, outer⟩ level =
      .group behaviour body name number := by
  rw [Opening.close, hbody]
  by_cases hcapturing : behaviour = .capturing
  · rw [if_pos hcapturing] at hcount ⊢
    rw [hcount.1]
    rfl
  · rw [if_neg hcapturing]
    have hnone : number = none := by
      by_contra hsome
      exact hcapturing (labels.2.2.mp hsome)
    rw [hnone]
    rfl

/-- The number of a group that captures is counted before the groups inside. -/
theorem groupCount_openGroup (p : Progress) (pos : Nat) (behaviour : Behaviour)
    (name : Option Text) (number : Option Int) :
    (p.openGroup pos behaviour name).groupCount =
      p.groupCount + (if behaviour = .capturing then [number] else []).length := by
  by_cases hcapturing : behaviour = .capturing
  · simp [Progress.openGroup, hcapturing]
  · simp [Progress.openGroup, hcapturing]

end Groups

namespace ReadsBack

/-- A group is read back if its branches are. -/
theorem of_group (branches : List (List Node)) {behaviour : Behaviour} {body : List Node}
    {name : Option Text} {number : Option Int} (labels : Node.LabelsFit behaviour name number)
    (named : ∀ t ∈ name, Node.IsGroupName t) (hne : branches ≠ [])
    (h : ∀ branch ∈ branches, ∀ term ∈ branch, ReadsBack term)
    (hspell : (Node.spellEach body).flatten = Node.spellBranches branches)
    (hcaptures : Node.capturesAll body = branches.flatMap Node.capturesAll)
    (hbody : ∀ level : Level, level.allBranches = branches → level.body = body) :
    ReadsBack (.group behaviour body name number) := by
  have hlead : Node.spell (.group behaviour body name number) = Ascii.openParen ::
      (spellOpening behaviour name ++ (Node.spellBranches branches ++ [Ascii.closeParen])) := by
    rw [Node.spell, hspell]
  apply of_readsAtom
  · rw [hlead]
    refine List.forall_mem_cons.mpr ⟨by decide, List.forall_mem_append.mpr ?_⟩
    refine ⟨valid_spellOpening behaviour named, List.forall_mem_append.mpr ⟨?_, by decide⟩⟩
    exact valid_spellBranches h
  · exact ⟨_, _, hlead, by decide⟩
  · intro p pos t hcount
    rw [Node.captures, hcaptures, countsOn_append] at hcount
    obtain ⟨hnumber, hinner⟩ := hcount
    rw [← groupCount_openGroup p pos behaviour name] at hinner
    have hmark : FreeOfMark (Node.spellBranches branches ++ Ascii.closeParen :: t) :=
      freeOfMark_spellBranches h (freeOfMark_cons (by decide) t)
    have hopening := readOpening_spell labels.1 labels.2.1 named
      (t := Node.spellBranches branches ++ Ascii.closeParen :: t)
      fun hhead => hmark _ hhead (by decide)
    obtain ⟨next, level, hlevel, hrun⟩ := run_spellBranches (t := Ascii.closeParen :: t) hne h
      (freeOfMark_cons (by decide) t) (p.openGroup pos behaviour name)
      (pos + 1 + (spellOpening behaviour name).length) rfl hinner
    have hgroups : (p.openGroup pos behaviour name).groupCount +
        (branches.flatMap Node.capturesAll).length =
        p.groupCount + (Node.captures (.group behaviour body name number)).length := by
      rw [groupCount_openGroup p pos behaviour name number, Node.captures, hcaptures,
        List.length_append, Nat.add_assoc]
    refine ⟨pos, next + 1, ?_⟩
    calc Progress.run 0 pos p (Node.spell (.group behaviour body name number) ++ t)
        = Progress.run 0 (pos + 1 + (spellOpening behaviour name).length)
            (p.openGroup pos behaviour name)
            (Node.spellBranches branches ++ Ascii.closeParen :: t) := by
          rw [hlead, ← run_opening hopening]
          simp only [List.cons_append, List.append_assoc, List.nil_append]
      _ = Progress.run 0 next ⟨level, (p.openGroup pos behaviour name).openings,
            (p.openGroup pos behaviour name).groupCount +
              (branches.flatMap Node.capturesAll).length⟩ (Ascii.closeParen :: t) := hrun
      _ = readTerm (.group behaviour body name number) pos (next + 1) t >>= fun (term, width) =>
            Progress.run 0 (next + 1 + width)
              (p.after (.group behaviour body name number) term) (t.drop width) := by
          rw [hgroups, Progress.openGroup, run_closing,
            close_eq_group labels hnumber (hbody level hlevel)]
          rfl

theorem of_readEscape {node : Node} {l : Text} (hspell : node.spell = Ascii.backslash :: l)
    (valid : Text.Valid (Ascii.backslash :: l)) (hcaptures : node.captures = [])
    (h : ∀ t, readEscape false (l ++ t) = .ok (node, l.length)) : ReadsBack node :=
  of_readAtom hspell valid (by decide) (by decide) hcaptures h

/-- A class is read back. -/
theorem of_charClass {negative : Bool} {items : List Node} (h : ∀ item ∈ items, item.IsItem)
    (supported : ∀ item ∈ items, item.Spellable) : ReadsBack (.charClass negative items) := by
  have hspell : Node.spell (.charClass negative items) = Ascii.openBracket ::
      ((if negative then [Ascii.caret] else []) ++
        (items.flatMap Node.spellItem ++ [Ascii.closeBracket])) := by rw [Node.spell]
  have valid : Text.Valid (Ascii.openBracket :: ((if negative then [Ascii.caret] else []) ++
      (items.flatMap Node.spellItem ++ [Ascii.closeBracket]))) := by
    have hitems : Text.Valid (items.flatMap Node.spellItem) := by
      intro c hc
      obtain ⟨item, hitem, hc⟩ := List.mem_flatMap.mp hc
      exact valid_spellItem (h item hitem) (supported item hitem) c hc
    refine List.forall_mem_cons.mpr ⟨by decide, List.forall_mem_append.mpr ⟨?_, ?_⟩⟩
    · cases negative <;> decide
    · exact List.forall_mem_append.mpr ⟨hitems, by decide⟩
  apply of_readAtom hspell valid (by decide) (by decide) (by simp [Node.captures])
  intro t
  have hread := readClass_items negative h supported t
  rw [readAtom, if_pos rfl, List.append_assoc, List.append_assoc, List.singleton_append, hread]
  simp

/-- A repetition is read back if what is repeated is read as an atom. -/
theorem of_quantifier {min : Int} {max : Option Int} {greedy : Bool} {body : Node}
    {shorthand : Option Shorthand} (nonnegative : 0 ≤ min)
    (ordered : ∀ limit, max = some limit → min ≤ limit) (repeatable : body.Repeatable)
    (spelling : Node.ShorthandFits min max shorthand)
    (short : ∀ bound ∈ min :: max.toList, (Text.ofInt bound).length ≤ Numeral.digitLimit)
    (h : ReadsBack body) : ReadsBack (.quantifier min max greedy body shorthand) where
  valid := by
    obtain ⟨shared, -⟩ := bounds_ofBounds nonnegative ordered spelling short
    rw [Node.spell]
    refine List.forall_mem_append.mpr ⟨h.valid, List.forall_mem_append.mpr ⟨?_, ?_⟩⟩
    · exact Text.valid_of_isSpelling (MarkSign.Shared.isSpelling shared)
    · cases greedy <;> decide
  first := by
    obtain ⟨c, l, hspell, hc⟩ := h.first
    exact ⟨c, _, by rw [Node.spell, hspell, List.cons_append], hc⟩
  term := by
    intro p pos t ht hcount
    rw [Node.captures] at hcount
    have hanchor : isAnchor body = false := by
      cases body with
      | anchor kind => exact repeatable.elim
      | _ => rfl
    have hquestion : t.head? ≠ some Ascii.question := fun hhead => ht _ hhead (by decide)
    obtain ⟨start, next, hrun⟩ := h.atom repeatable p pos
      ((MarkSign.ofBounds min max shorthand).spell ++ lazySign greedy ++ t) hcount
    rw [readTerm_ofBounds nonnegative ordered spelling short hanchor greedy hquestion] at hrun
    refine ⟨next + ((MarkSign.ofBounds min max shorthand).spell ++ lazySign greedy).length, ?_⟩
    rw [Node.spell, List.append_assoc, hrun]
    simp only [bind, Except.bind, List.drop_left, Progress.after, Node.captures]
  atom := nofun

end ReadsBack

/-- A well-formed term that can be spelled is read back from its spelling. -/
theorem readsBack_of_isTerm {node : Node} (h : node.IsTerm)
    (spellable : ∀ inner ∈ node.subnodes, inner.Spellable) : ReadsBack node := by
  induction h with
  | @anchor kind known =>
      have hcaptures : (Node.anchor kind).captures = [] := by simp [Node.captures]
      cases kind with
      | start =>
          exact .of_readAtom rfl (by decide) (by decide) (by decide) hcaptures fun t => rfl
      | finish =>
          exact .of_readAtom rfl (by decide) (by decide) (by decide) hcaptures fun t => rfl
      | boundary => exact .of_readEscape rfl (by decide) hcaptures fun t => rfl
      | notBoundary => exact .of_readEscape rfl (by decide) hcaptures fun t => rfl
      | other name => exact known.elim
  | @value c codePoint =>
      have hspell : Node.spell (.value c) = Ascii.backslash :: (spellCodePoint c).tail := by
        rw [Node.spell]
        rfl
      refine .of_readEscape hspell (valid_spellCodePoint c) ?_
        (readEscape_codePoint false codePoint)
      simp [Node.captures]
  | dot =>
      refine .of_readAtom rfl (by decide) (by decide) (by decide) ?_ fun t => rfl
      simp [Node.captures]
  | @escape kind known =>
      have hspell : Node.spell (.escape kind) = Ascii.backslash :: kind.letter := by rw [Node.spell]
      refine .of_readEscape hspell (valid_spellEscape known) ?_ (readEscape_letter false known)
      simp [Node.captures]
  | charClass known =>
      refine .of_charClass known fun item hitem => spellable item ?_
      rw [Node.subnodes]
      exact List.mem_cons_of_mem _
        (Node.mem_subnodesAll.mpr ⟨item, hitem, Node.mem_subnodes_self item⟩)
  | unsupported known => exact (spellable _ (Node.mem_subnodes_self _)).elim
  | @run behaviour body name number labels terms ih =>
      have hterms : ∀ term ∈ body, ReadsBack term := by
        intro term hterm
        refine ih term hterm fun inner hinner => spellable inner ?_
        rw [Node.subnodes]
        exact List.mem_cons_of_mem _ (Node.mem_subnodesAll.mpr ⟨term, hterm, hinner⟩)
      have named := spellable _ (Node.mem_subnodes_self _)
      refine .of_group [body] labels named (List.cons_ne_nil _ _)
        (List.forall_mem_singleton.mpr hterms) (by simp [Node.spellBranches, Text.join])
        (by simp) fun level hlevel => ?_
      rw [Level.body, Level.root, hlevel]
  | @choice behaviour branches name number labels several terms ih =>
      have hterms : ∀ body ∈ branches, ∀ term ∈ body, ReadsBack term := by
        intro body hbody term hterm
        refine ih body hbody term hterm fun inner hinner => spellable inner ?_
        rw [Node.subnodes, Node.subnodesAll, Node.subnodesAll, Node.subnodes, List.append_nil]
        have hmem := Node.mem_subnodesAll_branches hinner hterm hbody
        exact List.mem_cons_of_mem _ (List.mem_cons_of_mem _ hmem)
      have named := spellable _ (Node.mem_subnodes_self _)
      have hne : branches ≠ [] := by
        rintro rfl
        exact absurd several (by decide)
      refine .of_group branches labels named hne hterms ?_ ?_ fun level hlevel => ?_
      · rw [Node.spellEach, Node.spellEach, Node.spell_disjunction]
        simp
      · simp [Node.capturesAll, Node.captures, Node.capturesAll_map_alternative]
      · exact (level.of_several hlevel several).2
  | quantifier nonnegative ordered term repeatable spelling ih =>
      refine .of_quantifier nonnegative ordered repeatable spelling
        (spellable _ (Node.mem_subnodes_self _)) (ih fun inner hinner => spellable inner ?_)
      rw [Node.subnodes]
      exact List.mem_cons_of_mem _ hinner

/-- The branches of a pattern that are read back, read on their own. -/
theorem parse_spellBranches (branches : List (List Node)) {count : Nat} (hne : branches ≠ [])
    (h : ∀ body ∈ branches, ∀ term ∈ body, ReadsBack term)
    (numbered : branches.flatMap Node.capturesAll = numbersTo count) :
    ∃ level : Level, level.allBranches = branches ∧
      parse (Node.spellBranches branches) = .ok ⟨level.root, count⟩ := by
  have hcount := countsOn_numbersTo count
  rw [← numbered] at hcount
  obtain ⟨next, level, hlevel, hrun⟩ :=
    run_spellBranches (t := []) hne h (by decide) {} 0 rfl hcount
  refine ⟨level, hlevel, ?_⟩
  rw [List.append_nil, numbered] at hrun
  rw [parse, hrun, Progress.run]
  simp [Progress.finish, numbersTo]

/-- Every well-formed tree that can be spelled is the tree of a pattern: of its own spelling. -/
theorem parse_spell {root : Node} {count : Nat} (pattern : root.IsPattern)
    (spellable : ∀ node ∈ root.subnodes, node.Spellable)
    (numbered : root.captures = numbersTo count) :
    root.spell.Valid ∧ parse root.spell = .ok ⟨root, count⟩ := by
  cases pattern with
  | @run body terms =>
      have hterms : ∀ term ∈ body, ReadsBack term := by
        intro term hterm
        refine readsBack_of_isTerm (terms term hterm) fun inner hinner => spellable inner ?_
        rw [Node.subnodes]
        exact List.mem_cons_of_mem _ (Node.mem_subnodesAll.mpr ⟨term, hterm, hinner⟩)
      have hspell : Node.spell (.alternative body) = Node.spellBranches [body] := by
        rw [Node.spell]
        rfl
      rw [Node.captures] at numbered
      obtain ⟨level, hlevel, hparse⟩ := parse_spellBranches [body]
        (List.cons_ne_nil _ _) (List.forall_mem_singleton.mpr hterms) (by simpa using numbered)
      rw [hspell]
      refine ⟨valid_spellBranches (List.forall_mem_singleton.mpr hterms), ?_⟩
      rw [hparse, Level.root, hlevel]
  | @choice branches several terms =>
      have hterms : ∀ body ∈ branches, ∀ term ∈ body, ReadsBack term := by
        intro body hbody term hterm
        refine readsBack_of_isTerm (terms body hbody term hterm) fun inner hinner =>
          spellable inner ?_
        rw [Node.subnodes]
        exact List.mem_cons_of_mem _ (Node.mem_subnodesAll_branches hinner hterm hbody)
      have hne : branches ≠ [] := by
        rintro rfl
        exact absurd several (by decide)
      rw [Node.captures, Node.capturesAll_map_alternative] at numbered
      obtain ⟨level, hlevel, hparse⟩ := parse_spellBranches branches hne hterms numbered
      rw [Node.spell_disjunction]
      refine ⟨valid_spellBranches hterms, ?_⟩
      rw [hparse, (level.of_several hlevel several).1]

/-- A named group around a class that is repeated lazily, or else a surrogate. -/
theorem parse_spell_named :
    ∃ root : Node,
      root.spell = "(?<a$1>[^\\u\x7b5d\x7d-\\u\x7b5e\x7d]\x7b2,3\x7d?)|\\u\x7bd800\x7d" ∧
      root.IsPattern ∧ (∀ node ∈ root.subnodes, node.Spellable) ∧ root.captures = numbersTo 1 ∧
      root.spell.Valid ∧ parse root.spell = .ok ⟨root, 1⟩ := by
  let repeated : Node := .quantifier 2 (some 3) false (.charClass true [.range 0x5D 0x5E]) none
  let group : Node := .group .capturing [repeated] (some "a$1") (some 1)
  let root : Node := .disjunction ([[group], [.value 0xD800]].map .alternative)
  have hitems : ∀ item ∈ [Node.range 0x5D 0x5E], item.IsItem :=
    List.forall_mem_singleton.mpr ⟨by decide, by decide, by decide⟩
  have hrepeated : repeated.IsTerm :=
    .quantifier (by decide) (by decide) (.charClass hitems) trivial trivial
  have hgroup : group.IsTerm :=
    .run ⟨trivial, fun _ => rfl, by simp⟩ (List.forall_mem_singleton.mpr hrepeated)
  have pattern : root.IsPattern := by
    refine .choice (by decide) (List.forall_mem_cons.mpr ⟨?_, ?_⟩)
    · exact List.forall_mem_singleton.mpr hgroup
    · exact List.forall_mem_singleton.mpr (List.forall_mem_singleton.mpr (.value (by decide)))
  have spellable : ∀ node ∈ root.subnodes, node.Spellable := by decide
  have numbered : root.captures = numbersTo 1 := by decide
  exact ⟨root, by decide, pattern, spellable, numbered, parse_spell pattern spellable numbered⟩

end Pattern

end RegexTrace
