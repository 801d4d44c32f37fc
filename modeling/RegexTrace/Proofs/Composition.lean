import RegexTrace.Proofs.Delimiting

/-!
# Reading is compositional

A pattern is read the same way on its own and inside a larger one: before a bar, after a bar, and
between parentheses. Only its capturing groups are numbered after those that open before it.

## Implementation notes

A reading inside a larger pattern is related to the reading on its own by its surroundings: what
was read before, which is the same at every moment. They show at the outermost level of the inner
pattern only, and every step keeps them as they are.
-/

namespace RegexTrace

namespace Node

mutual

/-- A tree whose groups are numbered after so many others. -/
def raise (count : Nat) : Node → Node
  | .alternative body => .alternative (raiseAll count body)
  | .disjunction branches => .disjunction (raiseAll count branches)
  | .group behaviour body name number =>
    .group behaviour (raiseAll count body) name (number.map (· + (count : Int)))
  | .quantifier min max greedy body shorthand =>
    .quantifier min max greedy (raise count body) shorthand
  | node => node

/-- Trees whose groups are numbered after so many others. -/
def raiseAll (count : Nat) : List Node → List Node
  | [] => []
  | node :: rest => raise count node :: raiseAll count rest

end

theorem raiseAll_eq_map (count : Nat) (nodes : List Node) :
    raiseAll count nodes = nodes.map (raise count) := by
  induction nodes with
  | nil => rw [raiseAll, List.map_nil]
  | cons node nodes ih => rw [raiseAll, List.map_cons, ih]

mutual

theorem raise_zero : ∀ node : Node, node.raise 0 = node
  | .alternative body => by rw [raise, raiseAll_zero body]
  | .disjunction branches => by rw [raise, raiseAll_zero branches]
  | .group behaviour body name number => by
      rw [raise, raiseAll_zero body]
      cases number <;> simp
  | .quantifier min max greedy body shorthand => by rw [raise, raise_zero body]
  | .anchor _ | .value _ | .dot | .escape _ | .charClass _ _ | .unsupported _ _ | .range _ _
  | .alien | .absent => by rw [raise] <;> nofun

theorem raiseAll_zero : ∀ nodes : List Node, raiseAll 0 nodes = nodes
  | [] => by rw [raiseAll]
  | node :: rest => by rw [raiseAll, raise_zero node, raiseAll_zero rest]

end

/-- The branches of the tree of a pattern: those of a choice, or else the tree itself. -/
def branches : Node → List Node
  | .disjunction branches => branches
  | node => [node]

/-- The elements of the tree of a pattern: those of a sequence, or else the tree itself. -/
def elements : Node → List Node
  | .alternative body => body
  | node => [node]

end Node

namespace Pattern

/-- An atom that is no group stays the same wherever it stands. -/
theorem raise_of_readAtom {c : CodePoint} {rest : Text} (valid : rest.Valid) {atom : Node}
    {width : Nat} (h : readAtom c rest = .ok (atom, width)) (count : Nat) :
    atom.raise count = atom := by
  have hclass : ∀ negative items, (Node.charClass negative items).raise count =
      .charClass negative items := fun negative items => by rw [Node.raise] <;> nofun
  unfold readAtom at h
  split at h
  · unfold readClass at h
    split at h
    all_goals
      obtain ⟨found, -, heq⟩ := exists_of_map_ok h
      cases heq
      exact hclass _ _
  split at h
  · cases h
    rw [Node.raise] <;> nofun
  split at h
  · cases h
    rw [Node.raise] <;> nofun
  split at h
  · cases h
    rw [Node.raise] <;> nofun
  split at h
  · have hescape := readEscape_fits false valid
    rw [h] at hescape
    cases atom with
    | anchor _ | value _ | escape _ | unsupported _ _ => rw [Node.raise] <;> nofun
    | _ => exact hescape.1.elim
  split at h
  · cases h
  · cases h
    rw [Node.raise] <;> nofun

/-- A level whose groups are numbered after so many others. -/
def Level.raise (count : Nat) (level : Level) : Level where
  branches := level.branches.map (·.map (Node.raise count))
  terms := level.terms.map (Node.raise count)

namespace Level

variable (count : Nat) (level : Level)

theorem allBranches_raise :
    (level.raise count).allBranches = level.allBranches.map (·.map (Node.raise count)) := by
  simp [Level.raise, allBranches]

theorem root_raise : (level.raise count).root = level.root.raise count := by
  unfold root
  rw [allBranches_raise]
  match level.allBranches with
  | [] => simp [Node.raise, Node.raiseAll]
  | [body] => simp [Node.raise, Node.raiseAll_eq_map]
  | first :: second :: rest =>
      simp [Node.raise, Node.raiseAll_eq_map, Function.comp_def]

theorem body_eq_elements : level.body = level.root.elements := by
  unfold body
  split <;> simp_all [Node.elements]

theorem body_raise : (level.raise count).body = level.body.map (Node.raise count) := by
  rw [body_eq_elements, body_eq_elements, root_raise]
  rcases level.root_cases with ⟨body, -, hroot, -⟩ | ⟨-, hroot, -⟩
  · simp [hroot, Node.raise, Node.elements, Node.raiseAll_eq_map]
  · simp [hroot, Node.raise, Node.elements]

theorem raise_split : level.split.raise count = (level.raise count).split := by
  simp [Level.raise, split]

end Level

/-- A term is an atom after others as it is on its own: its mark is the same. -/
theorem readTerm_raise {atom term : Node} {start next width : Nat} {rest : Text}
    (h : readTerm atom start next rest = .ok (term, width)) (count start' next' : Nat) :
    readTerm (atom.raise count) start' next' rest = .ok (term.raise count, width) := by
  have hanchor : isAnchor (atom.raise count) = isAnchor atom := by
    cases atom <;> rw [Node.raise] <;> first | rfl | nofun
  unfold readTerm at h ⊢
  split at h
  · cases h
  · cases h
  · cases h
    rfl
  · next repetition hread =>
      split at h
      · cases h
      · next hnot =>
          cases h
          rw [hanchor, if_neg hnot, Repetition.apply, Repetition.apply, Node.raise]

/-- What was read before an inner pattern: so many code points and capturing groups, the branches
that are complete at the level where it stands, the latest first, and the groups that are open. -/
structure Surroundings where
  offset : Nat
  count : Nat
  branches : List (List Node)
  openings : List Opening

namespace Surroundings

variable (around : Surroundings)

/-- A level of the inner pattern. The branches that were complete before it are at its outermost
level. -/
def placeLevel (outermost : Bool) (level : Level) : Level where
  branches := (level.raise around.count).branches ++ if outermost then around.branches else []
  terms := (level.raise around.count).terms

/-- The open groups of the inner pattern and those around it. -/
def placeOpenings : List Opening → List Opening
  | [] => around.openings
  | opening :: outer =>
    ⟨opening.openedAt + around.offset, opening.behaviour, opening.name,
      opening.number.map (· + around.count), around.placeLevel outer.isEmpty opening.outer⟩ ::
      placeOpenings outer

/-- What was read of the inner pattern, and before it. -/
def place (p : Progress) : Progress where
  level := around.placeLevel p.openings.isEmpty p.level
  openings := around.placeOpenings p.openings
  groupCount := around.count + p.groupCount

theorem placeLevel_split (outermost : Bool) (level : Level) :
    around.placeLevel outermost level.split = (around.placeLevel outermost level).split := by
  rw [placeLevel, Level.raise_split]
  rfl

theorem placeLevel_false (level : Level) :
    around.placeLevel false level = level.raise around.count := by
  simp [placeLevel]

variable {around} {p q : Progress} {pos taken : Nat} {c : CodePoint} {a s : Text}

/-- A step of the inner pattern is the same step in its surroundings, if the text goes on at a
fence. -/
theorem place_step (hs : Fenced s) (valid : Text.Valid (c :: a))
    (h : p.step pos c a = .ok (q, taken)) :
    (around.place p).step (pos + around.offset) c (a ++ s) = .ok (around.place q, taken) := by
  unfold Progress.step
  rcases Progress.step_cases h with ⟨hbar, rfl, rfl⟩ |
    ⟨rfl, opening, openings, term, hopenings, hterm, rfl⟩ | ⟨rfl, behaviour, name, hopening, rfl⟩ |
    ⟨hc, atom, width, term, markWidth, hatom, hterm, rfl, rfl⟩
  · rw [if_pos hbar]
    simp only [place, placeLevel_split]
  · obtain ⟨level, openings, groups⟩ := p
    obtain rfl := hopenings
    rw [if_neg (by decide), if_pos rfl]
    have hatom : (opening.close level).raise around.count =
        Opening.close ⟨opening.openedAt + around.offset, opening.behaviour, opening.name,
          opening.number.map (· + around.count),
          around.placeLevel openings.isEmpty opening.outer⟩
          (around.placeLevel false level) := by
      rw [Opening.close, Opening.close, placeLevel_false, Level.body_raise, Node.raise,
        Node.raiseAll_eq_map]
      cases opening.number <;> simp
    have hraised := readTerm_raise hterm around.count (opening.openedAt + around.offset)
      (pos + around.offset + 1)
    rw [← hs.readTerm_append, hatom] at hraised
    simp only [place, placeOpenings, List.isEmpty_cons, hraised, bind, Except.bind]
    rfl
  · rw [if_neg (by decide), if_neg (by decide), if_pos rfl, hs.readOpening_append hopening]
    simp only [place, Progress.openGroup, placeOpenings, List.isEmpty_cons]
    by_cases hcapturing : behaviour = .capturing
    · simp [hcapturing, placeLevel, Level.raise, Nat.add_assoc, Nat.add_comm]
    · simp [hcapturing, placeLevel, Level.raise]
  · simp only [List.mem_cons, List.not_mem_nil, or_false, not_or] at hc
    rw [if_neg hc.1, if_neg hc.2.1, if_neg hc.2.2]
    have hwidth : width ≤ a.length := by
      have hfits := readAtom_fits valid
      rw [hatom] at hfits
      exact hfits.2
    have hraised := readTerm_raise hterm around.count (pos + around.offset)
      (pos + around.offset + 1 + width)
    rw [raise_of_readAtom valid.tail hatom, ← hs.readTerm_append,
      ← List.drop_append_of_le_length hwidth] at hraised
    rw [hs.readAtom_append hatom]
    simp only [hraised, bind, Except.bind]
    rfl

/-- The reading of an inner pattern is the same reading in its surroundings, up to the fence where
the text goes on. -/
theorem place_run (hs : Fenced s) (sound : p.Sound pos) (valid : a.Valid) {parsed : Parsed}
    (h : Progress.run 0 pos p a = .ok parsed) :
    ∃ q, q.finish = .ok parsed ∧ ∀ around : Surroundings,
      Progress.run 0 (pos + around.offset) (around.place p) (a ++ s) =
        Progress.run 0 (pos + around.offset + a.length) (around.place q) s := by
  induction pos, p, a, h using Progress.run_induction with
  | done pos p h =>
      rw [Progress.run] at h
      exact ⟨p, h, fun around => rfl⟩
  | step pos p c a p' taken h hrun hstep ih =>
      obtain ⟨sound', htaken⟩ := sound.step valid hstep
      obtain ⟨q, hfinish, hplace⟩ := ih sound' (valid.tail.drop taken)
      refine ⟨q, hfinish, fun around => ?_⟩
      calc Progress.run 0 (pos + around.offset) (around.place p) (c :: a ++ s)
          = Progress.run taken (pos + around.offset + 1) (around.place p') (a ++ s) := by
            rw [List.cons_append, Progress.run, place_step hs valid hstep]
            rfl
        _ = Progress.run 0 (pos + 1 + taken + around.offset) (around.place p')
              (a.drop taken ++ s) := by
            rw [Progress.run_skip, List.drop_append_of_le_length htaken]
            congr 1
            omega
        _ = Progress.run 0 (pos + 1 + taken + around.offset + (a.drop taken).length)
              (around.place q) s := hplace around
        _ = Progress.run 0 (pos + around.offset + (c :: a).length) (around.place q) s := by
            rw [List.length_drop, List.length_cons]
            congr 1
            omega

/-- Nothing was read before. -/
def none : Surroundings := ⟨0, 0, [], []⟩

/-- A bar was read after a pattern. -/
def afterBar (length : Nat) (before : Progress) : Surroundings :=
  ⟨length + 1, before.groupCount, before.level.split.branches, []⟩

/-- A parenthesis was opened. -/
def inGroup : Surroundings := ⟨1, 1, [], [⟨0, .capturing, .none, some 1, {}⟩]⟩

theorem none_place (h : p.openings = []) : none.place p = p := by
  obtain ⟨level, openings, groups⟩ := p
  obtain rfl : openings = [] := h
  have hterms : ∀ terms : List Node, terms.map (Node.raise 0) = terms := fun terms => by
    rw [← Node.raiseAll_eq_map, Node.raiseAll_zero]
  have hbranches : level.branches.map (·.map (Node.raise 0)) = level.branches := by
    simp [hterms]
  simp [place, placeLevel, placeOpenings, none, Level.raise, hterms]

end Surroundings

/-- A reading that ends well leaves no group open. -/
theorem Progress.eq_of_finish {p : Progress} {parsed : Parsed} (h : p.finish = .ok parsed) :
    p.openings = [] ∧ parsed = ⟨p.level.root, p.groupCount⟩ := by
  unfold Progress.finish at h
  split at h
  · next hopenings => exact ⟨hopenings, (Except.ok.inj h).symm⟩
  · cases h

theorem Level.branches_root (level : Level) :
    level.root.branches = level.allBranches.map .alternative := by
  rcases level.root_cases with ⟨body, hbranches, hroot, -⟩ | ⟨-, hroot, -⟩
  · rw [hroot, hbranches, Node.branches, List.map_singleton]
    nofun
  · rw [hroot, Node.branches]

theorem Level.root_of_allBranches {level first second : Level}
    (h : level.allBranches = first.allBranches ++ second.allBranches) :
    level.root = .disjunction (first.root.branches ++ second.root.branches) := by
  have hpos : ∀ l : Level, 1 ≤ l.allBranches.length := fun l => by simp [Level.allBranches]
  have hfirst := hpos first
  have hsecond := hpos second
  rw [(level.of_several h (by rw [List.length_append]; omega)).1, branches_root, branches_root,
    List.map_append]

theorem Level.branches_root_raise (level : Level) (count : Nat) :
    (level.raise count).root.branches = level.root.branches.map (Node.raise count) := by
  rw [branches_root, branches_root, allBranches_raise]
  simp [Node.raise, Node.raiseAll_eq_map]

theorem head?_ne_question {p : Text} {parsed : Parsed} (h : parse p = .ok parsed) :
    p.head? ≠ some Ascii.question := by
  intro hhead
  obtain ⟨rest, rfl⟩ := List.head?_eq_some_iff.mp hhead
  obtain ⟨q, taken, hstep, -⟩ := exists_step_of_run h
  cases hstep

variable {p q : Text} {first second : Parsed}

/-- Two patterns with a bar between them are the choice between the branches of both. -/
theorem parse_bar (hp : p.Valid) (hq : q.Valid) (hfirst : parse p = .ok first)
    (hsecond : parse q = .ok second) :
    parse (p ++ Ascii.bar :: q) = .ok
      ⟨.disjunction (first.root.branches ++
        second.root.branches.map (Node.raise first.groupCount)),
        first.groupCount + second.groupCount⟩ := by
  obtain ⟨before, hbefore, hrun⟩ := Surroundings.place_run (fenced_cons isFence_bar q)
    Progress.sound_start hp hfirst
  obtain ⟨after, hafter, hrun'⟩ := Surroundings.place_run fenced_nil
    Progress.sound_start hq hsecond
  obtain ⟨hopenings, rfl⟩ := Progress.eq_of_finish hbefore
  obtain ⟨hopenings', rfl⟩ := Progress.eq_of_finish hafter
  let around := Surroundings.afterBar p.length before
  have hbranches : (around.placeLevel true after.level).allBranches =
      before.level.allBranches ++ (after.level.raise before.groupCount).allBranches := by
    simp [around, Surroundings.afterBar, Surroundings.placeLevel, Level.split, Level.allBranches]
  have hfinish : (around.place after).finish = .ok
      ⟨.disjunction (before.level.root.branches ++
        after.level.root.branches.map (Node.raise before.groupCount)),
        before.groupCount + after.groupCount⟩ := by
    rw [Surroundings.place, hopenings', ← Level.branches_root_raise,
      ← Level.root_of_allBranches hbranches]
    rfl
  calc parse (p ++ Ascii.bar :: q)
      = Progress.run 0 (0 + 0) (Surroundings.none.place {}) (p ++ Ascii.bar :: q) := rfl
    _ = Progress.run 0 (0 + 0 + p.length) (Surroundings.none.place before) (Ascii.bar :: q) :=
        hrun Surroundings.none
    _ = Progress.run 0 (0 + around.offset) (around.place {}) (q ++ []) := by
        obtain ⟨level, openings, groups⟩ := before
        obtain rfl : openings = [] := hopenings
        rw [Surroundings.none_place rfl, List.append_nil, Progress.run]
        simp [Progress.step, around, Surroundings.afterBar, Surroundings.place,
          Surroundings.placeLevel, Surroundings.placeOpenings, Level.raise, Level.split,
          bind, Except.bind]
    _ = (around.place after).finish := by
        rw [hrun', Progress.run]
    _ = _ := hfinish

/-- A pattern in parentheses is one capturing group around it. -/
theorem parse_parenthesized (hp : p.Valid) (hfirst : parse p = .ok first) :
    parse (Ascii.openParen :: (p ++ [Ascii.closeParen])) = .ok
      ⟨.alternative [.group .capturing (first.root.elements.map (Node.raise 1)) .none (some 1)],
        first.groupCount + 1⟩ := by
  obtain ⟨inner, hinner, hrun⟩ := Surroundings.place_run
    (fenced_cons isFence_closeParen []) Progress.sound_start hp hfirst
  obtain ⟨hopenings, rfl⟩ := Progress.eq_of_finish hinner
  have hopening : readOpening (p ++ [Ascii.closeParen]) = .ok (.capturing, .none, 0) := by
    apply readOpening_capture
    rw [ne_eq, (fenced_cons isFence_closeParen []).head?_append_eq_iff (by decide)]
    exact head?_ne_question hfirst
  have hlevel : Surroundings.inGroup.placeLevel true inner.level = inner.level.raise 1 := by
    simp [Surroundings.placeLevel, Surroundings.inGroup]
  calc parse (Ascii.openParen :: (p ++ [Ascii.closeParen]))
      = Progress.run 0 (0 + 1) (Surroundings.inGroup.place {}) (p ++ [Ascii.closeParen]) := by
        rw [parse, Progress.run]
        simp only [Progress.step, hopening]
        rfl
    _ = Progress.run 0 (0 + 1 + p.length) (Surroundings.inGroup.place inner)
          [Ascii.closeParen] := hrun Surroundings.inGroup
    _ = .ok ⟨.alternative [.group .capturing (inner.level.raise 1).body .none (some 1)],
          1 + inner.groupCount⟩ := by
        rw [Surroundings.place, hopenings, ← hlevel]
        rfl
    _ = _ := by rw [Level.body_raise, Level.body_eq_elements, Nat.add_comm]

/-- A pattern is read the same way inside a larger one. With a bar between them, two patterns are
the choice between the branches of both, and the groups of the second are numbered after those of
the first. In parentheses a pattern is one capturing group around it, and its groups are numbered
after that. -/
theorem parse_compositional (hp : p.Valid) (hq : q.Valid) (hfirst : parse p = .ok first)
    (hsecond : parse q = .ok second) :
    parse (p ++ Ascii.bar :: q) = .ok
        ⟨.disjunction (first.root.branches ++
          second.root.branches.map (Node.raise first.groupCount)),
          first.groupCount + second.groupCount⟩ ∧
      parse (Ascii.openParen :: (p ++ [Ascii.closeParen])) = .ok
        ⟨.alternative [.group .capturing (first.root.elements.map (Node.raise 1)) .none (some 1)],
          first.groupCount + 1⟩ :=
  ⟨parse_bar hp hq hfirst hsecond, parse_parenthesized hp hfirst⟩

/-- Two patterns that both end in the middle of something: a number in braces that is none, and a
number with a digit too few, after groups of their own. -/
theorem parse_compositional_unfinished :
    (Text.ofString "(a)\\u\x7b4").Valid ∧ (Text.ofString "b|(c)\\x4").Valid ∧
      parse (Text.ofString "(a)\\u\x7b4" ++ Ascii.bar :: Text.ofString "b|(c)\\x4") = .ok
        ⟨.disjunction [
          .alternative [.group .capturing [.value 0x61] .none (some 1), .value 0x75, .value 0x7B,
            .value 0x34],
          .alternative [.value 0x62],
          .alternative [.group .capturing [.value 0x63] .none (some 2), .value 0x78, .value 0x34]],
          2⟩ ∧
      parse (Ascii.openParen :: (Text.ofString "(a)\\u\x7b4" ++ [Ascii.closeParen])) = .ok
        ⟨.alternative [.group .capturing [
          .group .capturing [.value 0x61] .none (some 2), .value 0x75, .value 0x7B, .value 0x34]
          .none (some 1)], 2⟩ := by
  have hp : (Text.ofString "(a)\\u\x7b4").Valid := by decide
  have hq : (Text.ofString "b|(c)\\x4").Valid := by decide
  exact ⟨hp, hq, parse_compositional hp hq rfl rfl⟩

end Pattern

end RegexTrace
