import RegexTrace.Proofs.Readers

/-!
# Reading a pattern gives a well-formed tree

What was read at any moment is sound: the levels hold terms, the open groups are labelled as their
behaviour asks, and the capturing groups so far are numbered in the order in which they open. A step
keeps that, takes code points that are there and places its fault in the text or at its end, so a
whole reading ends in a fault in the text or in a well-formed tree of the whole text.
-/

namespace RegexTrace.Pattern

/-- The numbers of so many capturing groups in order. -/
def numbersTo (count : Nat) : List (Option Int) :=
  (List.range count).map fun k => some ((k + 1 : Nat) : Int)

namespace Level

/-- The branches of a level consist of terms. -/
def Sound (level : Level) : Prop :=
  ∀ branch ∈ level.allBranches, ∀ term ∈ branch, Node.IsTerm term

/-- The numbers of the capturing groups of a level. -/
def captures (level : Level) : List (Option Int) := level.allBranches.flatMap Node.capturesAll

theorem allBranches_push (level : Level) (term : Node) :
    (level.push term).allBranches = level.branches.reverse ++ [level.terms.reverse ++ [term]] := by
  simp [push, allBranches]

theorem allBranches_split (level : Level) :
    level.split.allBranches = level.allBranches ++ [[]] := by
  simp [split, allBranches]

theorem allBranches_eq (level : Level) :
    level.allBranches = level.branches.reverse ++ [level.terms.reverse] := by
  simp [allBranches]

/-- A level stays sound when a term is added. -/
theorem Sound.push {level : Level} (h : level.Sound) {term : Node} (hterm : term.IsTerm) :
    (level.push term).Sound := by
  intro branch hbranch other hother
  rw [allBranches_push] at hbranch
  rw [Sound, allBranches_eq] at h
  rcases List.mem_append.mp hbranch with hbranch | hbranch
  · exact h branch (List.mem_append_left _ hbranch) other hother
  · rw [List.mem_singleton.mp hbranch] at hother
    rcases List.mem_append.mp hother with hother | hother
    · exact h _ (List.mem_append_right _ List.mem_cons_self) other hother
    · exact List.mem_singleton.mp hother ▸ hterm

theorem Sound.split {level : Level} (h : level.Sound) : level.split.Sound := by
  intro branch hbranch
  rw [allBranches_split] at hbranch
  rcases List.mem_append.mp hbranch with hbranch | hbranch
  · exact h branch hbranch
  · exact List.mem_singleton.mp hbranch ▸ nofun

theorem captures_push (level : Level) (term : Node) :
    (level.push term).captures = level.captures ++ term.captures := by
  rw [captures, allBranches_push, captures, allBranches_eq]
  simp [Node.capturesAll]

theorem captures_split (level : Level) : level.split.captures = level.captures := by
  simp [captures, allBranches_split, Node.capturesAll]

/-- A level is one branch or a choice between several. -/
theorem root_cases (level : Level) :
    (∃ body, level.allBranches = [body] ∧ level.root = .alternative body ∧ level.body = body) ∨
      2 ≤ level.allBranches.length ∧
        level.root = .disjunction (level.allBranches.map .alternative) ∧
        level.body = [.disjunction (level.allBranches.map .alternative)] := by
  have hlength : 1 ≤ level.allBranches.length := by
    rw [allBranches_eq, List.length_append]
    exact Nat.le_add_left 1 _
  unfold body root
  match hbranches : level.allBranches with
  | [] => rw [hbranches] at hlength; cases hlength
  | [body] => exact Or.inl ⟨body, rfl, rfl, rfl⟩
  | first :: second :: rest => exact Or.inr ⟨Nat.le_add_left 2 _, rfl, rfl⟩

/-- A level with several branches is a choice between them. -/
theorem of_several (level : Level) {branches : List (List Node)}
    (h : level.allBranches = branches) (several : 2 ≤ branches.length) :
    level.root = .disjunction (branches.map .alternative) ∧
      level.body = [.disjunction (branches.map .alternative)] := by
  subst h
  rcases level.root_cases with ⟨body, hbranches, -⟩ | ⟨-, hroot, hbody⟩
  · rw [hbranches, List.length_singleton] at several
    exact absurd several (by decide)
  · exact ⟨hroot, hbody⟩

theorem Sound.isPattern_root {level : Level} (h : level.Sound) : level.root.IsPattern := by
  rcases level.root_cases with ⟨body, hbranches, hroot, -⟩ | ⟨hseveral, hroot, -⟩
  · rw [hroot]
    exact .run (h body (hbranches ▸ List.mem_cons_self))
  · rw [hroot]
    exact .choice hseveral h

theorem captures_root (level : Level) : level.root.captures = level.captures := by
  rcases level.root_cases with ⟨body, hbranches, hroot, -⟩ | ⟨-, hroot, -⟩
  · rw [hroot, captures, hbranches]
    simp [Node.captures]
  · rw [hroot, captures, Node.captures, Node.capturesAll_map_alternative]

theorem capturesAll_body (level : Level) : Node.capturesAll level.body = level.captures := by
  rcases level.root_cases with ⟨body, hbranches, -, hbody⟩ | ⟨-, -, hbody⟩
  · rw [hbody, captures, hbranches]
    simp
  · rw [hbody, captures, Node.capturesAll, Node.captures, Node.capturesAll_map_alternative]
    simp [Node.capturesAll]

end Level

namespace Opening

/-- An open group stands in a sound level, is labelled as its behaviour asks and began in the text
before a position. -/
structure Sound (opening : Opening) (pos : Nat) : Prop where
  outer : opening.outer.Sound
  labels : Node.LabelsFit opening.behaviour opening.name (opening.number.map Int.ofNat)
  openedAt : opening.openedAt ≤ pos

/-- The number of the group itself, if it captures. -/
def ownCapture (opening : Opening) : List (Option Int) :=
  if opening.behaviour = .capturing then [opening.number.map Int.ofNat] else []

/-- A group that is closed is a term. -/
theorem Sound.close {opening : Opening} {pos : Nat} (h : opening.Sound pos) {inner : Level}
    (hinner : inner.Sound) : (opening.close inner).IsTerm := by
  unfold Opening.close
  rcases inner.root_cases with ⟨body, hbranches, -, hbody⟩ | ⟨hseveral, -, hbody⟩
  · rw [hbody]
    exact .run h.labels (hinner body (hbranches ▸ List.mem_cons_self))
  · rw [hbody]
    exact .choice h.labels hseveral hinner

theorem captures_close (opening : Opening) (inner : Level) :
    (opening.close inner).captures = opening.ownCapture ++ inner.captures := by
  rw [Opening.close, Node.captures, Level.capturesAll_body, ownCapture]

end Opening

/-- The numbers of the capturing groups before the level being filled, given the open groups. -/
def capturesAround : List Opening → List (Option Int)
  | [] => []
  | opening :: outer => capturesAround outer ++ opening.outer.captures ++ opening.ownCapture

namespace Progress

/-- What was read up to a position is sound. -/
structure Sound (p : Progress) (pos : Nat) : Prop where
  level : p.level.Sound
  openings : ∀ opening ∈ p.openings, opening.Sound pos
  numbered : capturesAround p.openings ++ p.level.captures = numbersTo p.groupCount

theorem sound_start : Sound {} 0 where
  level := by simp [Level.Sound, Level.allBranches]
  openings := nofun
  numbered := by
    simp [capturesAround, Level.captures, Level.allBranches, Node.capturesAll, numbersTo]

/-- The text after an atom that is complete with a step, where a repetition mark may stand. -/
def atomEnd? (p : Progress) (c : CodePoint) (rest : Text) : Option Text :=
  if c = Ascii.bar ∨ c = Ascii.openParen then none
  else if c = Ascii.closeParen then if p.openings.isEmpty then none else some rest
  else
    match readAtom c rest with
    | .ok (_, width) => some (rest.drop width)
    | .error _ => none

end Progress

/-- The states that the reading of a pattern passes, with the position and the text that is left. -/
inductive Reaches (pattern : Text) : Progress → Nat → Text → Prop
  | start : Reaches pattern {} 0 pattern
  | step {p q : Progress} {pos taken : Nat} {c : CodePoint} {rest : Text}
      (before : Reaches pattern p pos (c :: rest)) (step : p.step pos c rest = .ok (q, taken)) :
      Reaches pattern q (pos + 1 + taken) (rest.drop taken)

/-- The bound of a repetition that the reading of a pattern comes upon. -/
def HasBound (pattern digits : Text) : Prop :=
  ∃ p pos c rest after braces, Reaches pattern p pos (c :: rest) ∧
    p.atomEnd? c rest = some after ∧ Braces.read? after = some braces ∧ digits ∈ braces.texts

theorem Reaches.length_le {pattern t : Text} {p : Progress} {pos : Nat}
    (h : Reaches pattern p pos t) : t.length ≤ pattern.length := by
  induction h with
  | start => exact Nat.le_refl _
  | step before step ih =>
      rw [List.length_drop]
      rw [List.length_cons] at ih
      omega

/-- What follows an atom is no longer than what follows its first code point. -/
theorem Progress.length_le_of_atomEnd? {p : Progress} {c : CodePoint} {rest after : Text}
    (h : p.atomEnd? c rest = some after) : after.length ≤ rest.length := by
  unfold Progress.atomEnd? at h
  split at h
  · cases h
  split at h
  · split at h
    · cases h
    · exact Option.some.inj h ▸ Nat.le_refl _
  · split at h
    · next width _ =>
        rw [← Option.some.inj h, List.length_drop]
        exact Nat.sub_le _ _
    · cases h

theorem HasBound.length_le {pattern digits : Text} (h : HasBound pattern digits) :
    digits.length ≤ pattern.length := by
  obtain ⟨p, pos, c, rest, after, braces, hreaches, hafter, hbraces, hdigits⟩ := h
  have hrest := hreaches.length_le
  have hend := Progress.length_le_of_atomEnd? hafter
  obtain ⟨hwidth, hbounds⟩ := Braces.read?_spec hbraces
  have hdigits := hbounds digits hdigits
  rw [List.length_cons] at hrest
  omega

/-- An atom with its mark is a term of the same groups. -/
theorem readTerm_spec {atom : Node} (hatom : IsAtom atom) {start next : Nat} {rest : Text}
    {term : Node} {taken : Nat} (h : readTerm atom start next rest = .ok (term, taken)) :
    term.IsTerm ∧ term.captures = atom.captures ∧ taken ≤ rest.length := by
  unfold readTerm at h
  split at h
  · cases h
  · cases h
  · cases h
    exact ⟨hatom.1, rfl, Nat.zero_le _⟩
  · next repetition hread =>
      obtain ⟨hwidth, hformed⟩ := Repetition.read?_spec hread
      split at h
      · cases h
      · next hanchor =>
          cases h
          have hrepeatable := hatom.2.resolve_left hanchor
          exact ⟨hformed.apply_isTerm hatom.1 hrepeatable, by
            rw [Repetition.apply, Node.captures], hwidth⟩

/-- An atom with its mark is refused at its start, at its end, or for a bound that is too long. -/
theorem readTerm_error {atom : Node} {start next : Nat} {rest : Text} {fault : Fault}
    (h : readTerm atom start next rest = .error fault) :
    (∃ cause, fault = malformed cause start ∨ fault = malformed cause next) ∨
      ∃ f braces, fault = .numeral f ∧ Braces.read? rest = some braces ∧
        ∃ digits ∈ braces.texts, Numeral.digitLimit < digits.length := by
  unfold readTerm at h
  split at h
  · cases h
    exact Or.inl ⟨_, Or.inr rfl⟩
  · next f hread =>
      cases h
      rcases Repetition.read?_error hread with hfault | ⟨braces, hbraces, hlong⟩
      · cases hfault
      · exact Or.inr ⟨f, braces, rfl, hbraces, hlong⟩
  · cases h
  · split at h
    · cases h
      exact Or.inl ⟨_, Or.inl rfl⟩
    · cases h

namespace Progress

variable {p q : Progress} {pos taken : Nat} {c : CodePoint} {rest : Text}

/-- A step reads a bar, closes or opens a group, or reads an atom with its mark. -/
theorem step_cases (h : p.step pos c rest = .ok (q, taken)) :
    (c = Ascii.bar ∧ q = { p with level := p.level.split } ∧ taken = 0) ∨
    (c = Ascii.closeParen ∧ ∃ opening openings term, p.openings = opening :: openings ∧
      readTerm (opening.close p.level) opening.openedAt (pos + 1) rest = .ok (term, taken) ∧
      q = { p with level := opening.outer.push term, openings }) ∨
    (c = Ascii.openParen ∧ ∃ behaviour name, readOpening rest = .ok (behaviour, name, taken) ∧
      q = p.openGroup pos behaviour name) ∨
    (c ∉ [Ascii.bar, Ascii.closeParen, Ascii.openParen] ∧ ∃ atom width term markWidth,
      readAtom c rest = .ok (atom, width) ∧
      readTerm atom pos (pos + 1 + width) (rest.drop width) = .ok (term, markWidth) ∧
      q = { p with level := p.level.push term } ∧ taken = width + markWidth) := by
  unfold Progress.step at h
  split at h
  · next hbar =>
      cases h
      exact Or.inl ⟨hbar, rfl, rfl⟩
  next hbar =>
  split at h
  · next hclose =>
      obtain ⟨level, openings, count⟩ := p
      cases openings with
      | nil => cases h
      | cons opening openings =>
          obtain ⟨⟨term, width⟩, hterm, heq⟩ := exists_of_bind_ok h
          cases heq
          exact Or.inr (Or.inl ⟨hclose, opening, openings, term, rfl, hterm, rfl⟩)
  next hclose =>
  split at h
  · next hopen =>
      split at h
      · cases h
      · next behaviour name width hopening =>
          cases h
          exact Or.inr (Or.inr (Or.inl ⟨hopen, behaviour, name, hopening, rfl⟩))
  next hopen =>
  split at h
  · cases h
  · next atom width hatom =>
      obtain ⟨⟨term, markWidth⟩, hterm, heq⟩ := exists_of_bind_ok h
      cases heq
      refine Or.inr (Or.inr (Or.inr ⟨?_, atom, width, term, markWidth, hatom, hterm, rfl, rfl⟩))
      simp [hbar, hclose, hopen]

theorem Sound.mono {later : Nat} (h : p.Sound pos) (hle : pos ≤ later) : p.Sound later where
  level := h.level
  openings := fun opening hopening =>
    let old := h.openings opening hopening
    ⟨old.outer, old.labels, Nat.le_trans old.openedAt hle⟩
  numbered := h.numbered

theorem Sound.push (h : p.Sound pos) {term : Node} (hterm : term.IsTerm)
    (hcaptures : term.captures = []) : Sound { p with level := p.level.push term } pos where
  level := h.level.push hterm
  openings := h.openings
  numbered := by
    rw [Level.captures_push, hcaptures, List.append_nil]
    exact h.numbered

theorem Sound.split (h : p.Sound pos) : Sound { p with level := p.level.split } pos where
  level := h.level.split
  openings := h.openings
  numbered := by
    rw [Level.captures_split]
    exact h.numbered

/-- A group is opened soundly: if it captures, it has the next number. -/
theorem Sound.openGroup (h : p.Sound pos) {behaviour : Behaviour} {name : Option Text}
    (hopening : OpeningFits behaviour name) : (p.openGroup pos behaviour name).Sound pos where
  level := sound_start.level
  openings := by
    refine List.forall_mem_cons.mpr ⟨⟨h.level, ⟨hopening.1, hopening.2, ?_⟩, Nat.le_refl pos⟩,
      h.openings⟩
    by_cases hcapturing : behaviour = .capturing <;> simp [hcapturing]
  numbered := by
    have hnumbers : numbersTo (p.groupCount + 1) =
        numbersTo p.groupCount ++ [some ((p.groupCount + 1 : Nat) : Int)] := by
      simp [numbersTo, List.range_succ]
    have hempty : Level.captures {} = [] := by
      simp [Level.captures, Level.allBranches, Node.capturesAll]
    unfold Progress.openGroup
    simp only [capturesAround, h.numbered, hempty, Opening.ownCapture]
    by_cases hcapturing : behaviour = .capturing <;> simp [hcapturing, hnumbers]

/-- A group is closed soundly: its term, repeated or not, joins the level around it. -/
theorem Sound.closeGroup {opening : Opening} {openings : List Opening} {level : Level} {count : Nat}
    (h : Sound ⟨level, opening :: openings, count⟩ pos) {term : Node} (hterm : term.IsTerm)
    (hcaptures : term.captures = (opening.close level).captures) :
    Sound ⟨opening.outer.push term, openings, count⟩ pos where
  level := (h.openings opening List.mem_cons_self).outer.push hterm
  openings := fun other hother => h.openings other (List.mem_cons_of_mem _ hother)
  numbered := by
    rw [Level.captures_push, hcaptures, Opening.captures_close]
    simpa [capturesAround] using h.numbered

theorem Sound.isAtom_close {opening : Opening} {openings : List Opening} {level : Level}
    {count : Nat} (h : Sound ⟨level, opening :: openings, count⟩ pos) :
    IsAtom (opening.close level) :=
  ⟨(h.openings opening List.mem_cons_self).close h.level, Or.inr trivial⟩

/-- A step keeps what was read sound and takes code points that are there. -/
theorem Sound.step (h : p.Sound pos) (valid : Text.Valid (c :: rest))
    (hstep : p.step pos c rest = .ok (q, taken)) :
    q.Sound (pos + 1 + taken) ∧ taken ≤ rest.length := by
  have hlater : pos ≤ pos + 1 + taken := by omega
  unfold Progress.step at hstep
  split at hstep
  · cases hstep
    exact ⟨h.split.mono hlater, Nat.zero_le _⟩
  split at hstep
  · obtain ⟨level, openings, count⟩ := p
    cases openings with
    | nil => cases hstep
    | cons opening openings =>
        cases hterm : readTerm (opening.close level) opening.openedAt (pos + 1) rest with
        | error fault =>
            simp only [hterm] at hstep
            cases hstep
        | ok answer =>
            simp only [hterm] at hstep
            cases hstep
            obtain ⟨hisTerm, hcaptures, hwidth⟩ := readTerm_spec h.isAtom_close hterm
            exact ⟨(h.closeGroup hisTerm hcaptures).mono hlater, hwidth⟩
  split at hstep
  · rcases readOpening_spec rest with ⟨behaviour, name, width, hopening, hfits, hwidth⟩ |
      ⟨cause, distance, hfault, -⟩
    · rw [hopening] at hstep
      cases hstep
      exact ⟨(h.openGroup hfits).mono hlater, hwidth⟩
    · rw [hfault] at hstep
      cases hstep
  · have hfits := readAtom_fits valid
    cases hatom : readAtom c rest with
    | error fault =>
        simp only [hatom] at hstep
        cases hstep
    | ok answer =>
        obtain ⟨atom, width⟩ := answer
        rw [hatom] at hfits
        simp only [hatom] at hstep
        cases hterm : readTerm atom pos (pos + 1 + width) (rest.drop width) with
        | error fault =>
            simp only [hterm] at hstep
            cases hstep
        | ok marked =>
            simp only [hterm] at hstep
            cases hstep
            obtain ⟨⟨hisAtom, hnone⟩, hwidth⟩ := hfits
            obtain ⟨hisTerm, hcaptures, hmark⟩ := readTerm_spec hisAtom hterm
            rw [List.length_drop] at hmark
            exact ⟨(h.push hisTerm (hcaptures.trans hnone)).mono hlater, by omega⟩

/-- A fault at a step: it lies in the text or at its end, or the step comes upon a bound that is too
long. -/
def FaultFits (p : Progress) (pos : Nat) (c : CodePoint) (rest : Text) (fault : Fault) : Prop :=
  (∃ f, fault = .malformed f ∧ f.index ≤ pos + 1 + rest.length) ∨
    ∃ f after braces, fault = .numeral f ∧ p.atomEnd? c rest = some after ∧
      Braces.read? after = some braces ∧
        ∃ digits ∈ braces.texts, Numeral.digitLimit < digits.length

/-- A fault of an atom with its mark is a fault at the step that completes the atom. -/
theorem faultFits_of_readTerm {atom : Node} {start next : Nat} {after : Text} {fault : Fault}
    (h : readTerm atom start next after = .error fault) (hstart : start ≤ pos + 1 + rest.length)
    (hnext : next ≤ pos + 1 + rest.length) (hend : p.atomEnd? c rest = some after) :
    p.FaultFits pos c rest fault := by
  rcases readTerm_error h with ⟨cause, rfl | rfl⟩ | ⟨f, braces, rfl, hbraces, hlong⟩
  · exact Or.inl ⟨_, rfl, hstart⟩
  · exact Or.inl ⟨_, rfl, hnext⟩
  · exact Or.inr ⟨f, after, braces, rfl, hend, hbraces, hlong⟩

/-- A step places its fault in the text or at its end, or comes upon a bound that is too long. -/
theorem Sound.step_fault (h : p.Sound pos) (valid : Text.Valid (c :: rest)) {fault : Fault}
    (hstep : p.step pos c rest = .error fault) : p.FaultFits pos c rest fault := by
  have hpos : pos ≤ pos + 1 + rest.length := by omega
  unfold Progress.step at hstep
  split at hstep
  · cases hstep
  next hbar =>
  split at hstep
  · next hclose =>
    obtain ⟨level, openings, count⟩ := p
    cases openings with
    | nil =>
        cases hstep
        exact Or.inl ⟨_, rfl, hpos⟩
    | cons opening openings =>
        cases hterm : readTerm (opening.close level) opening.openedAt (pos + 1) rest with
        | error other =>
            simp only [hterm] at hstep
            cases hstep
            have hopened := (h.openings opening List.mem_cons_self).openedAt
            refine faultFits_of_readTerm hterm (Nat.le_trans hopened hpos) (Nat.le_add_right _ _) ?_
            rw [atomEnd?, if_neg (by rw [hclose]; decide), if_pos hclose]
            rfl
        | ok answer =>
            simp only [hterm] at hstep
            cases hstep
  next hclose =>
  split at hstep
  · rcases readOpening_spec rest with ⟨behaviour, name, width, hopening, -⟩ |
      ⟨cause, distance, hfault, hdistance⟩
    · rw [hopening] at hstep
      cases hstep
    · rw [hfault] at hstep
      cases hstep
      exact Or.inl ⟨_, rfl, (by omega : pos + distance ≤ pos + 1 + rest.length)⟩
  · next hopen =>
    have hfits := readAtom_fits valid
    cases hatom : readAtom c rest with
    | error other =>
        rw [hatom] at hfits
        simp only [hatom] at hstep
        cases hstep
        have hdistance : other.2 ≤ rest.length + 1 := hfits
        exact Or.inl ⟨_, rfl, (by omega : pos + other.2 ≤ pos + 1 + rest.length)⟩
    | ok answer =>
        obtain ⟨atom, width⟩ := answer
        rw [hatom] at hfits
        simp only [hatom] at hstep
        cases hterm : readTerm atom pos (pos + 1 + width) (rest.drop width) with
        | error other =>
            simp only [hterm] at hstep
            cases hstep
            have hwidth := hfits.2
            refine faultFits_of_readTerm hterm hpos (by omega) ?_
            rw [atomEnd?, if_neg (by simp [hbar, hopen]), if_neg hclose, hatom]
        | ok marked =>
            simp only [hterm] at hstep
            cases hstep

/-- Code points that were taken already are passed over. -/
theorem run_skip (skip pos : Nat) (p : Progress) (t : Text) :
    run skip pos p t = run 0 (pos + skip) p (t.drop skip) := by
  induction skip generalizing pos t with
  | zero => rfl
  | succ skip ih =>
      cases t with
      | nil => rw [run, List.drop_nil, run]
      | cons c rest =>
          rw [run, ih, List.drop_succ_cons]
          congr 1
          omega

end Progress

/-- A run goes on after a step. -/
theorem exists_step_of_run {pos : Nat} {p : Progress} {c : CodePoint} {rest : Text}
    {parsed : Parsed} (h : Progress.run 0 pos p (c :: rest) = .ok parsed) :
    ∃ p' taken, p.step pos c rest = .ok (p', taken) ∧
      Progress.run 0 (pos + 1 + taken) p' (rest.drop taken) = .ok parsed := by
  rw [Progress.run] at h
  obtain ⟨⟨p', taken⟩, hstep, h⟩ := exists_of_bind_ok h
  exact ⟨p', taken, hstep, Progress.run_skip taken (pos + 1) p' rest ▸ h⟩

/-- What holds at the end of a run that ends well, and holds before a step if it holds after it,
holds from its beginning. -/
theorem Progress.run_induction {parsed : Parsed}
    {motive : ∀ pos p t, Progress.run 0 pos p t = .ok parsed → Prop}
    (done : ∀ pos p (h : Progress.run 0 pos p [] = .ok parsed), motive pos p [] h)
    (step : ∀ pos p c rest q taken (h : Progress.run 0 pos p (c :: rest) = .ok parsed)
      (hrun : Progress.run 0 (pos + 1 + taken) q (rest.drop taken) = .ok parsed),
      p.step pos c rest = .ok (q, taken) → motive (pos + 1 + taken) q (rest.drop taken) hrun →
      motive pos p (c :: rest) h)
    (pos : Nat) (p : Progress) (t : Text) (h : Progress.run 0 pos p t = .ok parsed) :
    motive pos p t h := by
  induction hlength : t.length using Nat.strongRecOn generalizing pos p t with
  | ind n ih =>
      subst hlength
      cases t with
      | nil => exact done pos p h
      | cons c rest =>
          obtain ⟨q, taken, hstep, hrun⟩ := exists_step_of_run h
          have hshorter : (rest.drop taken).length < (c :: rest).length := by
            rw [List.length_drop, List.length_cons]
            omega
          exact step pos p c rest q taken h hrun hstep (ih _ hshorter _ _ _ hrun rfl)

/-- What a reading of a pattern can end in: a well-formed tree of the whole pattern, a fault in the
pattern or at its end, or a bound that is too long. -/
def Outcome (pattern : Text) : Except Fault Parsed → Prop
  | .ok parsed =>
    (∃ p, Reaches pattern p pattern.length [] ∧ p.finish = .ok parsed) ∧
      parsed.root.IsPattern ∧ parsed.root.captures = numbersTo parsed.groupCount
  | .error (.malformed fault) => fault.index ≤ pattern.length
  | .error (.numeral _) =>
    ∃ digits, HasBound pattern digits ∧ Numeral.digitLimit < digits.length

/-- A sound state at the end of the pattern is a well-formed tree or leaves a group open. -/
theorem finish_outcome {pattern : Text} {p : Progress} (h : p.Sound pattern.length)
    (hreaches : Reaches pattern p pattern.length []) : Outcome pattern p.finish := by
  obtain ⟨level, openings, count⟩ := p
  cases openings with
  | nil =>
      have hcaptures : level.root.captures = numbersTo count := by
        rw [Level.captures_root]
        simpa [capturesAround] using h.numbered
      exact ⟨⟨_, hreaches, rfl⟩, h.level.isPattern_root, hcaptures⟩
  | cons opening openings => exact (h.openings opening List.mem_cons_self).openedAt

/-- From every state that a reading passes soundly it ends in one of the ways in which it can. -/
theorem run_outcome {pattern : Text} {p : Progress} {pos : Nat} {t : Text}
    (hreaches : Reaches pattern p pos t) (h : p.Sound pos) (ht : t.Valid)
    (hpos : pos + t.length = pattern.length) : Outcome pattern (Progress.run 0 pos p t) := by
  induction hlength : t.length using Nat.strongRecOn generalizing p pos t with
  | ind n ih =>
      cases t with
      | nil =>
          obtain rfl : pos = pattern.length := hpos
          rw [Progress.run]
          exact finish_outcome h hreaches
      | cons c rest =>
          rw [List.length_cons] at hpos hlength
          rw [Progress.run]
          cases hstep : p.step pos c rest with
          | error fault =>
              rcases h.step_fault ht hstep with ⟨f, rfl, hindex⟩ |
                ⟨f, after, braces, rfl, hafter, hbraces, digits, hdigits, hlong⟩
              · have hle : f.index ≤ pattern.length := by omega
                exact hle
              · have hbound : HasBound pattern digits :=
                  ⟨p, pos, c, rest, after, braces, hreaches, hafter, hbraces, hdigits⟩
                exact ⟨digits, hbound, hlong⟩
          | ok answer =>
              obtain ⟨q, taken⟩ := answer
              obtain ⟨hq, htaken⟩ := h.step ht hstep
              simp only [bind, Except.bind]
              rw [Progress.run_skip]
              refine ih (rest.drop taken).length ?_ (hreaches.step hstep) hq
                ((Text.Valid.tail ht).drop taken) ?_ rfl
              · rw [List.length_drop]
                omega
              · rw [List.length_drop]
                omega

theorem parse_outcome {pattern : Text} (valid : pattern.Valid) : Outcome pattern (parse pattern) :=
  run_outcome .start Progress.sound_start valid (Nat.zero_add _)

theorem isPattern_of_parse {pattern : Text} (valid : pattern.Valid) {parsed : Parsed}
    (h : parse pattern = .ok parsed) : parsed.root.IsPattern := by
  have houtcome := parse_outcome valid
  rw [h] at houtcome
  exact houtcome.2.1

/-- The reading of a pattern in which no bound of a repetition is too long ends in a fault in the
text or at its end, or it takes the whole text and gives a well-formed tree whose capturing groups
are numbered in the order in which they open. -/
theorem parse_wellFormed (pattern : Text) (valid : pattern.Valid)
    (short : ∀ digits, HasBound pattern digits → digits.length ≤ Numeral.digitLimit) :
    (∃ fault, parse pattern = .error (.malformed fault) ∧ fault.index ≤ pattern.length) ∨
      ∃ parsed p, parse pattern = .ok parsed ∧ Reaches pattern p pattern.length [] ∧
        p.finish = .ok parsed ∧ parsed.root.IsPattern ∧
        parsed.root.captures = numbersTo parsed.groupCount := by
  have houtcome := parse_outcome valid
  cases hparse : parse pattern with
  | ok parsed =>
      rw [hparse] at houtcome
      obtain ⟨⟨p, hreaches, hfinish⟩, hpattern, hcaptures⟩ := houtcome
      exact Or.inr ⟨parsed, p, rfl, hreaches, hfinish, hpattern, hcaptures⟩
  | error fault =>
      rw [hparse] at houtcome
      cases fault with
      | malformed fault => exact Or.inl ⟨fault, rfl, houtcome⟩
      | numeral fault =>
          obtain ⟨digits, hbound, hlong⟩ := houtcome
          exact absurd (short digits hbound) (Nat.not_le.mpr hlong)

/-- A short pattern with a bound in braces: all its bounds are short, and it has a tree. -/
theorem parse_wellFormed_braces :
    Text.Valid "(a\x7b2\x7d|b)" ∧
      (∀ digits, HasBound "(a\x7b2\x7d|b)" digits → digits.length ≤ Numeral.digitLimit) ∧
      ((∃ fault, parse "(a\x7b2\x7d|b)" = .error (.malformed fault) ∧
          fault.index ≤ (Text.ofString "(a\x7b2\x7d|b)").length) ∨
        ∃ parsed p, parse "(a\x7b2\x7d|b)" = .ok parsed ∧
          Reaches "(a\x7b2\x7d|b)" p (Text.ofString "(a\x7b2\x7d|b)").length [] ∧
          p.finish = .ok parsed ∧ parsed.root.IsPattern ∧
          parsed.root.captures = numbersTo parsed.groupCount) := by
  have valid : Text.Valid "(a\x7b2\x7d|b)" := by decide
  have short : ∀ digits, HasBound "(a\x7b2\x7d|b)" digits → digits.length ≤ Numeral.digitLimit :=
    fun digits h => Nat.le_trans h.length_le (by decide)
  exact ⟨valid, short, parse_wellFormed _ valid short⟩

end RegexTrace.Pattern
