import RegexTrace.Proofs.Copying
import RegexTrace.Proofs.Steps

/-!
# The respelling follows the reading of a pattern

What the respelling makes of a code point is told by the role that it plays in the step of the
reading that takes it: a dollar sign that is read as an anchor, a brace that is read as a literal
and the sign before the name of a group are spelled otherwise, and all else is copied.

## Implementation notes

A step may take several code points, so a role is told of a code point by how far it stands from the
one where its step begins.

The respelling does not know numbers in braces. Where the braces of such an escape do not look like
bounds, the opening one is escaped. What becomes of a dollar sign in the name of a group is told for
multiline mode only.
-/

namespace RegexTrace.Pattern

/-- What a code point can be in a step that begins with `c` before `rest`, as the one that is `k`
code points after `c`. -/
abbrev Role := CodePoint → Text → Nat → Prop

namespace Role

/-- A dollar sign that is read as the anchor at the end. -/
def finish : Role := fun c rest k =>
  c = Ascii.dollar ∧ k = 0 ∧ readAtom c rest = .ok (.anchor .finish, 0)

/-- A brace that is read as a literal. -/
def literalBrace : Role := fun c rest k =>
  c = Ascii.openBrace ∧ k = 0 ∧ readAtom c rest = .ok (.value c, 0)

/-- The brace that opens the number of an escape with `u` where it does not look like bounds. -/
def numberBrace : Role := fun c rest k =>
  c = Ascii.backslash ∧ k = 2 ∧ ∃ more, rest = 'u'.toNat :: Ascii.openBrace :: more ∧
    Braces.read? (Ascii.openBrace :: more) = none

/-- The second sign of the two after the parenthesis that opens a named group. -/
def nameSign : Role := fun c rest k =>
  c = Ascii.openParen ∧ k = 2 ∧ ∃ more behaviour name width,
    rest = Ascii.question :: Ascii.less :: more ∧
    readOpening rest = .ok (behaviour, some name, width)

/-- A code point after the parenthesis that opens a named group, up to the end of the name. -/
def nameLetter : Role := fun c rest k =>
  c = Ascii.openParen ∧ 0 < k ∧ ∃ behaviour name width,
    readOpening rest = .ok (behaviour, some name, width)

end Role

/-- The code point at an index of a pattern plays a role in the step that takes it. -/
def Plays (pattern : Text) (i : Nat) (role : Role) : Prop :=
  ∃ c rest k, StepAt pattern i c rest k ∧ role c rest k

/-- What becomes of a code point `c` that plays certain roles. -/
structure Respelled (multiline : Bool) (plays : Role → Prop) (c : CodePoint) (t : Text) : Prop where
  finish : plays .finish → t = if multiline then [c] else "\\Z"
  brace : plays .literalBrace ∨ plays .numberBrace → t = "\\\x7b"
  sign : plays .nameSign → t = "P<"
  copy : ¬ plays .finish → ¬ plays .literalBrace → ¬ plays .numberBrace → ¬ plays .nameSign →
    (plays .nameLetter → c = Ascii.dollar → multiline = true) → t = [c]

/-- A code point is copied that plays no role but that of a letter of a name. -/
theorem Respelled.of_copied {multiline : Bool} {plays : Role → Prop} {c : CodePoint}
    (hfinish : ¬ plays .finish) (hliteral : ¬ plays .literalBrace) (hnumber : ¬ plays .numberBrace)
    (hsign : ¬ plays .nameSign) : Respelled multiline plays c [c] where
  finish := fun h => absurd h hfinish
  brace := fun h => h.elim (absurd · hliteral) (absurd · hnumber)
  sign := fun h => absurd h hsign
  copy := fun _ _ _ _ _ => rfl

/-- The pieces of text that a step of the reading is respelled by, one for each code point. -/
structure StepRespelled (multiline : Bool) (c : CodePoint) (rest : Text) (taken : Nat)
    (out : List Text) : Prop where
  fits : taken ≤ rest.length
  length : out.length = taken + 1
  respelled : Host.respellFrom multiline false (c :: rest) =
    out.flatten ++ Host.respellFrom multiline false (rest.drop taken)
  each : ∀ k d t, (c :: rest)[k]? = some d → out[k]? = some t →
    Respelled multiline (fun role => role c rest k) d t

section Steps

open Host

variable {multiline : Bool} {c : CodePoint} {piece more : Text}

theorem eq_of_getElem?_map {f : CodePoint → Text} {l more : Text} {k : Nat} {d : CodePoint}
    {t : Text} (hd : (l ++ more)[k]? = some d) (ht : (l.map f)[k]? = some t) : t = f d := by
  rw [List.getElem?_map] at ht
  obtain ⟨e, he, rfl⟩ := Option.map_eq_some_iff.mp ht
  obtain ⟨hk, -⟩ := List.getElem?_eq_some_iff.mp he
  rw [List.getElem?_append_left hk, he] at hd
  rw [Option.some.inj hd]

theorem flatten_map_singleton (l : Text) : (l.map fun c => [c]).flatten = l := by
  rw [← List.flatMap_def, List.flatMap_singleton']

/-- A step is copied that no code point plays a role in. -/
theorem StepRespelled.of_copies (h : Copies multiline false false (c :: piece) more)
    (hroles : ∀ k ≤ piece.length, ∀ role ∈ [Role.finish, .literalBrace, .numberBrace, .nameSign],
      ¬ role c (piece ++ more) k) :
    StepRespelled multiline c (piece ++ more) piece.length ((c :: piece).map fun d => [d]) where
  fits := by simp
  length := by simp
  respelled := by
    rw [flatten_map_singleton, List.drop_left]
    exact h
  each := by
    intro k d t hd ht
    have hk : k ≤ piece.length := by
      obtain ⟨hlt, -⟩ := List.getElem?_eq_some_iff.mp ht
      rw [List.length_map, List.length_cons] at hlt
      exact Nat.le_of_lt_succ hlt
    obtain rfl := eq_of_getElem?_map (l := c :: piece) hd ht
    have hnone := hroles k hk
    exact .of_copied (hnone _ (by simp)) (hnone _ (by simp)) (hnone _ (by simp))
      (hnone _ (by simp))

theorem StepRespelled.of_inert (h : Copies multiline false false (c :: piece) more)
    (hc : c ∉ [Ascii.dollar, Ascii.openBrace, Ascii.backslash, Ascii.openParen]) :
    StepRespelled multiline c (piece ++ more) piece.length ((c :: piece).map fun d => [d]) := by
  refine .of_copies h fun k _ role hrole hplays => hc ?_
  simp only [List.mem_cons, List.not_mem_nil, or_false] at hrole
  rcases hrole with rfl | rfl | rfl | rfl <;> simp [hplays.1]

/-- A step whose first code point alone may be spelled otherwise. -/
theorem StepRespelled.of_first (first : Text)
    (h : respellFrom multiline false (c :: (piece ++ more)) =
      first ++ respellFrom multiline false (piece ++ more))
    (hpiece : Copies multiline false false piece more)
    (hc : c ∉ [Ascii.backslash, Ascii.openParen])
    (hrole : Respelled multiline (fun role => role c (piece ++ more) 0) c first) :
    StepRespelled multiline c (piece ++ more) piece.length
      (first :: piece.map fun d => [d]) where
  fits := by simp
  length := by simp
  respelled := by
    rw [h, hpiece, List.flatten_cons, flatten_map_singleton, List.drop_left, List.append_assoc]
  each := by
    intro k d t hd ht
    simp only [List.mem_cons, List.not_mem_nil, or_false, not_or] at hc
    cases k with
    | zero =>
        obtain rfl := Option.some.inj hd
        obtain rfl := Option.some.inj ht
        exact hrole
    | succ k =>
        obtain rfl := eq_of_getElem?_map (l := piece) hd ht
        exact .of_copied (fun h => nomatch h.2.1) (fun h => nomatch h.2.1) (fun h => hc.1 h.1)
          (fun h => hc.2 h.1)

theorem StepRespelled.of_dollar (hpiece : Copies multiline false false piece more) :
    ∃ out, StepRespelled multiline Ascii.dollar (piece ++ more) piece.length out := by
  refine ⟨_, .of_first (if multiline then [Ascii.dollar] else "\\Z") ?_ hpiece (by decide) ?_⟩
  · rw [respellFrom_outside _ multiline (by decide) (by decide) (fun h => absurd h (by decide))]
    cases multiline <;> rfl
  · refine ⟨fun _ => rfl, ?_, ?_, fun hnot => absurd ⟨rfl, rfl, rfl⟩ hnot⟩
    · rintro (hrole | hrole) <;> exact absurd hrole.1 (by decide)
    · exact fun hrole => absurd hrole.1 (by decide)

theorem StepRespelled.of_brace (hpiece : Copies multiline false false piece more)
    (hnone : Braces.read? (Ascii.openBrace :: (piece ++ more)) = none) :
    ∃ out, StepRespelled multiline Ascii.openBrace (piece ++ more) piece.length out := by
  refine ⟨_, .of_first "\\\x7b" ?_ hpiece (by decide) ?_⟩
  · rw [respellFrom_outside _ multiline (by decide) (by decide) (fun h => absurd h (by decide)),
      respellOne_of_no_bounds multiline hnone]
  · have hliteral : Role.literalBrace Ascii.openBrace (piece ++ more) 0 := by
      refine ⟨rfl, rfl, ?_⟩
      have hmark : startsWithMark (Ascii.openBrace :: (piece ++ more)) = false := by
        rw [startsWithMark, hnone]
        · rfl
        all_goals exact fun rest heq => absurd (List.cons.inj heq).1 (by decide)
      rw [readAtom, hmark]
      rfl
    refine ⟨fun hrole => absurd hrole.1 (by decide), fun _ => rfl, ?_, ?_⟩
    · exact fun hrole => absurd hrole.1 (by decide)
    · exact fun _ hnot => absurd hliteral hnot

/-- In an escape only the brace before a number may be spelled otherwise. -/
theorem Respelled.of_backslash {rest t : Text} {k : Nat} {d : CodePoint}
    (hnumber : Role.numberBrace Ascii.backslash rest k → t = "\\\x7b")
    (hcopy : ¬ Role.numberBrace Ascii.backslash rest k → t = [d]) :
    Respelled multiline (fun role => role Ascii.backslash rest k) d t where
  finish := fun h => absurd h.1 (by decide)
  brace := fun h => h.elim (fun h => absurd h.1 (by decide)) hnumber
  sign := fun h => absurd h.1 (by decide)
  copy := fun _ _ h _ _ => hcopy h

/-- An escape with a number in braces and its mark. -/
theorem StepRespelled.of_number {digits mark : Text}
    (hdigits : ∀ d ∈ digits, Ascii.isHex d = true)
    (hmark : Copies multiline false false mark more) :
    ∃ out, StepRespelled multiline Ascii.backslash
      ('u'.toNat :: Ascii.openBrace :: (digits ++ Ascii.closeBrace :: (mark ++ more)))
      (digits.length + 3 + mark.length) out := by
  let inner := digits ++ Ascii.closeBrace :: (mark ++ more)
  let tail := digits ++ Ascii.closeBrace :: mark
  have hinner : inner = tail ++ more := by simp [inner, tail]
  have htail : Copies multiline false false tail more := by
    have hclose : Copies multiline false false [Ascii.closeBrace] (mark ++ more) :=
      .of_inert (by decide)
    exact (Copies.of_forall_inert fun d hd => inert_of_isHex (hdigits d hd)).append
      (hclose.append hmark)
  have hlength : tail.length = digits.length + 1 + mark.length := by
    simp only [tail, List.length_append, List.length_cons]
    omega
  refine ⟨[Ascii.backslash] :: ['u'.toNat] :: respellOne multiline Ascii.openBrace inner ::
    tail.map fun d => [d], ?_, ?_, ?_, ?_⟩
  · simp only [List.length_cons, List.length_append]
    omega
  · simp only [List.length_cons, List.length_map, hlength]
    omega
  · have hdrop : inner.drop tail.length = more := by rw [hinner, List.drop_left]
    have htaken : digits.length + 3 + mark.length = tail.length + 2 := by omega
    have hbrace := respellFrom_outside inner multiline (c := Ascii.openBrace) (by decide)
      (by decide) (fun h => absurd h (by decide))
    rw [htaken, List.drop_succ_cons, List.drop_succ_cons, respellFrom]
    simp only [List.flatten_cons, flatten_map_singleton, List.cons_append, List.nil_append]
    rw [hbrace, hdrop, hinner, htail]
    simp
  · intro k d t hd ht
    rcases k with _ | _ | _ | k
    iterate 2
      · obtain rfl := Option.some.inj hd
        obtain rfl := Option.some.inj ht
        exact .of_backslash (fun h => absurd h.2.1 (by decide)) (fun _ => rfl)
    · obtain rfl := Option.some.inj hd
      obtain rfl := Option.some.inj ht
      -- the brace is escaped if and only if it does not look like bounds
      cases hbounds : Braces.read? (Ascii.openBrace :: inner) with
      | none =>
          have hnumber : Role.numberBrace Ascii.backslash
              ('u'.toNat :: Ascii.openBrace :: inner) 2 := ⟨rfl, rfl, inner, rfl, hbounds⟩
          exact .of_backslash (fun _ => respellOne_of_no_bounds multiline hbounds)
            (fun h => absurd hnumber h)
      | some braces =>
          refine .of_backslash ?_ fun _ => respellOne_of_bounds multiline hbounds
          rintro ⟨-, -, more', heq, hnone⟩
          obtain rfl := (List.cons.inj (List.cons.inj heq).2).2
          rw [hbounds] at hnone
          cases hnone
    · have hd' : (tail ++ more)[k]? = some d := by
        rw [← hinner]
        exact hd
      obtain rfl := eq_of_getElem?_map hd' ht
      exact .of_backslash (fun h => by have := h.2.1; omega) (fun _ => rfl)

/-- What becomes of a code point in the name of a group. -/
def nameSpelling (multiline : Bool) (c : CodePoint) : Text :=
  if c = Ascii.dollar ∧ !multiline then "\\Z" else [c]

/-- The name of a group and the sign that closes it are respelled one by one. -/
theorem respellFrom_name {name : Text} (h : ∀ c ∈ name, continuesGroupName c = true) (t : Text) :
    respellFrom multiline false (name ++ Ascii.greater :: t) =
      ((name ++ [Ascii.greater]).map (nameSpelling multiline)).flatten ++
        respellFrom multiline false t := by
  induction name with
  | nil =>
      have hclose : Copies multiline false false [Ascii.greater] t := .of_inert (by decide)
      exact hclose
  | cons c name ih =>
      obtain ⟨hc, hname⟩ := List.forall_mem_cons.mp h
      have hword : c = Ascii.dollar ∨ Inert c := by
        simp only [continuesGroupName, Bool.or_eq_true, beq_iff_eq] at hc
        rcases hc with hc | hc
        · exact Or.inr (.of_property Unicode.isWord hc (by decide +kernel))
        · exact Or.inl hc
      have hone : respellFrom multiline false (c :: (name ++ Ascii.greater :: t)) =
          nameSpelling multiline c ++ respellFrom multiline false (name ++ Ascii.greater :: t) := by
        rcases hword with rfl | hinert
        · rw [respellFrom_outside _ multiline (by decide) (by decide)
            (fun h => absurd h (by decide))]
          cases multiline <;> rfl
        · have hdollar : ¬ (c = Ascii.dollar ∧ (!multiline) = true) := by
            rintro ⟨rfl, -⟩
            exact absurd hinert (by decide)
          have hcopy : Copies multiline false false [c] (name ++ Ascii.greater :: t) :=
            .of_inert hinert
          rw [nameSpelling, if_neg hdollar]
          exact hcopy
      rw [List.cons_append, hone, ih hname]
      simp

/-- Only a dollar sign in a name is spelled otherwise than a sign that opens a group is. -/
theorem Respelled.of_name {rest : Text} {k : Nat} {d : CodePoint}
    (hsign : ¬ Role.nameSign Ascii.openParen rest k)
    (hletter : d = Ascii.dollar → Role.nameLetter Ascii.openParen rest k) :
    Respelled multiline (fun role => role Ascii.openParen rest k) d (nameSpelling multiline d) where
  finish := fun h => absurd h.1 (by decide)
  brace := by rintro (h | h) <;> exact absurd h.1 (by decide)
  sign := fun h => absurd h hsign
  copy := by
    intro _ _ _ _ hmultiline
    rw [nameSpelling, if_neg]
    rintro ⟨hdollar, hsingle⟩
    rw [hmultiline (hletter hdollar) hdollar] at hsingle
    cases hsingle

/-- The opening of a named group, where the signs before the name are respelled by `front`. -/
theorem StepRespelled.of_front {sign name : Text} (front : List Text) {behaviour : Behaviour}
    {width : Nat} (hcontinues : ∀ c ∈ name, continuesGroupName c = true)
    (hwidth : width = sign.length + (name.length + 1)) (hsign : 2 ≤ sign.length)
    (hread : readOpening (sign ++ (name ++ Ascii.greater :: more)) =
      .ok (behaviour, some name, width))
    (hlength : front.length = sign.length + 1)
    (hfront : respellFrom multiline false
        (Ascii.openParen :: (sign ++ (name ++ Ascii.greater :: more))) =
      front.flatten ++ respellFrom multiline false (name ++ Ascii.greater :: more))
    (heach : ∀ k d t, (Ascii.openParen :: sign)[k]? = some d → front[k]? = some t →
      Respelled multiline
        (fun role => role Ascii.openParen (sign ++ (name ++ Ascii.greater :: more)) k) d t) :
    StepRespelled multiline Ascii.openParen (sign ++ (name ++ Ascii.greater :: more)) width
      (front ++ (name ++ [Ascii.greater]).map (nameSpelling multiline)) where
  fits := by
    simp only [hwidth, List.length_append, List.length_cons]
    omega
  length := by
    simp only [hwidth, hlength, List.length_append, List.length_map, List.length_singleton]
    omega
  respelled := by
    have hdrop : (sign ++ (name ++ Ascii.greater :: more)).drop width = more := by
      rw [hwidth, List.drop_length_add_append, List.drop_length_add_append, List.drop_succ_cons,
        List.drop_zero]
    rw [hfront, respellFrom_name hcontinues, hdrop, List.flatten_append, List.append_assoc]
  each := by
    intro k d t hd ht
    rw [← List.cons_append] at hd
    by_cases hk : k < front.length
    · rw [List.getElem?_append_left (by rwa [List.length_cons, ← hlength])] at hd
      rw [List.getElem?_append_left hk] at ht
      exact heach k d t hd ht
    · have hle : front.length ≤ k := Nat.not_lt.mp hk
      rw [List.getElem?_append_right (by rwa [List.length_cons, ← hlength]), List.length_cons,
        ← hlength, ← List.singleton_append, ← List.append_assoc] at hd
      rw [List.getElem?_append_right hle] at ht
      obtain rfl := eq_of_getElem?_map hd ht
      exact .of_name (fun h => by have := h.2.1; omega)
        (fun _ => ⟨rfl, by omega, behaviour, name, width, hread⟩)

/-- The opening of a named group with the sign `?<`. -/
theorem StepRespelled.of_short_sign {behaviour : Behaviour} {name : Text} {width : Nat}
    (hcontinues : ∀ c ∈ name, continuesGroupName c = true) (hne : name ≠ [])
    (hwidth : width = 2 + (name.length + 1))
    (hread : readOpening ([Ascii.question, Ascii.less] ++ (name ++ Ascii.greater :: more)) =
      .ok (behaviour, some name, width)) :
    ∃ out, StepRespelled multiline Ascii.openParen
      ([Ascii.question, Ascii.less] ++ (name ++ Ascii.greater :: more)) width out := by
  refine ⟨_, .of_front [[Ascii.openParen], [Ascii.question], "P<"] hcontinues hwidth (by decide)
    hread rfl ?_ ?_⟩
  · have hlookbehind : marksLookbehind (name ++ Ascii.greater :: more) = false := by
      obtain ⟨c, name, rfl⟩ := List.exists_cons_of_ne_nil hne
      have hc := hcontinues c List.mem_cons_self
      unfold marksLookbehind
      split
      · next heq =>
          rw [(List.cons.inj heq).1] at hc
          exact absurd hc (by decide +kernel)
      · next heq =>
          rw [(List.cons.inj heq).1] at hc
          exact absurd hc (by decide +kernel)
      · rfl
    rw [List.cons_append, List.singleton_append, respellFrom,
      if_neg (by rw [hlookbehind]; decide)]
    rfl
  · intro k d t hd ht
    rcases k with _ | _ | _ | k
    iterate 2
      · obtain rfl := Option.some.inj hd
        obtain rfl := Option.some.inj ht
        exact .of_name (fun h => absurd h.2.1 (by decide)) (fun h => absurd h (by decide))
    · obtain rfl := Option.some.inj ht
      have hsign : Role.nameSign Ascii.openParen
          ([Ascii.question, Ascii.less] ++ (name ++ Ascii.greater :: more)) 2 :=
        ⟨rfl, rfl, _, behaviour, name, width, rfl, hread⟩
      refine ⟨fun h => absurd h.1 (by decide), ?_, fun _ => rfl, fun _ _ _ h => absurd hsign h⟩
      rintro (h | h) <;> exact absurd h.1 (by decide)
    · cases ht

theorem StepRespelled.of_long_sign {behaviour : Behaviour} {name : Text} {width : Nat}
    (hcontinues : ∀ c ∈ name, continuesGroupName c = true)
    (hwidth : width = 3 + (name.length + 1))
    (hread : readOpening
      ([Ascii.question, Ascii.upperP, Ascii.less] ++ (name ++ Ascii.greater :: more)) =
      .ok (behaviour, some name, width)) :
    ∃ out, StepRespelled multiline Ascii.openParen
      ([Ascii.question, Ascii.upperP, Ascii.less] ++ (name ++ Ascii.greater :: more)) width
      out := by
  let sign := [Ascii.openParen, Ascii.question, Ascii.upperP, Ascii.less]
  refine ⟨_, .of_front (sign.map fun c => [c]) hcontinues hwidth (by decide) hread rfl ?_ ?_⟩
  · have hopen : Copies multiline false false [Ascii.openParen]
        ([Ascii.question, Ascii.upperP, Ascii.less] ++ (name ++ Ascii.greater :: more)) := by
      refine .outside (by decide) (by decide) ?_ ?_
      · rintro - rest heq
        exact absurd (List.cons.inj (List.cons.inj heq).2).1 (by decide)
      · rw [respellOne, if_neg (fun h => absurd h.1 (by decide)),
          if_neg (fun h => absurd h.1 (by decide))]
    rw [flatten_map_singleton]
    exact hopen.append (.of_forall_inert (by decide))
  · intro k d t hd ht
    have hd' : (sign ++ [])[k]? = some d := by rwa [List.append_nil]
    obtain rfl := eq_of_getElem?_map hd' ht
    refine .of_copied (fun h => absurd h.1 (by decide)) (fun h => absurd h.1 (by decide))
      (fun h => absurd h.1 (by decide)) ?_
    rintro ⟨-, -, more', behaviour', name', width, heq, -⟩
    exact absurd (List.cons.inj (List.cons.inj heq).2).1 (by decide)

theorem StepRespelled.of_opening {rest : Text} {behaviour : Behaviour} {name : Option Text}
    {width : Nat} (h : readOpening rest = .ok (behaviour, name, width)) :
    ∃ out, StepRespelled multiline Ascii.openParen rest width out := by
  cases name with
  | none =>
      obtain ⟨piece, more, rfl, rfl, hpiece⟩ := copies_opening multiline h
      refine ⟨_, .of_copies hpiece fun k _ role hrole hplays => ?_⟩
      simp only [List.mem_cons, List.not_mem_nil, or_false] at hrole
      rcases hrole with rfl | rfl | rfl | rfl
      · exact absurd hplays.1 (by decide)
      · exact absurd hplays.1 (by decide)
      · exact absurd hplays.1 (by decide)
      · obtain ⟨-, -, more', behaviour, name, width, -, hread⟩ := hplays
        rw [h] at hread
        cases hread
  | some name =>
      obtain ⟨sign, more, hsign, rfl, hwidth, hne, hcontinues⟩ := exists_of_readOpening_named h
      simp only [List.mem_cons, List.not_mem_nil, or_false] at hsign
      rcases hsign with rfl | rfl
      · exact StepRespelled.of_short_sign hcontinues hne hwidth h
      · exact StepRespelled.of_long_sign hcontinues hwidth h

theorem readTerm_of_no_bounds {t : Text} (h : Braces.read? (Ascii.openBrace :: t) = none)
    (atom : Node) (start next : Nat) :
    readTerm atom start next (Ascii.openBrace :: t) = .ok (atom, 0) := by
  apply readTerm_of_readBare?
  rw [readBare?, h]
  all_goals exact fun rest heq => absurd (List.cons.inj heq).1 (by decide)

theorem StepRespelled.of_escape {rest : Text} {atom term : Node} {start next : Nat}
    {width markWidth : Nat} (hatom : readEscape false rest = .ok (atom, width))
    (hterm : readTerm atom start next (rest.drop width) = .ok (term, markWidth))
    (supported : atom.Supported) :
    ∃ out, StepRespelled multiline Ascii.backslash rest (width + markWidth) out := by
  cases rest with
  | nil => cases hatom
  | cons c rest =>
      obtain ⟨tail, more, rfl, rfl, htail⟩ := readLetter_tail false c rest _ _ hatom supported
      rw [List.drop_succ_cons, List.drop_left] at hterm
      obtain ⟨mark, more, rfl, rfl, hmark⟩ := copies_mark multiline hterm
      rcases htail with hinert | ⟨rfl, digits, rfl, hdigits⟩
      · have hcopies : Copies multiline false false (Ascii.backslash :: (c :: tail ++ mark)) more :=
          Copies.escape.append ((Copies.of_forall_inert hinert).append hmark)
        have hsplit : c :: (tail ++ (mark ++ more)) = (c :: tail ++ mark) ++ more := by simp
        have hwidth : tail.length + 1 + mark.length = (c :: tail ++ mark).length := by
          rw [List.length_append, List.length_cons]
        rw [hsplit, hwidth]
        refine ⟨_, .of_copies hcopies fun k hk role hrole hplays => ?_⟩
        simp only [List.mem_cons, List.not_mem_nil, or_false] at hrole
        rcases hrole with rfl | rfl | rfl | rfl
        · exact absurd hplays.1 (by decide)
        · exact absurd hplays.1 (by decide)
        · obtain ⟨-, rfl, more', heq, hnone⟩ := hplays
          rw [← hsplit] at heq
          obtain ⟨-, heq⟩ := List.cons.inj heq
          cases tail with
          | cons d tail =>
              -- a brace is not among the inert code points
              obtain ⟨rfl, -⟩ := List.cons.inj heq
              exact absurd (hinert _ List.mem_cons_self) (by decide)
          | nil =>
              -- the brace would begin the mark, but it opens no bounds
              rw [List.nil_append] at heq
              rw [heq, readTerm_of_no_bounds hnone] at hterm
              have hempty : mark.length = 0 := (Prod.mk.inj (Except.ok.inj hterm)).2.symm
              rw [List.cons_append, List.nil_append, List.length_cons, hempty] at hk
              omega
        · exact absurd hplays.1 (by decide)
      · obtain ⟨out, hout⟩ := StepRespelled.of_number hdigits hmark
        refine ⟨out, ?_⟩
        convert hout using 1
        · simp
        · simp

theorem StepRespelled.of_literal {mark : Text} (hmark : Copies multiline false false mark more)
    (h : c ∉ [Ascii.openBracket, Ascii.backslash, Ascii.openParen, Ascii.dollar])
    (hnone : c = Ascii.openBrace → Braces.read? (c :: (mark ++ more)) = none) :
    ∃ out, StepRespelled multiline c (mark ++ more) mark.length out := by
  simp only [List.mem_cons, List.not_mem_nil, or_false, not_or] at h
  obtain ⟨hbracket, hbackslash, hparen, hdollar⟩ := h
  by_cases hbrace : c = Ascii.openBrace
  · subst hbrace
    exact StepRespelled.of_brace hmark (hnone rfl)
  · have hc : Copies multiline false false [c] (mark ++ more) := by
      refine .outside hbackslash hbracket (fun heq => absurd heq hparen) ?_
      rw [respellOne, if_neg (fun heq => hdollar heq.1), if_neg (fun heq => hbrace heq.1)]
    exact ⟨_, .of_inert (hc.append hmark) (by simp [hbackslash, hparen, hdollar, hbrace])⟩

theorem StepRespelled.of_class {rest : Text} {atom term : Node} {start next : Nat}
    {width markWidth : Nat} (hatom : readClass rest = .ok (atom, width))
    (hterm : readTerm atom start next (rest.drop width) = .ok (term, markWidth))
    (supported : ∀ node ∈ atom.subnodes, node.Supported) :
    ∃ out, StepRespelled multiline Ascii.openBracket rest (width + markWidth) out := by
  obtain ⟨piece, more, rfl, rfl, hpiece⟩ := copies_class multiline hatom supported
  rw [List.drop_left] at hterm
  obtain ⟨mark, more, rfl, rfl, hmark⟩ := copies_mark multiline hterm
  have hcopies : Copies multiline false false (Ascii.openBracket :: (piece ++ mark)) more := by
    rw [Copies, List.cons_append, List.append_assoc, respellFrom, hpiece, hmark]
    simp
  rw [← List.append_assoc, ← List.length_append]
  exact ⟨_, .of_inert hcopies (by decide)⟩

/-- What is neither a class nor an escape is read on its own, and a brace is so if it opens no
bounds. -/
theorem width_eq_zero_of_readAtom {rest : Text} {atom : Node} {width : Nat}
    (h : readAtom c rest = .ok (atom, width)) (hbracket : c ≠ Ascii.openBracket)
    (hbackslash : c ≠ Ascii.backslash) :
    width = 0 ∧ (c = Ascii.openBrace → Braces.read? (c :: rest) = none) := by
  have other : ∀ {d : CodePoint}, c = d → d ≠ Ascii.openBrace →
      c = Ascii.openBrace → Braces.read? (c :: rest) = none := by
    rintro d rfl hd hbrace
    exact absurd hbrace hd
  unfold readAtom at h
  rw [if_neg hbracket] at h
  split at h
  · next hdot =>
      cases h
      exact ⟨rfl, other hdot (by decide)⟩
  split at h
  · next hcaret =>
      cases h
      exact ⟨rfl, other hcaret (by decide)⟩
  split at h
  · next hdollar =>
      cases h
      exact ⟨rfl, other hdollar (by decide)⟩
  split at h
  · cases h
  · next hmark =>
      cases h
      refine ⟨rfl, ?_⟩
      rintro rfl
      cases hread : Braces.read? (Ascii.openBrace :: rest) with
      | none => rfl
      | some braces =>
          rw [startsWithMark, hread] at hmark
          · exact absurd rfl hmark
          all_goals exact fun more heq => absurd (List.cons.inj heq).1 (by decide)

theorem StepRespelled.of_atom {rest : Text} {atom term : Node} {start next : Nat}
    {width markWidth : Nat} (hparen : c ≠ Ascii.openParen)
    (hatom : readAtom c rest = .ok (atom, width))
    (hterm : readTerm atom start next (rest.drop width) = .ok (term, markWidth))
    (supported : ∀ node ∈ atom.subnodes, node.Supported) :
    ∃ out, StepRespelled multiline c rest (width + markWidth) out := by
  by_cases hbracket : c = Ascii.openBracket
  · subst hbracket
    exact StepRespelled.of_class hatom hterm supported
  by_cases hbackslash : c = Ascii.backslash
  · subst hbackslash
    exact StepRespelled.of_escape hatom hterm (supported atom atom.mem_subnodes_self)
  obtain ⟨rfl, hbrace⟩ := width_eq_zero_of_readAtom hatom hbracket hbackslash
  rw [List.drop_zero] at hterm
  obtain ⟨mark, more, rfl, rfl, hmark⟩ := copies_mark multiline hterm
  rw [Nat.zero_add]
  by_cases hdollar : c = Ascii.dollar
  · subst hdollar
    exact StepRespelled.of_dollar hmark
  · exact StepRespelled.of_literal hmark (by simp [hbracket, hbackslash, hparen, hdollar]) hbrace

/-- What one step takes is respelled as its roles tell. -/
theorem exists_stepRespelled {p q : Progress} {pos taken : Nat} {rest : Text}
    (h : p.step pos c rest = .ok (q, taken)) (supported : ∀ node ∈ q.nodes, node.Supported) :
    ∃ out, StepRespelled multiline c rest taken out := by
  rcases Progress.step_cases h with ⟨rfl, -, rfl⟩ |
    ⟨rfl, opening, openings, term, -, hterm, -⟩ | ⟨rfl, behaviour, name, hopening, -⟩ |
    ⟨hc, atom, width, term, markWidth, hatom, hterm, rfl, rfl⟩
  · have hbar : Copies multiline false false [Ascii.bar] rest := .of_inert (by decide)
    exact ⟨_, .of_inert hbar (by decide)⟩
  · obtain ⟨mark, more, rfl, rfl, hmark⟩ := copies_mark multiline hterm
    have hclose : Copies multiline false false [Ascii.closeParen] (mark ++ more) :=
      .of_inert (by decide)
    exact ⟨_, .of_inert (hclose.append hmark) (by decide)⟩
  · exact StepRespelled.of_opening hopening
  · have hparen : c ≠ Ascii.openParen := by
      rintro rfl
      exact hc (by simp)
    refine StepRespelled.of_atom hparen hatom hterm fun node hnode => supported node ?_
    rw [Progress.nodes, List.mem_append, Level.mem_nodes_push]
    exact Or.inl (Or.inr (mem_subnodes_of_readTerm hterm hnode))

end Steps

section Runs

variable {pattern : Text} (multiline : Bool)

/-- The roles of a code point are those that it has in the step that takes it. -/
theorem plays_eq {c : CodePoint} {rest : Text} {i k : Nat} (h : StepAt pattern i c rest k) :
    Plays pattern i = fun role => role c rest k := by
  funext role
  apply propext
  constructor
  · rintro ⟨c', rest', k', hstep, hrole⟩
    obtain ⟨rfl, rfl, rfl⟩ := h.unique hstep
    exact hrole
  · exact fun hrole => ⟨c, rest, k, h, hrole⟩

/-- From every state that a reading passes, the rest of the pattern is respelled as its roles
tell. -/
theorem exists_respelled_of_run {p : Progress} {pos : Nat} {t : Text} {parsed : Parsed}
    (hreaches : Reaches pattern p pos t) (h : Progress.run 0 pos p t = .ok parsed)
    (supported : ∀ node ∈ parsed.root.subnodes, node.Supported) :
    ∃ out : List Text, out.length = t.length ∧
      Host.respellFrom multiline false t = out.flatten ∧
      ∀ k c u, t[k]? = some c → out[k]? = some u →
        Respelled multiline (Plays pattern (pos + k)) c u := by
  induction pos, p, t, h using Progress.run_induction with
  | done pos p h => exact ⟨[], rfl, by rw [Host.respellFrom, List.flatten_nil], nofun⟩
  | step pos p c rest q taken h hrun hstep ih =>
      have hnodes := Progress.nodes_subset_of_run hrun
      obtain ⟨first, hfirst⟩ : ∃ first, StepRespelled multiline c rest taken first :=
        exists_stepRespelled hstep fun node hnode => supported node (hnodes hnode)
      have hfits := hfirst.fits
      obtain ⟨others, hothers, hflat, heach⟩ := ih (hreaches.step hstep)
      refine ⟨first ++ others, ?_, ?_, ?_⟩
      · rw [List.length_append, hfirst.length, hothers, List.length_drop, List.length_cons]
        omega
      · rw [hfirst.respelled, hflat, List.flatten_append]
      · intro k d u hd hu
        by_cases hk : k ≤ taken
        · rw [List.getElem?_append_left (by rw [hfirst.length]; omega)] at hu
          rw [plays_eq ⟨p, q, pos, taken, hreaches, hstep, hk, rfl⟩]
          exact hfirst.each k d u hd hu
        · obtain ⟨j, rfl⟩ := Nat.exists_eq_add_of_lt (Nat.not_le.mp hk)
          have hd' : (rest.drop taken)[j]? = some d := by
            rw [List.getElem?_drop]
            exact hd
          have hu' : others[j]? = some u := by
            rw [List.getElem?_append_right (by rw [hfirst.length]; omega), hfirst.length] at hu
            rw [← hu]
            congr 1
            omega
          have hpos : pos + 1 + taken + j = pos + (taken + j + 1) := by omega
          exact hpos ▸ heach j d u hd' hu'

/-- The respelling of a pattern without constructs that never match follows its reading: it consists
of one piece for each code point, which is the code point itself unless it plays one of the roles
that are spelled otherwise. -/
theorem respell_follows_reading {parsed : Parsed} (h : parse pattern = .ok parsed)
    (supported : ∀ node ∈ parsed.root.subnodes, node.Supported) :
    ∃ out : List Text, out.length = pattern.length ∧
      Host.respell multiline pattern = out.flatten ∧
      ∀ i c t, pattern[i]? = some c → out[i]? = some t →
        Respelled multiline (Plays pattern i) c t := by
  obtain ⟨out, hlength, hflat, heach⟩ := exists_respelled_of_run multiline .start h supported
  refine ⟨out, hlength, hflat, fun i c t hc ht => ?_⟩
  rw [← Nat.zero_add i]
  exact heach i c t hc ht

/-- A named group with a dollar sign in brackets and one that is an anchor, and with bounds, a
number and a literal in braces. -/
def signs : Text := "(?<n>[$]\x7b2\x7d$|\\u\x7b4F\x7d\x7b)"

/-- The tree of that group. -/
def signsTree : Node :=
  .alternative [.group .capturing [.disjunction [
    .alternative [.quantifier 2 (some 2) true (.charClass false [.value 0x24]) none,
      .anchor .finish],
    .alternative [.value 0x4F, .value 0x7B]]] (some "n") (some 1)]

/-- The respelling of that group follows its reading. -/
theorem respell_follows_reading_signs :
    parse signs = .ok ⟨signsTree, 1⟩ ∧ (∀ node ∈ signsTree.subnodes, node.Supported) ∧
      ∃ out : List Text, out.length = signs.length ∧
        Host.respell false signs = out.flatten ∧
        ∀ i c t, signs[i]? = some c → out[i]? = some t →
          Respelled false (Plays signs i) c t := by
  have hparse : parse signs = .ok ⟨signsTree, 1⟩ := by rfl
  have supported : ∀ node ∈ signsTree.subnodes, node.Supported := by decide
  exact ⟨hparse, supported, respell_follows_reading false hparse supported⟩

/-- A brace of an escape with a number and a dollar sign in a name are not copied, though neither is
read as a literal or an anchor. -/
theorem number_and_name_not_copied :
    (parse "\\u\x7b4F\x7d" = .ok ⟨.alternative [.value 0x4F], 0⟩ ∧
      Host.respell false "\\u\x7b4F\x7d" ≠ "\\u\x7b4F\x7d") ∧
    parse "(?<a$>b)" = .ok ⟨.alternative [.group .capturing [.value 0x62] (some "a$") (some 1)],
        1⟩ ∧
      Host.respell false "(?<a$>b)" ≠ "(?P<a$>b)" := by
  exact ⟨⟨by rfl, by decide⟩, by rfl, by decide⟩

end Runs

end RegexTrace.Pattern
