import Mathlib.Data.List.Find
import RegexTrace.Proofs.Lookahead

/-!
# Classes, marks and openings before a fence

A class is closed by its own bracket, so whatever follows it is not looked at. Repetition marks, the
openings of groups and whole atoms are read before a fence as they are at the end of a text.
-/

namespace RegexTrace.Pattern

/-- Whatever a reading answers, with the number of code points that it takes, has a property. -/
def Reading.Answers {α : Type} (r : Reading (α × Nat)) (good : α → Nat → Prop) : Prop :=
  ∀ x n, r = .ok (x, n) → good x n

namespace Reading.Answers

variable {α : Type} {r r' : Reading (α × Nat)} {good : α → Nat → Prop}

theorem ok {x : α} {n : Nat} (h : good x n) : Answers (.ok (x, n)) good := by
  intro y m heq
  cases heq
  exact h

theorem error {fault : Cause × Nat} : Answers (.error fault) good := by
  intro x n heq
  cases heq

end Reading.Answers

/-- The nodes that an escape with the letter `c` before the text `rest` can stand for. -/
inductive LetterNode (inClass : Bool) (c : CodePoint) (rest : Text) : Node → Prop
  | value (n : CodePoint) : LetterNode inClass c rest (.value n)
  | escape {kind : EscapeKind} (known : kind.Known) : LetterNode inClass c rest (.escape kind)
  | anchor (kind : AnchorKind) (outside : inClass = false) :
    LetterNode inClass c rest (.anchor kind)
  | number (low : '1'.toNat ≤ c) (high : c ≤ '9'.toNat) (outside : inClass = false) :
    LetterNode inClass c rest (unsupportedEscape "reference" (c :: rest) (referenceWidth rest)).1
  | name {t name : Text} {width : Nat} (hc : c = 'k'.toNat) (hrest : rest = Ascii.less :: t)
    (hname : readGroupName? t = some (name, width)) :
    LetterNode inClass c rest (unsupportedEscape "reference" (c :: rest) (width + 2)).1
  | property {t inside : Text} (hc : c = 'p'.toNat ∨ c = 'P'.toNat)
    (hrest : rest = Ascii.openBrace :: t) (hinside : beforeBrace? rest = some inside) :
    LetterNode inClass c rest
      (unsupportedEscape "unicodePropertyEscape" (c :: rest) (inside.length + 2)).1

/-- The escape with a letter stands for one of these nodes, and takes at least the letter. -/
theorem readLetter_answers (inClass : Bool) (c : CodePoint) (rest : Text) :
    (readLetter inClass c rest).Answers fun node width =>
      LetterNode inClass c rest node ∧ 1 ≤ width := by
  have value : ∀ {n : CodePoint} {width : Nat}, Reading.Answers (.ok (.value n, width + 1))
      fun node width => LetterNode inClass c rest node ∧ 1 ≤ width :=
    .ok ⟨.value _, Nat.le_add_left 1 _⟩
  obtain ⟨reader, hreader, heq⟩ := exists_letterReader inClass c rest
  rw [heq]
  cases hreader with
  | kind known => exact .ok ⟨.escape known, Nat.le_refl 1⟩
  | boundary _ outside => exact .ok ⟨.anchor _ outside, Nat.le_refl 1⟩
  | codePoint => exact value
  | number low high outside => exact .ok ⟨.number low high outside, Nat.le_add_right 1 _⟩
  | name hc less =>
      obtain ⟨t, rfl⟩ := List.head?_eq_some_iff.mp less
      unfold readNameReference
      split
      · next name width hname => exact .ok ⟨.name hc rfl hname, Nat.le_add_left 1 _⟩
      · exact .error
  | property hc brace =>
      obtain ⟨t, rfl⟩ := List.head?_eq_some_iff.mp brace
      unfold readProperty
      split
      · next inside hinside => exact .ok ⟨.property hc rfl hinside, Nat.le_add_left 1 _⟩
      · exact .error
  | unicode => exact value
  | control =>
      obtain ⟨n, tail, more, -, hread, -⟩ := readControl_spec c rest
      simp only [hread]
      exact value
  | byte =>
      obtain ⟨n, tail, more, -, hread, -⟩ := readByte_spec c rest
      simp only [hread]
      exact value

/-- What is read as one atom of a class before a fence. -/
theorem Fenced.readClassAtom_append {s : Text} (hs : Fenced s) (a : Text) :
    Reading.Extends a.length (readClassAtom a) (readClassAtom (a ++ s)) := by
  match a with
  | [] =>
      refine ⟨nofun, fun x n hn hx => ?_⟩
      cases s with
      | nil => cases hx
      | cons d s =>
          have hd : d ≠ Ascii.backslash := (hs d rfl).ne (by decide)
          rw [List.nil_append, readClassAtom] at hx
          · cases hx
            exact absurd hn (by decide)
          · exact hd
  | [c] =>
      by_cases hc : c = Ascii.backslash
      · subst hc
        refine ⟨nofun, fun x n hn hx => ?_⟩
        cases s with
        | nil => cases hx
        | cons d s =>
            obtain ⟨⟨y, m⟩, hy, heq⟩ := exists_of_map_ok hx
            have hm := (readLetter_answers true d s y m hy).2
            have hn' : m + 1 = n := (Prod.mk.inj heq).2
            exact absurd hn (by rw [List.length_singleton]; omega)
      · refine .of_eq ?_
        rw [List.singleton_append, readClassAtom, readClassAtom] <;> exact hc
  | c :: d :: a =>
      by_cases hc : c = Ascii.backslash
      · subst hc
        exact (hs.readLetter_append true d a).later 1
      · refine .of_eq ?_
        rw [List.cons_append, readClassAtom, readClassAtom] <;> exact hc

section Brackets

variable {a u u' : Text}

/-- Whether a range sign counts before a closing bracket does not depend on what follows that. -/
theorem rangeFollows_append (a u u' : Text) :
    rangeFollows (a ++ Ascii.closeBracket :: u) = rangeFollows (a ++ Ascii.closeBracket :: u') := by
  match a with
  | [] => rfl
  | [c] =>
      by_cases hc : c = Ascii.hyphen
      · subst hc
        rfl
      · simp [rangeFollows, hc]
  | c :: d :: a =>
      by_cases hc : c = Ascii.hyphen
      · subst hc
        rfl
      · simp [rangeFollows, hc]

/-- What is read as one atom of a class before a closing bracket does not depend on what follows
that. -/
theorem readClassAtom_congr {node : Node} {width : Nat}
    (h : readClassAtom (a ++ Ascii.closeBracket :: u) = .ok (node, width))
    (hwidth : width ≤ a.length) :
    readClassAtom (a ++ Ascii.closeBracket :: u') = .ok (node, width) := by
  have hshort := ((fenced_cons isFence_closeBracket u).readClassAtom_append a).within _ _ hwidth h
  exact ((fenced_cons isFence_closeBracket u').readClassAtom_append a).answer _ _ hshort

/-- The items before a closing bracket do not depend on what follows that. -/
theorem readClassItems_congr {found : List Node} {width : Nat}
    (h : readClassItems (a ++ Ascii.closeBracket :: u) = .ok (found, width))
    (hwidth : width ≤ a.length) :
    readClassItems (a ++ Ascii.closeBracket :: u') = .ok (found, width) := by
  unfold readClassItems at h ⊢
  obtain ⟨⟨lower, n⟩, hlower, h⟩ := exists_of_bind_ok h
  dsimp only at h
  split at h
  · next hrange =>
      split at h
      · cases h
      · next upper m hupper =>
          have htotal : n + 1 + m = width := by
            unfold rangeItems at h
            split at h
            · split at h
              · cases h
              · exact (Prod.mk.inj (Except.ok.inj h)).2
            · exact (Prod.mk.inj (Except.ok.inj h)).2
          have hn : n ≤ a.length := by omega
          rw [List.drop_append_of_le_length hn] at hrange hupper
          obtain ⟨c, left, hleft⟩ : ∃ c left, a.drop n = c :: left := by
            refine List.exists_cons_of_ne_nil fun hnil => ?_
            rw [hnil] at hrange
            cases hrange
          have hlength := congrArg List.length hleft
          rw [List.length_drop, List.length_cons] at hlength
          rw [readClassAtom_congr hlower hn]
          simp only [bind, Except.bind]
          rw [List.drop_append_of_le_length hn, hleft]
          rw [hleft] at hrange hupper
          rw [rangeFollows_append (c :: left) u u'] at hrange
          rw [if_pos hrange]
          simp only [List.cons_append, List.tail_cons] at hupper ⊢
          rw [readClassAtom_congr hupper (by omega)]
          exact h
  · next hrange =>
      obtain ⟨rfl, rfl⟩ := Prod.mk.inj (Except.ok.inj h)
      rw [List.drop_append_of_le_length hwidth, rangeFollows_append _ u u'] at hrange
      rw [readClassAtom_congr hlower hwidth]
      simp only [bind, Except.bind]
      rw [List.drop_append_of_le_length hwidth, if_neg hrange]
      rfl

/-- A class that is read ends at a closing bracket after the code points that were taken before. -/
theorem exists_closeBracket_of_readClassBody {t : Text} {skip distance : Nat} {items : List Node}
    {answer : List Node × Nat} (h : readClassBody skip distance items t = .ok answer) :
    ∃ a u, t = a ++ Ascii.closeBracket :: u ∧ skip ≤ a.length := by
  induction t generalizing skip distance items with
  | nil =>
      rw [readClassBody] at h
      cases h
  | cons c rest ih =>
      cases skip with
      | succ skip =>
          rw [readClassBody] at h
          obtain ⟨a, u, rfl, hskip⟩ := ih h
          exact ⟨c :: a, u, rfl, Nat.succ_le_succ hskip⟩
      | zero =>
          rw [readClassBody] at h
          split at h
          · next hc => exact ⟨[], rest, by rw [hc]; rfl, Nat.le_refl 0⟩
          · split at h
            · cases h
            · obtain ⟨a, u, rfl, -⟩ := ih h
              exact ⟨c :: a, u, rfl, Nat.zero_le _⟩

/-- The items up to a closing bracket do not depend on what follows that. -/
theorem readClassBody_append {t : Text} {skip distance : Nat} {items : List Node}
    {answer : List Node × Nat} (h : readClassBody skip distance items t = .ok answer) (s : Text) :
    readClassBody skip distance items (t ++ s) = .ok answer := by
  induction t generalizing skip distance items with
  | nil =>
      rw [readClassBody] at h
      cases h
  | cons c rest ih =>
      cases skip with
      | succ skip =>
          rw [readClassBody] at h
          rw [List.cons_append, readClassBody]
          exact ih h
      | zero =>
          rw [readClassBody] at h
          rw [List.cons_append, readClassBody]
          split at h
          · next hc => rwa [if_pos hc]
          · next hc =>
              rw [if_neg hc]
              split at h
              · cases h
              · next found width hitems =>
                  obtain ⟨a, u, rfl, hskip⟩ := exists_closeBracket_of_readClassBody h
                  rw [List.append_assoc, List.cons_append, ← List.cons_append]
                  have hwidth : width ≤ (c :: a).length := by rw [List.length_cons]; omega
                  rw [readClassItems_congr (a := c :: a) hitems hwidth]
                  simpa using ih h

/-- A class does not depend on what follows its closing bracket. -/
theorem readClass_append {a : Text} {answer : Node × Nat} (h : readClass a = .ok answer)
    (s : Text) : readClass (a ++ s) = .ok answer := by
  cases a with
  | nil => cases h
  | cons c a =>
      by_cases hc : c = Ascii.caret
      · subst hc
        obtain ⟨found, hfound, rfl⟩ := exists_of_map_ok h
        rw [List.cons_append, readClass, readClassBody_append hfound s]
        rfl
      · have hne : ∀ rest, c :: a = Ascii.caret :: rest → False :=
          fun rest heq => hc (List.cons.inj heq).1
        have hne' : ∀ rest, c :: a ++ s = Ascii.caret :: rest → False :=
          fun rest heq => hc (List.cons.inj heq).1
        rw [readClass] at h
        · obtain ⟨found, hfound, rfl⟩ := exists_of_map_ok h
          rw [readClass, readClassBody_append hfound s]
          · rfl
          · exact hne'
        · exact hne

end Brackets

namespace Fenced

variable {s : Text} (hs : Fenced s)

include hs

/-- Bounds in braces are read before a fence or not at all. -/
theorem bracesRead?_append (a : Text) : Braces.read? (a ++ s) = Braces.read? a := by
  -- a run of digits ends before a fence, and what comes after it is no sign of bounds there
  have hrun : ∀ b : Text, (b ++ s).takeWhile Unicode.isDecimal = b.takeWhile Unicode.isDecimal ∧
      (b ++ s).drop (b.takeWhile Unicode.isDecimal).length =
        b.drop (b.takeWhile Unicode.isDecimal).length ++ s := by
    intro b
    refine ⟨hs.takeWhile_append (by decide) b, ?_⟩
    exact List.drop_append_of_le_length (b.takeWhile_prefix Unicode.isDecimal).length_le
  cases a with
  | nil =>
      cases s with
      | nil => rfl
      | cons d s =>
          have hd : d ≠ Ascii.openBrace := (hs d rfl).ne (by decide)
          simp [Braces.read?, hd]
  | cons c a =>
      by_cases hc : c = Ascii.openBrace
      · subst hc
        simp only [List.cons_append, Braces.read?, (hrun a).1, (hrun a).2]
        refine ite_congr rfl (fun _ => rfl) fun _ => ?_
        generalize a.drop (a.takeWhile Unicode.isDecimal).length = left
        cases left with
        | nil =>
            cases s with
            | nil => rfl
            | cons d s =>
                have hclose : d ≠ Ascii.closeBrace := (hs d rfl).ne (by decide)
                have hcomma : d ≠ Ascii.comma := (hs d rfl).ne (by decide)
                simp [hclose, hcomma]
        | cons e left =>
            by_cases hclose : e = Ascii.closeBrace
            · simp [hclose]
            by_cases hcomma : e = Ascii.comma
            · subst hcomma
              simp only [List.cons_append, (hrun left).1, (hrun left).2]
              generalize left.drop (left.takeWhile Unicode.isDecimal).length = last
              cases last with
              | nil =>
                  cases s with
                  | nil => rfl
                  | cons d s =>
                      have hclose : d ≠ Ascii.closeBrace := (hs d rfl).ne (by decide)
                      simp [hclose]
              | cons f last => by_cases hf : f = Ascii.closeBrace <;> simp [hf]
            · simp [hclose, hcomma]
      · simp [Braces.read?, hc]

/-- A bare mark is read before a fence or not at all. -/
theorem readBare?_append (a : Text) : readBare? (a ++ s) = readBare? a := by
  have hbraces := hs.bracesRead?_append a
  cases a with
  | nil =>
      cases s with
      | nil => rfl
      | cons d s =>
          have hstar : d ≠ Ascii.star := (hs d rfl).ne (by decide)
          have hplus : d ≠ Ascii.plus := (hs d rfl).ne (by decide)
          have hquestion : d ≠ Ascii.question := (hs d rfl).ne (by decide)
          rw [List.nil_append] at hbraces ⊢
          rw [readBare?, hbraces]
          · rfl
          all_goals simpa
  | cons c a =>
      by_cases hstar : c = Ascii.star
      · simp [readBare?, hstar]
      by_cases hplus : c = Ascii.plus
      · simp [readBare?, hplus]
      by_cases hquestion : c = Ascii.question
      · simp [readBare?, hquestion]
      rw [List.cons_append] at hbraces ⊢
      rw [readBare?, readBare?, hbraces]
      all_goals simpa

/-- A mark is read before a fence or not at all. -/
theorem repetitionRead?_append (a : Text) : Repetition.read? (a ++ s) = Repetition.read? a := by
  unfold Repetition.read?
  rw [hs.readBare?_append]
  cases hbare : readBare? a with
  | error fault => rfl
  | ok answer =>
      cases answer with
      | none => rfl
      | some mark =>
          obtain ⟨min, max, shorthand, width⟩ := mark
          simp only [bind, Except.bind]
          rw [List.drop_append_of_le_length (readBare?_spec hbare).1]
          cases a.drop width with
          | cons c left => by_cases hc : c = Ascii.question <;> simp [hc]
          | nil =>
              cases s with
              | nil => rfl
              | cons d s =>
                  have hd : d ≠ Ascii.question := (hs d rfl).ne (by decide)
                  simp [hd]

theorem readTerm_append (atom : Node) (start next : Nat) (a : Text) :
    readTerm atom start next (a ++ s) = readTerm atom start next a := by
  rw [readTerm, readTerm, hs.repetitionRead?_append]

/-- Whether a text starts with a mark. -/
theorem startsWithMark_append (c : CodePoint) (a : Text) :
    startsWithMark (c :: a ++ s) = startsWithMark (c :: a) := by
  have hbraces := hs.bracesRead?_append (c :: a)
  by_cases hstar : c = Ascii.star
  · simp [startsWithMark, hstar]
  by_cases hplus : c = Ascii.plus
  · simp [startsWithMark, hplus]
  by_cases hquestion : c = Ascii.question
  · simp [startsWithMark, hquestion]
  rw [List.cons_append] at hbraces ⊢
  rw [startsWithMark, startsWithMark, hbraces]
  all_goals simpa

/-- An atom that is read before a fence. -/
theorem readAtom_append {c : CodePoint} {a : Text} {answer : Node × Nat}
    (h : readAtom c a = .ok answer) : readAtom c (a ++ s) = .ok answer := by
  unfold readAtom at h ⊢
  rw [← List.cons_append, hs.startsWithMark_append]
  split at h
  · next hbracket =>
      rw [if_pos hbracket]
      exact readClass_append h s
  next hbracket =>
  rw [if_neg hbracket]
  split at h
  · next hdot => rwa [if_pos hdot]
  next hdot =>
  rw [if_neg hdot]
  split at h
  · next hcaret => rwa [if_pos hcaret]
  next hcaret =>
  rw [if_neg hcaret]
  split at h
  · next hdollar => rwa [if_pos hdollar]
  next hdollar =>
  rw [if_neg hdollar]
  split at h
  · next hbackslash =>
      rw [if_pos hbackslash]
      cases a with
      | nil => cases h
      | cons d a => exact (hs.readLetter_append false d a).answer _ _ h
  next hbackslash => rwa [if_neg hbackslash]

/-- A text starts with a sign that holds no fence before a fence or not at all. -/
theorem startsWith_append {sign : Text}
    (hsign : ∀ c ∈ sign, c ∉ [Ascii.bar, Ascii.closeParen, Ascii.closeBracket]) (a : Text) :
    Text.startsWith sign (a ++ s) = Text.startsWith sign a := by
  unfold Text.startsWith
  induction sign generalizing a with
  | nil => rfl
  | cons c sign ih =>
      obtain ⟨hc, hsign⟩ := List.forall_mem_cons.mp hsign
      cases a with
      | cons d a =>
          rw [List.cons_append, Text.dropLeading?, Text.dropLeading?]
          split
          · exact ih hsign a
          · rfl
      | nil =>
          cases s with
          | nil => rfl
          | cons d s =>
              simp [Text.dropLeading?, ((hs d rfl).ne hc).symm]

theorem readNamed_append {a : Text} {width : Nat} (h : width ≤ a.length) :
    readNamed (a ++ s) width = readNamed a width := by
  rw [readNamed, readNamed, List.drop_append_of_le_length h, hs.readGroupName?_append]

/-- What an opening parenthesis opens is read before a fence. -/
theorem readOpening_append {a : Text} {answer : Behaviour × Option Text × Nat}
    (h : readOpening a = .ok answer) : readOpening (a ++ s) = .ok answer := by
  have hsigns : ∀ entry ∈ groupSigns, Text.startsWith entry.1 (a ++ s) =
      Text.startsWith entry.1 a := by
    intro entry hentry
    have hall : ∀ entry ∈ groupSigns, ∀ c ∈ entry.1,
        c ∉ [Ascii.bar, Ascii.closeParen, Ascii.closeBracket] := by decide
    exact hs.startsWith_append (hall entry hentry) a
  have hfind : (groupSigns.find? fun sign => Text.startsWith sign.1 (a ++ s)) =
      groupSigns.find? fun sign => Text.startsWith sign.1 a := List.find?_congr hsigns
  by_cases hquestion : a.head? = some Ascii.question
  · unfold readOpening at h ⊢
    rw [hfind]
    split at h
    · exact h
    · split at h
      · next rest _ =>
          exact (hs.readNamed_append (a := Ascii.question :: Ascii.less :: rest)
            (Nat.le_add_left 2 _)).trans h
      · next rest _ =>
          exact (hs.readNamed_append
            (a := Ascii.question :: Ascii.upperP :: Ascii.less :: rest)
            (Nat.le_add_left 3 _)).trans h
      · cases h
      · next hnot =>
          obtain ⟨rest, rfl⟩ := List.head?_eq_some_iff.mp hquestion
          exact absurd rfl (hnot rest)
  · have hlong : (a ++ s).head? ≠ some Ascii.question := by
      rwa [ne_eq, hs.head?_append_eq_iff (by decide)]
    rw [readOpening_capture hquestion] at h
    rw [readOpening_capture hlong, h]

end Fenced

end RegexTrace.Pattern
