import Mathlib.Algebra.Group.Nat.Defs
import RegexTrace.Pattern.Escape
import RegexTrace.Proofs.Grammar

/-!
# How the letter of an escape is read

The letter of an escape and the first code point after it settle which of nine readers reads the
rest. A statement on all escapes is one on these readers, and two texts that start alike have the
same reader.
-/

namespace RegexTrace

namespace Ascii

/-- A hexadecimal digit is less than sixteen. -/
theorem hexValue?_getD_lt (c : Nat) : (hexValue? c).getD 0 < 16 := by
  unfold hexValue?
  simp only [Bool.and_eq_true, decide_eq_true_eq]
  split
  · simp only [Option.getD_some]
    omega
  · split
    · simp only [Option.getD_some]
      omega
    · split
      · simp only [Option.getD_some]
        omega
      · exact (by decide : 0 < 16)

/-- A number of so many hexadecimal digits is less than that power of sixteen. -/
theorem hexNumber_lt (digits : List Nat) : hexNumber digits < 16 ^ digits.length := by
  have hfold : ∀ n bound, n < bound →
      digits.foldl (fun n c => n * 16 + (hexValue? c).getD 0) n < bound * 16 ^ digits.length := by
    induction digits with
    | nil => exact fun n bound h => by simpa using h
    | cons c rest ih =>
        intro n bound h
        have hc := hexValue?_getD_lt c
        have hnext := ih (n * 16 + (hexValue? c).getD 0) (bound * 16) (by omega)
        rw [Nat.mul_assoc, ← Nat.pow_succ'] at hnext
        exact hnext
  simpa [hexNumber] using hfold 0 1 (by decide)

end Ascii

namespace Pattern

theorem length_tail_of_head? {t : Text} {c : CodePoint} (h : t.head? = some c) :
    t.tail.length + 1 = t.length := by
  cases t with
  | nil => cases h
  | cons d rest => rfl

/-- A name with its closing sign is there to be taken. -/
theorem readGroupName?_width_le {t name : Text} {width : Nat}
    (h : readGroupName? t = some (name, width)) : width ≤ t.length := by
  unfold readGroupName? at h
  split at h
  · cases h
  · next c t =>
      split at h
      · simp only at h
        split at h
        · next rest hdrop =>
            obtain ⟨-, rfl⟩ := Prod.mk.inj (Option.some.inj h)
            have hlength := congrArg List.length hdrop
            simp only [List.length_drop, List.length_cons] at hlength ⊢
            omega
        · cases h
      · cases h

theorem beforeBrace?_length_lt {t inside : Text} (h : beforeBrace? t = some inside) :
    inside.length < t.length := by
  unfold beforeBrace? at h
  simp only at h
  split at h
  · next hlt => exact Option.some.inj h ▸ hlt
  · cases h

/-- So many hexadecimal digits are there to be taken, and denote a number of that length. -/
theorem readHex?_spec {count : Nat} {t : Text} {c : CodePoint} (h : readHex? count t = some c) :
    count ≤ t.length ∧ c < 16 ^ count := by
  unfold readHex? at h
  simp only at h
  split at h
  · next hdigits =>
      have hlength := hdigits.1
      have hc := Ascii.hexNumber_lt (t.take count)
      rw [Option.some.inj h, hlength] at hc
      rw [List.length_take] at hlength
      exact ⟨by omega, hc⟩
  · cases h

theorem isHex_of_readHex? {count : Nat} {t : Text} {c : CodePoint} (h : readHex? count t = some c) :
    (t.take count).length = count ∧ ∀ d ∈ t.take count, Ascii.isHex d = true := by
  unfold readHex? at h
  dsimp only at h
  split at h
  · next hdigits => exact ⟨hdigits.1, List.all_eq_true.mp hdigits.2⟩
  · cases h

theorem bracedCodePoint?_lt {digits : Text} {c : CodePoint} (h : bracedCodePoint? digits = some c) :
    c < codePointLimit := by
  unfold bracedCodePoint? at h
  split at h
  · next hdigits =>
      simp only [Bool.and_eq_true, decide_eq_true_eq] at hdigits
      exact Option.some.inj h ▸ hdigits.2
  · cases h

/-- The escape with `u` is a code point, and takes code points that are there. -/
theorem readUnicode_spec (t : Text) :
    (readUnicode t).1 < codePointLimit ∧ (readUnicode t).2 ≤ t.length := by
  unfold readUnicode
  simp only
  split
  · next found hbraced =>
      split at hbraced
      · next rest =>
          obtain ⟨digits, hdigits, hfound⟩ := Option.bind_eq_some_iff.mp hbraced
          obtain ⟨c, hc, rfl⟩ := Option.map_eq_some_iff.mp hfound
          have hlt := beforeBrace?_length_lt hdigits
          exact ⟨bracedCodePoint?_lt hc, Nat.succ_le_succ hlt⟩
      · cases hbraced
  · split
    · next c hc =>
        obtain ⟨hwidth, hlt⟩ := readHex?_spec hc
        exact ⟨Nat.lt_trans hlt (by decide), hwidth⟩
    · exact ⟨by decide, Nat.zero_le _⟩

theorem controlLetters_lt {c control : CodePoint} (h : controlLetters.lookup c = some control) :
    control < codePointLimit := by
  have hall : ∀ entry ∈ controlLetters, entry.2 < codePointLimit := by decide
  obtain ⟨before, after, hsplit, -⟩ := List.lookup_eq_some_iff.mp h
  exact hall (c, control) (hsplit ▸ List.mem_append_right before List.mem_cons_self)

/-- A control character takes a letter, or nothing if none follows. -/
theorem readControl_spec (c : CodePoint) (rest : Text) :
    ∃ n tail more, rest = tail ++ more ∧ readControl c rest = (.value (n : Nat), tail.length + 1) ∧
      (∀ d ∈ tail, Unicode.isLetter d = true) ∧ (n < codePointLimit ∨ n = c) := by
  have itself : rest = [] ++ rest ∧ (∀ d ∈ ([] : Text), Unicode.isLetter d = true) ∧
      (c < codePointLimit ∨ c = c) := ⟨rfl, nofun, Or.inr rfl⟩
  unfold readControl
  split
  · next letter more =>
      split
      · next hletter =>
          have hlt : letter % 32 < codePointLimit :=
            Nat.lt_trans (Nat.mod_lt letter (by decide)) (by decide)
          exact ⟨_, [letter], more, rfl, rfl, List.forall_mem_singleton.mpr hletter, Or.inl hlt⟩
      · exact ⟨c, [], _, itself.1, rfl, itself.2⟩
  · exact ⟨c, [], _, itself.1, rfl, itself.2⟩

/-- A code point by its number takes two hexadecimal digits, or nothing if they do not follow. -/
theorem readByte_spec (c : CodePoint) (rest : Text) :
    ∃ n tail more, rest = tail ++ more ∧ readByte c rest = (.value (n : Nat), tail.length + 1) ∧
      (∀ d ∈ tail, Ascii.isHex d = true) ∧ (n < codePointLimit ∨ n = c) := by
  unfold readByte
  split
  · next n hn =>
      obtain ⟨hlength, hhex⟩ := isHex_of_readHex? hn
      have hlt := (readHex?_spec hn).2
      refine ⟨n, rest.take 2, rest.drop 2, (List.take_append_drop 2 rest).symm, ?_, hhex,
        Or.inl (Nat.lt_trans hlt (by decide))⟩
      rw [hlength]
  · exact ⟨c, [], rest, rfl, rfl, nofun, Or.inr rfl⟩

/-- Two texts start alike: with a digit, with `<` or with an opening brace at the same time. -/
structure StartsLike (s t : Text) : Prop where
  digit : t.head?.any Unicode.isDigit = s.head?.any Unicode.isDigit
  less : t.head? = some Ascii.less ↔ s.head? = some Ascii.less
  brace : t.head? = some Ascii.openBrace ↔ s.head? = some Ascii.openBrace

theorem StartsLike.refl (t : Text) : StartsLike t t := ⟨rfl, Iff.rfl, Iff.rfl⟩

/-- The readers of an escape with the letter `c` before the text `rest`. -/
inductive LetterReader (inClass : Bool) (c : CodePoint) (rest : Text) :
    (Text → Reading (Node × Nat)) → Prop
  | kind {kind : EscapeKind} (known : kind.Known) :
    LetterReader inClass c rest fun _ => .ok (.escape kind, 1)
  | boundary {kind : AnchorKind} (known : kind.Known) (outside : inClass = false) :
    LetterReader inClass c rest fun _ => .ok (.anchor kind, 1)
  /-- A control letter, a zero, a backspace, or a letter without a meaning. -/
  | codePoint {n : CodePoint} (h : n < codePointLimit ∨ n = c) :
    LetterReader inClass c rest fun _ => .ok (.value n, 1)
  | number (low : '1'.toNat ≤ c) (high : c ≤ '9'.toNat) (outside : inClass = false) :
    LetterReader inClass c rest fun t =>
      .ok (unsupportedEscape "reference" (c :: t) (referenceWidth t))
  | name (hc : c = 'k'.toNat) (less : rest.head? = some Ascii.less) :
    LetterReader inClass c rest (readNameReference c)
  | property (hc : c = 'p'.toNat ∨ c = 'P'.toNat) (brace : rest.head? = some Ascii.openBrace) :
    LetterReader inClass c rest (readProperty c)
  | unicode (hc : c = 'u'.toNat) :
    LetterReader inClass c rest fun t => .ok (.value (readUnicode t).1, (readUnicode t).2 + 1)
  | control (hc : c = 'c'.toNat) : LetterReader inClass c rest fun t => .ok (readControl c t)
  | byte (hc : c = 'x'.toNat) : LetterReader inClass c rest fun t => .ok (readByte c t)

/-- On texts that start like `rest` a reading is that of one of the readers. -/
def ReadsLetter (inClass : Bool) (c : CodePoint) (rest : Text)
    (reading : Text → Reading (Node × Nat)) : Prop :=
  ∃ reader, LetterReader inClass c rest reader ∧ ∀ t, StartsLike rest t → reading t = reader t

section Letters

variable {inClass : Bool} {c : CodePoint} {rest : Text} {r r' : Text → Reading (Node × Nat)}

theorem LetterReader.reads (h : LetterReader inClass c rest r) : ReadsLetter inClass c rest r :=
  ⟨r, h, fun _ _ => rfl⟩

/-- A reading by cases that texts which start alike have in common. -/
theorem ReadsLetter.ite {condition : Text → Prop} [DecidablePred condition]
    (alike : ∀ t, StartsLike rest t → (condition t ↔ condition rest))
    (h : condition rest → ReadsLetter inClass c rest r)
    (h' : ¬ condition rest → ReadsLetter inClass c rest r') :
    ReadsLetter inClass c rest fun t => if condition t then r t else r' t := by
  by_cases hrest : condition rest
  · obtain ⟨reader, hreader, heq⟩ := h hrest
    exact ⟨reader, hreader, fun t ht => (if_pos ((alike t ht).mpr hrest)).trans (heq t ht)⟩
  · obtain ⟨reader, hreader, heq⟩ := h' hrest
    exact ⟨reader, hreader, fun t ht => (if_neg (mt (alike t ht).mp hrest)).trans (heq t ht)⟩

/-- A reading by cases on the letter. -/
theorem ReadsLetter.iteLetter {condition : Prop} [Decidable condition]
    (h : condition → ReadsLetter inClass c rest r)
    (h' : ¬ condition → ReadsLetter inClass c rest r') :
    ReadsLetter inClass c rest fun t => if condition then r t else r' t :=
  .ite (fun _ _ => Iff.rfl) h h'

variable (inClass c rest)

/-- An escape is read by one of the readers. -/
theorem readsLetter : ReadsLetter inClass c rest (readLetter inClass c) := by
  have kind {kind : EscapeKind} (known : kind.Known) :
      ReadsLetter inClass c rest fun _ => .ok (.escape kind, 1) := (LetterReader.kind known).reads
  have boundary {kind : AnchorKind} (known : kind.Known) (outside : inClass = false) :
      ReadsLetter inClass c rest fun _ => .ok (.anchor kind, 1) :=
    (LetterReader.boundary known outside).reads
  have codePoint {n : CodePoint} (h : n < codePointLimit ∨ n = c) :
      ReadsLetter inClass c rest fun _ => .ok (.value n, 1) := (LetterReader.codePoint h).reads
  show ReadsLetter inClass c rest fun t => readLetter inClass c t
  unfold readLetter
  -- the classes with a letter
  refine .iteLetter (fun _ => kind trivial) fun _ => .iteLetter (fun _ => kind trivial) fun _ => ?_
  refine .iteLetter (fun _ => kind trivial) fun _ => .iteLetter (fun _ => kind trivial) fun _ => ?_
  refine .iteLetter (fun _ => kind trivial) fun _ => .iteLetter (fun _ => kind trivial) fun _ => ?_
  -- word boundaries
  refine .iteLetter (fun _ => ?_) fun _ => .iteLetter (fun hB => ?_) fun _ => ?_
  · cases inClass with
    | true => exact codePoint (Or.inl (by decide : 0x08 < codePointLimit))
    | false => exact boundary trivial rfl
  · exact boundary trivial (by simpa using hB.2)
  -- control characters
  cases hcontrol : controlLetters.lookup c with
  | some control => exact codePoint (Or.inl (controlLetters_lt hcontrol))
  | none =>
      refine .ite (fun t ht => by rw [ht.digit]) (fun _ => ?_) fun _ => ?_
      · exact codePoint (Or.inl (by decide : 0 < codePointLimit))
      -- references and properties
      refine .iteLetter (fun h => ?_) fun _ => ?_
      · exact (LetterReader.number h.1 h.2.1 (by simpa using h.2.2)).reads
      refine .ite (fun t ht => and_congr_right' ht.less) (fun h => ?_) fun _ => ?_
      · exact (LetterReader.name h.1 h.2).reads
      refine .ite (fun t ht => and_congr_right' ht.brace) (fun h => ?_) fun _ => ?_
      · exact (LetterReader.property h.1 h.2).reads
      -- code points by their numbers
      refine .iteLetter (fun hc => (LetterReader.unicode hc).reads) fun _ => ?_
      refine .iteLetter (fun hc => (LetterReader.control hc).reads) fun _ => ?_
      exact .iteLetter (fun hc => (LetterReader.byte hc).reads) fun _ => codePoint (Or.inr rfl)

/-- An escape of one text is read by one of the readers. -/
theorem exists_letterReader :
    ∃ reader, LetterReader inClass c rest reader ∧ readLetter inClass c rest = reader rest := by
  obtain ⟨reader, hreader, heq⟩ := readsLetter inClass c rest
  exact ⟨reader, hreader, heq rest (.refl rest)⟩

end Letters

end Pattern

end RegexTrace
