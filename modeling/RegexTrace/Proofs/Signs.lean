import RegexTrace.Host.Outcome
import RegexTrace.Proofs.Grammar

/-!
# The notation that both readers share

A pattern in the shared notation is spelled by signs: literal letters and digits, the dot, anchors,
escapes, classes in brackets, bars, parentheses and repetition marks. The host reads the same signs
by tokens after the pattern was respelled; only the end of the text is spelled otherwise there.

## Implementation notes

A mark that is made lazy is two signs, the mark and a question mark, so a pattern has one spelling
by signs. Whether a pattern is read is not asked here: its signs may stand in any order.
-/

namespace RegexTrace

/-- An item of a class in brackets. -/
inductive ClassSign
  | literal (c : CodePoint)
  | range (low high : CodePoint)
  | escape (kind : EscapeKind)
  | boundary
  | notBoundary
  deriving DecidableEq, Repr

/-- A repetition mark without what makes it lazy. -/
inductive MarkSign
  | star
  | plus
  | question
  | braces (low : Text) (high : Option Text)
  deriving DecidableEq, Repr

/-- A sign of a pattern. -/
inductive Sign
  | literal (c : CodePoint)
  | dot
  | anchor (kind : AnchorKind)
  | escape (kind : EscapeKind)
  | brackets (negative : Bool) (items : List ClassSign)
  | bar
  | openCapture
  | openPlain
  | close
  | mark (m : MarkSign)
  deriving DecidableEq, Repr

namespace Ascii

/-- The ASCII letters and digits. -/
def isAlphanumeric (c : Nat) : Bool := isLetter c || isDigit c

theorem isAlphanumeric_iff (c : Nat) : isAlphanumeric c = true ↔
    (0x30 ≤ c ∧ c ≤ 0x39) ∨ (0x41 ≤ c ∧ c ≤ 0x5A) ∨ (0x61 ≤ c ∧ c ≤ 0x7A) := by
  simp only [isAlphanumeric, isLetter, isDigit, Bool.or_eq_true, Bool.and_eq_true,
    decide_eq_true_eq]
  omega

end Ascii

namespace ClassSign

/-- The spelling of an item. -/
def spell : ClassSign → Text
  | .literal c => [c]
  | .range low high => [low, Ascii.hyphen, high]
  | .escape kind => Ascii.backslash :: kind.letter
  | .boundary => [Ascii.backslash, 'b'.toNat]
  | .notBoundary => [Ascii.backslash, 'B'.toNat]

/-- An item of letters and digits or one of the known escapes. -/
def Shared : ClassSign → Prop
  | .literal c => Ascii.isAlphanumeric c = true
  | .range low high => Ascii.isAlphanumeric low = true ∧ Ascii.isAlphanumeric high = true
  | .escape kind => kind.Known
  | .boundary => True
  | .notBoundary => True

instance (item : ClassSign) : Decidable item.Shared :=
  match item with
  | .literal c => inferInstanceAs (Decidable (Ascii.isAlphanumeric c = true))
  | .range _ _ => inferInstanceAs (Decidable (_ ∧ _))
  | .escape kind => inferInstanceAs (Decidable kind.Known)
  | .boundary | .notBoundary => .isTrue trivial

end ClassSign

namespace MarkSign

/-- The spelling of a mark. -/
def spell : MarkSign → Text
  | .star => [Ascii.star]
  | .plus => [Ascii.plus]
  | .question => [Ascii.question]
  | .braces low none => Ascii.openBrace :: (low ++ [Ascii.closeBrace])
  | .braces low (some high) =>
    Ascii.openBrace :: (low ++ Ascii.comma :: (high ++ [Ascii.closeBrace]))

/-- Bounds are written in ASCII digits, and the lower one is there. -/
def Shared : MarkSign → Prop
  | .braces low high =>
    low ≠ [] ∧ ∀ digits ∈ low :: high.toList, ∀ c ∈ digits, Ascii.isDigit c = true
  | _ => True

instance (m : MarkSign) : Decidable m.Shared :=
  match m with
  | .braces low high => inferInstanceAs (Decidable (low ≠ [] ∧ ∀ digits ∈ low :: high.toList, _))
  | .star | .plus | .question => .isTrue trivial

end MarkSign

namespace Sign

/-- The spelling of an anchor. -/
def spellAnchor : AnchorKind → Text
  | .start => [Ascii.caret]
  | .finish => [Ascii.dollar]
  | .boundary => [Ascii.backslash, 'b'.toNat]
  | .notBoundary => [Ascii.backslash, 'B'.toNat]
  | .other name => name

/-- The spelling of a sign. -/
def spell : Sign → Text
  | .literal c => [c]
  | .dot => [Ascii.dot]
  | .anchor kind => spellAnchor kind
  | .escape kind => Ascii.backslash :: kind.letter
  | .brackets negative items =>
    Ascii.openBracket :: ((if negative then [Ascii.caret] else []) ++
      (items.flatMap ClassSign.spell ++ [Ascii.closeBracket]))
  | .bar => [Ascii.bar]
  | .openCapture => [Ascii.openParen]
  | .openPlain => [Ascii.openParen, Ascii.question, Ascii.colon]
  | .close => [Ascii.closeParen]
  | .mark m => m.spell

/-- The spelling of signs one after the other. -/
def spellAll (signs : List Sign) : Text := signs.flatMap spell

/-- A sign of the shared notation. -/
def Shared : Sign → Prop
  | .literal c => Ascii.isAlphanumeric c = true
  | .anchor kind => kind.Known
  | .escape kind => kind.Known
  | .brackets _ items => items ≠ [] ∧ ∀ item ∈ items, item.Shared
  | .mark m => m.Shared
  | _ => True

instance (s : Sign) : Decidable s.Shared :=
  match s with
  | .literal c => inferInstanceAs (Decidable (Ascii.isAlphanumeric c = true))
  | .anchor kind => inferInstanceAs (Decidable kind.Known)
  | .escape kind => inferInstanceAs (Decidable kind.Known)
  | .brackets _ items => inferInstanceAs (Decidable (items ≠ [] ∧ ∀ item ∈ items, item.Shared))
  | .mark m => inferInstanceAs (Decidable m.Shared)
  | .dot | .bar | .openCapture | .openPlain | .close => .isTrue trivial

end Sign

namespace EscapeKind

/-- A known class has one letter. -/
theorem letter_cases {kind : EscapeKind} (h : kind.Known) :
    ∃ c, kind.letter = [c] ∧ Ascii.isAlphanumeric c = true := by
  cases kind with
  | digit => exact ⟨'d'.toNat, rfl, rfl⟩
  | notDigit => exact ⟨'D'.toNat, rfl, rfl⟩
  | word => exact ⟨'w'.toNat, rfl, rfl⟩
  | notWord => exact ⟨'W'.toNat, rfl, rfl⟩
  | blank => exact ⟨'s'.toNat, rfl, rfl⟩
  | notBlank => exact ⟨'S'.toNat, rfl, rfl⟩
  | other letter => exact h.elim

end EscapeKind

/-- The code points that signs are spelled by: no blank, no slash, no less sign and no equals
sign. -/
def Ascii.IsSpelling (c : Nat) : Prop := 0x24 ≤ c ∧ c ≤ 0x7D ∧ c ≠ 0x2F ∧ c ≠ 0x3C ∧ c ≠ 0x3D

namespace Ascii

instance (c : Nat) : Decidable (IsSpelling c) := inferInstanceAs (Decidable (_ ∧ _))

theorem IsSpelling.of_isAlphanumeric {c : Nat} (h : isAlphanumeric c = true) : IsSpelling c := by
  rw [isAlphanumeric_iff] at h
  unfold IsSpelling
  omega

theorem isAlphanumeric_of_isDigit {c : Nat} (h : isDigit c = true) : isAlphanumeric c = true := by
  rw [isAlphanumeric, h, Bool.or_true]

end Ascii

theorem Text.valid_of_isSpelling {t : Text} (h : ∀ c ∈ t, Ascii.IsSpelling c) : t.Valid :=
  fun c hc => Nat.lt_of_le_of_lt (h c hc).2.1 (by decide)

/-- An item is spelled by the code points of spellings. -/
theorem ClassSign.Shared.isSpelling {item : ClassSign} (h : item.Shared) :
    ∀ c ∈ item.spell, Ascii.IsSpelling c := by
  cases item with
  | literal c => exact List.forall_mem_singleton.mpr (.of_isAlphanumeric h)
  | range low high =>
      refine List.forall_mem_cons.mpr ⟨.of_isAlphanumeric h.1, List.forall_mem_cons.mpr ⟨?_, ?_⟩⟩
      · decide
      · exact List.forall_mem_singleton.mpr (.of_isAlphanumeric h.2)
  | escape kind =>
      obtain ⟨c, hletter, hc⟩ := EscapeKind.letter_cases h
      rw [spell, hletter]
      refine List.forall_mem_cons.mpr ⟨by decide, ?_⟩
      exact List.forall_mem_singleton.mpr (.of_isAlphanumeric hc)
  | boundary => decide
  | notBoundary => decide

/-- A mark is spelled by the code points of spellings. -/
theorem MarkSign.Shared.isSpelling {m : MarkSign} (h : m.Shared) :
    ∀ c ∈ m.spell, Ascii.IsSpelling c := by
  have hdigit : ∀ digits : Text, (∀ c ∈ digits, Ascii.isDigit c = true) →
      ∀ c ∈ digits, Ascii.IsSpelling c := fun digits hdigits c hc =>
    .of_isAlphanumeric (Ascii.isAlphanumeric_of_isDigit (hdigits c hc))
  cases m with
  | star => decide
  | plus => decide
  | question => decide
  | braces low high =>
      have hlow := hdigit low (h.2 low List.mem_cons_self)
      cases high with
      | none =>
          refine List.forall_mem_cons.mpr ⟨by decide, List.forall_mem_append.mpr ⟨hlow, ?_⟩⟩
          decide
      | some high =>
          have hhigh := hdigit high (h.2 high (List.mem_cons_of_mem low List.mem_cons_self))
          refine List.forall_mem_cons.mpr ⟨by decide, List.forall_mem_append.mpr ⟨hlow, ?_⟩⟩
          refine List.forall_mem_cons.mpr ⟨by decide, List.forall_mem_append.mpr ⟨hhigh, ?_⟩⟩
          decide

namespace Sign

/-- A sign is spelled by the code points of spellings. -/
theorem Shared.isSpelling {s : Sign} (h : s.Shared) : ∀ c ∈ s.spell, Ascii.IsSpelling c := by
  cases s with
  | literal c => exact List.forall_mem_singleton.mpr (.of_isAlphanumeric h)
  | dot => decide
  | anchor kind =>
      cases kind with
      | other name => exact h.elim
      | _ => decide
  | escape kind =>
      obtain ⟨c, hletter, hc⟩ := EscapeKind.letter_cases h
      rw [spell, hletter]
      refine List.forall_mem_cons.mpr ⟨by decide, ?_⟩
      exact List.forall_mem_singleton.mpr (.of_isAlphanumeric hc)
  | brackets negative items =>
      refine List.forall_mem_cons.mpr ⟨by decide, List.forall_mem_append.mpr ⟨?_, ?_⟩⟩
      · cases negative <;> decide
      · refine List.forall_mem_append.mpr ⟨fun c hc => ?_, by decide⟩
        obtain ⟨item, hitem, hc⟩ := List.mem_flatMap.mp hc
        exact (h.2 item hitem).isSpelling c hc
  | bar => decide
  | openCapture => decide
  | openPlain => decide
  | close => decide
  | mark m => exact MarkSign.Shared.isSpelling h

theorem isSpelling_of_mem_spellAll {signs : List Sign} (h : ∀ s ∈ signs, s.Shared) :
    ∀ c ∈ spellAll signs, Ascii.IsSpelling c := by
  intro c hc
  obtain ⟨s, hs, hc⟩ := List.mem_flatMap.mp hc
  exact (h s hs).isSpelling c hc

end Sign

end RegexTrace
