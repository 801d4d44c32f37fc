import RegexTrace.Proofs.Boundaries
import RegexTrace.Proofs.Positions
import RegexTrace.Unicode.Category

/-!
# Positions between the units of a code point

In the view of a text in UTF-16 units, a position is a boundary between code points or lies between
the two units of a wide one. From either kind of position, moving over the code point that is read
there leads to a boundary: inside of a wide code point its second unit is read as a code point of
its own.
-/

namespace RegexTrace

namespace Unicode

/-- No range of a set meets an interval. -/
def Ranges.avoids (ranges : Ranges) (low high : Nat) : Bool :=
  ranges.all fun range => range.2 < low || high < range.1

/-- A set whose ranges do not meet an interval holds none of its code points. -/
theorem Ranges.contains_eq_false {ranges : Ranges} {low high c : Nat}
    (havoids : ranges.avoids low high = true) (hlow : low ≤ c) (hhigh : c ≤ high) :
    ranges.contains c = false := by
  rw [contains, Option.isSome_eq_false_iff, Option.isNone_iff_eq_none]
  induction ranges with
  | nil => rfl
  | cons range rest ih =>
      obtain ⟨first, last⟩ := range
      simp only [avoids, List.all_cons, Bool.and_eq_true, Bool.or_eq_true, decide_eq_true_eq]
        at havoids
      have hrest : find? rest c = none := ih havoids.2
      have hlast : first ≤ c → ¬ c ≤ last := by omega
      rw [find?]
      split
      · rfl
      · next hfirst => rw [if_neg (hlast (Nat.not_lt.mp hfirst)), hrest]

/-- No surrogate is a word character. -/
theorem isWord_eq_false_of_surrogate {c : Nat} (hlow : 0xD800 ≤ c) (hhigh : c ≤ 0xDFFF) :
    isWord c = false := by
  have hletter : isLetter c = false :=
    Ranges.contains_eq_false (by decide +kernel) hlow hhigh
  have hnumeric : numericRanges.contains c = false :=
    Ranges.contains_eq_false (by decide +kernel) hlow hhigh
  have hother : (c == 0x5F) = false := by
    rw [beq_eq_false_iff_ne]
    omega
  rw [isWord, isAlphanumeric, hletter, hnumeric, hother]
  rfl

end Unicode

namespace Utf16

/-- A position between two code points of a text, or at one of its ends. -/
def IsBoundary (t : Text) (pos : Nat) : Prop := ∃ i ≤ t.length, pos = offset t i

/-- A code point of two units starts at a position, so the next position lies inside of it. -/
def WideAt (t : Text) (c : CodePoint) (pos : Nat) : Prop :=
  ∃ i, t[i]? = some c ∧ 0xFFFF < c ∧ pos = offset t i

/-- The second unit of a code point of two units. -/
def lowHalf (c : CodePoint) : CodePoint := 0xDC00 + (c - 0x10000) % 0x400

/-- How a code point of two units can be read: whole from its start, or its second unit from
inside. -/
inductive Reading
  | whole
  | part
  deriving DecidableEq, Repr

namespace Reading

/-- The other one of the two readings. -/
def other : Reading → Reading
  | whole => part
  | part => whole

/-- Where a code point that starts at a position is read. -/
def position (start : Nat) : Reading → Nat
  | whole => start
  | part => start + 1

/-- What is read of a code point. -/
def seen (c : CodePoint) : Reading → CodePoint
  | whole => c
  | part => lowHalf c

theorem position_lt (start : Nat) : ∀ reading : Reading, reading.position start < start + 2
  | whole => Nat.lt_add_of_pos_right Nat.two_pos
  | part => Nat.lt_succ_self (start + 1)

end Reading

variable {t : Text} {c : CodePoint} {pos : Nat}

instance : Decidable (IsBoundary t pos) :=
  inferInstanceAs (Decidable (∃ i ≤ t.length, pos = offset t i))

theorem isLow_lowHalf (c : Nat) : isLow (lowHalf c) = true := by
  have hlt : (c - 0x10000) % 0x400 < 0x400 := Nat.mod_lt _ (by decide)
  have hlow : 0xDC00 + (c - 0x10000) % 0x400 ≤ 0xDFFF := by omega
  exact Bool.and_eq_true_iff.mpr
    ⟨decide_eq_true (Nat.le_add_right 0xDC00 _), decide_eq_true hlow⟩

theorem width_lowHalf (c : Nat) : width (lowHalf c) = 1 := by
  have hlt : (c - 0x10000) % 0x400 < 0x400 := Nat.mod_lt _ (by decide)
  have hnarrow : 0xDC00 + (c - 0x10000) % 0x400 ≤ 0xFFFF := by omega
  exact if_pos hnarrow

theorem IsBoundary.cons (h : IsBoundary t pos) (c : CodePoint) :
    IsBoundary (c :: t) (width c + pos) := by
  obtain ⟨i, hi, rfl⟩ := h
  exact ⟨i + 1, Nat.succ_le_succ hi, (offset_cons_succ c t i).symm⟩

theorem WideAt.cons (h : WideAt t c pos) (d : CodePoint) : WideAt (d :: t) c (width d + pos) := by
  obtain ⟨i, hi, hwide, rfl⟩ := h
  exact ⟨i + 1, hi, hwide, (offset_cons_succ d t i).symm⟩

/-- The two kinds of positions in the view of a text. -/
theorem isBoundary_or_inside (h : pos ≤ (encode t).size) :
    IsBoundary t pos ∨ ∃ c start, WideAt t c start ∧ pos = start + 1 := by
  induction t generalizing pos with
  | nil => exact Or.inl ⟨0, Nat.le_refl 0, Nat.le_zero.mp h⟩
  | cons c rest ih =>
      have hsize : (encode (c :: rest)).size = width c + (encode rest).size := by
        rw [size_encode, size_encode, List.length_cons, offset_cons_succ]
      rcases Nat.lt_or_ge pos (width c) with hlt | hge
      · rcases Nat.eq_zero_or_pos pos with rfl | hpos
        · exact Or.inl ⟨0, Nat.zero_le _, (offset_zero _).symm⟩
        · have hwide : 0xFFFF < c := by
            apply Nat.lt_of_not_le
            intro hnarrow
            rw [width, if_pos hnarrow] at hlt
            omega
          rw [width, if_neg (Nat.not_le.mpr hwide)] at hlt
          refine Or.inr ⟨c, 0, ⟨0, rfl, hwide, (offset_zero _).symm⟩, ?_⟩
          omega
      · obtain ⟨later, rfl⟩ := Nat.exists_eq_add_of_le hge
        have hlater : later ≤ (encode rest).size := by omega
        rcases ih hlater with hboundary | ⟨d, start, hwide, rfl⟩
        · exact Or.inl (hboundary.cons c)
        · exact Or.inr ⟨d, width c + start, hwide.cons c, rfl⟩

namespace WideAt

theorem isBoundary_next (h : WideAt t c pos) : IsBoundary t (pos + 2) := by
  obtain ⟨i, hi, hwide, rfl⟩ := h
  have hlength := (List.getElem?_eq_some_iff.mp hi).1
  have hwidth : width c = 2 := if_neg (Nat.not_le.mpr hwide)
  exact ⟨i + 1, hlength, by rw [offset_succ hi, hwidth]⟩

/-- Inside of a code point there is no boundary. -/
theorem not_isBoundary (h : WideAt t c pos) : ¬ IsBoundary t (pos + 1) := by
  rintro ⟨j, -, hj⟩
  obtain ⟨i, hi, hwide, rfl⟩ := h
  have hwidth : width c = 2 := if_neg (Nat.not_le.mpr hwide)
  have hlt : offset t i < offset t j := by omega
  have hlater : i < j := offset_lt_iff.mp hlt
  have hnext : offset t (i + 1) ≤ offset t j := offset_le_iff.mpr hlater
  rw [offset_succ hi, hwidth] at hnext
  omega

/-- The units of a wide code point are a high surrogate and its second unit. -/
theorem units (h : WideAt t c pos) (valid : t.Valid) :
    (∃ high, (encode t)[pos]? = some high ∧ isHigh high = true) ∧
      (encode t)[pos + 1]? = some (lowHalf c) := by
  obtain ⟨i, hi, hwide, rfl⟩ := h
  have hnot : ¬ c ≤ 0xFFFF := Nat.not_le.mpr hwide
  have hwidth : width c = 2 := if_neg hnot
  have hfirst := getElem?_encode_offset hi (j := 0) (by omega)
  have hsecond := getElem?_encode_offset hi (j := 1) (by omega)
  obtain ⟨high, low, hunits, hhigh, -, -⟩ := unitsOf_wide hnot (valid c (List.mem_of_getElem? hi))
  constructor
  · rw [hunits] at hfirst
    exact ⟨high, hfirst, hhigh⟩
  · rw [hsecond, unitsOf, if_neg hnot]
    rfl

theorem codePointAt?_inside (h : WideAt t c pos) (valid : t.Valid) :
    codePointAt? (encode t) (pos + 1) = some (lowHalf c) := by
  have hnot : isHigh (lowHalf c) = false := by
    apply Bool.eq_false_iff.mpr
    intro hhigh
    have hlow := isLow_eq_false hhigh
    rw [isLow_lowHalf] at hlow
    cases hlow
  simp only [codePointAt?, (h.units valid).2, hnot, Bool.false_eq_true, if_false]

theorem codePointBefore?_inside (h : WideAt t c pos) (valid : t.Valid) :
    ∃ high, codePointBefore? (encode t) (pos + 1) = some high ∧ isHigh high = true := by
  obtain ⟨⟨high, hunit, hhigh⟩, -⟩ := h.units valid
  have hpos : pos < (encode t).size := (Array.getElem?_eq_some_iff.mp hunit).1
  have hinside : ¬ (pos + 1 = 0 ∨ (encode t).size < pos + 1) := by omega
  refine ⟨high, ?_, hhigh⟩
  simp only [codePointBefore?, if_neg hinside, Nat.add_sub_cancel, hunit, isLow_eq_false hhigh,
    Bool.false_and, Bool.false_eq_true, if_false]

theorem lt_size (h : WideAt t c pos) (valid : t.Valid) : pos + 1 < (encode t).size :=
  (Array.getElem?_eq_some_iff.mp (h.units valid).2).1

/-- What is read of a wide code point from either of its positions ends where it ends. -/
theorem position_add_width (h : WideAt t c pos) (reading : Reading) :
    reading.position pos + width (reading.seen c) = pos + 2 := by
  obtain ⟨i, -, hwide, -⟩ := h
  cases reading with
  | whole =>
      have hwidth : width c = 2 := if_neg (Nat.not_le.mpr hwide)
      exact congrArg (pos + ·) hwidth
  | part =>
      have hwidth : width (lowHalf c) = 1 := width_lowHalf c
      exact congrArg (pos + 1 + ·) hwidth

theorem codePointAt?_position (h : WideAt t c pos) (valid : t.Valid) (unsplit : Unsplit t)
    (reading : Reading) :
    codePointAt? (encode t) (reading.position pos) = some (reading.seen c) := by
  cases reading with
  | part => exact h.codePointAt?_inside valid
  | whole =>
      obtain ⟨i, hi, -, rfl⟩ := h
      have hlength := (List.getElem?_eq_some_iff.mp hi).1
      exact (codePointAt?_offset valid unsplit (Nat.le_of_lt hlength)).trans hi

end WideAt

theorem IsBoundary.le_size (h : IsBoundary t pos) : pos ≤ (encode t).size := by
  obtain ⟨i, hi, rfl⟩ := h
  rw [size_encode]
  exact offset_le_iff.mpr hi

/-- Moving over the code point that is read at a position leads to a boundary. -/
theorem isBoundary_of_codePointAt? (valid : t.Valid) (unsplit : Unsplit t)
    (h : codePointAt? (encode t) pos = some c) : IsBoundary t (pos + width c) := by
  have hle : pos ≤ (encode t).size := by
    have hclosed := width_le_of_codePointAt? (closed_encode t) h
    exact Nat.le_trans (Nat.le_add_right pos _) hclosed
  rcases isBoundary_or_inside hle with ⟨i, hi, rfl⟩ | ⟨d, start, hwide, rfl⟩
  · rw [codePointAt?_offset valid unsplit hi] at h
    have hlength := (List.getElem?_eq_some_iff.mp h).1
    exact ⟨i + 1, hlength, (offset_succ h).symm⟩
  · rw [hwide.codePointAt?_inside valid] at h
    obtain rfl := Option.some.inj h
    rw [width_lowHalf]
    exact hwide.isBoundary_next

end Utf16

end RegexTrace
