import RegexTrace.Proofs.Grammar
import RegexTrace.Text.Utf16

/-!
# Code points in the view of a text

In the view of a text in UTF-16 units, every index of the text has an offset, and what is read at an
offset is the code point at that index. The one exception are two surrogate code points that read
back as one; texts without such a pair are exactly those that the view does not change.
-/

namespace RegexTrace.Utf16

/-- A high surrogate is nowhere directly followed by a low one. -/
def Unsplit (t : Text) : Prop :=
  ∀ (i : Nat) (c d : CodePoint), t[i]? = some c → t[i + 1]? = some d →
    ¬ (isHigh c = true ∧ isLow d = true)

theorem Unsplit.tail {c : CodePoint} {t : Text} (h : Unsplit (c :: t)) : Unsplit t :=
  fun i d e hd he => h (i + 1) d e hd he

theorem Unsplit.of_not_high {t : Text} (h : ∀ c ∈ t, isHigh c = false) : Unsplit t :=
  fun _ c _ hc _ hpair => Bool.false_ne_true ((h c (List.mem_of_getElem? hc)).symm.trans hpair.1)

theorem length_unitsOf (c : CodePoint) : (unitsOf c).length = width c := by
  unfold unitsOf width
  split <;> rfl

theorem width_pos (c : CodePoint) : 0 < width c := by
  unfold width
  split <;> decide

@[simp] theorem offset_zero (t : Text) : offset t 0 = 0 := by
  simp [offset, wideCount]

theorem offset_cons_succ (c : CodePoint) (t : Text) (i : Nat) :
    offset (c :: t) (i + 1) = width c + offset t i := by
  unfold offset wideCount width
  rw [List.take_succ_cons, List.countP_cons]
  by_cases hc : c ≤ 0xFFFF
  · rw [if_neg (by simpa using hc), if_pos hc]
    omega
  · rw [if_pos (by simpa using Nat.not_le.mp hc), if_neg hc]
    omega

/-- The next index has its offset behind the units of the code point at hand. -/
theorem offset_succ {t : Text} {i : Nat} {c : CodePoint} (h : t[i]? = some c) :
    offset t (i + 1) = offset t i + width c := by
  induction t generalizing i with
  | nil => simp at h
  | cons d rest ih =>
      cases i with
      | zero =>
          obtain rfl : d = c := by simpa using h
          rw [offset_cons_succ, offset_zero, offset_zero, Nat.add_comm]
      | succ i =>
          rw [offset_cons_succ, offset_cons_succ, ih (by simpa using h), Nat.add_assoc]

/-- Offsets increase strictly. -/
theorem offset_lt_offset {t : Text} {i j : Nat} (h : i < j) : offset t i < offset t j := by
  have hstep : ∀ i, offset t i < offset t (i + 1) := by
    intro i
    cases hc : t[i]? with
    | some c =>
        rw [offset_succ hc]
        exact Nat.lt_add_of_pos_right (width_pos c)
    | none =>
        have hlength := List.getElem?_eq_none_iff.mp hc
        simp [offset, List.take_of_length_le hlength,
          List.take_of_length_le (Nat.le_succ_of_le hlength)]
  induction h with
  | refl => exact hstep i
  | step _ ih => exact Nat.lt_trans ih (hstep _)

/-- The order of offsets is that of the indices. -/
theorem offset_lt_iff {t : Text} {i j : Nat} : offset t i < offset t j ↔ i < j := by
  constructor
  · intro h
    apply Nat.lt_of_not_le
    intro hle
    rcases Nat.lt_or_eq_of_le hle with hlt | rfl
    · exact Nat.lt_asymm h (offset_lt_offset hlt)
    · exact Nat.lt_irrefl _ h
  · exact offset_lt_offset

/-- Different indices have different offsets. -/
theorem offset_inj {t : Text} {i j : Nat} : offset t i = offset t j ↔ i = j := by
  constructor
  · intro h
    rcases Nat.lt_trichotomy i j with hlt | rfl | hlt
    · exact absurd h (Nat.ne_of_lt (offset_lt_offset hlt))
    · rfl
    · exact absurd h.symm (Nat.ne_of_lt (offset_lt_offset hlt))
  · rintro rfl
    rfl

theorem offset_le_iff {t : Text} {i j : Nat} : offset t i ≤ offset t j ↔ i ≤ j := by
  rw [← Nat.not_lt, offset_lt_iff, Nat.not_lt]

theorem size_encode (t : Text) : (encode t).size = offset t t.length := by
  induction t with
  | nil => rfl
  | cons c rest ih =>
      rw [List.length_cons, offset_cons_succ, ← ih]
      simp [encode, length_unitsOf]

theorem getElem?_encode_cons (c : CodePoint) (t : Text) (pos : Nat) :
    (encode (c :: t))[width c + pos]? = (encode t)[pos]? := by
  simp [encode, ← length_unitsOf, List.getElem?_append_right]

theorem codePointAt?_encode_cons (c : CodePoint) (t : Text) (pos : Nat) :
    codePointAt? (encode (c :: t)) (width c + pos) = codePointAt? (encode t) pos := by
  unfold codePointAt?
  rw [Nat.add_assoc, getElem?_encode_cons, getElem?_encode_cons]

/-- The units at the offset of an index are those of the code point there. -/
theorem getElem?_encode_offset {t : Text} {i : Nat} {c : CodePoint} (h : t[i]? = some c) {j : Nat}
    (hj : j < width c) : (encode t)[offset t i + j]? = (unitsOf c)[j]? := by
  induction t generalizing i with
  | nil => simp at h
  | cons d rest ih =>
      cases i with
      | zero =>
          obtain rfl : d = c := by simpa using h
          rw [← length_unitsOf] at hj
          simp [encode, List.getElem?_append_left hj]
      | succ i =>
          rw [offset_cons_succ, Nat.add_assoc, getElem?_encode_cons]
          exact ih (by simpa using h)

/-- The two units of a wide code point are a surrogate pair that reads back as it. -/
theorem unitsOf_wide {c : Nat} (hwide : ¬ c ≤ 0xFFFF) (hc : c < codePointLimit) :
    ∃ high low, unitsOf c = [high, low] ∧ isHigh high = true ∧ isLow low = true ∧
      combine high low = c := by
  have hlow : (c - 0x10000) % 0x400 < 0x400 := Nat.mod_lt _ (by decide)
  have hhigh : (c - 0x10000) / 0x400 < 0x400 := by
    rw [codePointLimit] at hc
    omega
  refine ⟨0xD800 + (c - 0x10000) / 0x400, 0xDC00 + (c - 0x10000) % 0x400, if_neg hwide, ?_, ?_, ?_⟩
  · simp only [isHigh, Bool.and_eq_true, decide_eq_true_eq]
    omega
  · simp only [isLow, Bool.and_eq_true, decide_eq_true_eq]
    omega
  · have hcombine : 0x10000 + (0xD800 + (c - 0x10000) / 0x400 - 0xD800) * 0x400 +
        (0xDC00 + (c - 0x10000) % 0x400 - 0xDC00) = c := by omega
    exact hcombine

theorem isLow_eq_false {unit : Nat} (h : isHigh unit = true) : isLow unit = false := by
  simp only [isHigh, isLow, Bool.and_eq_true, decide_eq_true_eq, Bool.and_eq_false_iff,
    decide_eq_false_iff_not] at h ⊢
  omega

/-- A narrow code point that is high is not followed by a low unit. -/
theorem isLow_unit_after {c : CodePoint} {t : Text} (valid : Text.Valid t)
    (unsplit : Unsplit (c :: t)) (hhigh : isHigh c = true) {unit : Nat}
    (hunit : (encode t)[0]? = some unit) : isLow unit = false := by
  cases t with
  | nil => simp [encode] at hunit
  | cons d rest =>
      have hfirst : (unitsOf d)[0]? = some unit := by
        rw [← getElem?_encode_offset (t := d :: rest) (i := 0) rfl (width_pos d), offset_zero]
        exact hunit
      by_cases hd : d ≤ 0xFFFF
      · rw [unitsOf, if_pos hd] at hfirst
        obtain rfl : d = unit := by simpa using hfirst
        have hnot := unsplit 0 c d rfl rfl
        exact Bool.eq_false_iff.mpr fun hlow => hnot ⟨hhigh, hlow⟩
      · obtain ⟨high, low, hunits, hishigh, -⟩ := unitsOf_wide hd (valid d List.mem_cons_self)
        rw [hunits] at hfirst
        obtain rfl : high = unit := by simpa using hfirst
        exact isLow_eq_false hishigh

/-- The code point at the start of the view of a text is the first of the text. -/
theorem codePointAt?_zero {t : Text} (valid : t.Valid) (unsplit : Unsplit t) :
    codePointAt? (encode t) 0 = t[0]? := by
  cases t with
  | nil => rfl
  | cons c rest =>
      have hread : ∀ j, j < width c → (encode (c :: rest))[j]? = (unitsOf c)[j]? := by
        intro j hj
        have hunits := getElem?_encode_offset (t := c :: rest) (i := 0) rfl hj
        rwa [offset_zero, Nat.zero_add] at hunits
      rw [codePointAt?, hread 0 (width_pos c)]
      by_cases hc : c ≤ 0xFFFF
      · have hnext : (encode (c :: rest))[0 + 1]? = (encode rest)[0]? := by
          rw [← getElem?_encode_cons c rest 0, width, if_pos hc]
        rw [unitsOf, if_pos hc, hnext]
        cases hhigh : isHigh c with
        | false => simp [hhigh]
        | true =>
            cases hunit : (encode rest)[0]? with
            | none => simp [hhigh]
            | some unit =>
                have hlow := isLow_unit_after (fun d hd => valid d (List.mem_cons_of_mem _ hd))
                  unsplit hhigh hunit
                simp [hhigh, hlow]
      · obtain ⟨high, low, hunits, hhigh, hlow, hcombine⟩ :=
          unitsOf_wide hc (valid c List.mem_cons_self)
        have htwo : 1 < width c := by
          rw [width, if_neg hc]
          decide
        rw [Nat.zero_add, hread 1 htwo, hunits]
        simp [hhigh, hlow, hcombine]

/-- What is read at the offset of an index is the code point there. -/
theorem codePointAt?_offset {t : Text} (valid : t.Valid) (unsplit : Unsplit t) {i : Nat}
    (hi : i ≤ t.length) : codePointAt? (encode t) (offset t i) = t[i]? := by
  induction t generalizing i with
  | nil =>
      obtain rfl : i = 0 := Nat.le_zero.mp hi
      exact codePointAt?_zero valid unsplit
  | cons c rest ih =>
      cases i with
      | zero =>
          rw [offset_zero]
          exact codePointAt?_zero valid unsplit
      | succ i =>
          rw [offset_cons_succ, codePointAt?_encode_cons, List.getElem?_cons_succ]
          exact ih (fun d hd => valid d (List.mem_cons_of_mem _ hd)) unsplit.tail
            (Nat.le_of_succ_le_succ hi)

theorem getElem?_unitsOf_last {c : CodePoint} (hc : c < codePointLimit) :
    (unitsOf c)[width c - 1]? = some c ∧ c ≤ 0xFFFF ∨
      ∃ low, (unitsOf c)[width c - 1]? = some low ∧ isLow low = true ∧ ¬ c ≤ 0xFFFF := by
  by_cases hwide : c ≤ 0xFFFF
  · exact Or.inl ⟨by simp [unitsOf, width, hwide], hwide⟩
  · obtain ⟨high, low, hunits, -, hlow, -⟩ := unitsOf_wide hwide hc
    exact Or.inr ⟨low, by simp [hunits, width, hwide], hlow, hwide⟩

theorem codePointBefore?_zero (units : Units) : codePointBefore? units 0 = none := by
  simp [codePointBefore?]

/-- A low code point that is narrow does not follow a high unit. -/
theorem isHigh_unit_before {t : Text} (valid : t.Valid) (unsplit : Unsplit t) {i : Nat}
    {c d : CodePoint} (hc : t[i + 1]? = some c) (hd : t[i]? = some d) (hlow : isLow c = true)
    {unit : Nat} (hunit : (encode t)[offset t (i + 1) - 1]? = some unit) :
    isHigh unit = false := by
  have hlast : (unitsOf d)[width d - 1]? = some unit := by
    have hpos := width_pos d
    rw [← getElem?_encode_offset hd (by omega), ← hunit, offset_succ hd]
    congr 1
    omega
  rcases getElem?_unitsOf_last (valid d (List.mem_of_getElem? hd)) with ⟨hself, -⟩ |
    ⟨low, hislow, hlow', -⟩
  · obtain rfl : d = unit := Option.some.inj (hself.symm.trans hlast)
    exact Bool.eq_false_iff.mpr fun hhigh => unsplit i d c hd hc ⟨hhigh, hlow⟩
  · obtain rfl : low = unit := Option.some.inj (hislow.symm.trans hlast)
    refine Bool.eq_false_iff.mpr fun hhigh => ?_
    rw [isLow_eq_false hhigh] at hlow'
    cases hlow'

/-- What is read before the offset of an index is the code point before that index. -/
theorem codePointBefore?_offset {t : Text} (valid : t.Valid) (unsplit : Unsplit t) {i : Nat}
    {c : CodePoint} (hc : t[i]? = some c) :
    codePointBefore? (encode t) (offset t (i + 1)) = some c := by
  have hi : i < t.length := (List.getElem?_eq_some_iff.mp hc).1
  have hnext := offset_succ hc
  have hwidth := width_pos c
  have hinside : ¬ (offset t (i + 1) = 0 ∨ (encode t).size < offset t (i + 1)) := by
    have hend : offset t (i + 1) ≤ offset t t.length := offset_le_iff.mpr (Nat.succ_le_of_lt hi)
    rw [size_encode]
    omega
  have hlast : (encode t)[offset t (i + 1) - 1]? = (unitsOf c)[width c - 1]? := by
    rw [← getElem?_encode_offset hc (by omega), hnext]
    congr 1
    omega
  rw [codePointBefore?, if_neg hinside, hlast]
  rcases getElem?_unitsOf_last (valid c (List.mem_of_getElem? hc)) with ⟨hself, hnarrow⟩ |
    ⟨low, hislow, hlow, hwide⟩
  · have hone : width c = 1 := if_pos hnarrow
    rw [hself]
    cases hlow : isLow c && decide (2 ≤ offset t (i + 1)) with
    | false => simp [hlow]
    | true =>
        rw [Bool.and_eq_true, decide_eq_true_eq, hnext, hone] at hlow
        cases i with
        | zero =>
            rw [offset_zero] at hlow
            omega
        | succ i =>
            have hd : t[i]? = some t[i] := List.getElem?_eq_getElem (Nat.lt_of_succ_lt hi)
            have hback : offset t (i + 1 + 1) - 2 = offset t (i + 1) - 1 := by omega
            rw [hback]
            cases hunit : (encode t)[offset t (i + 1) - 1]? with
            | none => simp [hlow.1]
            | some unit =>
                have hhigh := isHigh_unit_before valid unsplit hc hd hlow.1 hunit
                simp [hlow.1, hhigh]
  · have htwo : width c = 2 := if_neg hwide
    obtain ⟨high, low', hunits, hhigh, -⟩ := unitsOf_wide hwide (valid c (List.mem_of_getElem? hc))
    have hfirst : (encode t)[offset t (i + 1) - 2]? = some high := by
      have hread := getElem?_encode_offset hc hwidth
      rw [hunits, Nat.add_zero] at hread
      rw [hnext, htwo, Nat.add_sub_cancel]
      exact hread
    have hback : offset t (i + 1) - 2 = offset t i := by omega
    have hle : 2 ≤ offset t (i + 1) := by omega
    rw [hislow, hfirst, hback, codePointAt?_offset valid unsplit (Nat.le_of_lt hi), hc]
    simp [hlow, hhigh, hle]

end RegexTrace.Utf16
