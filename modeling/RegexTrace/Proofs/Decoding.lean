import RegexTrace.Proofs.Boundaries

/-!
# Reading the view of a text in both directions

The view of a text is decoded by reading a code point and moving on by its width. From the start,
such a pass reads the code points of the text, and it comes to the offsets of the indices and to no
other position. Reading backwards from one of these offsets gives the code point before it. All this
holds of exactly the texts without split pairs: of any other text, a pass reads a different one.
-/

namespace RegexTrace.Utf16

/-- A pass over code units: the code points that are read, and the positions that it comes to, with
the one where it stops at the end. -/
structure Pass where
  codePoints : List CodePoint
  positions : List Nat
  deriving DecidableEq, Repr

/-- A code point is read at a position, and the pass goes on. -/
def Pass.read (pos : Nat) (c : CodePoint) (later : Pass) : Pass :=
  ⟨c :: later.codePoints, pos :: later.positions⟩

theorem lt_size_of_codePointAt? {units : Units} {pos : Nat} {c : CodePoint}
    (h : codePointAt? units pos = some c) : pos < units.size := by
  apply Nat.lt_of_not_le
  intro hle
  rw [codePointAt?, Array.getElem?_eq_none hle] at h
  cases h

/-- The pass from a position on: as long as a code point is read, its width leads to the next
position. -/
def pass (units : Units) (pos : Nat) : Pass :=
  match _h : codePointAt? units pos with
  | none => ⟨[], [pos]⟩
  | some c => (pass units (pos + width c)).read pos c
termination_by units.size - pos
decreasing_by
  have hlt := lt_size_of_codePointAt? ‹codePointAt? units pos = some c›
  have hpos := width_pos c
  omega

theorem pass_of_none {units : Units} {pos : Nat} (h : codePointAt? units pos = none) :
    pass units pos = ⟨[], [pos]⟩ := by
  rw [pass]
  split
  · rfl
  · next c hc => cases h.symm.trans hc

theorem pass_of_some {units : Units} {pos : Nat} {c : CodePoint}
    (h : codePointAt? units pos = some c) :
    pass units pos = (pass units (pos + width c)).read pos c := by
  rw [pass]
  split
  · next hnone => cases h.symm.trans hnone
  · next d hd =>
      obtain rfl := Option.some.inj (h.symm.trans hd)
      rfl

section Text

variable {t : Text}

/-- From the offset of an index, a pass reads the rest of the text and comes to the offsets of all
later indices. -/
theorem pass_offset (valid : t.Valid) (unsplit : Unsplit t) (count : Nat) {i : Nat}
    (hi : i + count = t.length) :
    pass (encode t) (offset t i) =
      ⟨t.drop i, (List.range' i (count + 1)).map (offset t)⟩ := by
  have hread := codePointAt?_offset valid unsplit (Nat.le.intro hi)
  induction count generalizing i with
  | zero =>
      have hend : t.length ≤ i := Nat.le_of_eq hi.symm
      rw [List.getElem?_eq_none hend] at hread
      rw [pass_of_none hread, List.drop_of_length_le hend]
      rfl
  | succ count ih =>
      have hlt : i < t.length := by omega
      have hnext : i + 1 + count = t.length := by omega
      rw [List.getElem?_eq_getElem hlt] at hread
      rw [pass_of_some hread, ← offset_succ (List.getElem?_eq_getElem hlt),
        ih hnext (codePointAt?_offset valid unsplit hlt), List.drop_eq_getElem_cons hlt,
        List.range'_succ, List.map_cons]
      rfl

/-- A pass from the start reads the code points of the text and comes to the offsets of its
indices. -/
theorem pass_encode (valid : t.Valid) (unsplit : Unsplit t) :
    pass (encode t) 0 = ⟨t, (List.range (t.length + 1)).map (offset t)⟩ := by
  have hpass := pass_offset valid unsplit t.length (Nat.zero_add _)
  rwa [offset_zero, List.drop_zero, ← List.range_eq_range'] at hpass

theorem codePoints_pass_cons (c : CodePoint) (t : Text) (pos : Nat) :
    (pass (encode (c :: t)) (width c + pos)).codePoints = (pass (encode t) pos).codePoints := by
  have hread := codePointAt?_encode_cons c t pos
  induction pos using pass.induct (encode t) with
  | case1 pos hnone =>
      rw [pass_of_none hnone, pass_of_none (hread.trans hnone)]
  | case2 pos d hd ih =>
      rw [pass_of_some hd, pass_of_some (hread.trans hd), Nat.add_assoc]
      exact congrArg (d :: ·) (ih (codePointAt?_encode_cons c t _))

theorem Unsplit.cons {c : CodePoint} (h : Unsplit t)
    (hfirst : ∀ d, t[0]? = some d → ¬ (isHigh c = true ∧ isLow d = true)) :
    Unsplit (c :: t) := by
  intro i d e hd he
  cases i with
  | zero =>
      obtain rfl : c = d := Option.some.inj hd
      exact hfirst e he
  | succ i => exact h i d e hd he

theorem le_combine (high low : Nat) : (0x10000 : Nat) ≤ combine high low := by
  unfold combine
  omega

/-- A high surrogate and the low one behind it are read as the code point that they encode. -/
theorem codePointAt?_zero_of_pair {c d : CodePoint} (hhigh : isHigh c = true)
    (hlow : isLow d = true) (rest : Text) :
    codePointAt? (encode (c :: d :: rest)) 0 = some (combine c d) := by
  have hunits : ∀ {unit : Nat}, unit ≤ 0xDFFF → unitsOf unit = [unit] := by
    intro unit hle
    have hnarrow : unit ≤ 0xFFFF := by omega
    rw [unitsOf, if_pos hnarrow]
  have hc : unitsOf c = [c] := by
    simp only [isHigh, Bool.and_eq_true, decide_eq_true_eq] at hhigh
    exact hunits (by omega)
  have hd : unitsOf d = [d] := by
    simp only [isLow, Bool.and_eq_true, decide_eq_true_eq] at hlow
    exact hunits hlow.2
  simp [codePointAt?, encode, hc, hd, hhigh, hlow]

/-- A text that is read back as it was has no split pairs. -/
theorem unsplit_of_codePoints_pass (h : (pass (encode t) 0).codePoints = t) : Unsplit t := by
  induction t with
  | nil => exact nofun
  | cons c rest ih =>
      cases hread : codePointAt? (encode (c :: rest)) 0 with
      | none =>
          rw [pass_of_none hread] at h
          cases h
      | some first =>
          rw [pass_of_some hread, Pass.read, Nat.zero_add] at h
          obtain ⟨rfl, hlater⟩ := List.cons.inj h
          rw [← Nat.add_zero (width first), codePoints_pass_cons] at hlater
          refine (ih hlater).cons fun d hd ⟨hhigh, hlow⟩ => ?_
          obtain ⟨more, rfl⟩ : ∃ more, rest = d :: more := by
            cases rest with
            | nil => cases hd
            | cons e more => exact ⟨more, by rw [Option.some.inj hd]⟩
          -- What the pair encodes lies beyond sixteen bits, a surrogate does not.
          have hsame : combine first d = first :=
            Option.some.inj ((codePointAt?_zero_of_pair hhigh hlow more).symm.trans hread)
          simp only [isHigh, Bool.and_eq_true, decide_eq_true_eq] at hhigh
          have hwide := le_combine first d
          rw [hsame] at hwide
          omega

/-- A text is read back as it was exactly if it has no split pairs. -/
theorem codePoints_pass_eq_iff (valid : t.Valid) :
    (pass (encode t) 0).codePoints = t ↔ Unsplit t := by
  constructor
  · exact unsplit_of_codePoints_pass
  · intro unsplit
    rw [pass_encode valid unsplit]

/-- A pass over the view of a text reads its code points, comes to the offsets of its indices and
stops at the end, which is the length of the text in units. At the offset of any index after the
first, the code point before that index is read backwards. -/
theorem view_read_both_ways (valid : t.Valid) (unsplit : Unsplit t) :
    (pass (encode t) 0).codePoints = t ∧
      (pass (encode t) 0).positions = (List.range (t.length + 1)).map (offset t) ∧
      (pass (encode t) 0).positions.getLast? = some (encode t).size ∧
      (encode t).size = length t ∧
      ∀ i, 1 ≤ i → i ≤ t.length → codePointBefore? (encode t) (offset t i) = t[i - 1]? := by
  have hpass := pass_encode valid unsplit
  refine ⟨congrArg Pass.codePoints hpass, congrArg Pass.positions hpass, ?_, size_encode t, ?_⟩
  · rw [hpass, List.range_succ, List.map_append, List.map_singleton, List.getLast?_concat,
      size_encode]
  · intro i hfirst hi
    obtain ⟨i, rfl⟩ := Nat.exists_eq_add_of_le' hfirst
    have hlt : i < t.length := hi
    rw [Nat.add_sub_cancel, List.getElem?_eq_getElem hlt]
    exact codePointBefore?_offset valid unsplit (List.getElem?_eq_getElem hlt)

end Text

/-- Single surrogates stand on both sides of a code point of two units. -/
theorem view_read_among_surrogates :
    let t : Text := [0xD83D, 0x1F600, 0xDE00, 'a'.toNat]
    t.Valid ∧ Unsplit t ∧
      (pass (encode t) 0).codePoints = t ∧
      (pass (encode t) 0).positions = (List.range (t.length + 1)).map (offset t) ∧
      (pass (encode t) 0).positions.getLast? = some (encode t).size ∧
      (encode t).size = length t ∧
      ∀ i, 1 ≤ i → i ≤ t.length → codePointBefore? (encode t) (offset t i) = t[i - 1]? := by
  intro t
  have valid : t.Valid := by decide
  have unsplit : Unsplit t := by
    refine .cons (.cons (.of_not_high (by decide)) ?_) ?_ <;> rintro d ⟨⟩ <;> decide
  exact ⟨valid, unsplit, view_read_both_ways valid unsplit⟩

end RegexTrace.Utf16
