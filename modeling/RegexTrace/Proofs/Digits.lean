import Mathlib.Data.Nat.Basic
import RegexTrace.Proofs.Lookahead

/-!
# Numbers are read from their digits

A number is written in decimal or hexadecimal digits, and the readers of numerals and of escapes
find that number again.
-/

namespace RegexTrace

section Digits

variable {base : Nat} (hbase : 1 < base)

include hbase

/-- What holds of the digits of a base holds of the digits of a number. -/
theorem forall_mem_toDigits (property : Char → Prop) (h : ∀ d < base, property d.digitChar)
    (n : Nat) : ∀ c ∈ base.toDigits n, property c := by
  induction n using Nat.strongRecOn with
  | ind n ih =>
      rw [Nat.toDigits_eq_if hbase]
      split
      · next hlt => exact List.forall_mem_singleton.mpr (h n hlt)
      · next hge =>
          have hsmaller : n / base < n := Nat.div_lt_self (by omega) hbase
          have hlast := h (n % base) (Nat.mod_lt n (by omega))
          exact List.forall_mem_append.mpr ⟨ih _ hsmaller, List.forall_mem_singleton.mpr hlast⟩

/-- Digits with their values add up to the number. -/
theorem foldl_toDigits (value : Char → Nat) (h : ∀ d < base, value d.digitChar = d) (n : Nat) :
    (base.toDigits n).foldl (fun m c => m * base + value c) 0 = n := by
  induction n using Nat.strongRecOn with
  | ind n ih =>
      rw [Nat.toDigits_eq_if hbase]
      split
      · next hlt => simp [h n hlt]
      · next hge =>
          have hsmaller : n / base < n := Nat.div_lt_self (by omega) hbase
          rw [List.foldl_append, ih _ hsmaller, List.foldl_cons, List.foldl_nil,
            h _ (Nat.mod_lt n (by omega))]
          exact Nat.div_add_mod' n base

end Digits

theorem Text.valid_map_toNat (l : List Char) : Text.Valid (l.map Char.toNat) := by
  intro c hc
  obtain ⟨d, -, rfl⟩ := List.mem_map.mp hc
  have hvalid : d.toNat < 0xD800 ∨ 0xDFFF < d.toNat ∧ d.toNat < 0x110000 := d.valid
  exact (by omega : d.toNat < 0x110000)

namespace Text

theorem ofNat_ne_nil (n : Nat) : ofNat n ≠ [] := by
  rw [ofNat, ne_eq, List.map_eq_nil_iff]
  exact Nat.toDigits_ne_nil

theorem isDigit_of_mem_ofNat (n : Nat) : ∀ c ∈ ofNat n, Ascii.isDigit c = true := by
  intro c hc
  obtain ⟨d, hd, rfl⟩ := List.mem_map.mp hc
  exact forall_mem_toDigits (by decide) (fun d => Ascii.isDigit d.toNat = true) (by decide) n d hd

theorem value_ofNat (n : Nat) : Numeral.value (ofNat n) = n := by
  rw [Numeral.value, ofNat, List.foldl_map]
  exact foldl_toDigits (by decide) (fun d => (Unicode.decimalValue? d.toNat).getD 0) (by decide) n

theorem ofDigits_ofNat {n : Nat} (h : (ofNat n).length ≤ Numeral.digitLimit) :
    Numeral.ofDigits (ofNat n) = .ok n := by
  rw [Numeral.ofDigits, if_neg (Nat.not_lt.mpr h), value_ofNat]

theorem ofNat_injective : Function.Injective ofNat :=
  Function.LeftInverse.injective value_ofNat

theorem hex_zero (n : Nat) : hex 0 n = (Nat.toDigits 16 n).map Char.toNat := by
  simp [hex]

theorem isHex_of_mem_hex (n : Nat) : ∀ c ∈ hex 0 n, Ascii.isHex c = true := by
  intro c hc
  rw [hex_zero] at hc
  obtain ⟨d, hd, rfl⟩ := List.mem_map.mp hc
  exact forall_mem_toDigits (by decide) (fun d => Ascii.isHex d.toNat = true) (by decide) n d hd

theorem hexNumber_hex (n : Nat) : Ascii.hexNumber (hex 0 n) = n := by
  rw [hex_zero, Ascii.hexNumber, List.foldl_map]
  exact foldl_toDigits (by decide) (fun d => (Ascii.hexValue? d.toNat).getD 0) (by decide) n

end Text

end RegexTrace
