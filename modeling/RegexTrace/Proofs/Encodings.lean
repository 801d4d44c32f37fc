import Mathlib.Data.List.TakeWhile
import RegexTrace.Flow.Dot
import RegexTrace.Json
import RegexTrace.Proofs.Digits
import RegexTrace.Proofs.Halves
import RegexTrace.Text.Codec

/-!
# What an output has bytes for

Most of what is printed is in ASCII, which every encoding has bytes for: numbers, identifiers, all
of a JSON document and all of a diagram but its labels. UTF-8 has bytes for every quoted text, since
what is not printable is escaped between quotes.

## Implementation notes

That a text in ASCII is not refused is a simplification lemma with a side condition, which `decide`
discharges for the constants of the printed lines.
-/

namespace RegexTrace

/-! ## Texts that are not refused -/

namespace Codec

variable {codec : Codec} {c : Nat} {s t : Text}

theorem fault?_eq_none_iff : codec.fault? t = none ↔ codec.Encodes t := by
  have hdrop : t.dropWhile codec.encodes = [] ↔ codec.Encodes t := List.dropWhile_eq_nil_iff
  rw [← hdrop, fault?]
  cases t.dropWhile codec.encodes <;> simp

@[simp] theorem encodes_of_ascii (h : ∀ c ∈ t, c < 0x80) : codec.Encodes t :=
  fun c hc => codec.ascii c (h c hc)

@[simp] theorem encodes_of_lt (h : c < 0x80) : codec.encodes c = true := codec.ascii c h

@[simp] theorem encodes_flatMap {α : Type} {l : List α} {f : α → Text} :
    codec.Encodes (l.flatMap f) ↔ ∀ x ∈ l, codec.Encodes (f x) := by
  simp only [Encodes, List.mem_flatMap]
  grind

@[simp] theorem encodes_replicate {n : Nat} (h : c < 0x80) : codec.Encodes (List.replicate n c) :=
  encodes_of_ascii fun d hd => by rwa [List.eq_of_mem_replicate hd]

theorem encodes_toDigits {base : Nat} (hbase : 1 < base)
    (h : ∀ d < base, d.digitChar.toNat < 0x80) (n : Nat) :
    codec.Encodes ((base.toDigits n).map Char.toNat) :=
  encodes_of_ascii (List.forall_mem_map.mpr (forall_mem_toDigits hbase (·.toNat < 0x80) h n))

@[simp] theorem encodes_ofNat (n : Nat) : codec.Encodes (Text.ofNat n) :=
  encodes_toDigits (by decide) (by decide) n

@[simp] theorem encodes_ofInt : ∀ n : Int, codec.Encodes (Text.ofInt n)
  | .ofNat n => encodes_ofNat n
  | .negSucc n => encodes_cons.mpr ⟨codec.ascii _ (by decide), encodes_ofNat _⟩

@[simp] theorem encodes_hex (width n : Nat) : codec.Encodes (Text.hex width n) :=
  encodes_append.mpr
    ⟨encodes_replicate (by decide), encodes_toDigits (by decide) (by decide) n⟩

@[simp] theorem encodes_join (h : ∀ c ∈ s, c < 0x80) {ts : List Text} :
    codec.Encodes (Text.join s ts) ↔ ∀ t ∈ ts, codec.Encodes t := by
  induction ts with
  | nil => simp [Text.join]
  | cons t rest ih =>
      cases rest with
      | nil => simp [Text.join]
      | cons u rest => simp [Text.join, encodes_of_ascii h, ih]

@[simp] theorem encodes_hexEscape (c : CodePoint) : codec.Encodes (Text.Quoted.hexEscape c) := by
  unfold Text.Quoted.hexEscape
  split
  · simp (disch := decide)
  split <;> simp (disch := decide)

theorem encodes_escape (codec : Codec) (t : Text) : codec.Encodes (codec.escape t) := by
  refine encodes_flatMap.mpr fun c _ => ?_
  split
  · next h => exact encodes_cons.mpr ⟨h, encodes_nil⟩
  · exact encodes_hexEscape c

end Codec

/-! ## Documents, identifiers and flow graphs -/

namespace Json

variable {codec : Codec}

@[simp] theorem encodes_quote (t : Text) : codec.Encodes (quote t) := by
  have hone : ∀ c : Nat, codec.Encodes (escape c) := by
    intro c
    unfold escape
    iterate 7
      split
      · simp (disch := decide)
    split
    · next h =>
        have hc : c < 0x80 := Nat.lt_succ_of_le (Nat.le_succ_of_le h.2)
        simp [hc]
    · simp (disch := decide)
  simp (disch := decide) [quote, hone]

@[simp] theorem encodes_lineStart (depth : Nat) : codec.Encodes (lineStart depth) := by
  simp (disch := decide) [lineStart]

mutual

/-- A document is written in ASCII. -/
theorem encodes_writeAt (depth : Nat) : ∀ document : Json, codec.Encodes (writeAt depth document)
  | .null => by simp (disch := decide) [writeAt]
  | .bool b => by cases b <;> simp (disch := decide) [writeAt]
  | .number n => by simp [writeAt]
  | .text t => by simp [writeAt]
  | .array [] => by simp (disch := decide) [writeAt]
  | .array (first :: rest) => by
      simp (disch := decide) [writeAt, encodes_writeAt _ first, encodes_writeItems _ rest]
  | .object [] => by simp (disch := decide) [writeAt]
  | .object ((key, first) :: rest) => by
      simp (disch := decide) [writeAt, encodes_writeAt _ first, encodes_writeFields _ rest]

theorem encodes_writeItems (depth : Nat) : ∀ items : List Json,
    codec.Encodes (writeItems depth items)
  | [] => by simp [writeItems]
  | item :: rest => by
      simp (disch := decide) [writeItems, encodes_writeAt _ item, encodes_writeItems _ rest]

theorem encodes_writeFields (depth : Nat) : ∀ fields : List (Text × Json),
    codec.Encodes (writeFields depth fields)
  | [] => by simp [writeFields]
  | (key, value) :: rest => by
      simp (disch := decide) [writeFields, encodes_writeAt _ value, encodes_writeFields _ rest]

end

end Json

namespace Address

variable {codec : Codec}

@[simp] theorem encodes_id (address : Address) : codec.Encodes address.id := by
  have hsuffix : ∀ move : Move, codec.Encodes move.suffix := by
    intro move
    cases move <;> simp (disch := decide) [Move.suffix]
  simp (disch := decide) [id, hsuffix]

end Address

namespace Flow

variable {codec : Codec} {t : Text}

@[simp] theorem Id.encodes_text (id : Id) : codec.Encodes id.text := by
  cases id <;> simp (disch := decide) [Id.text]

namespace Dot

theorem encodes_escapeQuotes (odd : Bool) :
    codec.Encodes (escapeQuotes odd t) ↔ codec.Encodes t := by
  induction t generalizing odd with
  | nil => rfl
  | cons c rest ih =>
      unfold escapeQuotes
      split
      · simp [ih]
      split
      · simp (disch := decide) [ih]
      · simp [ih]

@[simp] theorem encodes_quote : codec.Encodes (quote t) ↔ codec.Encodes t := by
  unfold quote
  split
  · rfl
  split
  · rfl
  · simp (disch := decide) [encodes_escapeQuotes]

end Dot

end Flow

end RegexTrace
