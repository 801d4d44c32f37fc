import RegexTrace.Text.Quoted
import RegexTrace.Text.Utf16

/-!
# Encodings of an output

An output takes the code points that its encoding has bytes for. Every encoding has them for ASCII;
UTF-8 has them for all code points but surrogates. A text with another code point is refused as a
whole, unless its code points without bytes are escaped first.

## Implementation notes

The bytes themselves play no role. How an encoding treats what it has no bytes for is part of it: an
output that replaces such code points encodes all of them.
-/

namespace RegexTrace

/-- The encoding of an output. -/
structure Codec where
  name : Text
  /-- The code points that there are bytes for. -/
  encodes : CodePoint → Bool
  /-- Why there are none for the others. -/
  reason : Text
  ascii : ∀ c : Nat, c < 0x80 → encodes c = true

/-- A text that is refused, with the first of its code points that there are no bytes for and those
that follow it directly. -/
structure EncodingFault where
  codec : Text
  reason : Text
  found : Text
  position : Nat
  deriving DecidableEq, Repr

/-- The wording of a text that is refused. -/
def EncodingFault.message (fault : EncodingFault) : Text :=
  Text.ofString "'" ++ fault.codec ++ Text.ofString "' codec can't encode character" ++
    (match fault.found with
      | [c] => " '" ++ Text.Quoted.hexEscape c ++ Text.ofString "' in position " ++
        Text.ofNat fault.position
      | found => "s in position " ++ Text.ofNat fault.position ++ Text.ofString "-" ++
        Text.ofNat (fault.position + found.length - 1)) ++
    Text.ofString ": " ++ fault.reason

namespace Codec

variable {codec : Codec} {c : CodePoint} {s t : Text}

/-- There are bytes for a text. -/
def Encodes (codec : Codec) (t : Text) : Prop := ∀ c ∈ t, codec.encodes c = true

instance (codec : Codec) (t : Text) : Decidable (codec.Encodes t) :=
  inferInstanceAs (Decidable (∀ c ∈ t, codec.encodes c = true))

@[simp] theorem encodes_nil : codec.Encodes [] := nofun

@[simp] theorem encodes_cons :
    codec.Encodes (c :: t) ↔ codec.encodes c = true ∧ codec.Encodes t :=
  List.forall_mem_cons

@[simp] theorem encodes_append : codec.Encodes (s ++ t) ↔ codec.Encodes s ∧ codec.Encodes t :=
  List.forall_mem_append

/-- Why a text is refused, if it is. -/
def fault? (codec : Codec) (t : Text) : Option EncodingFault :=
  match t.dropWhile codec.encodes with
  | [] => none
  | rest =>
    some ⟨codec.name, codec.reason, rest.takeWhile fun c => !codec.encodes c,
      t.length - rest.length⟩

/-- A text with an escape for each code point that there are no bytes for. -/
def escape (codec : Codec) (t : Text) : Text :=
  t.flatMap fun c => if codec.encodes c then [c] else Text.Quoted.hexEscape c

/-- UTF-8 has bytes for all code points but surrogates. -/
def utf8 : Codec where
  name := "utf-8"
  encodes c := !Utf16.isSurrogate c
  reason := "surrogates not allowed"
  ascii c hc := by
    have hhigh : ¬ 0xD800 ≤ c := by omega
    have hlow : ¬ 0xDC00 ≤ c := by omega
    simp [Utf16.isSurrogate, Utf16.isHigh, Utf16.isLow, hhigh, hlow]

end Codec

/-- A text with two neighbouring surrogates is refused for both. -/
example :
    (Codec.utf8.fault? [0x61, 0xD800, 0xDC00, 0x62]).map EncodingFault.message =
      some "'utf-8' codec can't encode characters in position 1-2: surrogates not allowed" := by
  rfl

end RegexTrace
