/-!
# Texts

A text is a finite sequence of code points. Unlike `String` it may hold surrogates, so every text a
host program can hand over has a value here, and a surrogate pair is not the same text as the one
code point it encodes.

## Implementation notes

Code points are natural numbers. The definitions of the library only ever build texts from texts
they were given and from literals, so the range `0 ≤ c < 0x110000` is kept without being stored.
-/

namespace RegexTrace

/-- A Unicode code point, surrogates included. -/
abbrev CodePoint := Nat

/-- A text is a sequence of code points. -/
abbrev Text := List CodePoint

/-- The first number that is no code point. -/
def codePointLimit : Nat := 0x110000

namespace Text

/-- The code points of a literal. -/
def ofString (s : String) : Text := s.toList.map Char.toNat

instance : Coe String Text := ⟨ofString⟩

/-- A text as a string. Surrogates have no place in a string and are lost. -/
def asString (t : Text) : String := String.ofList (t.map Char.ofNat)

/-- The decimal digits of a natural number, the most significant first. -/
def ofNat (n : Nat) : Text := (Nat.toDigits 10 n).map Char.toNat

/-- The decimal digits of an integer, after a hyphen when it is negative. -/
def ofInt : Int → Text
  | .ofNat n => ofNat n
  | .negSucc n => 0x2D :: ofNat (n + 1)

/-- The parts with a separator between neighbours. -/
def join (separator : Text) : List Text → Text
  | [] => []
  | [t] => t
  | t :: rest => t ++ separator ++ join separator rest

/-- Spaces are added on the right up to the given width. -/
def padRight (width : Nat) (t : Text) : Text := t ++ List.replicate (width - t.length) 0x20

/-- Spaces are added on the left up to the given width. -/
def padLeft (width : Nat) (t : Text) : Text := List.replicate (width - t.length) 0x20 ++ t

/-- What follows a given beginning of the text, if the text begins so. -/
def dropLeading? : Text → Text → Option Text
  | [], t => some t
  | _ :: _, [] => none
  | c :: lead, d :: t => if c = d then dropLeading? lead t else none

/-- A beginning can be dropped exactly from the texts that it begins. -/
theorem dropLeading?_eq_some_iff {lead t rest : Text} :
    dropLeading? lead t = some rest ↔ t = lead ++ rest := by
  induction lead generalizing t with
  | nil => simp [dropLeading?]
  | cons c lead ih =>
    cases t with
    | nil => simp [dropLeading?]
    | cons d t => by_cases h : c = d <;> simp [dropLeading?, h, ih, eq_comm]

/-- A text starts with another one when it continues it. -/
def startsWith (lead t : Text) : Bool := (dropLeading? lead t).isSome

/-- The lower case of the ASCII letters; all else stays. -/
def asciiLower (t : Text) : Text := t.map fun c => if 0x41 ≤ c ∧ c ≤ 0x5A then c + 0x20 else c

/-- Hexadecimal digits, lower case, with zeros on the left up to the given width. -/
def hex (width n : Nat) : Text :=
  let digits := (Nat.toDigits 16 n).map Char.toNat
  List.replicate (width - digits.length) 0x30 ++ digits

end Text

end RegexTrace
