import RegexTrace.Text.Basic

/-!
# The view of a text in UTF-16 code units

Positions in a subject are counted in 16-bit code units: a code point above `0xFFFF` takes a high
and a low surrogate, every other one stands for itself. A high unit directly before a low one is
read as one code point, any other surrogate unit as itself; so two surrogate code points next to
each other read back as one.
-/

namespace RegexTrace.Utf16

/-- The code units of a text. -/
abbrev Units := Array Nat

/-- A code point above `0xFFFF` is split into a high and a low surrogate. -/
def unitsOf (c : CodePoint) : List Nat :=
  if c ≤ 0xFFFF then [c]
  else [0xD800 + (c - 0x10000) / 0x400, 0xDC00 + (c - 0x10000) % 0x400]

/-- The code units of a text are those of its code points in order. -/
def encode (t : Text) : Units := (t.flatMap unitsOf).toArray

/-- The units from `0xD800` to `0xDBFF` are high surrogates. -/
def isHigh (unit : Nat) : Bool := 0xD800 ≤ unit && unit ≤ 0xDBFF

/-- The units from `0xDC00` to `0xDFFF` are low surrogates. -/
def isLow (unit : Nat) : Bool := 0xDC00 ≤ unit && unit ≤ 0xDFFF

/-- A surrogate is high or low. -/
def isSurrogate (unit : Nat) : Bool := isHigh unit || isLow unit

/-- The code point that a surrogate pair encodes. -/
def combine (high low : Nat) : CodePoint := 0x10000 + (high - 0xD800) * 0x400 + (low - 0xDC00)

/-- The code point that starts at a unit; nothing past the end. -/
def codePointAt? (units : Units) (pos : Nat) : Option CodePoint :=
  match units[pos]? with
  | none => none
  | some unit =>
    if isHigh unit then
      match units[pos + 1]? with
      | some next => some (if isLow next then combine unit next else unit)
      | none => some unit
    else some unit

/-- The code point that ends before a unit; nothing at the start and past the end. -/
def codePointBefore? (units : Units) (pos : Nat) : Option CodePoint :=
  if pos = 0 ∨ units.size < pos then none
  else
    match units[pos - 1]? with
    | none => none
    | some unit =>
      if isLow unit && 2 ≤ pos then
        match units[pos - 2]? with
        | some previous => if isHigh previous then codePointAt? units (pos - 2) else some unit
        | none => some unit
      else some unit

/-- The number of units of a code point. -/
def width (c : CodePoint) : Nat := if c ≤ 0xFFFF then 1 else 2

/-- The number of code points that take two units. -/
def wideCount (t : Text) : Nat := t.countP fun c => decide (0xFFFF < c)

/-- The unit at which the code point with a given index starts. -/
def offset (t : Text) (index : Nat) : Nat := index + wideCount (t.take index)

/-- The number of units of a text. -/
def length (t : Text) : Nat := offset t t.length

/-- At a position before the start there is no code point. -/
def codePointAtInt? (units : Units) : Int → Option CodePoint
  | .ofNat pos => codePointAt? units pos
  | .negSucc _ => none

/-- No code point ends before the start. -/
def codePointBeforeInt? (units : Units) : Int → Option CodePoint
  | .ofNat pos => codePointBefore? units pos
  | .negSucc _ => none

/-- A negative index counts from the end when the code points before it are chosen; the index
itself is what the wide ones among them are added to. -/
def offsetInt (t : Text) : Int → Int
  | .ofNat index => offset t index
  | .negSucc k => Int.negSucc k + wideCount (t.take (t.length - (k + 1)))

end RegexTrace.Utf16
