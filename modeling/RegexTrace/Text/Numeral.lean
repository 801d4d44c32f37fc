import RegexTrace.Text.Ascii
import RegexTrace.Text.Basic
import RegexTrace.Text.Quoted
import RegexTrace.Unicode.Category

/-!
# Numerals

Decimal numerals in any decimal digits. A numeral has at most 4300 digits; a longer one is refused
whatever its value.
-/

namespace RegexTrace

/-- Why a text is no number. -/
inductive NumeralFault
  /-- The numeral has more digits than are read. -/
  | tooLong (digits : Nat)
  /-- The text is no numeral. -/
  | malformed (source : Text)
  deriving DecidableEq, Repr

namespace NumeralFault

/-- The wording of a refused numeral; of a malformed one at most 200 code points are quoted. -/
def message : NumeralFault → Text
  | .tooLong digits =>
    "Exceeds the limit (4300 digits) for integer string conversion: value has " ++
      Text.ofNat digits ++
      Text.ofString " digits; use sys.set_int_max_str_digits() to increase the limit"
  | .malformed source =>
    "invalid literal for int() with base 10: " ++ (Text.Quoted.encode source).take 200

end NumeralFault

namespace Numeral

/-- The greatest number of digits that are read. -/
def digitLimit : Nat := 4300

/-- The value of decimal digits; other code points count as zeros. -/
def value (digits : Text) : Nat :=
  digits.foldl (fun n c => n * 10 + (Unicode.decimalValue? c).getD 0) 0

/-- Digits denote their value unless there are too many of them. -/
def ofDigits (digits : Text) : Except NumeralFault Nat :=
  if digitLimit < digits.length then .error (.tooLong digits.length) else .ok (value digits)

/-- The blanks that may surround a numeral: ASCII white space and the blanks beyond ASCII. -/
def isMargin (c : CodePoint) : Bool :=
  (0x09 ≤ c && c ≤ 0x0D) || c == 0x20 || (0x7F ≤ c && Unicode.isBlank c)

/-- The digits of a numeral with single low lines between digits; nothing for any other text. -/
def digits? : Text → Option Text
  | [] => none
  | [c] => if Unicode.isDecimal c then some [c] else none
  | c :: Ascii.lowLine :: rest =>
    if Unicode.isDecimal c then (digits? rest).map (c :: ·) else none
  | c :: rest => if Unicode.isDecimal c then (digits? rest).map (c :: ·) else none

/-- A number is an optional sign and a numeral, with blanks around. -/
def toInt (t : Text) : Except NumeralFault Int :=
  let core := ((t.dropWhile isMargin).reverse.dropWhile isMargin).reverse
  let (negative, body) :=
    match core with
    | Ascii.plus :: rest => (false, rest)
    | Ascii.hyphen :: rest => (true, rest)
    | _ => (false, core)
  match digits? body with
  | none => .error (.malformed t)
  | some digits => (ofDigits digits).map fun n => if negative then -(n : Int) else n

end Numeral

end RegexTrace
