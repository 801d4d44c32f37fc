/-!
# Names for ASCII code points

The punctuation that pattern notations give a meaning to.
-/

namespace RegexTrace.Ascii

@[match_pattern] abbrev tab : Nat := 0x09
@[match_pattern] abbrev newline : Nat := 0x0A
@[match_pattern] abbrev carriageReturn : Nat := 0x0D
@[match_pattern] abbrev space : Nat := 0x20
@[match_pattern] abbrev bang : Nat := 0x21
@[match_pattern] abbrev doubleQuote : Nat := 0x22
@[match_pattern] abbrev hash : Nat := 0x23
@[match_pattern] abbrev dollar : Nat := 0x24
@[match_pattern] abbrev apostrophe : Nat := 0x27
@[match_pattern] abbrev openParen : Nat := 0x28
@[match_pattern] abbrev closeParen : Nat := 0x29
@[match_pattern] abbrev star : Nat := 0x2A
@[match_pattern] abbrev plus : Nat := 0x2B
@[match_pattern] abbrev comma : Nat := 0x2C
@[match_pattern] abbrev hyphen : Nat := 0x2D
@[match_pattern] abbrev dot : Nat := 0x2E
@[match_pattern] abbrev slash : Nat := 0x2F
@[match_pattern] abbrev zero : Nat := 0x30
@[match_pattern] abbrev colon : Nat := 0x3A
@[match_pattern] abbrev less : Nat := 0x3C
@[match_pattern] abbrev equals : Nat := 0x3D
@[match_pattern] abbrev greater : Nat := 0x3E
@[match_pattern] abbrev question : Nat := 0x3F
@[match_pattern] abbrev upperP : Nat := 0x50
@[match_pattern] abbrev openBracket : Nat := 0x5B
@[match_pattern] abbrev backslash : Nat := 0x5C
@[match_pattern] abbrev closeBracket : Nat := 0x5D
@[match_pattern] abbrev caret : Nat := 0x5E
@[match_pattern] abbrev lowLine : Nat := 0x5F
@[match_pattern] abbrev openBrace : Nat := 0x7B
@[match_pattern] abbrev bar : Nat := 0x7C
@[match_pattern] abbrev closeBrace : Nat := 0x7D

/-- The ASCII letters. -/
def isLetter (c : Nat) : Bool := (0x41 ≤ c && c ≤ 0x5A) || (0x61 ≤ c && c ≤ 0x7A)

/-- The ASCII decimal digits. -/
def isDigit (c : Nat) : Bool := 0x30 ≤ c && c ≤ 0x39

/-- The octal digits. -/
def isOctal (c : Nat) : Bool := 0x30 ≤ c && c ≤ 0x37

/-- The value of a hexadecimal digit in either case. -/
def hexValue? (c : Nat) : Option Nat :=
  if 0x30 ≤ c && c ≤ 0x39 then some (c - 0x30)
  else if 0x41 ≤ c && c ≤ 0x46 then some (c - 0x37)
  else if 0x61 ≤ c && c ≤ 0x66 then some (c - 0x57)
  else none

/-- A hexadecimal digit. -/
def isHex (c : Nat) : Bool := (hexValue? c).isSome

/-- The number that hexadecimal digits denote; another code point counts as zero. -/
def hexNumber (digits : List Nat) : Nat :=
  digits.foldl (fun n c => n * 16 + (hexValue? c).getD 0) 0

/-- The number that octal digits denote. -/
def octalNumber (digits : List Nat) : Nat := digits.foldl (fun n c => n * 8 + (c - 0x30)) 0

end RegexTrace.Ascii
