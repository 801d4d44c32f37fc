import RegexTrace.Node.Basic
import RegexTrace.Pattern.Fault
import RegexTrace.Text.Ascii
import RegexTrace.Unicode.Category

/-!
# Escapes

What a backslash and the code points after it stand for, inside brackets and outside. An escape that
has no meaning of its own stands for the code point after the backslash.

## Implementation notes

A reader gets the text after the backslash and answers with a node and the number of code points it
took of that text. Distances of faults are counted from the backslash.
-/

namespace RegexTrace.Pattern

/-- The code points that start the name of a group. -/
def startsGroupName (c : CodePoint) : Bool :=
  Ascii.isLetter c || c == Ascii.lowLine || c == Ascii.dollar

/-- The code points that continue the name of a group. -/
def continuesGroupName (c : CodePoint) : Bool := Unicode.isWord c || c == Ascii.dollar

/-- The name of a group at the start of a text, which must be closed by `>`. The number counts the
code points up to and including that sign. -/
def readGroupName? : Text → Option (Text × Nat)
  | [] => none
  | c :: t =>
    if startsGroupName c then
      let name := c :: t.takeWhile continuesGroupName
      match (c :: t).drop name.length with
      | Ascii.greater :: _ => some (name, name.length + 1)
      | _ => none
    else none

/-- The letters for control characters. -/
def controlLetters : List (CodePoint × CodePoint) :=
  [('n'.toNat, 0x0A), ('r'.toNat, 0x0D), ('t'.toNat, 0x09), ('f'.toNat, 0x0C), ('v'.toNat, 0x0B)]

/-- The code point that exactly `count` hexadecimal digits at the start of a text denote. -/
def readHex? (count : Nat) (t : Text) : Option CodePoint :=
  let digits := t.take count
  if digits.length = count ∧ digits.all Ascii.isHex then some (Ascii.hexNumber digits) else none

/-- What is written before the first closing brace, if there is one. -/
def beforeBrace? (t : Text) : Option Text :=
  let inside := t.takeWhile (· != Ascii.closeBrace)
  if inside.length < t.length then some inside else none

/-- The code point of a brace escape, given what stands between the braces. -/
def bracedCodePoint? (digits : Text) : Option CodePoint :=
  if !digits.isEmpty && digits.all Ascii.isHex && Ascii.hexNumber digits < codePointLimit then
    some (Ascii.hexNumber digits)
  else none

/-- The code point of an escape with `u`, given the text after the letter: a number in braces, or
four digits, or else the letter itself. -/
def readUnicode (t : Text) : CodePoint × Nat :=
  let braced :=
    match t with
    | Ascii.openBrace :: rest =>
      (beforeBrace? rest).bind fun digits => (bracedCodePoint? digits).map (·, digits.length + 2)
    | _ => none
  match braced with
  | some found => found
  | none =>
    match readHex? 4 t with
    | some c => (c, 4)
    | none => ('u'.toNat, 0)

/-- A construct that is read but never matches, spelled by a backslash and `width` code points. -/
def unsupportedEscape (kind : Text) (t : Text) (width : Nat) : Node × Nat :=
  (.unsupported kind (Ascii.backslash :: t.take width), width)

/-- A reference to a group by its number, digits of any script after the first. -/
def referenceWidth (rest : Text) : Nat := 1 + (rest.takeWhile Unicode.isDigit).length

/-- A reference to a group by its name, with the letter `c` and the text after it. -/
def readNameReference (c : CodePoint) (rest : Text) : Reading (Node × Nat) :=
  match readGroupName? rest.tail with
  | some (_, width) => .ok (unsupportedEscape "reference" (c :: rest) (width + 2))
  | none => .error (.invalidGroupName, 3)

/-- A property in braces, with the letter `c` and the text after it. -/
def readProperty (c : CodePoint) (rest : Text) : Reading (Node × Nat) :=
  match beforeBrace? rest with
  | some inside =>
    .ok (unsupportedEscape "unicodePropertyEscape" (c :: rest) (inside.length + 2))
  | none => .error (.invalidPropertyName, 0)

/-- A control character by a letter after `c`, or else `c` itself. -/
def readControl (c : CodePoint) (rest : Text) : Node × Nat :=
  match rest with
  | letter :: _ =>
    if Unicode.isLetter letter then (.value (letter % 32 : Nat), 2) else (.value c, 1)
  | [] => (.value c, 1)

/-- A code point by two hexadecimal digits after `c`, or else `c` itself. -/
def readByte (c : CodePoint) (rest : Text) : Node × Nat :=
  match readHex? 2 rest with
  | some codePoint => (.value codePoint, 3)
  | none => (.value c, 1)

/-- The escape whose letter is `c`, with the text after the letter. -/
def readLetter (inClass : Bool) (c : CodePoint) (rest : Text) : Reading (Node × Nat) :=
  if [c] = EscapeKind.letter .digit then .ok (.escape .digit, 1)
  else if [c] = EscapeKind.letter .notDigit then .ok (.escape .notDigit, 1)
  else if [c] = EscapeKind.letter .word then .ok (.escape .word, 1)
  else if [c] = EscapeKind.letter .notWord then .ok (.escape .notWord, 1)
  else if [c] = EscapeKind.letter .blank then .ok (.escape .blank, 1)
  else if [c] = EscapeKind.letter .notBlank then .ok (.escape .notBlank, 1)
  else if c = 'b'.toNat then .ok (if inClass then .value 0x08 else .anchor .boundary, 1)
  else if c = 'B'.toNat ∧ !inClass then .ok (.anchor .notBoundary, 1)
  else if let some control := controlLetters.lookup c then .ok (.value control, 1)
  else if c = Ascii.zero ∧ !(rest.head?.any Unicode.isDigit) then .ok (.value 0, 1)
  else if '1'.toNat ≤ c ∧ c ≤ '9'.toNat ∧ !inClass then
    .ok (unsupportedEscape "reference" (c :: rest) (referenceWidth rest))
  else if c = 'k'.toNat ∧ rest.head? = some Ascii.less then readNameReference c rest
  else if (c = 'p'.toNat ∨ c = 'P'.toNat) ∧ rest.head? = some Ascii.openBrace then
    readProperty c rest
  else if c = 'u'.toNat then
    let (codePoint, width) := readUnicode rest
    .ok (.value codePoint, width + 1)
  else if c = 'c'.toNat then .ok (readControl c rest)
  else if c = 'x'.toNat then .ok (readByte c rest)
  else .ok (.value c, 1)

/-- The escape whose text after the backslash is given. -/
def readEscape (inClass : Bool) : Text → Reading (Node × Nat)
  | [] => .error (.trailingBackslash, 0)
  | c :: rest => readLetter inClass c rest

end RegexTrace.Pattern
