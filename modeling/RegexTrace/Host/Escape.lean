import RegexTrace.Host.CharacterName
import RegexTrace.Host.Cursor
import RegexTrace.Host.Item

/-!
# Escapes of the host

An escape stands for a code point, a class, a place or a reference to a group. Letters that have no
meaning are refused, other code points stand for themselves.
-/

namespace RegexTrace.Host

/-- What an escape stands for. -/
inductive Escape
  | character (c : CodePoint)
  | category (kind : EscapeKind)
  | place (place : Place)
  | reference (group : Nat)
  deriving DecidableEq, Repr

/-- The letters for control characters; `b` is one of them, a backspace. -/
def controlEscapes : List (CodePoint × CodePoint) :=
  [('a'.toNat, 0x07), ('b'.toNat, 0x08), ('f'.toNat, 0x0C), ('n'.toNat, 0x0A), ('r'.toNat, 0x0D),
    ('t'.toNat, 0x09), ('v'.toNat, 0x0B), (Ascii.backslash, Ascii.backslash)]

/-- The letters for classes. -/
def categoryEscapes : List (CodePoint × EscapeKind) :=
  [('d'.toNat, .digit), ('D'.toNat, .notDigit), ('s'.toNat, .blank), ('S'.toNat, .notBlank),
    ('w'.toNat, .word), ('W'.toNat, .notWord)]

/-- The letters for places. -/
def placeEscapes : List (CodePoint × Place) :=
  [('A'.toNat, .textStart), ('b'.toNat, .boundary), ('B'.toNat, .notBoundary),
    ('Z'.toNat, .textEnd)]

/-- The letters for hexadecimal code points, with their numbers of digits. -/
def hexEscapes : List (CodePoint × Nat) := [('x'.toNat, 2), ('u'.toNat, 4), ('U'.toNat, 8)]

/-- The spelling of an escape from what follows its backslash. -/
def spell (t : Text) : Text := Ascii.backslash :: t

/-- An escape is refused by its spelling; the cursor stands after it. -/
def refuseEscape (cause : Text → Cause) (t : Text) (cursor : Cursor) : Except Fault α :=
  refuse (cause (spell t)) (cursor.position - (spell t).length)

/-- A code point in a fixed number of hexadecimal digits. -/
def readHexEscape (c : CodePoint) (count : Nat) (cursor : Cursor) :
    Except Fault (CodePoint × Cursor) := do
  let (digits, cursor) ← cursor.takeWhile Ascii.isHex count
  if digits.length < count then refuseEscape .incompleteEscape (c :: digits) cursor
  else if codePointLimit ≤ Ascii.hexNumber digits then refuseEscape .badEscape (c :: digits) cursor
  else return (Ascii.hexNumber digits, cursor)

/-- A code point by its name. A name that cannot be encoded is not even looked up. -/
def readNamedEscape [CharacterNames] (cursor : Cursor) : Except Fault (CodePoint × Cursor) := do
  match ← cursor.takeIf Ascii.openBrace with
  | none => refuse .missingBrace cursor.position
  | some cursor =>
    let (name, cursor) ← cursor.takeUntil Ascii.closeBrace "character name"
    if ¬ Codec.utf8.Encodes name then refuseEscape .badEscape ['N'.toNat] cursor
    else
      match CharacterNames.lookup? name with
      | some c => return (c, cursor)
      | none => refuse (.unknownCharacterName name) (cursor.position - (name.length + 4))

/-- A code point in octal digits must not go beyond one byte. -/
def octalCharacter (digits : Text) (cursor : Cursor) : Except Fault (CodePoint × Cursor) :=
  if 0o377 < Ascii.octalNumber digits then refuseEscape .octalTooLarge digits cursor
  else .ok (Ascii.octalNumber digits, cursor)

/-- An escape without a meaning of its own: a letter is refused, another code point is itself. -/
def plainEscape (c : CodePoint) (cursor : Cursor) : Except Fault (CodePoint × Cursor) :=
  if Ascii.isLetter c then refuseEscape .badEscape [c] cursor else .ok (c, cursor)

/-- The escape of `c` inside a set; the cursor stands after `c`. -/
def readSetEscape [CharacterNames] (c : CodePoint) (cursor : Cursor) :
    Except Fault (Escape × Cursor) :=
  let character (r : Except Fault (CodePoint × Cursor)) : Except Fault (Escape × Cursor) :=
    r.map fun (c, cursor) => (.character c, cursor)
  if let some control := controlEscapes.lookup c then .ok (.character control, cursor)
  else if let some kind := categoryEscapes.lookup c then .ok (.category kind, cursor)
  else if let some count := hexEscapes.lookup c then character (readHexEscape c count cursor)
  else if c = 'N'.toNat then character (readNamedEscape cursor)
  else if Ascii.isOctal c then do
    let (digits, cursor) ← cursor.takeWhile Ascii.isOctal 2
    character (octalCharacter (c :: digits) cursor)
  else if Ascii.isDigit c then refuseEscape .badEscape [c] cursor
  else character (plainEscape c cursor)

/-- The number of one or two digits. -/
def decimalNumber (digits : Text) : Nat := digits.foldl (fun n c => n * 10 + (c - 0x30)) 0

/-- A digit other than zero starts an octal code point of three digits or the number of a group. -/
def readDigitEscape (c : CodePoint) (cursor : Cursor) :
    Except Fault ((Escape × Text) × Cursor) := do
  let (second, cursor) ← cursor.takeWhile Ascii.isDigit 1
  let thirdOctal :=
    match cursor.next? with
    | some (.plain d) => Ascii.isOctal d
    | _ => false
  if second.length = 1 ∧ (c :: second).all Ascii.isOctal ∧ thirdOctal = true then
    let (third, cursor) ← cursor.takeWhile Ascii.isOctal 1
    let (character, cursor) ← octalCharacter (c :: second ++ third) cursor
    return ((.character character, c :: second ++ third), cursor)
  else
    return ((.reference (decimalNumber (c :: second)), c :: second), cursor)

/-- The escape of `c` outside sets, with its spelling after the backslash as far as a reference
needs it; the cursor stands after `c`. -/
def readItemEscape [CharacterNames] (c : CodePoint) (cursor : Cursor) :
    Except Fault ((Escape × Text) × Cursor) :=
  let character (r : Except Fault (CodePoint × Cursor)) : Except Fault ((Escape × Text) × Cursor) :=
    r.map fun (d, cursor) => ((.character d, [c]), cursor)
  if let some place := placeEscapes.lookup c then .ok ((.place place, [c]), cursor)
  else if let some kind := categoryEscapes.lookup c then .ok ((.category kind, [c]), cursor)
  else if let some control := controlEscapes.lookup c then .ok ((.character control, [c]), cursor)
  else if let some count := hexEscapes.lookup c then character (readHexEscape c count cursor)
  else if c = 'N'.toNat then character (readNamedEscape cursor)
  else if c = Ascii.zero then do
    let (digits, cursor) ← cursor.takeWhile Ascii.isOctal 2
    return ((.character (Ascii.octalNumber digits), [c]), cursor)
  else if Ascii.isDigit c then readDigitEscape c cursor
  else character (plainEscape c cursor)

end RegexTrace.Host
