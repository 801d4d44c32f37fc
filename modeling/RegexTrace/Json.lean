import RegexTrace.Text.Ascii
import RegexTrace.Text.Utf16

/-!
# JSON documents

The documents that the command line writes, with an indentation of two spaces for each level and all
text in ASCII: other code points are escaped by their UTF-16 units.
-/

namespace RegexTrace

/-- A JSON document without fractions. -/
inductive Json
  | null
  | bool (b : Bool)
  | number (n : Int)
  | text (t : Text)
  | array (items : List Json)
  /-- The fields of an object are written in the given order. -/
  | object (fields : List (Text × Json))
  deriving Inhabited

namespace Json

/-- One code point inside a JSON string. -/
def escape (c : CodePoint) : Text :=
  if c = Ascii.doubleQuote then Text.ofString "\\\""
  else if c = Ascii.backslash then Text.ofString "\\\\"
  else if c = Ascii.newline then Text.ofString "\\n"
  else if c = Ascii.carriageReturn then Text.ofString "\\r"
  else if c = Ascii.tab then Text.ofString "\\t"
  else if c = 0x0C then Text.ofString "\\f"
  else if c = 0x08 then Text.ofString "\\b"
  else if 0x20 ≤ c ∧ c ≤ 0x7E then [c]
  else (Utf16.unitsOf c).flatMap fun unit => Text.ofString "\\u" ++ Text.hex 4 unit

/-- A JSON string. -/
def quote (t : Text) : Text :=
  Text.ofString "\"" ++ t.flatMap escape ++ Text.ofString "\""

/-- The start of a line at some depth. -/
def lineStart (depth : Nat) : Text := Ascii.newline :: List.replicate (2 * depth) Ascii.space

mutual

/-- A document at some depth. -/
def writeAt (depth : Nat) : Json → Text
  | .null => "null"
  | .bool b => if b then "true" else "false"
  | .number n => Text.ofInt n
  | .text t => quote t
  | .array [] => "[]"
  | .array (first :: rest) =>
    "[" ++ lineStart (depth + 1) ++ writeAt (depth + 1) first ++ writeItems (depth + 1) rest ++
      lineStart depth ++ "]"
  | .object [] => "\x7b\x7d"
  | .object ((key, first) :: rest) =>
    "\x7b" ++ lineStart (depth + 1) ++ quote key ++ ": " ++ writeAt (depth + 1) first ++
      writeFields (depth + 1) rest ++ lineStart depth ++ "\x7d"

/-- The items of an array after the first. -/
def writeItems (depth : Nat) : List Json → Text
  | [] => []
  | item :: rest =>
    Text.ofString "," ++ lineStart depth ++ writeAt depth item ++ writeItems depth rest

/-- The fields of an object after the first. -/
def writeFields (depth : Nat) : List (Text × Json) → Text
  | [] => []
  | (key, value) :: rest =>
    Text.ofString "," ++ lineStart depth ++ quote key ++ Text.ofString ": " ++
      writeAt depth value ++ writeFields depth rest

end

/-- The written form of a document. -/
def write (document : Json) : Text := writeAt 0 document

/-- A missing value is `null`. -/
def optional (write : α → Json) : Option α → Json
  | none => .null
  | some x => write x

end Json

end RegexTrace
