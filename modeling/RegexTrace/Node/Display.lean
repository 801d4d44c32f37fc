import RegexTrace.Node.Basic
import RegexTrace.Text.Quoted

/-!
# Nodes written out in full

The written form of a node names its kind and all its fields, so that error messages can show the
node they speak of.
-/

namespace RegexTrace.Node

/-- A missing number or text is written `None`. -/
def writeOptional (write : α → Text) : Option α → Text
  | none => "None"
  | some x => write x

/-- The two truth values. -/
def writeBool (b : Bool) : Text := if b then "True" else "False"

/-- A sequence of written items in parentheses; a single one is followed by a comma. -/
def writeTuple : List Text → Text
  | [] => "()"
  | [t] => Text.ofString "(" ++ t ++ Text.ofString ",)"
  | ts => Text.ofString "(" ++ Text.join (Text.ofString ", ") ts ++ Text.ofString ")"

mutual

/-- The kind of a node with its fields. -/
def display : Node → Text
  | .anchor kind => "Anchor(kind=" ++ Text.Quoted.encode kind.name ++ ")"
  | .value c => "Value(code_point=" ++ Text.ofInt c ++ ")"
  | .dot => "Dot()"
  | .escape kind => "ClassEscape(value=" ++ Text.Quoted.encode kind.letter ++ ")"
  | .charClass negative items =>
    "CharacterClass(negative=" ++ writeBool negative ++ ", body=" ++
      writeTuple (displayAll items) ++ ")"
  | .unsupported kind raw =>
    "Unsupported(kind=" ++ Text.Quoted.encode kind ++ ", raw=" ++ Text.Quoted.encode raw ++ ")"
  | .alternative body => "Alternative(body=" ++ writeTuple (displayAll body) ++ ")"
  | .disjunction branches => "Disjunction(body=" ++ writeTuple (displayAll branches) ++ ")"
  | .group behaviour body name number =>
    "Group(behavior=" ++ Text.Quoted.encode behaviour.name ++ ", body=" ++
      writeTuple (displayAll body) ++ ", name=" ++ writeOptional Text.Quoted.encode name ++
      ", number=" ++ writeOptional Text.ofInt number ++ ")"
  | .quantifier min max greedy body shorthand =>
    "Quantifier(min=" ++ Text.ofInt min ++ ", max=" ++ writeOptional Text.ofInt max ++
      ", greedy=" ++ writeBool greedy ++ ", body=" ++ display body ++ ", symbol=" ++
      writeOptional (fun s => Text.Quoted.encode s.spelling) shorthand ++ ")"
  | .range min max => "ClassRange(min=" ++ Text.ofInt min ++ ", max=" ++ Text.ofInt max ++ ")"
  | .alien => "Alien()"
  | .absent => "None"

/-- The written forms of nodes in order. -/
def displayAll : List Node → List Text
  | [] => []
  | node :: rest => display node :: displayAll rest

end

end RegexTrace.Node
