import RegexTrace.Text.Basic

/-!
# Pattern trees

A pattern is a tree of nodes that the search runs against a subject. Leaves match one code point or
one position, combiners arrange other nodes.

## Implementation notes

Trees may come from outside as well as from reading a pattern, so they can hold kinds that no reader
produces: an anchor, class escape or group behaviour with a foreign name, a range that stands
outside brackets, a missing node, or an object of a foreign kind. Such nodes are values of the same
type, and every operation says what it makes of them. Numbers are integers for the same reason.
-/

namespace RegexTrace

/-- The positions that an anchor asks for. -/
inductive AnchorKind
  | start
  | finish
  | boundary
  | notBoundary
  /-- A foreign kind, known by its name only. -/
  | other (name : Text)
  deriving DecidableEq, Repr

/-- The classes of code points that have a letter escape. -/
inductive EscapeKind
  | digit
  | notDigit
  | word
  | notWord
  | blank
  | notBlank
  /-- A foreign class, known by its letter only; it holds no code point. -/
  | other (letter : Text)
  deriving DecidableEq, Repr

/-- What a group does besides holding its body. -/
inductive Behaviour
  | capturing
  | plain
  /-- An assertion about what comes next or what came before, and whether it must hold or fail. -/
  | look (behind negative : Bool)
  /-- A foreign behaviour, known by its name only. -/
  | other (name : Text)
  deriving DecidableEq, Repr

/-- The one-character spellings of a repetition. -/
inductive Shorthand
  | star
  | plus
  | question
  /-- A foreign spelling. -/
  | other (spelling : Text)
  deriving DecidableEq, Repr

/-- A node of a pattern tree. -/
inductive Node
  /-- A condition on a position. -/
  | anchor (kind : AnchorKind)
  /-- One literal code point. -/
  | value (codePoint : Int)
  /-- Any code point. -/
  | dot
  /-- A class with a letter of its own. -/
  | escape (kind : EscapeKind)
  /-- A class in brackets; its items are values, ranges and escapes. -/
  | charClass (negative : Bool) (items : List Node)
  /-- A construct that is read but never matches. -/
  | unsupported (kind raw : Text)
  /-- Elements one after the other. -/
  | alternative (body : List Node)
  /-- Branches tried in order. -/
  | disjunction (branches : List Node)
  | group (behaviour : Behaviour) (body : List Node) (name : Option Text) (number : Option Int)
  /-- A repetition; without `max` it is unbounded. -/
  | quantifier (min : Int) (max : Option Int) (greedy : Bool) (body : Node)
      (shorthand : Option Shorthand)
  /-- A range of code points, an item of a class only. -/
  | range (min max : Int)
  /-- An object of a foreign kind. -/
  | alien
  /-- A missing node. -/
  | absent
  deriving Repr, Inhabited

namespace AnchorKind

/-- The name of an anchor kind. -/
def name : AnchorKind → Text
  | .start => "start"
  | .finish => "end"
  | .boundary => "boundary"
  | .notBoundary => "not-boundary"
  | .other name => name

/-- The anchor kind with a given name. -/
def ofName (t : Text) : AnchorKind :=
  if t = name .start then .start
  else if t = name .finish then .finish
  else if t = name .boundary then .boundary
  else if t = name .notBoundary then .notBoundary
  else .other t

end AnchorKind

namespace EscapeKind

/-- The letter of a class. -/
def letter : EscapeKind → Text
  | .digit => "d"
  | .notDigit => "D"
  | .word => "w"
  | .notWord => "W"
  | .blank => "s"
  | .notBlank => "S"
  | .other letter => letter

/-- The class with a given letter. -/
def ofLetter (t : Text) : EscapeKind :=
  if t = letter .digit then .digit
  else if t = letter .notDigit then .notDigit
  else if t = letter .word then .word
  else if t = letter .notWord then .notWord
  else if t = letter .blank then .blank
  else if t = letter .notBlank then .notBlank
  else .other t

end EscapeKind

namespace Behaviour

/-- The name of a behaviour. -/
def name : Behaviour → Text
  | .capturing => "capturing"
  | .plain => "non-capturing"
  | .look false false => "lookahead"
  | .look false true => "negative-lookahead"
  | .look true false => "lookbehind"
  | .look true true => "negative-lookbehind"
  | .other name => name

/-- The behaviour with a given name. -/
def ofName (t : Text) : Behaviour :=
  if t = name .capturing then .capturing
  else if t = name .plain then .plain
  else if t = name (.look false false) then .look false false
  else if t = name (.look false true) then .look false true
  else if t = name (.look true false) then .look true false
  else if t = name (.look true true) then .look true true
  else .other t

end Behaviour

namespace Shorthand

/-- The spelling of a shorthand. -/
def spelling : Shorthand → Text
  | .star => "*"
  | .plus => "+"
  | .question => "?"
  | .other spelling => spelling

/-- The shorthand with a given spelling. -/
def ofSpelling (t : Text) : Shorthand :=
  if t = spelling .star then .star
  else if t = spelling .plus then .plus
  else if t = spelling .question then .question
  else .other t

end Shorthand

namespace Node

/-- The name of the kind of a node. -/
def typeName : Node → Text
  | .anchor _ => "Anchor"
  | .value _ => "Value"
  | .dot => "Dot"
  | .escape _ => "ClassEscape"
  | .charClass _ _ => "CharacterClass"
  | .unsupported _ _ => "Unsupported"
  | .alternative _ => "Alternative"
  | .disjunction _ => "Disjunction"
  | .group _ _ _ _ => "Group"
  | .quantifier _ _ _ _ _ => "Quantifier"
  | .range _ _ => "ClassRange"
  | .alien => "Alien"
  | .absent => "NoneType"

/-- A root is a sequence or a choice. -/
def isRoot : Node → Bool
  | .alternative _ | .disjunction _ => true
  | _ => false

/-- A missing node stands for the tree of no pattern. -/
def isAbsent : Node → Bool
  | .absent => true
  | _ => false

/-- A foreign spelling that is empty counts as none. -/
def shorthandSpelling? : Option Shorthand → Option Text
  | none => none
  | some s => if s.spelling.isEmpty then none else some s.spelling

end Node

end RegexTrace
