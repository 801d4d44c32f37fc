import RegexTrace.Node.Fault

/-!
# Labels

The short text that stands for a node in a diagram or a step list: the node's own spelling where it
has a short one.
-/

namespace RegexTrace.Node

/-- The spelling of one item of a class; nodes that are no items have none. -/
def itemLabel : Node → Except Fault Text
  | .range min max => do
    let first ← character min
    let last ← character max
    return [first] ++ Text.ofString "-" ++ [last]
  | .value n => do return [← character n]
  | .escape kind => .ok ("\\" ++ kind.letter)
  | _ => .ok []

/-- The spelling of an anchor. -/
def anchorLabel : AnchorKind → Except Fault Text
  | .start => .ok "^"
  | .finish => .ok "$"
  | .boundary => .ok "\\b"
  | .notBoundary => .ok "\\B"
  | .other name => .error (.unknownName name)

/-- A class in brackets, its items separated by commas. -/
def classLabel (negative : Bool) (items : List Node) : Except Fault Text := do
  let parts ← items.mapM itemLabel
  let listed := Text.join (Text.ofString ", ") (parts.filter fun part => !part.isEmpty)
  return Text.ofString (if negative then "[^" else "[") ++ listed ++ Text.ofString "]"

/-- A capturing group shows its name, any other group its behaviour. -/
def groupLabel (behaviour : Behaviour) (name : Option Text) : Text :=
  match behaviour, name with
  | .capturing, some (c :: rest) => "(" ++ (c :: rest) ++ ")"
  | .capturing, _ => "(group)"
  | behaviour, _ => "(" ++ behaviour.name ++ ")"

/-- The bounds of a repetition in braces. -/
def boundsLabel (min : Int) (max : Option Int) : Text :=
  match max with
  | none => "\x7b" ++ Text.ofInt min ++ ",\x7d"
  | some max =>
    if min = max then "\x7b" ++ Text.ofInt min ++ "\x7d"
    else "\x7b" ++ Text.ofInt min ++ "," ++ Text.ofInt max ++ "\x7d"

/-- The spelling of a repetition: its shorthand or its bounds, and the mark of the lazy ones. -/
def quantifierLabel (min : Int) (max : Option Int) (greedy : Bool) (shorthand : Option Shorthand) :
    Text :=
  (shorthandSpelling? shorthand).getD (boundsLabel min max) ++
    Text.ofString (if greedy then "" else "?")

/-- The label of a node. -/
def label : Node → Except Fault Text
  | .anchor kind => anchorLabel kind
  | .value n => do return [← character n]
  | .dot => .ok "."
  | .escape kind => .ok ("\\" ++ kind.letter)
  | .charClass negative items => classLabel negative items
  | .unsupported kind raw => .ok (if raw.isEmpty then kind else raw)
  | .alternative _ => .ok "alternative"
  | .disjunction _ => .ok "|"
  | .group behaviour _ name _ => .ok (groupLabel behaviour name)
  | .quantifier min max greedy _ shorthand => .ok (quantifierLabel min max greedy shorthand)
  | node => .error (.unlabelled node)

end RegexTrace.Node
