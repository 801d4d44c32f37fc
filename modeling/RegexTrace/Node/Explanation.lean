import RegexTrace.Node.Address
import RegexTrace.Node.Fault
import RegexTrace.Text.Lines

/-!
# Explanations in plain words

Every node of a tree has a sentence that says what it matches. The explanations of a tree are listed
in pre-order, each under the identifier of its node's address.
-/

namespace RegexTrace

/-- What a node at some address matches, in words. -/
structure Explanation where
  occurrence : Occurrence
  text : Text
  deriving Repr

namespace Explanation

/-- The identifier of the explained node. -/
def id (e : Explanation) : Text := e.occurrence.address.id

/-- A class named inside brackets. -/
def escapeName : EscapeKind → Text
  | .digit => "digits (0-9)"
  | .notDigit => "non-digits"
  | .word => "word characters (a-z, A-Z, 0-9, _)"
  | .notWord => "non-word characters"
  | .blank => "whitespace characters"
  | .notBlank => "non-whitespace characters"
  | .other letter => "\\" ++ letter

/-- A class named on its own. -/
def standaloneEscapeName : EscapeKind → Text
  | .digit => "any digit (0-9)"
  | .notDigit => "any non-digit"
  | .word => "any word character (a-z, A-Z, 0-9, _)"
  | .notWord => "any non-word character"
  | .blank => "any whitespace character"
  | .notBlank => "any non-whitespace character"
  | .other letter => "\\" ++ letter

/-- One item of a class; nodes that are no items have no words. -/
def describeItem : Node → Except Node.Fault Text
  | .range min max => do
    let first ← Node.character min
    let last ← Node.character max
    return [first] ++ Text.ofString " to " ++ [last]
  | .value value => do return [← Node.character value]
  | .escape kind => .ok (escapeName kind)
  | _ => .ok []

/-- The items of a class that have words. -/
def describeItems (items : List Node) : Except Node.Fault Text := do
  let parts ← items.mapM describeItem
  return Text.join (Text.ofString ", ") (parts.filter fun part => !part.isEmpty)

/-- What an anchor matches. -/
def ofAnchor : AnchorKind → Except Node.Fault Text
  | .start => .ok "Matches the start of the string (^)"
  | .finish => .ok "Matches the end of the string ($)"
  | .boundary => .ok "Matches a word boundary (\\b)"
  | .notBoundary => .ok "Matches a non-word boundary (\\B)"
  | .other name => .error (.unknownName name)

/-- How a capturing group is referred to; an empty name counts as none. -/
def captureInfo (name : Option Text) (number : Option Int) : Text :=
  match name with
  | some (c :: rest) => "named \"" ++ (c :: rest) ++ "\""
  | _ => "group " ++ Node.writeOptional Text.ofInt number

/-- What a group does. -/
def ofGroup (behaviour : Behaviour) (name : Option Text) (number : Option Int) :
    Except Node.Fault Text :=
  match behaviour with
  | .capturing =>
    .ok ("Captures " ++ captureInfo name number ++ ": stores the matched text for later reference")
  | .plain => .ok "Non-capturing group: groups without storing the match"
  | .look false false => .ok "Positive lookahead: matches only if followed by the pattern"
  | .look false true => .ok "Negative lookahead: matches only if NOT followed by the pattern"
  | .look true false => .ok "Positive lookbehind: matches only if preceded by the pattern"
  | .look true true => .ok "Negative lookbehind: matches only if NOT preceded by the pattern"
  | .other name => .error (.unknownName name)

/-- How often a repetition with bounds matches. -/
def boundsPhrase (min : Int) (max : Option Int) : Text :=
  match max with
  | none => "at least " ++ Text.ofInt min ++ " times"
  | some max =>
    if min = max then "exactly " ++ Text.ofInt min ++ " times"
    else "between " ++ Text.ofInt min ++ " and " ++ Text.ofInt max ++ " times"

/-- How often a repetition matches; its shorthand, where known, speaks before its bounds. -/
def repetitionPhrase (min : Int) (max : Option Int) : Option Shorthand → Text
  | some .star => "zero or more times"
  | some .plus => "one or more times"
  | some .question => "zero or one time (optional)"
  | _ => boundsPhrase min max

/-- What a node matches. -/
def describe : Node → Except Node.Fault Text
  | .anchor kind => ofAnchor kind
  | .value value => do
    return Text.ofString "Matches the literal character \"" ++ [← Node.character value] ++
      Text.ofString "\""
  | .dot => .ok "Matches any character (.)"
  | .escape kind => .ok ("Matches " ++ standaloneEscapeName kind)
  | .charClass negative items => do
    let described ← describeItems items
    return Text.ofString
      (if negative then "Matches any character NOT in: " else "Matches any character in: ") ++
      described
  | .unsupported kind raw =>
    .ok (Text.trimRight
      ("Not supported by the step debugger: " ++ kind ++ Text.ofString " " ++ raw))
  | .alternative _ => .ok "Sequence: matches each element in order"
  | .disjunction _ => .ok "Alternation (|): matches one of the alternatives"
  | .group behaviour _ name number => ofGroup behaviour name number
  | .quantifier min max greedy _ shorthand =>
    .ok ("Matches the preceding element " ++ repetitionPhrase min max shorthand ++
      Text.ofString (if greedy then " (greedy)" else " (non-greedy)"))
  | node => .error (.unexplained node)

mutual

/-- The explanations of a node and everything below it, in pre-order. -/
def walk (address : Address) (node : Node) : Except Node.Fault (List Explanation) := do
  let text ← describe node
  let below ←
    match node with
    | .alternative body => walkAll address .element 0 body
    | .group _ body _ _ => walkAll address .element 0 body
    | .quantifier _ _ _ body _ => walk (address ++ [.repeated]) body
    | .disjunction branches => walkAll address .branch 0 branches
    | _ => .ok []
  return ⟨⟨address, node⟩, text⟩ :: below

/-- The explanations of children, numbered from `index` on. -/
def walkAll (address : Address) (move : Nat → Move) (index : Nat) :
    List Node → Except Node.Fault (List Explanation)
  | [] => .ok []
  | node :: rest => do
    let first ← walk (address ++ [move index]) node
    let others ← walkAll address move (index + 1) rest
    return first ++ others

end

/-- The explanations of a tree in pre-order; a missing tree has none. -/
def ofTree (root : Node) : Except Node.Fault (List Explanation) :=
  if root.isAbsent then .ok [] else walk [] root

/-- The explanation with a given identifier. -/
def find? (root : Node) (id : Text) : Except Node.Fault (Option Explanation) := do
  return (← ofTree root).find? fun e => e.id = id

end Explanation

end RegexTrace
