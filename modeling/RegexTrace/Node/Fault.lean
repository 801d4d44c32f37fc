import RegexTrace.Node.Display

/-!
# Faults of trees from outside

The operations on nodes are total on the trees that patterns are read into. On other trees they can
meet a node they have no rule for, a name they do not know, or a number that is no code point.
-/

namespace RegexTrace.Node

/-- Why an operation on a node has no answer. -/
inductive Fault
  /-- The search has no rule for the node. -/
  | unmatchable (node : Node)
  /-- The node matches no single code point. -/
  | notLeaf (node : Node)
  /-- There is no explanation of the node. -/
  | unexplained (node : Node)
  /-- There is no label for the node. -/
  | unlabelled (node : Node)
  /-- The object belongs to no tree. -/
  | notNode (node : Node)
  /-- A kind or behaviour has a foreign name. -/
  | unknownName (name : Text)
  /-- A number is no code point. -/
  | notCodePoint
  /-- A number does not even fit into 32 bits. -/
  | codePointTooLarge
  deriving Repr

/-- The wording of a fault. -/
def Fault.message : Fault → Text
  | .unmatchable node => "cannot match " ++ node.display
  | .notLeaf node => "not a leaf node: " ++ node.display
  | .unexplained node => "cannot explain " ++ node.display
  | .unlabelled node => "no label for " ++ node.display
  | .notNode node => "not an AST node: " ++ node.display
  | .unknownName name => Text.Quoted.encode name
  | .notCodePoint => "chr() arg not in range(0x110000)"
  | .codePointTooLarge => "Python int too large to convert to C int"

/-- The code point with a given number. -/
def character (n : Int) : Except Fault CodePoint :=
  if 0 ≤ n ∧ n < codePointLimit then .ok n.toNat
  else if n < -0x80000000 ∨ 0x7FFFFFFF < n then .error .codePointTooLarge
  else .error .notCodePoint

/-- The children of a node in pattern order; items of a class are no children. -/
def children : Node → Except Fault (List Node)
  | .alternative body => .ok body
  | .disjunction branches => .ok branches
  | .group _ body _ _ => .ok body
  | .quantifier _ _ _ body _ => .ok [body]
  | .range min max => .error (.notNode (.range min max))
  | .alien => .error (.notNode .alien)
  | .absent => .error (.notNode .absent)
  | _ => .ok []

end RegexTrace.Node
