import RegexTrace.Node.Basic

/-!
# Addresses of nodes

Equal subtrees may occur at several places of a tree. A place is told apart from the others by its
address, the moves that lead to it from the root, and an occurrence is a node together with its
address.
-/

namespace RegexTrace

/-- A move from a node to one of its children. -/
inductive Move
  /-- To an element of a sequence or of a group. -/
  | element (index : Nat)
  /-- To what a quantifier repeats. -/
  | repeated
  /-- To a branch of a choice. -/
  | branch (index : Nat)
  deriving DecidableEq, Repr

/-- The moves from the root to a node. -/
abbrev Address := List Move

/-- A node at its place in a tree. -/
structure Occurrence where
  address : Address
  node : Node
  deriving Repr

namespace Move

/-- The suffix that a move adds to an identifier. -/
def suffix : Move → Text
  | .element index => "-" ++ Text.ofNat index
  | .repeated => "-child-0"
  | .branch index => "-branch-" ++ Text.ofNat index

end Move

namespace Address

/-- The identifier of an address: `root` and a suffix for each move. -/
def id (address : Address) : Text := Text.ofString "root" ++ address.flatMap Move.suffix

end Address

namespace Node

/-- The child that a move leads to. -/
def child? : Node → Move → Option Node
  | .alternative body, .element index => body[index]?
  | .group _ body _ _, .element index => body[index]?
  | .quantifier _ _ _ body _, .repeated => some body
  | .disjunction branches, .branch index => branches[index]?
  | _, _ => none

/-- The node at an address. -/
def at? : Node → Address → Option Node
  | node, [] => some node
  | node, move :: rest => (node.child? move).bind fun child => at? child rest

end Node

end RegexTrace
