import RegexTrace.Json
import RegexTrace.Node.Label

/-!
# Outlines

An outline of a tree keeps, for each node, an identifier, its kind, its label and the fields that
the label may not show. It can be written as a JSON document.
-/

namespace RegexTrace

/-- The fields that an outline keeps besides the label. -/
inductive Outline.Details
  | none
  | codePoint (value : Int)
  | charClass (negative : Bool) (items : List Text)
  | bounds (min : Int) (max : Option Int) (greedy : Bool)
  | group (behaviour : Behaviour) (name : Option Text) (number : Option Int)
  | anchor (kind : AnchorKind)
  deriving DecidableEq, Repr

/-- The outline of a node with those of its children. -/
inductive Outline
  | entry (id typeName label : Text) (details : Outline.Details) (children : List Outline)
  deriving Repr

namespace Outline

/-- The fields of a node that its outline keeps. -/
def detailsOf : Node → Except Node.Fault Details
  | .value value => .ok (.codePoint value)
  | .charClass negative items => do return .charClass negative (← items.mapM Node.itemLabel)
  | .quantifier min max greedy _ _ => .ok (.bounds min max greedy)
  | .group behaviour _ name number => .ok (.group behaviour name number)
  | .anchor kind => .ok (.anchor kind)
  | _ => .ok .none

mutual

/-- The outline of a node under an identifier; children add their index to it. -/
def ofNode (id : Text) (node : Node) : Except Node.Fault Outline := do
  let label ← node.label
  let details ← detailsOf node
  let children ←
    match node with
    | .alternative body => ofNodes id 0 body
    | .disjunction branches => ofNodes id 0 branches
    | .group _ body _ _ => ofNodes id 0 body
    | .quantifier _ _ _ body _ =>
      (ofNode (id ++ Text.ofString "-" ++ Text.ofNat 0) body).map fun child => [child]
    | _ => .ok []
  return .entry id node.typeName label details children

/-- The outlines of children, numbered from `index` on. -/
def ofNodes (id : Text) (index : Nat) : List Node → Except Node.Fault (List Outline)
  | [] => .ok []
  | node :: rest => do
    let first ← ofNode (id ++ Text.ofString "-" ++ Text.ofNat index) node
    let others ← ofNodes id (index + 1) rest
    return first :: others

end

/-- The kept fields as fields of a JSON object. -/
def Details.fields : Details → List (Text × Json)
  | .none => []
  | .codePoint value => [("code_point", .number value)]
  | .charClass negative items =>
    [("negative", .bool negative), ("items", .array (items.map .text))]
  | .bounds min max greedy =>
    [("min", .number min), ("max", Json.optional .number max), ("greedy", .bool greedy)]
  | .group behaviour name number =>
    [("behavior", .text behaviour.name), ("name", Json.optional .text name),
      ("number", Json.optional .number number)]
  | .anchor kind => [("kind", .text kind.name)]

mutual

/-- An outline as a JSON document. -/
def toJson : Outline → Json
  | .entry id typeName label details children =>
    .object
      ([(Text.ofString "id", .text id), (Text.ofString "type", .text typeName),
        (Text.ofString "repr", .text label),
        (Text.ofString "children", .array (toJsonAll children))]
        ++ details.fields)

/-- Outlines as JSON documents. -/
def toJsonAll : List Outline → List Json
  | [] => []
  | outline :: rest => toJson outline :: toJsonAll rest

end

end Outline

end RegexTrace
