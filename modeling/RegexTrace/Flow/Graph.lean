import RegexTrace.Node.Label
import RegexTrace.Trace

/-!
# Flow graphs

The flow graph of a tree has one flow node for each node of the tree, between a start and an end.
The elements of a sequence follow each other; a repetition has an edge back from what it repeats and
a junction that leads on; the branches of a choice meet in a junction.

A trace has a path through the graph: the marks at its ends are found at the start and the end, and
the other steps at the flow nodes of the occurrences they stand for.

## Implementation notes

Flow nodes and edges are numbered in the order in which they are added. The counters need not be
kept: a graph determines the number of the next flow node and that of the next edge.
-/

namespace RegexTrace

namespace Flow

/-- The identity of a flow node. -/
inductive Id
  | start
  | finish
  | numbered (n : Nat)
  deriving DecidableEq, Repr

/-- What a flow node does in the flow. -/
inductive Role
  | start
  | matching
  | loop
  | group
  | alternation
  | finish
  deriving DecidableEq, Repr

/-- What an edge stands for. -/
inductive EdgeKind
  | plain
  | loop
  | alternation
  deriving DecidableEq, Repr

/-- Further data of a flow node. -/
structure Details where
  quantifier : Option Text := none
  /-- The number of a capturing group, which may be missing. -/
  groupNumber : Option (Option Int) := none
  groupName : Option Text := none
  charClass : Option Text := none
  deriving DecidableEq, Repr

/-- A flow node; markers and junctions stand for no node of the tree. -/
structure Vertex where
  id : Id
  role : Role
  label : Text
  origin : Option Occurrence := none
  details : Details := {}
  deriving Repr

/-- A directed edge. -/
structure Edge where
  number : Nat
  source : Id
  target : Id
  kind : EdgeKind := .plain
  deriving DecidableEq, Repr

/-- A flow graph, with its nodes and edges in the order in which they were added. -/
structure Graph where
  vertices : Array Vertex := #[]
  edges : Array Edge := #[]
  deriving Repr

namespace Id

/-- The identifier of a flow node. -/
def text : Id → Text
  | .start => "start"
  | .finish => "end"
  | .numbered n => "node-" ++ Text.ofNat n

end Id

namespace Edge

/-- The identifier of an edge. -/
def id (e : Edge) : Text := "edge-" ++ Text.ofNat e.number

end Edge

namespace Role

/-- The name of a role. -/
def name : Role → Text
  | .start => "start"
  | .matching => "match"
  | .loop => "loop"
  | .group => "group"
  | .alternation => "alternation"
  | .finish => "end"

/-- The role of a node of the tree. -/
def ofNode : Node → Role
  | .anchor .start => .start
  | .quantifier _ _ _ _ _ => .loop
  | .group _ _ _ _ => .group
  | .disjunction _ => .alternation
  | _ => .matching

end Role

namespace EdgeKind

/-- The name of an edge kind. -/
def name : EdgeKind → Text
  | .plain => "default"
  | .loop => "loop"
  | .alternation => "alternation"

end EdgeKind

namespace Details

/-- The data of a node with a given label. An empty group name counts as none. -/
def ofNode (node : Node) (label : Text) : Details :=
  match node with
  | .quantifier _ _ _ _ _ => { quantifier := some label }
  | .group .capturing _ name number =>
    { groupNumber := some number, groupName := name.filter fun name => !name.isEmpty }
  | .charClass _ _ => { charClass := some label }
  | _ => {}

end Details

namespace Graph

/-- The identity of the next numbered flow node; the start marker is not numbered. -/
def nextId (g : Graph) : Id := .numbered (g.vertices.size - 1)

/-- A flow node is added. -/
def addVertex (g : Graph) (v : Vertex) : Graph := { g with vertices := g.vertices.push v }

/-- An edge is added. -/
def addEdge (g : Graph) (source target : Id) (kind : EdgeKind := .plain) : Graph :=
  { g with edges := g.edges.push ⟨g.edges.size, source, target, kind⟩ }

/-- The label of junctions, an arrow. -/
def junctionLabel : Text := [0x2192]

/-- The flow node of a tree node is added after `source`. -/
def addNode (g : Graph) (source : Id) (o : Occurrence) (label : Text) : Id × Graph :=
  let id := g.nextId
  let vertex : Vertex := ⟨id, Role.ofNode o.node, label, some o, Details.ofNode o.node label⟩
  (id, (g.addVertex vertex).addEdge source id)

/-- A junction is added. -/
def addJunction (g : Graph) : Id × Graph :=
  (g.nextId, g.addVertex { id := g.nextId, role := .matching, label := junctionLabel })

/-- Edges from the ends of branches to the junction where they meet. -/
def addMerges (g : Graph) (ends : List Id) (junction : Id) : Graph :=
  ends.foldl (fun g source => g.addEdge source junction .alternation) g

mutual

/-- A node and everything below it are added after `source`; the answer says where to go on from. -/
def add (address : Address) (node : Node) (source : Id) (g : Graph) :
    Except Node.Fault (Id × Graph) := do
  let label ← node.label
  let (id, g) := g.addNode source ⟨address, node⟩ label
  match node with
  | .alternative body => addChain address 0 body id g
  | .group _ body _ _ => addChain address 0 body id g
  | .quantifier _ _ _ body _ =>
    match add (address ++ [.repeated]) body id g with
    | .error fault => .error fault
    | .ok (last, g) =>
      let (junction, g) := (g.addEdge last id .loop).addJunction
      .ok (junction, g.addEdge last junction)
  | .disjunction branches =>
    match addBranches address 0 branches id g with
    | .error fault => .error fault
    | .ok (ends, g) =>
      let (junction, g) := g.addJunction
      .ok (junction, g.addMerges ends junction)
  | _ => .ok (id, g)

/-- Elements are added one after the other. -/
def addChain (address : Address) (index : Nat) :
    List Node → Id → Graph → Except Node.Fault (Id × Graph)
  | [], source, g => .ok (source, g)
  | node :: rest, source, g => do
    let (last, g) ← add (address ++ [.element index]) node source g
    addChain address (index + 1) rest last g

/-- Branches are added side by side; the answer lists their ends. -/
def addBranches (address : Address) (index : Nat) :
    List Node → Id → Graph → Except Node.Fault (List Id × Graph)
  | [], _, g => .ok ([], g)
  | node :: rest, source, g => do
    let (last, g) ← add (address ++ [.branch index]) node source g
    let (ends, g) ← addBranches address (index + 1) rest source g
    return (last :: ends, g)

end

/-- The flow graph of a tree, empty for a missing one. -/
def ofTree (root : Node) : Except Node.Fault Graph :=
  if root.isAbsent then .ok {}
  else do
    let started := Graph.addVertex {} { id := .start, role := .start, label := "START" }
    let (last, g) ← add [] root .start started
    return (g.addVertex { id := .finish, role := .finish, label := "END" }).addEdge last .finish

/-! ## The path of a trace -/

/-- The flow node of an occurrence of a node. -/
def find? (g : Graph) (address : Address) : Option Id :=
  (g.vertices.find? fun v =>
    match v.origin with
    | some o => o.address = address
    | none => false).map Vertex.id

/-- The flow node that a mark is found at. -/
def locate? (g : Graph) : Mark Occurrence → Option Id
  | .start => some .start
  | .finish => some .finish
  | .visit o => g.find? o.address

/-- The flow nodes in the order in which a trace visits them. -/
def path (g : Graph) (t : Trace Nat Occurrence) : List Id :=
  t.toList.filterMap fun step => g.locate? step.mark

/-- The path of a trace that was taken on another tree: none of its nodes are in the graph. -/
def foreignPath (t : Trace Nat Occurrence) : List Id :=
  t.toList.filterMap fun step => if step.mark.isSentinel then (Graph.locate? {} step.mark) else none

end Graph

end Flow

end RegexTrace
