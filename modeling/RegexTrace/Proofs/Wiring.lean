import RegexTrace.Proofs.Identifiers
import RegexTrace.Proofs.Layout
import RegexTrace.Proofs.Walks

/-!
# Flow graphs are wired as laid out

A flow graph has a flow node for each place of the layout of its tree and an edge for each wire,
both numbered in the order of the layout. So what holds of a layout holds of the graph: its
identifiers are distinct, its edges have their ends in it, every flow node lies on a walk from the
start to the end, and the edges that are not plain are those of the repetitions and choices.

## Implementation notes

The identity of a place is its number among the places of the whole tree. While a part is added, the
only thing known about these numbers is that they count up from that of the next flow node.
-/

namespace RegexTrace

namespace Flow

/-- Different flow nodes have different identifiers. -/
theorem Id.text_injective : Function.Injective Id.text := by
  intro id other h
  cases id <;> cases other <;> try rfl
  case numbered.numbered n m =>
    have hdigits : Text.ofNat n = Text.ofNat m := List.append_cancel_left h
    rw [Text.ofNat_injective hdigits]
  all_goals simp [Id.text, Text.ofString] at h

/-- The address of the node that a place stands for. -/
def Place.address? : Place → Option Address
  | .node address => some address
  | _ => none

/-- The identity of a flow node with the address of the node that it stands for. -/
def Vertex.shown (v : Vertex) : Id × Option Address := (v.id, v.origin.map Occurrence.address)

/-- Places have the numbers from `n` on. -/
def Counts (ids : Place → Id) : Nat → List Place → Prop
  | _, [] => True
  | n, place :: rest => ids place = .numbered n ∧ Counts ids (n + 1) rest

theorem counts_append {ids : Place → Id} {n : Nat} {ps later : List Place} :
    Counts ids n (ps ++ later) ↔ Counts ids n ps ∧ Counts ids (n + ps.length) later := by
  induction ps generalizing n with
  | nil => simp [Counts]
  | cons place rest ih =>
      rw [List.cons_append, Counts, Counts, ih, List.length_cons, Nat.add_right_comm, and_assoc,
        Nat.add_assoc]

theorem Counts.map_eq {ids : Place → Id} {n : Nat} {ps : List Place} (h : Counts ids n ps) :
    ps.map ids = (List.range' n ps.length).map .numbered := by
  induction ps generalizing n with
  | nil => rfl
  | cons place rest ih =>
      rw [List.map_cons, List.length_cons, List.range'_succ, List.map_cons, h.1, ih h.2]

/-- The edges of wires, numbered from `k` on. -/
def edgesOf (ids : Place → Id) : Nat → List Wire → List Edge
  | _, [] => []
  | k, wire :: rest =>
    ⟨k, ids wire.source, ids wire.target, wire.kind⟩ :: edgesOf ids (k + 1) rest

section Edges

variable (ids : Place → Id)

theorem edgesOf_append (k : Nat) (ws more : List Wire) :
    edgesOf ids k (ws ++ more) = edgesOf ids k ws ++ edgesOf ids (k + ws.length) more := by
  induction ws generalizing k with
  | nil => rfl
  | cons wire rest ih =>
      rw [List.cons_append, edgesOf, edgesOf, ih, List.length_cons, List.cons_append,
        Nat.add_right_comm, Nat.add_assoc]

theorem length_edgesOf (k : Nat) (ws : List Wire) : (edgesOf ids k ws).length = ws.length := by
  induction ws generalizing k with
  | nil => rfl
  | cons wire rest ih => rw [edgesOf, List.length_cons, List.length_cons, ih]

theorem map_number_edgesOf (k : Nat) (ws : List Wire) :
    (edgesOf ids k ws).map Edge.number = List.range' k ws.length := by
  induction ws generalizing k with
  | nil => rfl
  | cons wire rest ih => rw [edgesOf, List.map_cons, List.length_cons, List.range'_succ, ih]

/-- The edges of a kind join the ends of the wires of that kind. -/
theorem map_ends_edgesOf (kind : EdgeKind) (k : Nat) (ws : List Wire) :
    ((edgesOf ids k ws).filter (·.kind = kind)).map (fun edge => (edge.source, edge.target)) =
      (ws.filter (·.kind = kind)).map fun wire => (ids wire.source, ids wire.target) := by
  induction ws generalizing k with
  | nil => rfl
  | cons wire rest ih =>
      by_cases h : wire.kind = kind
      · rw [edgesOf, List.filter_cons_of_pos (by simpa using h), List.filter_cons_of_pos
          (by simpa using h), List.map_cons, List.map_cons, ih]
      · rw [edgesOf, List.filter_cons_of_neg (by simpa using h), List.filter_cons_of_neg
          (by simpa using h), ih]

theorem exists_wire_of_mem_edgesOf {k : Nat} {ws : List Wire} {edge : Edge}
    (h : edge ∈ edgesOf ids k ws) :
    ∃ wire ∈ ws, edge.source = ids wire.source ∧ edge.target = ids wire.target := by
  induction ws generalizing k with
  | nil => cases h
  | cons wire rest ih =>
      rcases List.mem_cons.mp h with rfl | h
      · exact ⟨wire, List.mem_cons_self, rfl, rfl⟩
      · obtain ⟨other, hother, hends⟩ := ih h
        exact ⟨other, List.mem_cons_of_mem _ hother, hends⟩

theorem exists_edge_of_mem {k : Nat} {ws : List Wire} {wire : Wire} (h : wire ∈ ws) :
    ∃ edge ∈ edgesOf ids k ws, edge.source = ids wire.source ∧ edge.target = ids wire.target := by
  induction ws generalizing k with
  | nil => cases h
  | cons first rest ih =>
      rcases List.mem_cons.mp h with rfl | h
      · exact ⟨_, List.mem_cons_self, rfl, rfl⟩
      · obtain ⟨edge, hedge, hends⟩ := ih (k := k + 1) h
        exact ⟨edge, List.mem_cons_of_mem _ hedge, hends⟩

end Edges

namespace Graph

/-- A graph has grown by the flow nodes of some places and by the edges of some wires. -/
structure Lays (ids : Place → Id) (g : Graph) (ps : List Place) (ws : List Wire) (g' : Graph) :
    Prop where
  vertices : g'.vertices.toList.map Vertex.shown =
    g.vertices.toList.map Vertex.shown ++ ps.map fun place => (ids place, place.address?)
  edges : g'.edges.toList = g.edges.toList ++ edgesOf ids g.edges.size ws

namespace Lays

variable {ids : Place → Id} {g g' g'' : Graph} {ps later : List Place} {ws more : List Wire}

theorem refl (ids : Place → Id) (g : Graph) : g.Lays ids [] [] g where
  vertices := (List.append_nil _).symm
  edges := (List.append_nil _).symm

theorem trans (h : g.Lays ids ps ws g') (hlater : g'.Lays ids later more g'') :
    g.Lays ids (ps ++ later) (ws ++ more) g'' where
  vertices := by
    rw [hlater.vertices, h.vertices, List.map_append, List.append_assoc]
  edges := by
    have hsize : g'.edges.size = g.edges.size + ws.length := by
      rw [← Array.length_toList, h.edges, List.length_append, length_edgesOf, Array.length_toList]
    rw [hlater.edges, h.edges, edgesOf_append, hsize, List.append_assoc]

theorem size (h : g.Lays ids ps ws g') {n : Nat} (hsize : g.vertices.size = n + 1) :
    g'.vertices.size = n + ps.length + 1 := by
  have hlength := congrArg List.length h.vertices
  simp only [List.length_map, List.length_append, Array.length_toList, hsize] at hlength
  omega

/-- A flow node is laid out for its place. -/
theorem addVertex (g : Graph) {v : Vertex} {place : Place} (hid : v.id = ids place)
    (horigin : v.origin.map Occurrence.address = place.address?) :
    g.Lays ids [place] [] (g.addVertex v) where
  vertices := by
    rw [Graph.addVertex, Array.toList_push, List.map_append, List.map_singleton, Vertex.shown, hid,
      horigin, List.map_singleton]
  edges := (List.append_nil _).symm

theorem addEdge (g : Graph) (ids : Place → Id) (source target : Place) (kind : EdgeKind) :
    g.Lays ids [] [⟨source, target, kind⟩] (g.addEdge (ids source) (ids target) kind) where
  vertices := (List.append_nil _).symm
  edges := Array.toList_push

theorem addMerges (g : Graph) (ids : Place → Id) (lasts : List Place) (junction : Place) :
    g.Lays ids [] (lasts.map fun last => ⟨last, junction, .alternation⟩)
      (g.addMerges (lasts.map ids) (ids junction)) := by
  unfold Graph.addMerges
  induction lasts generalizing g with
  | nil => exact .refl ids g
  | cons last rest ih => exact (addEdge g ids last junction .alternation).trans (ih _)

/-- The flow node of a node is laid out with the wire to it. -/
theorem addNode (g : Graph) (source : Place) {address : Address} (node : Node)
    (hid : g.nextId = ids (.node address)) (label : Text) :
    g.Lays ids [.node address] [⟨source, .node address, .plain⟩]
      (g.addNode (ids source) ⟨address, node⟩ label).2 := by
  have hvertex : g.Lays ids [.node address] []
      (g.addVertex ⟨g.nextId, Role.ofNode node, label, some ⟨address, node⟩,
        Details.ofNode node label⟩) := addVertex g hid rfl
  have hedge := hvertex.trans (addEdge _ ids source (.node address) .plain)
  rw [← hid] at hedge
  exact hedge

theorem addJunction (g : Graph) {address : Address} (hid : g.nextId = ids (.junction address)) :
    g.Lays ids [.junction address] [] g.addJunction.2 := addVertex g hid rfl

end Lays

theorem nextId_eq {g : Graph} {n : Nat} (h : g.vertices.size = n + 1) :
    g.nextId = .numbered n := by
  rw [nextId, h, Nat.add_sub_cancel]

section Added

variable {ids : Place → Id}

mutual

/-- A tree is added as it is laid out, and it is left from the flow node of the place from which the
layout leaves it. -/
theorem add_lays (address : Address) (node : Node) (source : Place) (g : Graph) {n : Nat}
    (hsize : g.vertices.size = n + 1) (hids : Counts ids n (places address node)) {last : Id}
    {g' : Graph} (h : add address node (ids source) g = .ok (last, g')) :
    last = ids (exit address node) ∧
      g.Lays ids (places address node) (wires address source node) g' := by
  cases node with
  | alternative body | group _ body _ _ =>
      rw [places] at hids ⊢
      rw [wires, exit]
      rw [add] at h
      obtain ⟨label, -, hbody⟩ := exists_of_bind_ok h
      have hid := (nextId_eq hsize).trans hids.1.symm
      have hnode (node : Node) := Lays.addNode g source node hid label
      change addChain address 0 body g.nextId
        (g.addNode (ids source) ⟨address, _⟩ label).2 = .ok (last, g') at hbody
      rw [hid] at hbody
      obtain ⟨hlast, hbelow⟩ :=
        addChain_lays address 0 body _ _ ((hnode _).size hsize) hids.2 hbody
      exact ⟨hlast, (hnode _).trans hbelow⟩
  | quantifier min max greedy body shorthand =>
      obtain ⟨label, bodyLast, inner, hbody, rfl, rfl⟩ := exists_of_add_quantifier h
      rw [places] at hids ⊢
      rw [wires, exit]
      have hid := (nextId_eq hsize).trans hids.1.symm
      obtain ⟨hcounts, hjunction, -⟩ := counts_append.mp hids.2
      rw [hid] at hbody ⊢
      have hnode := Lays.addNode g source (.quantifier min max greedy body shorthand) hid label
      obtain ⟨rfl, hinner⟩ := add_lays _ body (.node address) _ (hnode.size hsize) hcounts hbody
      have hnext : inner.nextId = ids (.junction address) :=
        (nextId_eq (hinner.size (hnode.size hsize))).trans hjunction.symm
      have hback := Lays.addEdge inner ids (exit (address ++ [.repeated]) body) (.node address)
        .loop
      have hjoined := Lays.addJunction (inner.addEdge (ids (exit (address ++ [.repeated]) body))
        (ids (.node address)) .loop) hnext
      have hforward := Lays.addEdge (inner.addEdge (ids (exit (address ++ [.repeated]) body))
        (ids (.node address)) .loop).addJunction.2 ids (exit (address ++ [.repeated]) body)
        (.junction address) .plain
      have hall := (((hnode.trans hinner).trans hback).trans hjoined).trans hforward
      refine ⟨hnext, ?_⟩
      rw [hnext]
      simpa only [List.append_assoc, List.append_nil, List.nil_append, List.cons_append] using hall
  | disjunction branches =>
      obtain ⟨label, ends, inner, hbranches, rfl, rfl⟩ := exists_of_add_disjunction h
      rw [places] at hids ⊢
      rw [wires, exit]
      have hid := (nextId_eq hsize).trans hids.1.symm
      obtain ⟨hcounts, hjunction, -⟩ := counts_append.mp hids.2
      rw [hid] at hbranches
      have hnode := Lays.addNode g source (.disjunction branches) hid label
      obtain ⟨rfl, hinner⟩ := addBranches_lays address 0 branches (.node address) _
        (hnode.size hsize) hcounts hbranches
      have hnext : inner.nextId = ids (.junction address) :=
        (nextId_eq (hinner.size (hnode.size hsize))).trans hjunction.symm
      have hjoined := Lays.addJunction inner hnext
      have hmerged := Lays.addMerges inner.addJunction.2 ids (exits address 0 branches)
        (.junction address)
      have hall := ((hnode.trans hinner).trans hjoined).trans hmerged
      refine ⟨hnext, ?_⟩
      rw [hnext]
      simpa only [List.append_assoc, List.append_nil, List.nil_append, List.cons_append] using hall
  | _ =>
      simp only [places] at hids ⊢
      simp only [wires, exit]
      rw [add] at h
      obtain ⟨label, -, h⟩ := exists_of_bind_ok h
      have hid := (nextId_eq hsize).trans hids.1.symm
      cases h
      exact ⟨hid, Lays.addNode g source _ hid label⟩
termination_by sizeOf node

theorem addChain_lays (address : Address) (index : Nat) (body : List Node) (source : Place)
    (g : Graph) {n : Nat} (hsize : g.vertices.size = n + 1)
    (hids : Counts ids n (placesAll address .element index body)) {last : Id} {g' : Graph}
    (h : addChain address index body (ids source) g = .ok (last, g')) :
    last = ids (exitChain address index source body) ∧
      g.Lays ids (placesAll address .element index body) (chain address index source body) g' := by
  cases body with
  | nil =>
      rw [addChain] at h
      cases h
      rw [exitChain, placesAll, chain]
      exact ⟨rfl, .refl ids g⟩
  | cons node rest =>
      rw [addChain] at h
      obtain ⟨⟨next, inner⟩, hfirst, h⟩ := exists_of_bind_ok h
      rw [placesAll] at hids ⊢
      rw [exitChain, chain]
      obtain ⟨hcounts, hlater⟩ := counts_append.mp hids
      obtain ⟨rfl, hnode⟩ := add_lays _ node source g hsize hcounts hfirst
      obtain ⟨hlast, hrest⟩ := addChain_lays address (index + 1) rest _ inner (hnode.size hsize)
        hlater h
      exact ⟨hlast, hnode.trans hrest⟩
termination_by sizeOf body

theorem addBranches_lays (address : Address) (index : Nat) (branches : List Node) (source : Place)
    (g : Graph) {n : Nat} (hsize : g.vertices.size = n + 1)
    (hids : Counts ids n (placesAll address .branch index branches)) {ends : List Id} {g' : Graph}
    (h : addBranches address index branches (ids source) g = .ok (ends, g')) :
    ends = (exits address index branches).map ids ∧
      g.Lays ids (placesAll address .branch index branches) (fan address index source branches)
        g' := by
  cases branches with
  | nil =>
      rw [addBranches] at h
      cases h
      rw [placesAll, fan]
      exact ⟨rfl, .refl ids g⟩
  | cons node rest =>
      rw [addBranches] at h
      obtain ⟨⟨last, inner⟩, hfirst, h⟩ := exists_of_bind_ok h
      obtain ⟨⟨others, outer⟩, hrest, h⟩ := exists_of_bind_ok h
      cases h
      rw [placesAll] at hids ⊢
      rw [exits, fan]
      obtain ⟨hcounts, hlater⟩ := counts_append.mp hids
      obtain ⟨rfl, hnode⟩ := add_lays _ node source g hsize hcounts hfirst
      obtain ⟨rfl, hothers⟩ := addBranches_lays address (index + 1) rest source inner
        (hnode.size hsize) hlater hrest
      exact ⟨rfl, hnode.trans hothers⟩
termination_by sizeOf branches

end

end Added

end Graph

/-- The identity of a place in the flow graph of a tree. -/
def idAt (root : Node) : Place → Id
  | .start => .start
  | .finish => .finish
  | place => .numbered ((places [] root).idxOf place)

theorem idAt_eq {root : Node} {address : Address} {node : Node} {place : Place}
    (h : place ∈ places address node) :
    idAt root place = .numbered ((places [] root).idxOf place) := by
  obtain ⟨o, -, hplace⟩ := mem_places_iff.mp h
  rcases List.mem_cons.mp hplace with rfl | hjunction
  · rfl
  · rw [eq_of_mem_junctions hjunction]
    rfl

/-- The identities of the places of a tree count up from zero. -/
theorem counts_idAt (root : Node) : Counts (idAt root) 0 (places [] root) := by
  have hcounts (before later : List Place) (h : places [] root = before ++ later) :
      Counts (idAt root) before.length later := by
    induction later generalizing before with
    | nil => trivial
    | cons place rest ih =>
        have hmem : place ∈ places [] root := h ▸ List.mem_append_right _ List.mem_cons_self
        have hnodup := h ▸ nodup_places [] root
        have hnot : place ∉ before := fun hbefore =>
          (List.nodup_append'.mp hnodup).2.2 hbefore List.mem_cons_self
        constructor
        · rw [idAt_eq hmem, h, List.idxOf_append_of_notMem hnot, List.idxOf_cons_self,
            Nat.add_zero]
        · have hrest := ih (before ++ [place]) (by rw [h, List.append_assoc]; rfl)
          rwa [List.length_append] at hrest
  exact hcounts [] _ rfl

/-- All places of a flow graph in the order in which they are laid out. -/
def layout (root : Node) : List Place := .start :: (places [] root ++ [.finish])

/-- All wires of a flow graph in the order in which they are laid. -/
def wiring (root : Node) : List Wire :=
  wires [] .start root ++ [⟨exit [] root, .finish, .plain⟩]

theorem wiring_filter (root : Node) (kind : EdgeKind) (hkind : kind ≠ .plain) :
    (wiring root).filter (·.kind = kind) = (wires [] .start root).filter (·.kind = kind) := by
  rw [wiring, List.filter_append, List.filter_cons_of_neg (by simpa using hkind.symm)]
  exact List.append_nil _

theorem wiring_passes {root : Node} (h : root.IsPart) :
    Passes (wiring root) .start (places [] root ++ [.finish]) .finish :=
  (wires_pass [] root h .start).append (.single _ .finish .plain)

/-- Every place lies on the way from the start to the end. -/
theorem reach_of_mem_layout {root : Node} (h : root.IsPart) {place : Place}
    (hplace : place ∈ layout root) :
    Relation.ReflTransGen (Linked (wiring root)) .start place ∧
      Relation.ReflTransGen (Linked (wiring root)) place .finish := by
  have hpasses := wiring_passes h
  rcases List.mem_cons.mp hplace with rfl | hplace
  · exact ⟨.refl, hpasses.through⟩
  · exact ⟨hpasses.arrives place hplace, hpasses.leaves place hplace⟩

/-- The places that stand for no node are the start, the end and the junctions. -/
theorem layout_filter_perm (root : Node) :
    ((layout root).filter fun place => place.address?.isNone).Perm
      (.start :: .finish :: (root.occurrences []).flatMap junctions) := by
  have hown (o : Occurrence) : (Place.node o.address :: junctions o).filter
      (fun place => place.address?.isNone) = junctions o := by
    rw [List.filter_cons_of_neg (by simp [Place.address?])]
    apply List.filter_eq_self.mpr
    intro place hplace
    rw [eq_of_mem_junctions hplace]
    rfl
  have hplaces := (places_perm [] root).filter fun place => place.address?.isNone
  rw [List.filter_flatMap] at hplaces
  simp only [hown] at hplaces
  rw [layout, List.filter_cons_of_pos rfl, List.filter_append]
  exact (List.perm_append_comm.trans (hplaces.append_left _)).cons _

namespace Graph

/-- The flow graph of a tree is laid out as the layout of the tree. -/
theorem ofTree_lays {root : Node} (hpart : root.IsPart) {g : Graph} (h : ofTree root = .ok g) :
    Graph.Lays (idAt root) {} (layout root) (wiring root) g := by
  rw [ofTree, if_neg (by rw [hpart.isAbsent_eq_false]; exact Bool.false_ne_true)] at h
  obtain ⟨⟨last, inner⟩, hadd, heq⟩ := exists_of_bind_ok h
  obtain rfl := Except.ok.inj heq
  have hstart : Graph.Lays (idAt root) {} [.start] []
      (addVertex {} { id := .start, role := .start, label := "START" }) :=
    Lays.addVertex {} rfl rfl
  obtain ⟨rfl, hroot⟩ := add_lays [] root .start _ rfl (counts_idAt root) hadd
  have hfinish : inner.Lays (idAt root) [.finish] []
      (inner.addVertex { id := .finish, role := .finish, label := "END" }) :=
    Lays.addVertex inner rfl rfl
  have hlast := Lays.addEdge (inner.addVertex { id := .finish, role := .finish, label := "END" })
    (idAt root) (exit [] root) .finish .plain
  have hall := ((hstart.trans hroot).trans hfinish).trans hlast
  simp only [List.append_nil, List.nil_append, List.cons_append] at hall
  exact hall

/-- A flow graph depicts a tree. -/
structure Depicts (g : Graph) (root : Node) : Prop where
  /-- Different flow nodes have different identifiers. -/
  ids : (g.vertices.toList.map fun v => v.id.text).Nodup
  /-- The edges are numbered in order. -/
  edgeIds : g.edges.toList.map Edge.id =
    (List.range g.edges.size).map fun k => Text.ofString "edge-" ++ Text.ofNat k
  /-- Different edges have different identifiers. -/
  edgeIds_nodup : (g.edges.toList.map Edge.id).Nodup
  /-- Edges lead from flow nodes to flow nodes. -/
  ends : ∀ edge ∈ g.edges,
    (∃ v ∈ g.vertices, v.id = edge.source) ∧ ∃ v ∈ g.vertices, v.id = edge.target
  /-- The flow nodes that stand for nodes stand for the occurrences of the tree in pre-order. -/
  origins : g.vertices.toList.filterMap Vertex.origin = root.occurrences []
  /-- Each of them has the identity of its place and is found by its address. -/
  found : ∀ v ∈ g.vertices, ∀ o, v.origin = some o →
    v.id = idAt root (.node o.address) ∧ g.find? o.address = some v.id
  /-- The others are the start, the end and one junction for each repetition and each choice. -/
  others : ((g.vertices.toList.filter fun v => v.origin.isNone).map Vertex.id).Perm
    (.start :: .finish :: ((root.occurrences []).flatMap junctions).map (idAt root))
  /-- Every flow node lies on a walk from the start to the end. -/
  reach : ∀ v ∈ g.vertices,
    Relation.ReflTransGen g.Joins .start v.id ∧ Relation.ReflTransGen g.Joins v.id .finish
  /-- The loop edges lead back to the repetitions, one to each from where its body is left. -/
  loops : ((g.edges.toList.filter (·.kind = .loop)).map fun e => (e.source, e.target)).Perm
    (((root.occurrences []).flatMap loops).map fun wire =>
      (idAt root wire.source, idAt root wire.target))
  /-- The alternation edges lead to the junctions of the choices, one from where each branch is
  left. -/
  merges : ((g.edges.toList.filter (·.kind = .alternation)).map fun e => (e.source, e.target)).Perm
    (((root.occurrences []).flatMap merges).map fun wire =>
      (idAt root wire.source, idAt root wire.target))

section Laid

variable {root : Node} {g : Graph} (h : Graph.Lays (idAt root) {} (layout root) (wiring root) g)

include h

namespace Lays

/-- The flow nodes of a graph are those of its layout. -/
theorem map_shown : g.vertices.toList.map Vertex.shown =
    (layout root).map fun place => (idAt root place, place.address?) := h.vertices

/-- The edges of a graph are those of its wiring. -/
theorem toList_edges : g.edges.toList = edgesOf (idAt root) 0 (wiring root) := h.edges

theorem map_id : g.vertices.toList.map Vertex.id =
    .start :: ((List.range (places [] root).length).map .numbered ++ [.finish]) := by
  have hfirst := congrArg (List.map Prod.fst) (map_shown h)
  rw [List.map_map, List.map_map] at hfirst
  calc g.vertices.toList.map Vertex.id = (layout root).map (idAt root) := hfirst
    _ = .start :: ((places [] root).map (idAt root) ++ [.finish]) :=
      congrArg (Id.start :: ·) List.map_append
    _ = _ := by rw [(counts_idAt root).map_eq, List.range_eq_range']

theorem map_edge_id : g.edges.toList.map Edge.id =
    (List.range g.edges.size).map fun k => Text.ofString "edge-" ++ Text.ofNat k := by
  have hsize : g.edges.size = (wiring root).length := by
    rw [← Array.length_toList, toList_edges h, length_edgesOf]
  have hnumbers := map_number_edgesOf (idAt root) 0 (wiring root)
  rw [← toList_edges h, ← hsize, ← List.range_eq_range'] at hnumbers
  rw [← hnumbers, List.map_map]
  rfl

/-- Every place has a flow node. -/
theorem exists_vertex {place : Place} (hplace : place ∈ layout root) :
    ∃ v ∈ g.vertices, v.id = idAt root place := by
  have hmem : (idAt root place, place.address?) ∈ g.vertices.toList.map Vertex.shown :=
    map_shown h ▸ List.mem_map_of_mem hplace
  obtain ⟨v, hv, hshown⟩ := List.mem_map.mp hmem
  exact ⟨v, Array.mem_toList_iff.mp hv, congrArg Prod.fst hshown⟩

/-- Every flow node has a place. -/
theorem exists_place {v : Vertex} (hv : v ∈ g.vertices) :
    ∃ place ∈ layout root, v.id = idAt root place ∧
      v.origin.map Occurrence.address = place.address? := by
  have hmem : v.shown ∈ (layout root).map fun place => (idAt root place, place.address?) :=
    map_shown h ▸ List.mem_map_of_mem (Array.mem_toList_iff.mpr hv)
  obtain ⟨place, hplace, hshown⟩ := List.mem_map.mp hmem
  exact ⟨place, hplace, (congrArg Prod.fst hshown).symm, (congrArg Prod.snd hshown).symm⟩

/-- An edge joins the ends of every wire. -/
theorem joins_of_linked {p q : Place} (hlinked : Linked (wiring root) p q) :
    g.Joins (idAt root p) (idAt root q) := by
  obtain ⟨wire, hwire, rfl, rfl⟩ := hlinked
  obtain ⟨edge, hedge, hends⟩ := exists_edge_of_mem (idAt root) (k := 0) hwire
  rw [← toList_edges h] at hedge
  exact ⟨edge, Array.mem_toList_iff.mp hedge, hends⟩

/-- The flow nodes without a node of the tree are those of the places without one. -/
theorem map_id_filter : (g.vertices.toList.filter fun v => v.origin.isNone).map Vertex.id =
    ((layout root).filter fun place => place.address?.isNone).map (idAt root) := by
  have hkept := congrArg (List.filter fun shown => shown.2.isNone) (map_shown h)
  rw [List.filter_map, List.filter_map] at hkept
  have hfirst := congrArg (List.map Prod.fst) hkept
  rw [List.map_map, List.map_map] at hfirst
  have hnone : (fun v : Vertex => v.origin.isNone) =
      (fun shown : Id × Option Address => shown.2.isNone) ∘ Vertex.shown :=
    funext fun v => (Option.isNone_map).symm
  rw [hnone]
  exact hfirst

end Lays

end Laid

/-- A flow graph that is laid out as its tree depicts it. -/
theorem depicts_of_lays {root : Node} {g : Graph} (hpart : root.IsPart) (hshows : g.Shows root)
    (h : Graph.Lays (idAt root) {} (layout root) (wiring root) g) : g.Depicts root where
  ids := by
    have hids : (g.vertices.toList.map Vertex.id).Nodup := by
      have hnumbered : ((List.range (places [] root).length).map Id.numbered).Nodup :=
        List.nodup_range.map fun _ _ heq => Id.numbered.inj heq
      rw [h.map_id]
      refine List.nodup_cons.mpr ⟨by simp, ?_⟩
      refine List.nodup_append'.mpr ⟨hnumbered, List.nodup_singleton _, ?_⟩
      intro id hid hfinish
      obtain rfl := List.mem_singleton.mp hfinish
      obtain ⟨n, -, heq⟩ := List.mem_map.mp hid
      cases heq
    have htexts := hids.map Id.text_injective
    rwa [List.map_map] at htexts
  edgeIds := h.map_edge_id
  edgeIds_nodup := by
    rw [h.map_edge_id]
    apply List.nodup_range.map
    intro k l heq
    exact Text.ofNat_injective (List.append_cancel_left heq)
  ends := by
    intro edge hedge
    rw [← Array.mem_toList_iff, h.toList_edges] at hedge
    obtain ⟨wire, hwire, hsource, htarget⟩ := exists_wire_of_mem_edgesOf _ hedge
    obtain ⟨hfrom, hto⟩ := (wiring_passes hpart).ends wire hwire
    rw [hsource, htarget]
    exact ⟨h.exists_vertex hfrom, h.exists_vertex (List.mem_cons_of_mem _ hto)⟩
  origins := hshows.listed
  found := by
    intro v hv o horigin
    refine ⟨?_, hshows.find?_eq hv horigin⟩
    obtain ⟨place, -, hid, haddress⟩ := h.exists_place hv
    rw [horigin] at haddress
    cases place with
    | node address =>
        rw [hid, Option.some.inj haddress]
    | _ => cases haddress
  others := by
    rw [h.map_id_filter]
    exact (layout_filter_perm root).map (idAt root)
  reach := by
    intro v hv
    obtain ⟨place, hplace, hid, -⟩ := h.exists_place hv
    obtain ⟨harrives, hleaves⟩ := reach_of_mem_layout hpart hplace
    have hlift {p q : Place} (hreach : Relation.ReflTransGen (Linked (wiring root)) p q) :
        Relation.ReflTransGen g.Joins (idAt root p) (idAt root q) :=
      Relation.ReflTransGen.lift (idAt root) (fun _ _ => h.joins_of_linked) p q hreach
    rw [hid]
    exact ⟨hlift harrives, hlift hleaves⟩
  loops := by
    rw [h.toList_edges, map_ends_edgesOf, wiring_filter root .loop nofun]
    exact (loops_perm [] .start root).map _
  merges := by
    rw [h.toList_edges, map_ends_edgesOf, wiring_filter root .alternation nofun]
    exact (merges_perm [] .start root).map _

end Graph

end Flow

namespace Pattern

/-- The flow graph of a pattern depicts its tree, and the flow nodes that stand for nodes stand for
those that are explained, in the same order. -/
theorem flowGraph_depicts {pattern : Text} (valid : pattern.Valid) {parsed : Parsed}
    (h : parse pattern = .ok parsed) :
    ∃ graph explanations, Flow.Graph.ofTree parsed.root = .ok graph ∧
      Explanation.ofTree parsed.root = .ok explanations ∧
      graph.vertices.toList.filterMap Flow.Vertex.origin =
        explanations.map Explanation.occurrence ∧
      (explanations.map Explanation.id).Nodup ∧ graph.Depicts parsed.root := by
  have hpart : parsed.root.IsPart := Or.inr (isPattern_of_parse valid h)
  obtain ⟨graph, hgraph, hshows⟩ := Flow.Graph.exists_shows hpart
  obtain ⟨explanations, hexplained, hoccurrences⟩ := Explanation.ofTree_spec hpart
  refine ⟨graph, explanations, hgraph, hexplained, ?_, Explanation.nodup_ids hoccurrences, ?_⟩
  · rw [hshows.listed, hoccurrences]
  · exact Flow.Graph.depicts_of_lays hpart hshows (Flow.Graph.ofTree_lays hpart hgraph)

/-- A choice between a repetition and a letter: one loop edge, and two edges to the junction of the
choice, the first of them from the junction of the repetition. -/
theorem flowGraph_depicts_choice :
    let pattern : Text := "a*|b"
    let root : Node := .disjunction [.alternative [.quantifier 0 none true (.value 'a'.toNat)
      (some .star)], .alternative [.value 'b'.toNat]]
    pattern.Valid ∧ parse pattern = .ok ⟨root, 0⟩ ∧
      Flow.exit [.branch 0, .element 0] (.quantifier 0 none true (.value 'a'.toNat) (some .star)) =
        .junction [.branch 0, .element 0] ∧
      (Flow.Graph.ofTree root).toOption.map (fun g =>
        (g.edges.toList.filter (·.kind ≠ .plain)).map fun e => (e.source, e.target)) =
        some [(.numbered 3, .numbered 2), (.numbered 4, .numbered 7),
          (.numbered 6, .numbered 7)] ∧
      ∃ graph explanations, Flow.Graph.ofTree root = .ok graph ∧
        Explanation.ofTree root = .ok explanations ∧
        graph.vertices.toList.filterMap Flow.Vertex.origin =
          explanations.map Explanation.occurrence ∧
        (explanations.map Explanation.id).Nodup ∧ graph.Depicts root := by
  intro pattern root
  have valid : pattern.Valid := by decide
  have hparse : parse pattern = .ok ⟨root, 0⟩ := rfl
  have hedges : (Flow.Graph.ofTree root).toOption.map (fun g =>
      (g.edges.toList.filter (·.kind ≠ .plain)).map fun e => (e.source, e.target)) =
      some [(.numbered 3, .numbered 2), (.numbered 4, .numbered 7),
        (.numbered 6, .numbered 7)] := by decide +kernel
  have hdepicts := flowGraph_depicts valid hparse
  exact ⟨valid, hparse, rfl, hedges, hdepicts⟩

end Pattern

end RegexTrace
