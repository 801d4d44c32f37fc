import RegexTrace.Flow.Graph
import RegexTrace.Node.Explanation
import RegexTrace.Node.Outline
import RegexTrace.Proofs.Occurrences
import RegexTrace.Proofs.Stops

/-!
# What the views of a tree list

A tree is gone through for its explanations, for its flow graph and for its outline. None of the
three fails where every node has its words, its label and its kept fields, as the nodes of a pattern
do. The explanations stand for the occurrences of the tree in pre-order, and so do the flow nodes
that stand for nodes.
-/

namespace RegexTrace

/-- An action that answers on every member of a list answers on the list. -/
theorem exists_mapM_ok {α β ε : Type} {f : α → Except ε β} {l : List α}
    (h : ∀ a ∈ l, ∃ b, f a = .ok b) : ∃ bs, l.mapM f = .ok bs := by
  induction l with
  | nil => exact ⟨[], rfl⟩
  | cons a rest ih =>
      obtain ⟨b, hb⟩ := h a List.mem_cons_self
      obtain ⟨bs, hbs⟩ := ih fun other hother => h other (List.mem_cons_of_mem _ hother)
      refine ⟨b :: bs, ?_⟩
      rw [List.mapM_cons, hb, hbs]
      rfl

namespace Node

theorem IsPart.isAbsent_eq_false {node : Node} (h : node.IsPart) : node.isAbsent = false := by
  rcases h with h | h <;> cases h <;> rfl

theorem IsItem.itemLabel_ok {item : Node} (h : item.IsItem) :
    ∃ label, item.itemLabel = .ok label := by
  cases item with
  | value c => exact ⟨_, congrArg (· >>= _) (Leaf.character_eq_ok h)⟩
  | range min max =>
      refine ⟨[min.toNat] ++ Text.ofString "-" ++ [max.toNat], ?_⟩
      rw [itemLabel, Leaf.character_eq_ok h.1, Leaf.character_eq_ok h.2.1]
      rfl
  | _ => exact ⟨_, rfl⟩

theorem IsItem.describeItem_ok {item : Node} (h : item.IsItem) :
    ∃ text, Explanation.describeItem item = .ok text := by
  cases item with
  | value c => exact ⟨_, congrArg (· >>= _) (Leaf.character_eq_ok h)⟩
  | range min max =>
      refine ⟨[min.toNat] ++ Text.ofString " to " ++ [max.toNat], ?_⟩
      rw [Explanation.describeItem, Leaf.character_eq_ok h.1, Leaf.character_eq_ok h.2.1]
      rfl
  | _ => exact ⟨_, rfl⟩

/-- A part of a pattern has a label. -/
theorem IsPart.label_ok {node : Node} (h : node.IsPart) : ∃ label, node.label = .ok label := by
  rcases h with h | h
  · cases h with
    | @anchor kind known => cases kind <;> first | exact ⟨_, rfl⟩ | exact known.elim
    | value codePoint => exact ⟨_, congrArg (· >>= _) (Leaf.character_eq_ok codePoint)⟩
    | charClass known =>
        obtain ⟨labels, hlabels⟩ := exists_mapM_ok fun item hitem => (known item hitem).itemLabel_ok
        exact ⟨_, congrArg (· >>= _) hlabels⟩
    | _ => exact ⟨_, rfl⟩
  · cases h with
    | _ => exact ⟨_, rfl⟩

/-- A part of a pattern has words. -/
theorem IsPart.describe_ok {node : Node} (h : node.IsPart) :
    ∃ text, Explanation.describe node = .ok text := by
  rcases h with h | h
  · cases h with
    | @anchor kind known => cases kind <;> first | exact ⟨_, rfl⟩ | exact known.elim
    | value codePoint => exact ⟨_, congrArg (· >>= _) (Leaf.character_eq_ok codePoint)⟩
    | charClass known =>
        obtain ⟨texts, htexts⟩ :=
          exists_mapM_ok fun item hitem => (known item hitem).describeItem_ok
        have hlist : Explanation.describeItems _ = .ok _ := congrArg (· >>= _) htexts
        exact ⟨_, congrArg (· >>= _) hlist⟩
    | @run behaviour _ _ _ labels _ =>
        rcases behaviour with _ | _ | ⟨_ | _, _ | _⟩ | _ <;>
          first | exact ⟨_, rfl⟩ | exact labels.1.elim
    | @choice behaviour _ _ _ labels _ _ =>
        rcases behaviour with _ | _ | ⟨_ | _, _ | _⟩ | _ <;>
          first | exact ⟨_, rfl⟩ | exact labels.1.elim
    | _ => exact ⟨_, rfl⟩
  · cases h with
    | _ => exact ⟨_, rfl⟩

/-- The fields that an outline keeps of a part of a pattern can be written. -/
theorem IsPart.detailsOf_ok {node : Node} (h : node.IsPart) :
    ∃ details, Outline.detailsOf node = .ok details := by
  rcases h with h | h
  · cases h with
    | charClass known =>
        obtain ⟨labels, hlabels⟩ := exists_mapM_ok fun item hitem => (known item hitem).itemLabel_ok
        exact ⟨_, congrArg (· >>= _) hlabels⟩
    | _ => exact ⟨_, rfl⟩
  · cases h with
    | _ => exact ⟨_, rfl⟩

end Node

namespace Explanation

/-- A walk that answers with the explanations of some occurrences in order. -/
def Lists (walked : Except Node.Fault (List Explanation)) (os : List Occurrence) : Prop :=
  ∃ es, walked = .ok es ∧ es.map occurrence = os

theorem Lists.cons {address : Address} {node : Node} (htext : ∃ text, describe node = .ok text)
    {below : Except Node.Fault (List Explanation)} {os : List Occurrence} (h : Lists below os) :
    Lists (do return ⟨⟨address, node⟩, ← describe node⟩ :: (← below)) (⟨address, node⟩ :: os) := by
  obtain ⟨text, htext⟩ := htext
  obtain ⟨es, rfl, hlisted⟩ := h
  refine ⟨⟨⟨address, node⟩, text⟩ :: es, ?_, ?_⟩
  · rw [htext]
    rfl
  · rw [List.map_cons, hlisted]

theorem Lists.append {first others : Except Node.Fault (List Explanation)}
    {os later : List Occurrence} (h : Lists first os) (hothers : Lists others later) :
    Lists (do return (← first) ++ (← others)) (os ++ later) := by
  obtain ⟨es, rfl, hlisted⟩ := h
  obtain ⟨more, rfl, hmore⟩ := hothers
  refine ⟨es ++ more, rfl, ?_⟩
  rw [List.map_append, hlisted, hmore]

mutual

/-- The explanations of a tree whose nodes have words are those of its occurrences in pre-order. -/
theorem walk_spec (address : Address) (node : Node)
    (h : ∀ o ∈ node.occurrences address, ∃ text, describe o.node = .ok text) :
    Lists (walk address node) (node.occurrences address) := by
  have htext := h _ (Node.self_mem_occurrences address node)
  cases node with
  | alternative body | group _ body _ _ =>
      rw [Node.occurrences] at h ⊢
      rw [walk]
      apply Lists.cons htext
      exact walkAll_spec address .element 0 body fun o ho => h o (List.mem_cons_of_mem _ ho)
  | disjunction branches =>
      rw [Node.occurrences] at h ⊢
      rw [walk]
      apply Lists.cons htext
      exact walkAll_spec address .branch 0 branches fun o ho => h o (List.mem_cons_of_mem _ ho)
  | quantifier min max greedy body shorthand =>
      rw [Node.occurrences] at h ⊢
      rw [walk]
      apply Lists.cons htext
      exact walk_spec (address ++ [.repeated]) body fun o ho => h o (List.mem_cons_of_mem _ ho)
  | _ =>
      rw [walk]
      exact .cons htext ⟨[], rfl, rfl⟩
termination_by sizeOf node

theorem walkAll_spec (address : Address) (move : Nat → Move) (index : Nat) (nodes : List Node)
    (h : ∀ o ∈ Node.occurrencesAll address move index nodes, ∃ text, describe o.node = .ok text) :
    Lists (walkAll address move index nodes)
      (Node.occurrencesAll address move index nodes) := by
  cases nodes with
  | nil =>
      rw [walkAll]
      exact ⟨[], rfl, rfl⟩
  | cons node rest =>
      rw [Node.occurrencesAll] at h ⊢
      rw [walkAll]
      apply Lists.append
      · exact walk_spec (address ++ [move index]) node fun o ho => h o (List.mem_append_left _ ho)
      · exact walkAll_spec address move (index + 1) rest
          fun o ho => h o (List.mem_append_right _ ho)
termination_by sizeOf nodes

end

theorem ofTree_spec {root : Node} (h : root.IsPart) :
    ∃ es, ofTree root = .ok es ∧ es.map occurrence = root.occurrences [] := by
  rw [ofTree, if_neg (by rw [h.isAbsent_eq_false]; exact Bool.false_ne_true)]
  exact walk_spec [] root fun o ho => (h.of_mem_occurrences ho).describe_ok

end Explanation

namespace Flow.Graph

/-- A graph has grown: flow nodes came after those that were there, and the ones among them that
stand for nodes of a tree stand for the given occurrences in order. -/
def Grows (g : Graph) (added : List Occurrence) (g' : Graph) : Prop :=
  ∃ more : List Vertex,
    g'.vertices.toList = g.vertices.toList ++ more ∧ more.filterMap Vertex.origin = added

namespace Grows

variable {g g' g'' : Graph} {added later : List Occurrence}

theorem trans (h : g.Grows added g') (hlater : g'.Grows later g'') :
    g.Grows (added ++ later) g'' := by
  obtain ⟨more, hmore, rfl⟩ := h
  obtain ⟨next, hnext, rfl⟩ := hlater
  refine ⟨more ++ next, ?_, List.filterMap_append⟩
  rw [hnext, hmore, List.append_assoc]

theorem addVertex (g : Graph) (v : Vertex) : g.Grows v.origin.toList (g.addVertex v) := by
  refine ⟨[v], Array.toList_push, ?_⟩
  cases h : v.origin <;> simp [h]

theorem addEdge (h : g.Grows added g') (source target : Id) (kind : EdgeKind) :
    g.Grows added (g'.addEdge source target kind) := h

theorem addMerges (h : g.Grows added g') (ends : List Id) (junction : Id) :
    g.Grows added (g'.addMerges ends junction) := by
  unfold Graph.addMerges
  induction ends generalizing g' with
  | nil => exact h
  | cons source rest ih => exact ih (h.addEdge source junction .alternation)

theorem addNode (g : Graph) (source : Id) (o : Occurrence) (label : Text) :
    g.Grows [o] (g.addNode source o label).2 :=
  (addVertex g _).addEdge source _ .plain

theorem addJunction (h : g.Grows added g') : g.Grows added g'.addJunction.2 := by
  have := h.trans (addVertex g' { id := g'.nextId, role := .matching, label := junctionLabel })
  rwa [Option.toList_none, List.append_nil] at this

end Grows

mutual

/-- A graph to which a tree of labelled nodes is added grows by the occurrences of the tree. -/
theorem add_spec (address : Address) (node : Node) (source : Id) (g : Graph)
    (h : ∀ o ∈ node.occurrences address, ∃ label, o.node.label = .ok label) :
    ∃ last g', add address node source g = .ok (last, g') ∧
      g.Grows (node.occurrences address) g' := by
  obtain ⟨label, hlabel⟩ := h _ (Node.self_mem_occurrences address node)
  have hself := Grows.addNode g source ⟨address, node⟩ label
  cases node with
  | alternative body | group _ body _ _ =>
      rw [Node.occurrences] at h ⊢
      obtain ⟨last, g', hbelow, hgrows⟩ :=
        addChain_spec address 0 body g.nextId (g.addNode source ⟨address, _⟩ label).2
          fun o ho => h o (List.mem_cons_of_mem _ ho)
      refine ⟨last, g', ?_, hself.trans hgrows⟩
      rw [add, hlabel]
      exact hbelow
  | quantifier min max greedy body shorthand =>
      rw [Node.occurrences] at h ⊢
      obtain ⟨last, g', hbelow, hgrows⟩ :=
        add_spec (address ++ [.repeated]) body g.nextId (g.addNode source ⟨address, _⟩ label).2
          fun o ho => h o (List.mem_cons_of_mem _ ho)
      have hgrown :=
        (((hself.trans hgrows).addEdge last g.nextId .loop).addJunction).addEdge last
          g'.nextId .plain
      refine ⟨g'.nextId, _, ?_, hgrown⟩
      rw [add, hlabel]
      simp only [Graph.addNode] at hbelow
      simp only [Except.bind, bind, Graph.addNode, hbelow]
      rfl
  | disjunction branches =>
      rw [Node.occurrences] at h ⊢
      obtain ⟨ends, g', hbelow, hgrows⟩ :=
        addBranches_spec address 0 branches g.nextId (g.addNode source ⟨address, _⟩ label).2
          fun o ho => h o (List.mem_cons_of_mem _ ho)
      have hgrown := ((hself.trans hgrows).addJunction).addMerges ends g'.nextId
      refine ⟨g'.nextId, _, ?_, hgrown⟩
      rw [add, hlabel]
      simp only [Graph.addNode] at hbelow
      simp only [Except.bind, bind, Graph.addNode, hbelow]
      rfl
  | _ =>
      rw [add, hlabel]
      exact ⟨_, _, rfl, hself⟩
termination_by sizeOf node

theorem addChain_spec (address : Address) (index : Nat) (body : List Node) (source : Id)
    (g : Graph)
    (h : ∀ o ∈ Node.occurrencesAll address .element index body, ∃ label, o.node.label = .ok label) :
    ∃ last g', addChain address index body source g = .ok (last, g') ∧
      g.Grows (Node.occurrencesAll address .element index body) g' := by
  cases body with
  | nil => exact ⟨source, g, by rw [addChain], [], (List.append_nil _).symm, rfl⟩
  | cons node rest =>
      rw [Node.occurrencesAll] at h ⊢
      obtain ⟨last, g', hfirst, hgrows⟩ :=
        add_spec (address ++ [.element index]) node source g
          fun o ho => h o (List.mem_append_left _ ho)
      obtain ⟨final, g'', hrest, hlater⟩ :=
        addChain_spec address (index + 1) rest last g' fun o ho => h o (List.mem_append_right _ ho)
      refine ⟨final, g'', ?_, hgrows.trans hlater⟩
      rw [addChain, hfirst]
      exact hrest
termination_by sizeOf body

theorem addBranches_spec (address : Address) (index : Nat) (branches : List Node) (source : Id)
    (g : Graph)
    (h : ∀ o ∈ Node.occurrencesAll address .branch index branches,
      ∃ label, o.node.label = .ok label) :
    ∃ ends g', addBranches address index branches source g = .ok (ends, g') ∧
      g.Grows (Node.occurrencesAll address .branch index branches) g' := by
  cases branches with
  | nil => exact ⟨[], g, by rw [addBranches], [], (List.append_nil _).symm, rfl⟩
  | cons node rest =>
      rw [Node.occurrencesAll] at h ⊢
      obtain ⟨last, g', hfirst, hgrows⟩ :=
        add_spec (address ++ [.branch index]) node source g
          fun o ho => h o (List.mem_append_left _ ho)
      obtain ⟨ends, g'', hrest, hlater⟩ :=
        addBranches_spec address (index + 1) rest source g'
          fun o ho => h o (List.mem_append_right _ ho)
      refine ⟨last :: ends, g'', ?_, hgrows.trans hlater⟩
      rw [addBranches, hfirst]
      simp only [Except.bind, bind, hrest]
      rfl
termination_by sizeOf branches

end

/-- The flow graph of the tree of a pattern lists the start, then what stands for its occurrences in
pre-order among the junctions, and then the end. -/
theorem ofTree_spec {root : Node} (h : root.IsPart) :
    ∃ g first last inner, ofTree root = .ok g ∧ g.vertices.toList = first :: (inner ++ [last]) ∧
      first.id = .start ∧ last.id = .finish ∧ first.origin = none ∧ last.origin = none ∧
      inner.filterMap Vertex.origin = root.occurrences [] := by
  obtain ⟨last, g, hadd, inner, hinner, hlisted⟩ :=
    add_spec [] root .start (addVertex {} { id := .start, role := .start, label := "START" })
      fun o ho => (h.of_mem_occurrences ho).label_ok
  rw [ofTree, if_neg (by rw [h.isAbsent_eq_false]; exact Bool.false_ne_true)]
  simp only [hadd]
  refine ⟨_, { id := .start, role := .start, label := "START" },
    { id := .finish, role := .finish, label := "END" }, inner, rfl, ?_, rfl, rfl, rfl, rfl, hlisted⟩
  exact Array.toList_push.trans (congrArg (· ++ _) hinner)

end Flow.Graph

namespace Outline

mutual

/-- A tree whose nodes have labels and kept fields has an outline. -/
theorem ofNode_ok (address : Address) (id : Text) (node : Node)
    (h : ∀ o ∈ node.occurrences address,
      (∃ label, o.node.label = .ok label) ∧ ∃ details, detailsOf o.node = .ok details) :
    ∃ outline, ofNode id node = .ok outline := by
  obtain ⟨⟨label, hlabel⟩, details, hdetails⟩ := h _ (Node.self_mem_occurrences address node)
  cases node with
  | alternative body | group _ body _ _ =>
      rw [Node.occurrences] at h
      obtain ⟨children, hchildren⟩ :=
        ofNodes_ok address .element 0 id body fun o ho => h o (List.mem_cons_of_mem _ ho)
      rw [ofNode, hlabel, hdetails]
      exact ⟨_, congrArg (· >>= _) hchildren⟩
  | disjunction branches =>
      rw [Node.occurrences] at h
      obtain ⟨children, hchildren⟩ :=
        ofNodes_ok address .branch 0 id branches fun o ho => h o (List.mem_cons_of_mem _ ho)
      rw [ofNode, hlabel, hdetails]
      exact ⟨_, congrArg (· >>= _) hchildren⟩
  | quantifier min max greedy body shorthand =>
      rw [Node.occurrences] at h
      obtain ⟨child, hchild⟩ :=
        ofNode_ok (address ++ [.repeated]) (id ++ Text.ofString "-" ++ Text.ofNat 0) body
          fun o ho => h o (List.mem_cons_of_mem _ ho)
      have hchildren := congrArg (Except.map fun child => [child]) hchild
      rw [ofNode, hlabel, hdetails]
      exact ⟨_, congrArg (· >>= _) hchildren⟩
  | _ =>
      rw [ofNode, hlabel, hdetails]
      exact ⟨_, rfl⟩
termination_by sizeOf node

theorem ofNodes_ok (address : Address) (move : Nat → Move) (index : Nat) (id : Text)
    (nodes : List Node)
    (h : ∀ o ∈ Node.occurrencesAll address move index nodes,
      (∃ label, o.node.label = .ok label) ∧ ∃ details, detailsOf o.node = .ok details) :
    ∃ outlines, ofNodes id index nodes = .ok outlines := by
  cases nodes with
  | nil => exact ⟨[], by rw [ofNodes]⟩
  | cons node rest =>
      rw [Node.occurrencesAll] at h
      obtain ⟨first, hfirst⟩ :=
        ofNode_ok (address ++ [move index]) (id ++ Text.ofString "-" ++ Text.ofNat index) node
          fun o ho => h o (List.mem_append_left _ ho)
      obtain ⟨others, hothers⟩ :=
        ofNodes_ok address move (index + 1) id rest fun o ho => h o (List.mem_append_right _ ho)
      rw [ofNodes, hfirst, hothers]
      exact ⟨_, rfl⟩
termination_by sizeOf nodes

end

theorem ofNode_ok_of_isPart {root : Node} (h : root.IsPart) (id : Text) :
    ∃ outline, ofNode id root = .ok outline :=
  ofNode_ok [] id root fun _ ho =>
    ⟨(h.of_mem_occurrences ho).label_ok, (h.of_mem_occurrences ho).detailsOf_ok⟩

end Outline

end RegexTrace
