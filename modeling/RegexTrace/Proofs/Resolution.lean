import RegexTrace.Flow.Graph
import RegexTrace.Proofs.Backtracking
import RegexTrace.Proofs.Listing
import RegexTrace.Proofs.Parsing

/-!
# Traces resolve

Every step of a trace between its marks visits a node below the root of the searched tree. So the
explanations and the flow graph of that tree, which list all of its occurrences, have an entry for
each step.
-/

namespace RegexTrace

namespace Search

/-- All steps of a way visit some of the given occurrences. -/
def Way.Visits (among : List Occurrence) (way : Way) : Prop :=
  ∀ step ∈ way.steps, ∃ o ∈ among, step.mark = .visit o

section Visits

variable {among more : List Occurrence}

theorem visits_composes (among : List Occurrence) :
    Ways.Composes fun _ way => Way.Visits among way where
  here _ := List.forall_mem_nil _
  onward hfirst hsecond := List.forall_mem_append.mpr ⟨hfirst, hsecond⟩

theorem Ways.All.visits_mono {ws : Ways} (h : ws.All (Way.Visits among)) (hmore : among ⊆ more) :
    ws.All (Way.Visits more) := by
  intro way hway step hstep
  obtain ⟨o, ho, hmark⟩ := h way hway step hstep
  exact ⟨o, hmore ho, hmark⟩

theorem visits_after {ws : Ways} (h : ws.All (Way.Visits more)) (address : Address) (node : Node)
    (pos : Nat) :
    (ws.after [entry address node pos]).All (Way.Visits (⟨address, node⟩ :: more)) := by
  apply Ways.All.after
  intro way hway
  refine List.forall_mem_cons.mpr ⟨⟨_, List.mem_cons_self, rfl⟩, ?_⟩
  exact h.visits_mono (List.subset_cons_self _ _) way hway

theorem leafWays_visit (ctx : Context) (node : Node) (pos : Nat) :
    (leafWays ctx node pos).All (Way.Visits among) := by
  unfold leafWays
  split
  · exact .none
  · split
    · exact .singleIf _ (List.forall_mem_nil _)
    · exact .fault _

/-- An assertion visits what its body visits. -/
theorem assertion_visits {behind negative : Bool} {body : Nat → Ways} {pos : Nat}
    (hbody : ∀ start, (body start).All (Way.Visits among)) :
    (assertion behind negative body pos).All (Way.Visits among) := by
  unfold assertion
  simp only
  split
  · exact .fault _
  · next way hfound =>
      have hway : way.Visits among := by
        split at hfound
        · obtain ⟨start, -, hfirst⟩ := exists_start_of_firstBehind? hfound
          exact hbody start way (Ways.mem_of_first? hfirst).1
        · exact hbody pos way (Ways.mem_of_first? hfound).1
      split
      · exact .none
      · intro other hother
        obtain rfl := List.mem_singleton.mp hother
        exact hway
  · exact .singleIf _ (List.forall_mem_nil _)

theorem groupWays_visit {mode : LookaroundMode} {behaviour : Behaviour} {body : Nat → Ways}
    (hbody : ∀ start, (body start).All (Way.Visits among)) (pos : Nat) :
    (groupWays mode behaviour body pos).All (Way.Visits among) := by
  unfold groupWays
  split
  · exact assertion_visits hbody
  · exact hbody pos

variable {ctx : Context}

mutual

/-- The ways of a node visit its occurrences. -/
theorem ways_visit (address : Address) :
    ∀ (node : Node) (pos : Nat),
      (ways ctx address node pos).All (Way.Visits (node.occurrences address))
  | .anchor kind, pos => by
      rw [ways]
      exact visits_after (.singleIf _ (List.forall_mem_nil _)) address _ pos
  | .value _, pos | .dot, pos | .escape _, pos | .charClass _ _, pos => by
      rw [ways]
      exact visits_after (leafWays_visit ctx _ pos) address _ pos
  | .unsupported kind raw, pos => by
      rw [ways]
      exact .none
  | .alternative body, pos => by
      rw [ways, Node.occurrences]
      exact visits_after (sequenceWays_visit address 0 body pos) address _ pos
  | .disjunction branches, pos => by
      rw [ways, Node.occurrences]
      exact visits_after (choiceWays_visit address 0 branches pos) address _ pos
  | .group behaviour body name number, pos => by
      rw [ways, Node.occurrences]
      exact visits_after (groupWays_visit (sequenceWays_visit address 0 body) pos) address _ pos
  | .quantifier min max greedy body shorthand, pos => by
      rw [ways, Node.occurrences]
      split
      · exact .none
      · have hbody := ways_visit (address ++ [.repeated]) body
        exact visits_after ((visits_composes _).rounds hbody 0 pos) address _ pos
  | .range _ _, pos | .alien, pos | .absent, pos => by
      rw [ways]
      exact .fault _

theorem sequenceWays_visit (address : Address) (index : Nat) : ∀ (body : List Node) (pos : Nat),
    (sequenceWays ctx address index body pos).All
      (Way.Visits (Node.occurrencesAll address .element index body))
  | [], pos => by
      rw [sequenceWays]
      exact .singleIf true (List.forall_mem_nil _)
  | node :: rest, pos => by
      rw [sequenceWays, Node.occurrencesAll]
      refine @Ways.Composes.andThen _ (visits_composes _) _ _ pos ?_ ?_
      · exact (ways_visit (address ++ [.element index]) node pos).visits_mono
          (List.subset_append_left _ _)
      · intro stop
        exact (sequenceWays_visit address (index + 1) rest stop).visits_mono
          (List.subset_append_right _ _)

theorem choiceWays_visit (address : Address) (index : Nat) : ∀ (branches : List Node) (pos : Nat),
    (choiceWays ctx address index branches pos).All
      (Way.Visits (Node.occurrencesAll address .branch index branches))
  | [], pos => by
      rw [choiceWays]
      exact .none
  | node :: rest, pos => by
      rw [choiceWays, Node.occurrencesAll]
      apply Ways.All.append
      · exact (ways_visit (address ++ [.branch index]) node pos).visits_mono
          (List.subset_append_left _ _)
      · exact (choiceWays_visit address (index + 1) rest pos).visits_mono
          (List.subset_append_right _ _)

end

/-- The ways of the tree of a pattern visit only what is below its root. -/
theorem rootWays_visit {root : Node} (h : root.IsPattern) (start : Nat) :
    (rootWays ctx root start).All (Way.Visits (root.occurrences []).tail) := by
  cases h with
  | run terms =>
      rw [Node.occurrences]
      exact sequenceWays_visit [] 0 _ start
  | choice several terms =>
      rw [Node.occurrences]
      exact choiceWays_visit [] 0 _ start

end Visits

end Search

namespace Node

/-- What is below the root of a pattern is not at the address of the root. -/
theorem IsPattern.address_ne_nil {root : Node} (h : root.IsPattern) {o : Occurrence}
    (ho : o ∈ (root.occurrences []).tail) : o.address ≠ [] := by
  have below {move : Nat → Move} {nodes : List Node}
      (ho : o ∈ occurrencesAll [] move 0 nodes) : o.address ≠ [] := by
    obtain ⟨i, child, -, hchild⟩ := mem_occurrencesAll_iff.mp ho
    obtain ⟨moves, haddress, -⟩ := mem_occurrences_iff.mp hchild
    rw [haddress]
    exact List.cons_ne_nil _ _
  cases h with
  | run terms =>
      rw [occurrences] at ho
      exact below ho
  | choice several terms =>
      rw [occurrences] at ho
      exact below ho

theorem eq_of_mem_occurrences {root : Node} {o o' : Occurrence} (ho : o ∈ root.occurrences [])
    (ho' : o' ∈ root.occurrences []) (h : o.address = o'.address) : o = o' := by
  obtain ⟨address, node⟩ := o
  obtain ⟨address', node'⟩ := o'
  obtain rfl : address = address' := h
  rw [mem_occurrences_root_iff] at ho ho'
  simp only at ho ho'
  rw [ho] at ho'
  rw [Option.some.inj ho']

end Node

/-- Explanations of all occurrences of a tree have the one that an occurrence is named by. -/
theorem Occurrence.exists_nameIn {root : Node} {explanations : List Explanation}
    (hlisted : explanations.map Explanation.occurrence = root.occurrences []) {o : Occurrence}
    (ho : o ∈ root.occurrences []) :
    ∃ e ∈ explanations, e.occurrence = o ∧ o.nameIn explanations = e.id := by
  obtain ⟨e, he, heo⟩ := List.mem_map.mp (hlisted ▸ ho)
  have hsome : (explanations.find? fun e => e.occurrence.address = o.address).isSome = true := by
    rw [List.find?_isSome]
    exact ⟨e, he, decide_eq_true (congrArg address heo)⟩
  obtain ⟨found, hfound⟩ := Option.isSome_iff_exists.mp hsome
  have hmem := List.mem_of_find?_eq_some hfound
  have haddress : found.occurrence.address = o.address := by
    simpa using List.find?_some hfound
  refine ⟨found, hmem, ?_, ?_⟩
  · exact Node.eq_of_mem_occurrences (hlisted ▸ List.mem_map_of_mem hmem) ho haddress
  · rw [nameIn, hfound]

namespace Flow.Graph

theorem find?_eq (g : Graph) (address : Address) : g.find? address =
    (g.vertices.find? fun v => v.origin.any fun o => o.address = address).map Vertex.id := by
  unfold find?
  congr
  funext v
  cases v.origin <;> rfl

/-- A flow graph that has all occurrences of a tree, and no others, finds each of them. -/
theorem exists_find? {root : Node} {g : Graph}
    (hlisted : g.vertices.toList.filterMap Vertex.origin = root.occurrences []) {o : Occurrence}
    (ho : o ∈ root.occurrences []) :
    ∃ vertex ∈ g.vertices, vertex.origin = some o ∧ g.find? o.address = some vertex.id := by
  obtain ⟨v, hv, hvo⟩ := List.mem_filterMap.mp (hlisted ▸ ho)
  have hsome :
      (g.vertices.find? fun v => v.origin.any fun o' => o'.address = o.address).isSome := by
    rw [Array.find?_isSome]
    exact ⟨v, Array.mem_toList_iff.mp hv, by simp [hvo]⟩
  obtain ⟨found, hfound⟩ := Option.isSome_iff_exists.mp hsome
  have hmem := Array.mem_of_find?_eq_some hfound
  have haddress := Array.find?_some hfound
  obtain ⟨o', horigin, hsame⟩ := (Option.any_eq_true _ _).mp haddress
  obtain rfl : o' = o := by
    apply Node.eq_of_mem_occurrences _ ho (of_decide_eq_true hsame)
    rw [← hlisted]
    exact List.mem_filterMap.mpr ⟨found, Array.mem_toList_iff.mpr hmem, horigin⟩
  refine ⟨found, hmem, horigin, ?_⟩
  rw [find?_eq, hfound, Option.map_some]

end Flow.Graph

namespace Search

/-- Between the two marks of a trace, each step visits a node below the root. -/
theorem exists_inner_of_trace {options : Options} {root : Node} (h : root.IsPattern) {text : Text}
    {found : Trace Nat Occurrence} (htrace : trace options root text = .ok found)
    (hfound : found.isEmpty = false) :
    ∃ start stop inner, found.toList = ⟨start, .start⟩ :: (inner ++ [⟨stop, .finish⟩]) ∧
      ∀ step ∈ inner, ∃ o ∈ (root.occurrences []).tail, step.mark = .visit o := by
  obtain ⟨start, -, way, rest, hways, rfl, -⟩ := exists_way_of_trace htrace hfound
  have hway : way ∈ (rootWays ⟨Utf16.encode text, options⟩ root start).toList := by
    rw [hways]
    exact List.mem_cons_self
  exact ⟨start, way.stop, way.steps, rfl, rootWays_visit h start way hway⟩

/-- A trace visits only what is below the root. -/
theorem mem_tail_of_trace {options : Options} {root : Node} (h : root.IsPattern) {text : Text}
    {found : Trace Nat Occurrence} (htrace : trace options root text = .ok found)
    {step : Step Nat Occurrence} (hstep : step ∈ found.toList) {o : Occurrence}
    (hmark : step.mark = .visit o) : o ∈ (root.occurrences []).tail := by
  cases hfound : found.isEmpty with
  | true =>
      rw [Trace.eq_empty_of_isEmpty hfound] at hstep
      cases hstep
  | false =>
      obtain ⟨start, stop, inner, hinner, hvisits⟩ := exists_inner_of_trace h htrace hfound
      rw [hinner] at hstep
      rcases List.mem_cons.mp hstep with rfl | hstep
      · cases hmark
      rcases List.mem_append.mp hstep with hstep | hstep
      · obtain ⟨o', ho', hvisit⟩ := hvisits step hstep
        rw [hmark] at hvisit
        cases hvisit
        exact ho'
      · rw [List.mem_singleton.mp hstep] at hmark
        cases hmark

end Search

namespace Flow.Graph

/-- A flow graph shows a tree: it has a start and an end, and what stands for nodes in it are the
occurrences of the tree in pre-order. -/
structure Shows (g : Graph) (root : Node) : Prop where
  start : ∃ vertex ∈ g.vertices, vertex.id = .start
  finish : ∃ vertex ∈ g.vertices, vertex.id = .finish
  listed : g.vertices.toList.filterMap Vertex.origin = root.occurrences []

/-- The flow graph of the tree of a pattern shows it. -/
theorem exists_shows {root : Node} (h : root.IsPart) : ∃ g, ofTree root = .ok g ∧ g.Shows root := by
  obtain ⟨g, first, last, inner, hg, hvertices, hfirst, hlast, hnone, hnone', hinner⟩ :=
    ofTree_spec h
  refine ⟨g, hg, ⟨first, ?_, hfirst⟩, ⟨last, ?_, hlast⟩, ?_⟩
  · simp [← Array.mem_toList_iff, hvertices]
  · simp [← Array.mem_toList_iff, hvertices]
  · rw [hvertices, List.filterMap_cons_none hnone, List.filterMap_append, hinner,
      List.filterMap_cons_none hnone', List.filterMap_nil, List.append_nil]

/-- A mark of a trace on the shown tree is found at a flow node. -/
theorem Shows.exists_locate? {g : Graph} {root : Node} (h : g.Shows root) {mark : Mark Occurrence}
    (hmark : ∀ o, mark = .visit o → o ∈ root.occurrences []) :
    ∃ vertex ∈ g.vertices, g.locate? mark = some vertex.id := by
  cases mark with
  | start =>
      obtain ⟨vertex, hvertex, hid⟩ := h.start
      exact ⟨vertex, hvertex, hid ▸ rfl⟩
  | finish =>
      obtain ⟨vertex, hvertex, hid⟩ := h.finish
      exact ⟨vertex, hvertex, hid ▸ rfl⟩
  | visit o =>
      obtain ⟨vertex, hvertex, -, hfind⟩ := exists_find? h.listed (hmark o rfl)
      exact ⟨vertex, hvertex, hfind⟩

/-- The path of a trace on the shown tree misses no step and stays in the graph. -/
theorem Shows.path_spec {g : Graph} {root : Node} (h : g.Shows root) {t : Trace Nat Occurrence}
    (ht : ∀ step ∈ t.toList, ∀ o, step.mark = .visit o → o ∈ root.occurrences []) :
    (g.path t).length = t.length ∧ ∀ id ∈ g.path t, ∃ vertex ∈ g.vertices, vertex.id = id := by
  constructor
  · rw [path, List.filterMap_length_eq_length.mpr, Trace.toList, Array.length_toList, Trace.length]
    intro step hstep
    obtain ⟨vertex, -, hlocate⟩ := h.exists_locate? (ht step hstep)
    exact Option.isSome_iff_exists.mpr ⟨vertex.id, hlocate⟩
  · intro id hid
    obtain ⟨step, hstep, hlocate⟩ := List.mem_filterMap.mp hid
    obtain ⟨vertex, hvertex, hsame⟩ := h.exists_locate? (ht step hstep)
    exact ⟨vertex, hvertex, Option.some.inj (hsame.symm.trans hlocate)⟩

/-- The path of a trace between two marks leads from the start to the end. -/
theorem path_ends {g : Graph} {t : Trace Nat Occurrence} {start stop : Nat}
    {inner : List (Step Nat Occurrence)}
    (h : t.toList = ⟨start, .start⟩ :: (inner ++ [⟨stop, .finish⟩])) :
    (g.path t).head? = some .start ∧ (g.path t).getLast? = some .finish := by
  have hpath : g.path t =
      .start :: ((inner.filterMap fun step => g.locate? step.mark) ++ [.finish]) := by
    rw [path, h]
    exact congrArg (Id.start :: ·) List.filterMap_append
  rw [hpath]
  exact ⟨rfl, by rw [← List.cons_append, List.getLast?_append]; rfl⟩

end Flow.Graph

namespace Pattern

open Search

/-- Every trace resolves against the explanations and the flow graph of its own tree. Each step
between the two marks visits a node below the root; the name of that node is the identifier of its
explanation, and its flow node is found in the graph. The path of the trace through the graph has a
flow node for each step, from the start to the end. -/
theorem trace_resolves {pattern : Text} (valid : pattern.Valid) {parsed : Parsed}
    (hparse : parse pattern = .ok parsed) {options : Options} {text : Text}
    {found : Trace Nat Occurrence} (htrace : trace options parsed.root text = .ok found) :
    ∃ explanations graph, Explanation.ofTree parsed.root = .ok explanations ∧
      Flow.Graph.ofTree parsed.root = .ok graph ∧
      (found.isEmpty = false → ∃ start stop inner,
        found.toList = ⟨start, .start⟩ :: (inner ++ [⟨stop, .finish⟩]) ∧
          ∀ step ∈ inner, ∃ o : Occurrence, step.mark = .visit o ∧ o.address ≠ [] ∧
            parsed.root.at? o.address = some o.node ∧
            (∃ e ∈ explanations, e.occurrence = o ∧ traceNames parsed.root o = e.id) ∧
            ∃ vertex ∈ graph.vertices, vertex.origin = some o ∧
              graph.locate? (.visit o) = some vertex.id) ∧
      (graph.path found).length = found.length ∧
      (∀ id ∈ graph.path found, ∃ vertex ∈ graph.vertices, vertex.id = id) ∧
      (found.isEmpty = false → (graph.path found).head? = some .start ∧
        (graph.path found).getLast? = some .finish) := by
  have hroot := isPattern_of_parse valid hparse
  obtain ⟨explanations, hexplained, hlisted⟩ := Explanation.ofTree_spec (Or.inr hroot)
  obtain ⟨graph, hgraph, hshows⟩ := Flow.Graph.exists_shows (Or.inr hroot)
  have hbelow : ∀ o ∈ (parsed.root.occurrences []).tail, o ∈ parsed.root.occurrences [] :=
    fun o ho => List.mem_of_mem_tail ho
  obtain ⟨hlength, hids⟩ := hshows.path_spec fun step hstep o hmark =>
    hbelow o (mem_tail_of_trace hroot htrace hstep hmark)
  refine ⟨explanations, graph, hexplained, hgraph, fun hfound => ?_, hlength, hids,
    fun hfound => ?_⟩
  · obtain ⟨start, stop, inner, hinner, hvisits⟩ := exists_inner_of_trace hroot htrace hfound
    refine ⟨start, stop, inner, hinner, fun step hstep => ?_⟩
    obtain ⟨o, ho, hmark⟩ := hvisits step hstep
    have hmem := hbelow o ho
    obtain ⟨e, he, heo, hname⟩ := Occurrence.exists_nameIn hlisted hmem
    refine ⟨o, hmark, hroot.address_ne_nil ho, Node.mem_occurrences_root_iff.mp hmem,
      ⟨e, he, heo, ?_⟩, Flow.Graph.exists_find? hshows.listed hmem⟩
    rw [traceNames, hexplained]
    exact hname
  · obtain ⟨start, stop, inner, hinner, -⟩ := exists_inner_of_trace hroot htrace hfound
    exact Flow.Graph.path_ends hinner

/-- A repeated group with a choice, over a text that it matches in two rounds. -/
theorem trace_resolves_group :
    let pattern : Text := "(a|.b)+"
    let text : Text := "ca2b"
    let root : Node := .alternative [.quantifier 1 none true
      (.group .capturing [.disjunction
        [.alternative [.value 'a'.toNat], .alternative [.dot, .value 'b'.toNat]]] none (some 1))
      (some .plus)]
    pattern.Valid ∧ parse pattern = .ok ⟨root, 1⟩ ∧
      ∃ found, trace {} root text = .ok found ∧ found.isEmpty = false ∧
      ∃ explanations graph, Explanation.ofTree root = .ok explanations ∧
        Flow.Graph.ofTree root = .ok graph ∧
        (found.isEmpty = false → ∃ start stop inner,
          found.toList = ⟨start, .start⟩ :: (inner ++ [⟨stop, .finish⟩]) ∧
            ∀ step ∈ inner, ∃ o : Occurrence, step.mark = .visit o ∧ o.address ≠ [] ∧
              root.at? o.address = some o.node ∧
              (∃ e ∈ explanations, e.occurrence = o ∧ traceNames root o = e.id) ∧
              ∃ vertex ∈ graph.vertices, vertex.origin = some o ∧
                graph.locate? (.visit o) = some vertex.id) ∧
        (graph.path found).length = found.length ∧
        (∀ id ∈ graph.path found, ∃ vertex ∈ graph.vertices, vertex.id = id) ∧
        (found.isEmpty = false → (graph.path found).head? = some .start ∧
          (graph.path found).getLast? = some .finish) := by
  intro pattern text root
  have valid : pattern.Valid := by decide
  have hparse : parse pattern = .ok ⟨root, 1⟩ := rfl
  have hsome : (trace {} root text).toOption.map Trace.isEmpty = some false := by decide +kernel
  cases htrace : trace {} root text with
  | error failure =>
      rw [htrace] at hsome
      cases hsome
  | ok found =>
      rw [htrace] at hsome
      have hfound : found.isEmpty = false := Option.some.inj hsome
      exact ⟨valid, hparse, found, rfl, hfound, trace_resolves valid hparse htrace⟩

end Pattern

end RegexTrace
