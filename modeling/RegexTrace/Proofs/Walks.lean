import Mathlib.Data.List.Pairwise
import Mathlib.Logic.Relation
import RegexTrace.Proofs.Resolution
import RegexTrace.Proofs.Totality

/-!
# Traces walk through the flow graph

The path of a trace is a walk: from each of its flow nodes edges lead to the next one. Where groups
that look around are matched like any other group, the steps of a way follow the order in which the
flow nodes of a tree are wired, round the edge back from a repetition and past the parts that match
nothing.

## Implementation notes

Whether a flow node leads on is a question about the finished graph, and a tree is added to a graph
that is not yet finished. So the edges are looked for in a larger graph, of which the present one is
a part, and every wiring of a node is shown to carry its ways there.
-/

namespace RegexTrace

namespace Flow.Graph

/-- An edge leads from one flow node to another. -/
def Joins (g : Graph) (a b : Id) : Prop := ∃ edge ∈ g.edges, edge.source = a ∧ edge.target = b

/-- From one flow node some stops can be walked to one after the other, each of them over at least
one edge, and then another flow node. -/
inductive Traverses (g : Graph) : Id → List Id → Id → Prop
  | arrive {a b : Id} (h : Relation.ReflTransGen g.Joins a b) : Traverses g a [] b
  | stop {a id b : Id} {ids : List Id} (h : Relation.TransGen g.Joins a id)
      (onward : Traverses g id ids b) : Traverses g a (id :: ids) b

namespace Traverses

variable {g : Graph} {a b c id : Id} {ids more : List Id}

theorem before (h : Relation.ReflTransGen g.Joins a b) (onward : g.Traverses b ids c) :
    g.Traverses a ids c := by
  cases onward with
  | arrive hreach => exact .arrive (h.trans hreach)
  | stop hlead onward => exact .stop (.trans_right h hlead) onward

theorem append (h : g.Traverses a ids b) (onward : g.Traverses b more c) :
    g.Traverses a (ids ++ more) c := by
  induction h with
  | arrive hreach => exact onward.before hreach
  | stop hlead _ ih => exact .stop hlead (ih onward)

theorem join (h : g.Traverses a ids b) (hjoins : g.Joins b c) : g.Traverses a ids c := by
  have happend := h.append (.arrive (.single hjoins))
  rwa [List.append_nil] at happend

theorem pass (h : g.Traverses a (id :: ids) b) : g.Traverses a ids b := by
  cases h with
  | stop hlead onward => exact onward.before hlead.to_reflTransGen

/-- Each stop of a walk leads to the next one, and the last one to where an edge goes on. -/
theorem isChain (h : g.Traverses a ids b) (hjoins : g.Joins b c) :
    List.IsChain (Relation.TransGen g.Joins) (a :: (ids ++ [c])) := by
  induction h with
  | arrive hreach =>
      exact List.isChain_cons_cons.mpr ⟨.trans_right hreach (.single hjoins), .singleton _⟩
  | stop hlead _ ih => exact List.isChain_cons_cons.mpr ⟨hlead, ih hjoins⟩

end Traverses

/-- A graph is part of another one: its flow nodes and its edges are there, too. -/
structure Within (g g' : Graph) : Prop where
  vertices : ∀ vertex ∈ g.vertices, vertex ∈ g'.vertices
  edges : ∀ edge ∈ g.edges, edge ∈ g'.edges

namespace Within

variable {g g' g'' : Graph}

theorem rfl : g.Within g := ⟨fun _ h => h, fun _ h => h⟩

theorem trans (h : g.Within g') (h' : g'.Within g'') : g.Within g'' :=
  ⟨fun _ hv => h'.vertices _ (h.vertices _ hv), fun _ he => h'.edges _ (h.edges _ he)⟩

theorem addVertex (g : Graph) (v : Vertex) : g.Within (g.addVertex v) :=
  ⟨fun _ h => Array.mem_push_of_mem v h, fun _ h => h⟩

theorem addEdge (g : Graph) (source target : Id) (kind : EdgeKind) :
    g.Within (g.addEdge source target kind) :=
  ⟨fun _ h => h, fun _ h => Array.mem_push_of_mem _ h⟩

theorem addNode (g : Graph) (source : Id) (o : Occurrence) (label : Text) :
    g.Within (g.addNode source o label).2 :=
  (addVertex g _).trans (addEdge _ _ _ _)

theorem addMerges (g : Graph) (ends : List Id) (junction : Id) :
    g.Within (g.addMerges ends junction) := by
  unfold Graph.addMerges
  induction ends generalizing g with
  | nil => exact .rfl
  | cons source rest ih => exact (addEdge g _ _ _).trans (ih _)

theorem joins (h : g.Within g') {a b : Id} (hjoins : g.Joins a b) : g'.Joins a b := by
  obtain ⟨edge, hedge, hends⟩ := hjoins
  exact ⟨edge, h.edges edge hedge, hends⟩

end Within

theorem joins_addEdge (g : Graph) (source target : Id) (kind : EdgeKind) :
    (g.addEdge source target kind).Joins source target :=
  ⟨_, Array.mem_push_self, rfl, rfl⟩

theorem joins_addNode (g : Graph) (source : Id) (o : Occurrence) (label : Text) :
    (g.addNode source o label).2.Joins source g.nextId :=
  joins_addEdge _ _ _ _

theorem joins_addMerges (g : Graph) {ends : List Id} (junction : Id) {last : Id}
    (h : last ∈ ends) : (g.addMerges ends junction).Joins last junction := by
  induction ends generalizing g with
  | nil => cases h
  | cons source rest ih =>
      rcases List.mem_cons.mp h with rfl | h
      · exact (Within.addMerges _ rest junction).joins (joins_addEdge g _ _ .alternation)
      · exact ih (g.addEdge source junction .alternation) h

section Added

variable {address : Address} {source last : Id} {g g' : Graph}

/-- What is added for a repetition: its body, an edge back, and a junction to go on from. -/
theorem exists_of_add_quantifier {min : Int} {max : Option Int} {greedy : Bool} {body : Node}
    {shorthand : Option Shorthand}
    (h : add address (.quantifier min max greedy body shorthand) source g = .ok (last, g')) :
    ∃ label bodyLast inner,
      add (address ++ [.repeated]) body g.nextId
          (g.addNode source ⟨address, .quantifier min max greedy body shorthand⟩ label).2 =
        .ok (bodyLast, inner) ∧
      last = inner.nextId ∧
      g' = ((inner.addEdge bodyLast g.nextId .loop).addJunction.2).addEdge bodyLast last := by
  rw [add] at h
  obtain ⟨label, -, h⟩ := exists_of_bind_ok h
  dsimp only at h
  split at h
  · cases h
  · next bodyLast inner hbody =>
      cases h
      exact ⟨label, bodyLast, inner, hbody, rfl, rfl⟩

/-- What is added for a choice: its branches, and a junction where they meet. -/
theorem exists_of_add_disjunction {branches : List Node}
    (h : add address (.disjunction branches) source g = .ok (last, g')) :
    ∃ label ends inner,
      addBranches address 0 branches g.nextId
          (g.addNode source ⟨address, .disjunction branches⟩ label).2 = .ok (ends, inner) ∧
      last = inner.nextId ∧ g' = inner.addJunction.2.addMerges ends last := by
  rw [add] at h
  obtain ⟨label, -, h⟩ := exists_of_bind_ok h
  dsimp only at h
  split at h
  · cases h
  · next ends inner hbranches =>
      cases h
      exact ⟨label, ends, inner, hbranches, rfl, rfl⟩

end Added

mutual

/-- A graph is part of the one that a tree has been added to. -/
theorem add_within (address : Address) (node : Node) (source : Id) (g : Graph) {last : Id}
    {g' : Graph} (h : add address node source g = .ok (last, g')) : g.Within g' := by
  cases node with
  | alternative body | group _ body _ _ =>
      rw [add] at h
      obtain ⟨label, -, h⟩ := exists_of_bind_ok h
      exact (Within.addNode g _ _ _).trans (addChain_within address 0 body _ _ h)
  | quantifier min max greedy body shorthand =>
      obtain ⟨label, bodyLast, inner, hbody, rfl, rfl⟩ := exists_of_add_quantifier h
      have hinner := (Within.addNode g _ _ _).trans (add_within _ body _ _ hbody)
      exact ((hinner.trans (Within.addEdge _ _ _ _)).trans (Within.addVertex _ _)).trans
        (Within.addEdge _ _ _ _)
  | disjunction branches =>
      obtain ⟨label, ends, inner, hbranches, rfl, rfl⟩ := exists_of_add_disjunction h
      have hinner := (Within.addNode g _ _ _).trans
        (addBranches_within address 0 branches _ _ hbranches)
      exact (hinner.trans (Within.addVertex _ _)).trans (Within.addMerges _ _ _)
  | _ =>
      rw [add] at h
      obtain ⟨label, -, h⟩ := exists_of_bind_ok h
      cases h
      exact Within.addNode g _ _ _
termination_by sizeOf node

theorem addChain_within (address : Address) (index : Nat) (body : List Node) (source : Id)
    (g : Graph) {last : Id} {g' : Graph}
    (h : addChain address index body source g = .ok (last, g')) : g.Within g' := by
  cases body with
  | nil =>
      rw [addChain] at h
      cases h
      exact .rfl
  | cons node rest =>
      rw [addChain] at h
      obtain ⟨⟨next, inner⟩, hfirst, h⟩ := exists_of_bind_ok h
      exact (add_within _ node source g hfirst).trans
        (addChain_within address (index + 1) rest next inner h)
termination_by sizeOf body

theorem addBranches_within (address : Address) (index : Nat) (branches : List Node) (source : Id)
    (g : Graph) {ends : List Id} {g' : Graph}
    (h : addBranches address index branches source g = .ok (ends, g')) : g.Within g' := by
  cases branches with
  | nil =>
      rw [addBranches] at h
      cases h
      exact .rfl
  | cons node rest =>
      rw [addBranches] at h
      obtain ⟨⟨last, inner⟩, hfirst, h⟩ := exists_of_bind_ok h
      obtain ⟨⟨others, outer⟩, hrest, h⟩ := exists_of_bind_ok h
      cases h
      exact (add_within _ node source g hfirst).trans
        (addBranches_within address (index + 1) rest source inner hrest)
termination_by sizeOf branches

end

/-- The stops of a way are the flow nodes of its steps. -/
def stops (g : Graph) (way : Search.Way) : List Id :=
  way.steps.filterMap fun step => g.locate? step.mark

theorem stops_entry {g : Graph} {address : Address} {id : Id} (hfind : g.find? address = some id)
    (node : Node) (pos : Nat) (way : Search.Way) :
    g.stops ⟨way.stop, [Search.entry address node pos] ++ way.steps⟩ = id :: g.stops way :=
  List.filterMap_cons_some hfind

/-- A graph carries ways from one flow node to another: the one is reached from the other, and also
by stopping at the flow nodes of each way. -/
structure Carries (g : Graph) (source last : Id) (ways : Nat → Search.Ways) : Prop where
  reach : Relation.ReflTransGen g.Joins source last
  visits : ∀ pos, (ways pos).All fun way => g.Traverses source (g.stops way) last

namespace Carries

open Search

variable {g : Graph} {a b c : Id} {f next : Nat → Ways}

theorem silent (h : ∀ pos, (f pos).All fun way => way.steps = []) : g.Carries a a f where
  reach := .refl
  visits pos way hway := by
    have hstops : g.stops way = [] := by rw [stops, h pos way hway, List.filterMap_nil]
    change g.Traverses a (g.stops way) a
    rw [hstops]
    exact .arrive .refl

theorem andThen (h : g.Carries a b f) (hnext : g.Carries b c next) :
    g.Carries a c fun pos => (f pos).andThen next where
  reach := h.reach.trans hnext.reach
  visits pos way hway := by
    obtain ⟨first, hfirst, second, hsecond, rfl⟩ := Ways.mem_of_mem_andThen hway
    rw [stops, List.filterMap_append]
    exact (h.visits pos first hfirst).append (hnext.visits first.stop second hsecond)

theorem of_subset (h : g.Carries a b f) (hsubset : ∀ pos, (next pos).toList ⊆ (f pos).toList) :
    g.Carries a b next :=
  ⟨h.reach, fun pos way hway => h.visits pos way (hsubset pos hway)⟩

/-- The ways of a node are carried from the flow node before its own. -/
theorem after {address : Address} {node : Node} {id : Id} (hjoins : g.Joins a id)
    (hfind : g.find? address = some id) (h : g.Carries id b f) :
    g.Carries a b fun pos => (f pos).after [entry address node pos] where
  reach := .head hjoins h.reach
  visits pos := by
    apply Ways.All.after
    intro way hway
    rw [stops_entry hfind]
    exact .stop (.single hjoins) (h.visits pos way hway)

theorem pass {address : Address} {node : Node} {id : Id} (hfind : g.find? address = some id)
    (h : g.Carries a b fun pos => (f pos).after [entry address node pos]) : g.Carries a b f where
  reach := h.reach
  visits pos way hway := by
    have htraverses : g.Traverses a (g.stops ⟨way.stop, [entry address node pos] ++ way.steps⟩) b :=
      h.visits pos _ (Ways.mem_after_iff.mpr ⟨way, hway, rfl⟩)
    rw [stops_entry hfind] at htraverses
    exact htraverses.pass

/-- The rounds of a body are carried over an edge back to its start and an edge on from its end. -/
theorem rounds (h : g.Carries a b f) (hloop : g.Joins b a) (hexit : g.Joins b c) (few : Bool)
    (bounds : Bounds) (size : Nat) : g.Carries a c (Search.rounds few bounds size f 0) where
  reach := h.reach.tail hexit
  visits pos := by
    have hcomposes : Ways.Composes fun _ way => g.Traverses b (g.stops way) b := by
      constructor
      · exact fun pos => .arrive .refl
      · intro start first second hfirst hsecond
        rw [stops, List.filterMap_append]
        exact hfirst.append hsecond
    have hround : ∀ pos, (f pos).All fun way => g.Traverses b (g.stops way) b :=
      fun pos way hway => (h.visits pos way hway).before (.single hloop)
    intro way hway
    exact ((hcomposes.rounds hround 0 pos way hway).join hexit).before h.reach

end Carries

/-- A graph carries ways from one flow node to several: each of these is reached, and each way leads
to one of them. -/
structure Spreads (g : Graph) (source : Id) (ends : List Id) (ways : Nat → Search.Ways) : Prop where
  reach : ∀ last ∈ ends, Relation.ReflTransGen g.Joins source last
  visits : ∀ pos, (ways pos).All fun way => ∃ last ∈ ends, g.Traverses source (g.stops way) last

namespace Spreads

open Search

variable {g : Graph} {a b c : Id} {ends : List Id} {f later : Nat → Ways}

theorem none (a : Id) : g.Spreads a [] fun _ => .none := ⟨nofun, fun _ => .none⟩

theorem cons (h : g.Carries a b f) (hlater : g.Spreads a ends later) :
    g.Spreads a (b :: ends) fun pos => (f pos).append (later pos) where
  reach := List.forall_mem_cons.mpr ⟨h.reach, hlater.reach⟩
  visits pos := by
    apply Ways.All.append
    · exact fun way hway => ⟨b, List.mem_cons_self, h.visits pos way hway⟩
    · intro way hway
      obtain ⟨last, hlast, htraverses⟩ := hlater.visits pos way hway
      exact ⟨last, List.mem_cons_of_mem b hlast, htraverses⟩

theorem meet (h : g.Spreads a ends f) (hsome : ends ≠ []) (hjoins : ∀ last ∈ ends, g.Joins last c) :
    g.Carries a c f where
  reach := by
    obtain ⟨last, hlast⟩ := List.exists_mem_of_ne_nil ends hsome
    exact (h.reach last hlast).tail (hjoins last hlast)
  visits pos way hway := by
    obtain ⟨last, hlast, htraverses⟩ := h.visits pos way hway
    exact htraverses.join (hjoins last hlast)

end Spreads

section Wiring

open Search

variable {whole : Graph} {root : Node} {ctx : Context}

/-- In a graph that shows a tree, a node is found at the flow node that comes from its place. -/
theorem Shows.find?_eq (h : whole.Shows root) {vertex : Vertex} (hvertex : vertex ∈ whole.vertices)
    {o : Occurrence} (horigin : vertex.origin = some o) :
    whole.find? o.address = some vertex.id := by
  have hlisted : o ∈ whole.vertices.toList.filterMap Vertex.origin :=
    List.mem_filterMap.mpr ⟨vertex, Array.mem_toList_iff.mpr hvertex, horigin⟩
  obtain ⟨found, hfound, hsame, hfind⟩ := exists_find? h.listed (h.listed ▸ hlisted)
  have hpairwise := Node.pairwise_occurrences [] root
  rw [← h.listed, List.pairwise_filterMap] at hpairwise
  have hid : ∀ v ∈ whole.vertices.toList, ∀ v' ∈ whole.vertices.toList,
      v.origin = some o → v'.origin = some o → v.id = v'.id := by
    apply List.Pairwise.forall_of_forall_of_flip
    · exact fun _ _ _ _ => rfl
    · exact hpairwise.imp fun hne hv hv' => absurd rfl (hne o hv o hv')
    · exact hpairwise.imp fun hne hv hv' => absurd rfl (hne o hv' o hv)
  rw [hfind, hid found (Array.mem_toList_iff.mpr hfound) vertex (Array.mem_toList_iff.mpr hvertex)
    hsame horigin]

/-- The ways of a node are carried from where it is added if those of its inside are carried from
its flow node. -/
theorem carries_addNode (hshows : whole.Shows root) {g : Graph} {source last : Id}
    {o : Occurrence} {label : Text} {inside : Nat → Ways}
    (hwithin : (g.addNode source o label).2.Within whole)
    (h : whole.Carries g.nextId last inside) :
    whole.Carries source last fun pos => (inside pos).after [entry o.address o.node pos] := by
  apply h.after (hwithin.joins (joins_addNode g source o label))
  exact hshows.find?_eq (hwithin.vertices _ Array.mem_push_self) rfl

theorem leafWays_silent (ctx : Context) (node : Node) (pos : Nat) :
    (leafWays ctx node pos).All fun way => way.steps = [] := by
  unfold leafWays
  split
  · exact .none
  · split
    · exact .singleIf _ rfl
    · exact .fault _

/-- Branches have ends. -/
theorem ends_ne_nil {address : Address} {index : Nat} {branches : List Node} {source : Id}
    {g g' : Graph} {ends : List Id}
    (h : addBranches address index branches source g = .ok (ends, g')) (hsome : branches ≠ []) :
    ends ≠ [] := by
  cases branches with
  | nil => exact absurd rfl hsome
  | cons node rest =>
      rw [addBranches] at h
      obtain ⟨⟨last, inner⟩, -, h⟩ := exists_of_bind_ok h
      obtain ⟨⟨others, outer⟩, -, h⟩ := exists_of_bind_ok h
      cases h
      exact List.cons_ne_nil _ _

mutual

/-- The ways of a node are carried from where it is added to where its addition says to go on
from. -/
theorem add_carries (hconsume : ctx.options.lookaround = .consume) (hshows : whole.Shows root)
    (address : Address) (node : Node) (hpart : node.IsPart) (source : Id) (g : Graph) {last : Id}
    {g' : Graph} (h : add address node source g = .ok (last, g')) (hwithin : g'.Within whole) :
    whole.Carries source last (ways ctx address node) := by
  cases node with
  | alternative body =>
      rw [add] at h
      obtain ⟨label, -, h⟩ := exists_of_bind_ok h
      have hbelow := addChain_within address 0 body _ _ h
      simp only [ways]
      apply carries_addNode hshows (hbelow.trans hwithin)
      exact addChain_carries hconsume hshows address 0 body
        (fun i child hi => @Node.IsPart.child? _ _ hpart (.element i) hi) _ _ h hwithin
  | group behaviour body name number =>
      rw [add] at h
      obtain ⟨label, -, h⟩ := exists_of_bind_ok h
      have hbelow := addChain_within address 0 body _ _ h
      simp only [ways, hconsume, groupWays]
      apply carries_addNode hshows (hbelow.trans hwithin)
      exact addChain_carries hconsume hshows address 0 body
        (fun i child hi => @Node.IsPart.child? _ _ hpart (.element i) hi) _ _ h hwithin
  | quantifier min max greedy body shorthand =>
      obtain ⟨label, bodyLast, inner, hbody, rfl, rfl⟩ := exists_of_add_quantifier h
      have hjunction :=
        (Within.addVertex _ _).trans ((Within.addEdge _ bodyLast _ _).trans hwithin)
      have hinner := (Within.addEdge inner bodyLast _ _).trans hjunction
      have hnode := (add_within _ body _ _ hbody).trans hinner
      have hcarries := add_carries hconsume hshows _ body
        (@Node.IsPart.child? _ _ hpart .repeated rfl) _ _ hbody hinner
      have hloop := hjunction.joins (joins_addEdge inner bodyLast _ .loop)
      have hexit := hwithin.joins (joins_addEdge _ bodyLast _ .plain)
      have hrounds (bounds : Bounds) := carries_addNode hshows hnode
        (hcarries.rounds hloop hexit (ctx.options.honorLazy && !greedy) bounds ctx.units.size)
      simp only [ways]
      cases Bounds.ofInts? min max with
      | none => exact (hrounds ⟨0, none⟩).of_subset fun _ => List.nil_subset _
      | some bounds => exact hrounds bounds
  | disjunction branches =>
      obtain ⟨label, ends, inner, hbranches, rfl, rfl⟩ := exists_of_add_disjunction h
      have hmerged := (Within.addMerges _ ends _).trans hwithin
      have hinner := (Within.addVertex inner _).trans hmerged
      have hnode := (addBranches_within address 0 branches _ _ hbranches).trans hinner
      simp only [ways]
      apply carries_addNode hshows hnode
      have hspreads := addBranches_spreads hconsume hshows address 0 branches
        (fun i child hi => @Node.IsPart.child? _ _ hpart (.branch i) hi) _ _ hbranches hinner
      apply hspreads.meet
      · exact ends_ne_nil hbranches hpart.branches_ne_nil
      · exact fun last hlast => hwithin.joins (joins_addMerges _ _ hlast)
  | unsupported _ _ | range _ _ | alien | absent =>
      rw [add] at h
      obtain ⟨label, -, h⟩ := exists_of_bind_ok h
      cases h
      simp only [ways]
      have hsilent := carries_addNode hshows hwithin (.silent fun _ => .none)
      exact hsilent.of_subset fun _ => List.nil_subset _
  | anchor kind =>
      rw [add] at h
      obtain ⟨label, -, h⟩ := exists_of_bind_ok h
      cases h
      simp only [ways]
      exact carries_addNode hshows hwithin (.silent fun _ => .singleIf _ rfl)
  | _ =>
      rw [add] at h
      obtain ⟨label, -, h⟩ := exists_of_bind_ok h
      cases h
      simp only [ways]
      exact carries_addNode hshows hwithin (.silent (leafWays_silent ctx _))
termination_by sizeOf node

theorem addChain_carries (hconsume : ctx.options.lookaround = .consume)
    (hshows : whole.Shows root) (address : Address) (index : Nat) (body : List Node)
    (hparts : ∀ (i : Nat) (child : Node), body[i]? = some child → child.IsPart) (source : Id)
    (g : Graph) {last : Id} {g' : Graph}
    (h : addChain address index body source g = .ok (last, g')) (hwithin : g'.Within whole) :
    whole.Carries source last (sequenceWays ctx address index body) := by
  cases body with
  | nil =>
      rw [addChain] at h
      cases h
      simp only [sequenceWays]
      exact .silent fun pos => .singleIf true rfl
  | cons node rest =>
      rw [addChain] at h
      obtain ⟨⟨next, inner⟩, hfirst, h⟩ := exists_of_bind_ok h
      have hinner := (addChain_within address (index + 1) rest next inner h).trans hwithin
      simp only [sequenceWays]
      apply (add_carries hconsume hshows _ node (hparts 0 node rfl) source g hfirst hinner).andThen
      exact addChain_carries hconsume hshows address (index + 1) rest (fun i => hparts (i + 1)) next
        inner h hwithin
termination_by sizeOf body

theorem addBranches_spreads (hconsume : ctx.options.lookaround = .consume)
    (hshows : whole.Shows root) (address : Address) (index : Nat) (branches : List Node)
    (hparts : ∀ (i : Nat) (child : Node), branches[i]? = some child → child.IsPart) (source : Id)
    (g : Graph) {ends : List Id} {g' : Graph}
    (h : addBranches address index branches source g = .ok (ends, g')) (hwithin : g'.Within whole) :
    whole.Spreads source ends (choiceWays ctx address index branches) := by
  cases branches with
  | nil =>
      rw [addBranches] at h
      cases h
      simp only [choiceWays]
      exact .none source
  | cons node rest =>
      rw [addBranches] at h
      obtain ⟨⟨last, inner⟩, hfirst, h⟩ := exists_of_bind_ok h
      obtain ⟨⟨others, outer⟩, hrest, h⟩ := exists_of_bind_ok h
      cases h
      have hinner := (addBranches_within address (index + 1) rest source inner hrest).trans hwithin
      simp only [choiceWays]
      apply Spreads.cons
      · exact add_carries hconsume hshows _ node (hparts 0 node rfl) source g hfirst hinner
      · exact addBranches_spreads hconsume hshows address (index + 1) rest
          (fun i => hparts (i + 1)) source inner hrest hwithin
termination_by sizeOf branches

end

/-- The flow graph of a pattern carries the ways of the whole pattern from its start to where an
edge leads to its end. -/
theorem ofTree_carries (hconsume : ctx.options.lookaround = .consume) (hroot : root.IsPattern)
    (hgraph : ofTree root = .ok whole) (hshows : whole.Shows root) :
    ∃ last, whole.Joins last .finish ∧ whole.Carries .start last (rootWays ctx root) := by
  have hpresent := Node.IsPart.isAbsent_eq_false (Or.inr hroot)
  rw [ofTree, if_neg (by rw [hpresent]; exact Bool.false_ne_true)] at hgraph
  obtain ⟨⟨last, g⟩, hadd, heq⟩ := exists_of_bind_ok hgraph
  obtain rfl := Except.ok.inj heq
  have hcarries := add_carries hconsume hshows [] root (Or.inr hroot) .start _ hadd
    ((Within.addVertex g _).trans (Within.addEdge _ last .finish .plain))
  refine ⟨last, joins_addEdge _ _ _ .plain, ?_⟩
  obtain ⟨vertex, -, -, hfind⟩ :=
    exists_find? hshows.listed (Node.self_mem_occurrences [] root)
  -- a root is not itself visited, so the walk passes its flow node
  cases hroot with
  | run terms =>
      simp only [ways] at hcarries
      exact hcarries.pass hfind
  | choice several terms =>
      simp only [ways] at hcarries
      exact hcarries.pass hfind

/-- The path of a trace is a walk in the flow graph of its tree. -/
theorem path_isChain_of_trace {options : Options} (hconsume : options.lookaround = .consume)
    (hroot : root.IsPattern) (hgraph : ofTree root = .ok whole) (hshows : whole.Shows root)
    {text : Text} {found : Trace Nat Occurrence} (htrace : trace options root text = .ok found) :
    List.IsChain (Relation.TransGen whole.Joins) (whole.path found) := by
  cases hfound : found.isEmpty with
  | true =>
      rw [Trace.eq_empty_of_isEmpty hfound]
      exact .nil
  | false =>
      obtain ⟨start, -, way, rest, hways, rfl, -⟩ := exists_way_of_trace htrace hfound
      obtain ⟨last, hjoins, hcarries⟩ :=
        @ofTree_carries _ _ ⟨Utf16.encode text, options⟩ hconsume hroot hgraph hshows
      have htraverses : whole.Traverses .start (whole.stops way) last := by
        apply hcarries.visits start
        rw [hways]
        exact List.mem_cons_self
      have hpath : whole.path (way.trace start) = .start :: (whole.stops way ++ [.finish]) :=
        congrArg (Id.start :: ·) List.filterMap_append
      rw [hpath]
      exact htraverses.isChain hjoins

end Wiring

end Flow.Graph

namespace Pattern

open Search

/-- The path of a trace is a walk in the flow graph. Where groups that look around are matched like
any other group, a search without a budget has a trace, the tree has a flow graph, and from each
flow node of the path of the trace one or more edges lead to the next one. -/
theorem path_isChain {pattern : Text} (valid : pattern.Valid) {parsed : Parsed}
    (hparse : parse pattern = .ok parsed) (options : Options) {text : Text} (htext : text.Valid) :
    ∃ graph found, Flow.Graph.ofTree parsed.root = .ok graph ∧
      trace { options with lookaround := .consume, maxSteps := none } parsed.root text =
        .ok found ∧
      List.IsChain (Relation.TransGen graph.Joins) (graph.path found) := by
  have hroot := isPattern_of_parse valid hparse
  obtain ⟨graph, hgraph, hshows⟩ := Flow.Graph.exists_shows (Or.inr hroot)
  obtain ⟨found, htrace⟩ : ∃ found,
      trace { options with lookaround := .consume, maxSteps := none } parsed.root text =
        .ok found := exists_trace rfl hroot htext
  exact ⟨graph, found, hgraph, htrace,
    Flow.Graph.path_isChain_of_trace rfl hroot hgraph hshows htrace⟩

/-- A repeated choice with an empty branch and a group that may be left out, over a text that takes
several rounds. -/
theorem path_isChain_rounds :
    let pattern : Text := "(?:a|(b)?c|)+$"
    let text : Text := "abc"
    pattern.Valid ∧ text.Valid ∧ ∃ parsed, parse pattern = .ok parsed ∧
      ∃ graph found, Flow.Graph.ofTree parsed.root = .ok graph ∧
        trace { ({} : Options) with lookaround := .consume, maxSteps := none } parsed.root text =
          .ok found ∧
        found.isEmpty = false ∧
        List.IsChain (Relation.TransGen graph.Joins) (graph.path found) := by
  intro pattern text
  have valid : pattern.Valid := by decide
  have htext : text.Valid := by decide
  obtain ⟨parsed, hparse⟩ : ∃ parsed, parse pattern = .ok parsed := ⟨_, rfl⟩
  obtain ⟨graph, found, hgraph, htrace, hchain⟩ := path_isChain valid hparse {} htext
  have hsome : (trace {} parsed.root text).toOption.map Trace.isEmpty = some false := by
    obtain rfl := Except.ok.inj hparse
    decide +kernel
  rw [htrace] at hsome
  exact ⟨valid, htext, parsed, hparse, graph, found, hgraph, htrace, Option.some.inj hsome, hchain⟩

end Pattern

end RegexTrace
