import Mathlib.Data.List.Perm.Lattice
import Mathlib.Logic.Relation
import RegexTrace.Flow.Graph
import RegexTrace.Proofs.Occurrences

/-!
# The layout of a flow graph

The flow of a tree as a plan, before any flow node has a number: which places there are, which of
them a node is left from, and between which of them there are wires. Every node has a place; a
repetition and a choice also have a junction, and nothing else has one.

## Implementation notes

A place is named by the address of the node that it belongs to. That the wires lead from the place
before a tree over each of its places to the one from which the tree is left is shown part by part,
as for the ways of a tree: a part passes what it is made of.
-/

namespace RegexTrace.Flow

/-- A place in the flow of a tree. -/
inductive Place
  | start
  | finish
  /-- The place of the node at an address. -/
  | node (address : Address)
  /-- The junction of the repetition or choice at an address. -/
  | junction (address : Address)
  deriving DecidableEq, Repr

/-- A connection between two places. -/
structure Wire where
  source : Place
  target : Place
  kind : EdgeKind := .plain
  deriving DecidableEq, Repr

mutual

/-- The places of a tree that stands at an address, in the order in which they are laid out. -/
def places (address : Address) : Node → List Place
  | .alternative body => .node address :: placesAll address .element 0 body
  | .group _ body _ _ => .node address :: placesAll address .element 0 body
  | .quantifier _ _ _ body _ =>
    .node address :: (places (address ++ [.repeated]) body ++ [.junction address])
  | .disjunction branches =>
    .node address :: (placesAll address .branch 0 branches ++ [.junction address])
  | _ => [.node address]

/-- The places of children, numbered from `index` on. -/
def placesAll (address : Address) (move : Nat → Move) (index : Nat) : List Node → List Place
  | [] => []
  | node :: rest =>
    places (address ++ [move index]) node ++ placesAll address move (index + 1) rest

end

mutual

/-- The place from which the flow goes on after a node: the junction of a repetition or a choice,
that of the last element of a sequence or group, and otherwise the place of the node itself. -/
def exit (address : Address) : Node → Place
  | .alternative body => exitChain address 0 (.node address) body
  | .group _ body _ _ => exitChain address 0 (.node address) body
  | .quantifier _ _ _ _ _ => .junction address
  | .disjunction _ => .junction address
  | _ => .node address

/-- The place from which the flow goes on after elements that are entered from `source`. -/
def exitChain (address : Address) (index : Nat) (source : Place) : List Node → Place
  | [] => source
  | node :: rest =>
    exitChain address (index + 1) (exit (address ++ [.element index]) node) rest

end

/-- The places from which branches are left. -/
def exits (address : Address) (index : Nat) : List Node → List Place
  | [] => []
  | node :: rest => exit (address ++ [.branch index]) node :: exits address (index + 1) rest

mutual

/-- The wires of a tree that is entered from `source`, in the order in which they are laid. -/
def wires (address : Address) (source : Place) : Node → List Wire
  | .alternative body => ⟨source, .node address, .plain⟩ :: chain address 0 (.node address) body
  | .group _ body _ _ => ⟨source, .node address, .plain⟩ :: chain address 0 (.node address) body
  | .quantifier _ _ _ body _ =>
    let last := exit (address ++ [.repeated]) body
    ⟨source, .node address, .plain⟩ :: (wires (address ++ [.repeated]) (.node address) body ++
      [⟨last, .node address, .loop⟩, ⟨last, .junction address, .plain⟩])
  | .disjunction branches =>
    ⟨source, .node address, .plain⟩ :: (fan address 0 (.node address) branches ++
      (exits address 0 branches).map fun last => ⟨last, .junction address, .alternation⟩)
  | _ => [⟨source, .node address, .plain⟩]

/-- The wires of elements one after the other. -/
def chain (address : Address) (index : Nat) (source : Place) : List Node → List Wire
  | [] => []
  | node :: rest =>
    wires (address ++ [.element index]) source node ++
      chain address (index + 1) (exit (address ++ [.element index]) node) rest

/-- The wires of branches side by side. -/
def fan (address : Address) (index : Nat) (source : Place) : List Node → List Wire
  | [] => []
  | node :: rest =>
    wires (address ++ [.branch index]) source node ++ fan address (index + 1) source rest

end

/-- The junction of an occurrence, if its node has one. -/
def junctions (o : Occurrence) : List Place :=
  match o.node with
  | .quantifier _ _ _ _ _ | .disjunction _ => [.junction o.address]
  | _ => []

/-- The wire back to a repetition, from where its body is left. -/
def loops (o : Occurrence) : List Wire :=
  match o.node with
  | .quantifier _ _ _ body _ => [⟨exit (o.address ++ [.repeated]) body, .node o.address, .loop⟩]
  | _ => []

/-- The wires to the junction of a choice, one from where each of its branches is left. -/
def merges (o : Occurrence) : List Wire :=
  match o.node with
  | .disjunction branches =>
    (exits o.address 0 branches).map fun last => ⟨last, .junction o.address, .alternation⟩
  | _ => []

mutual

/-- Each occurrence has its place and, where it has one, its junction. -/
theorem places_perm (address : Address) (node : Node) :
    (places address node).Perm
      ((node.occurrences address).flatMap fun o => .node o.address :: junctions o) := by
  cases node with
  | alternative body | group _ body _ _ =>
      rw [places, Node.occurrences, List.flatMap_cons]
      exact (placesAll_perm address .element 0 body).cons _
  | quantifier min max greedy body shorthand =>
      rw [places, Node.occurrences, List.flatMap_cons]
      refine List.Perm.cons _ ((List.perm_append_comm).trans ?_)
      exact (places_perm _ body).cons _
  | disjunction branches =>
      rw [places, Node.occurrences, List.flatMap_cons]
      refine List.Perm.cons _ ((List.perm_append_comm).trans ?_)
      exact (placesAll_perm address .branch 0 branches).cons _
  | _ => exact .refl _
termination_by sizeOf node

theorem placesAll_perm (address : Address) (move : Nat → Move) (index : Nat) (nodes : List Node) :
    (placesAll address move index nodes).Perm
      ((Node.occurrencesAll address move index nodes).flatMap fun o =>
        .node o.address :: junctions o) := by
  cases nodes with
  | nil =>
      rw [placesAll, Node.occurrencesAll]
      exact .refl _
  | cons node rest =>
      rw [placesAll, Node.occurrencesAll, List.flatMap_append]
      exact (places_perm _ node).append (placesAll_perm address move (index + 1) rest)
termination_by sizeOf nodes

end

theorem mem_places_iff {address : Address} {node : Node} {place : Place} :
    place ∈ places address node ↔
      ∃ o ∈ node.occurrences address, place ∈ Place.node o.address :: junctions o := by
  rw [(places_perm address node).mem_iff, List.mem_flatMap]

theorem eq_of_mem_junctions {o : Occurrence} {place : Place} (h : place ∈ junctions o) :
    place = .junction o.address := by
  unfold junctions at h
  split at h
  · exact List.mem_singleton.mp h
  · exact List.mem_singleton.mp h
  · cases h

/-- No place is laid out twice. -/
theorem nodup_places (address : Address) (node : Node) : (places address node).Nodup := by
  rw [(places_perm address node).nodup_iff, List.nodup_flatMap]
  constructor
  · intro o _
    apply List.nodup_cons.mpr
    constructor
    · intro h
      cases eq_of_mem_junctions h
    · unfold junctions
      split <;> simp
  · refine (Node.pairwise_occurrences address node).imp fun {o o'} hne place h h' => ?_
    rcases List.mem_cons.mp h with rfl | h <;> rcases List.mem_cons.mp h' with heq | h'
    · exact hne (Place.node.inj heq)
    · cases eq_of_mem_junctions h'
    · subst heq
      cases eq_of_mem_junctions h
    · obtain rfl := eq_of_mem_junctions h
      exact hne (Place.junction.inj (eq_of_mem_junctions h'))

mutual

/-- The wires of a tree that are not plain are those of its repetitions and choices. -/
theorem wires_perm (address : Address) (source : Place) (node : Node) :
    ((wires address source node).filter (·.kind ≠ .plain)).Perm
      ((node.occurrences address).flatMap fun o => loops o ++ merges o) := by
  cases node with
  | alternative body | group _ body _ _ =>
      rw [wires, Node.occurrences, List.flatMap_cons]
      exact chain_perm address 0 _ body
  | quantifier min max greedy body shorthand =>
      rw [wires, Node.occurrences, List.flatMap_cons, List.filter_cons_of_neg (by simp),
        List.filter_append]
      exact List.perm_append_comm.trans ((wires_perm _ _ body).append_left _)
  | disjunction branches =>
      have hkept : ((exits address 0 branches).map fun last =>
            (⟨last, .junction address, .alternation⟩ : Wire)).filter (·.kind ≠ .plain) =
          (exits address 0 branches).map fun last => ⟨last, .junction address, .alternation⟩ := by
        apply List.filter_eq_self.mpr
        intro wire hwire
        obtain ⟨last, -, rfl⟩ := List.mem_map.mp hwire
        rfl
      rw [wires, Node.occurrences, List.flatMap_cons, List.filter_cons_of_neg (by simp),
        List.filter_append, hkept]
      exact List.perm_append_comm.trans ((fan_perm address 0 _ branches).append_left _)
  | _ => exact .refl _
termination_by sizeOf node

theorem chain_perm (address : Address) (index : Nat) (source : Place) (body : List Node) :
    ((chain address index source body).filter (·.kind ≠ .plain)).Perm
      ((Node.occurrencesAll address .element index body).flatMap fun o => loops o ++ merges o) := by
  cases body with
  | nil =>
      rw [chain, Node.occurrencesAll]
      exact .refl _
  | cons node rest =>
      rw [chain, Node.occurrencesAll, List.filter_append, List.flatMap_append]
      exact (wires_perm _ source node).append (chain_perm address (index + 1) _ rest)
termination_by sizeOf body

theorem fan_perm (address : Address) (index : Nat) (source : Place) (branches : List Node) :
    ((fan address index source branches).filter (·.kind ≠ .plain)).Perm
      ((Node.occurrencesAll address .branch index branches).flatMap fun o =>
        loops o ++ merges o) := by
  cases branches with
  | nil =>
      rw [fan, Node.occurrencesAll]
      exact .refl _
  | cons node rest =>
      rw [fan, Node.occurrencesAll, List.filter_append, List.flatMap_append]
      exact (wires_perm _ source node).append (fan_perm address (index + 1) source rest)
termination_by sizeOf branches

end

/-- The wires of a kind that is not plain are among those of repetitions and choices. -/
theorem wires_filter_perm (address : Address) (source : Place) (node : Node) (kind : EdgeKind)
    (hkind : kind ≠ .plain) :
    ((wires address source node).filter (·.kind = kind)).Perm
      ((node.occurrences address).flatMap fun o =>
        (loops o ++ merges o).filter (·.kind = kind)) := by
  have hperm := (wires_perm address source node).filter (·.kind = kind)
  rw [List.filter_filter, List.filter_flatMap] at hperm
  have hsame : (wires address source node).filter (·.kind = kind) =
      (wires address source node).filter fun wire => wire.kind = kind && wire.kind ≠ .plain := by
    apply List.filter_congr
    rintro ⟨_, _, other⟩ _
    by_cases h : other = kind
    · subst h
      simp [hkind]
    · simp [h]
  rw [hsame]
  exact hperm

theorem kind_of_mem_loops {o : Occurrence} {wire : Wire} (h : wire ∈ loops o) :
    wire.kind = .loop := by
  unfold loops at h
  split at h
  · rw [List.mem_singleton.mp h]
  · cases h

theorem kind_of_mem_merges {o : Occurrence} {wire : Wire} (h : wire ∈ merges o) :
    wire.kind = .alternation := by
  unfold merges at h
  split at h
  · obtain ⟨last, -, rfl⟩ := List.mem_map.mp h
    rfl
  · cases h

/-- There is one wire back for each repetition. -/
theorem loops_perm (address : Address) (source : Place) (node : Node) :
    ((wires address source node).filter (·.kind = .loop)).Perm
      ((node.occurrences address).flatMap loops) := by
  have hkept (o : Occurrence) : (loops o ++ merges o).filter (·.kind = .loop) = loops o := by
    have hloops : (loops o).filter (·.kind = .loop) = loops o :=
      List.filter_eq_self.mpr fun wire hwire => by simp [kind_of_mem_loops hwire]
    have hmerges : (merges o).filter (·.kind = .loop) = [] :=
      List.filter_eq_nil_iff.mpr fun wire hwire => by simp [kind_of_mem_merges hwire]
    rw [List.filter_append, hloops, hmerges, List.append_nil]
  have hperm := wires_filter_perm address source node .loop nofun
  simpa only [hkept] using hperm

/-- There is one wire to the junction of a choice for each of its branches. -/
theorem merges_perm (address : Address) (source : Place) (node : Node) :
    ((wires address source node).filter (·.kind = .alternation)).Perm
      ((node.occurrences address).flatMap merges) := by
  have hkept (o : Occurrence) :
      (loops o ++ merges o).filter (·.kind = .alternation) = merges o := by
    have hloops : (loops o).filter (·.kind = .alternation) = [] :=
      List.filter_eq_nil_iff.mpr fun wire hwire => by simp [kind_of_mem_loops hwire]
    have hmerges : (merges o).filter (·.kind = .alternation) = merges o :=
      List.filter_eq_self.mpr fun wire hwire => by simp [kind_of_mem_merges hwire]
    rw [List.filter_append, hloops, hmerges, List.nil_append]
  have hperm := wires_filter_perm address source node .alternation nofun
  simpa only [hkept] using hperm

mutual

/-- A tree is left from one of its places. -/
theorem exit_mem_places (address : Address) (node : Node) :
    exit address node ∈ places address node := by
  cases node with
  | alternative body | group _ body _ _ =>
      rw [exit, places]
      exact exitChain_mem address 0 (.node address) body
  | quantifier min max greedy body shorthand =>
      rw [exit, places]
      exact List.mem_cons_of_mem _ (List.mem_append_right _ List.mem_cons_self)
  | disjunction branches =>
      rw [exit, places]
      exact List.mem_cons_of_mem _ (List.mem_append_right _ List.mem_cons_self)
  | _ => exact List.mem_cons_self
termination_by sizeOf node

theorem exitChain_mem (address : Address) (index : Nat) (source : Place) (body : List Node) :
    exitChain address index source body ∈ source :: placesAll address .element index body := by
  cases body with
  | nil =>
      rw [exitChain]
      exact List.mem_cons_self
  | cons node rest =>
      rw [exitChain, placesAll]
      apply List.mem_cons_of_mem
      rcases List.mem_cons.mp (exitChain_mem address (index + 1) _ rest) with h | h
      · rw [h]
        exact List.mem_append_left _ (exit_mem_places _ node)
      · exact List.mem_append_right _ h
termination_by sizeOf body

end

/-- A wire leads from one place to another. -/
def Linked (ws : List Wire) (p q : Place) : Prop := ∃ wire ∈ ws, wire.source = p ∧ wire.target = q

theorem reach_mono {ws more : List Wire} (h : ws ⊆ more) {p q : Place}
    (hreach : Relation.ReflTransGen (Linked ws) p q) : Relation.ReflTransGen (Linked more) p q := by
  have hlinked : Linked ws ≤ Linked more := fun _ _ ⟨wire, hwire, hends⟩ => ⟨wire, h hwire, hends⟩
  exact Relation.ReflTransGen.mono hlinked p q hreach

theorem reach_left {ws more : List Wire} {p q : Place}
    (hreach : Relation.ReflTransGen (Linked ws) p q) :
    Relation.ReflTransGen (Linked (ws ++ more)) p q :=
  reach_mono (List.subset_append_left ws more) hreach

theorem reach_right {ws more : List Wire} {p q : Place}
    (hreach : Relation.ReflTransGen (Linked more) p q) :
    Relation.ReflTransGen (Linked (ws ++ more)) p q :=
  reach_mono (List.subset_append_right ws more) hreach

/-- Wires lead from a source over some places to a last one: each of the places is passed on the way
from the source to the last one, and no wire has its ends elsewhere. -/
structure Passes (ws : List Wire) (source : Place) (ps : List Place) (last : Place) : Prop where
  through : Relation.ReflTransGen (Linked ws) source last
  arrives : ∀ p ∈ ps, Relation.ReflTransGen (Linked ws) source p
  leaves : ∀ p ∈ ps, Relation.ReflTransGen (Linked ws) p last
  ends : ∀ wire ∈ ws, wire.source ∈ source :: ps ∧ wire.target ∈ ps
  last_mem : last ∈ source :: ps

/-- Wires fan out from a source over some places to several last ones: from each of the places one
of these is reached, and no wire has its ends elsewhere. -/
structure Fans (ws : List Wire) (source : Place) (ps lasts : List Place) : Prop where
  arrives : ∀ p ∈ ps, Relation.ReflTransGen (Linked ws) source p
  leaves : ∀ p ∈ ps, ∃ last ∈ lasts, Relation.ReflTransGen (Linked ws) p last
  ends : ∀ wire ∈ ws, wire.source ∈ source :: ps ∧ wire.target ∈ ps
  lasts_subset : lasts ⊆ ps

namespace Passes

variable {ws more : List Wire} {source middle last : Place} {ps later : List Place}

theorem nil (source : Place) : Passes [] source [] source where
  through := .refl
  arrives := nofun
  leaves := nofun
  ends := nofun
  last_mem := List.mem_cons_self

/-- One wire leads to one place. -/
theorem single (source place : Place) (kind : EdgeKind) :
    Passes [⟨source, place, kind⟩] source [place] place := by
  have hlinked : Linked [⟨source, place, kind⟩] source place :=
    ⟨_, List.mem_cons_self, rfl, rfl⟩
  constructor
  · exact .single hlinked
  · intro p hp
    obtain rfl := List.mem_singleton.mp hp
    exact .single hlinked
  · intro p hp
    obtain rfl := List.mem_singleton.mp hp
    exact .refl
  · intro wire hwire
    obtain rfl := List.mem_singleton.mp hwire
    exact ⟨List.mem_cons_self, List.mem_cons_self⟩
  · exact List.mem_cons_of_mem _ List.mem_cons_self

/-- One part after another passes the places of both. -/
theorem append (h : Passes ws source ps middle) (hmore : Passes more middle later last) :
    Passes (ws ++ more) source (ps ++ later) last := by
  have hsources {p : Place} (hp : p ∈ middle :: later) : p ∈ source :: (ps ++ later) := by
    rcases List.mem_cons.mp hp with rfl | hp
    · exact List.cons_subset_cons _ (List.subset_append_left ps later) h.last_mem
    · exact List.mem_cons_of_mem _ (List.mem_append_right _ hp)
  constructor
  · exact (reach_left h.through).trans (reach_right hmore.through)
  · intro p hp
    rcases List.mem_append.mp hp with hp | hp
    · exact reach_left (h.arrives p hp)
    · exact (reach_left h.through).trans (reach_right (hmore.arrives p hp))
  · intro p hp
    rcases List.mem_append.mp hp with hp | hp
    · exact (reach_left (h.leaves p hp)).trans (reach_right hmore.through)
    · exact reach_right (hmore.leaves p hp)
  · intro wire hwire
    rcases List.mem_append.mp hwire with hwire | hwire
    · obtain ⟨hsource, htarget⟩ := h.ends wire hwire
      exact ⟨List.cons_subset_cons _ (List.subset_append_left ps later) hsource,
        List.mem_append_left _ htarget⟩
    · obtain ⟨hsource, htarget⟩ := hmore.ends wire hwire
      exact ⟨hsources hsource, List.mem_append_right _ htarget⟩
  · exact hsources hmore.last_mem

/-- A wire back to a place that is passed changes nothing. -/
theorem back (h : Passes ws source ps last) {place : Place} (hplace : place ∈ ps)
    (kind : EdgeKind) : Passes (ws ++ [⟨last, place, kind⟩]) source ps last := by
  constructor
  · exact reach_left h.through
  · exact fun p hp => reach_left (h.arrives p hp)
  · exact fun p hp => reach_left (h.leaves p hp)
  · intro wire hwire
    rcases List.mem_append.mp hwire with hwire | hwire
    · exact h.ends wire hwire
    · obtain rfl := List.mem_singleton.mp hwire
      exact ⟨h.last_mem, hplace⟩
  · exact h.last_mem

end Passes

namespace Fans

variable {ws more : List Wire} {source last : Place} {ps later lasts : List Place}

theorem nil (source : Place) : Fans [] source [] [] := ⟨nofun, nofun, nofun, nofun⟩

/-- A branch and later ones fan out side by side. -/
theorem cons (h : Passes ws source ps last) (hlast : last ∈ ps)
    (hmore : Fans more source later lasts) :
    Fans (ws ++ more) source (ps ++ later) (last :: lasts) := by
  constructor
  · intro p hp
    rcases List.mem_append.mp hp with hp | hp
    · exact reach_left (h.arrives p hp)
    · exact reach_right (hmore.arrives p hp)
  · intro p hp
    rcases List.mem_append.mp hp with hp | hp
    · exact ⟨last, List.mem_cons_self, reach_left (h.leaves p hp)⟩
    · obtain ⟨other, hother, hreach⟩ := hmore.leaves p hp
      exact ⟨other, List.mem_cons_of_mem _ hother, reach_right hreach⟩
  · intro wire hwire
    rcases List.mem_append.mp hwire with hwire | hwire
    · obtain ⟨hsource, htarget⟩ := h.ends wire hwire
      exact ⟨List.cons_subset_cons _ (List.subset_append_left ps later) hsource,
        List.mem_append_left _ htarget⟩
    · obtain ⟨hsource, htarget⟩ := hmore.ends wire hwire
      exact ⟨List.cons_subset_cons _ (List.subset_append_right ps later) hsource,
        List.mem_append_right _ htarget⟩
  · exact List.cons_subset.mpr ⟨List.mem_append_left _ hlast,
      List.Subset.trans hmore.lasts_subset (List.subset_append_right ps later)⟩

/-- Branches that meet in a place pass on to it. -/
theorem merge (h : Fans ws source ps lasts) (hsome : lasts ≠ []) (place : Place)
    (kind : EdgeKind) :
    Passes (ws ++ lasts.map fun last => ⟨last, place, kind⟩) source (ps ++ [place]) place := by
  have hmeet {last : Place} (hlast : last ∈ lasts) :
      Linked (ws ++ lasts.map fun last => ⟨last, place, kind⟩) last place :=
    ⟨_, List.mem_append_right _ (List.mem_map_of_mem hlast), rfl, rfl⟩
  have hthrough : Relation.ReflTransGen
      (Linked (ws ++ lasts.map fun last => ⟨last, place, kind⟩)) source place := by
    obtain ⟨last, hlast⟩ := List.exists_mem_of_ne_nil lasts hsome
    exact (reach_left (h.arrives last (h.lasts_subset hlast))).tail (hmeet hlast)
  constructor
  · exact hthrough
  · intro p hp
    rcases List.mem_append.mp hp with hp | hp
    · exact reach_left (h.arrives p hp)
    · obtain rfl := List.mem_singleton.mp hp
      exact hthrough
  · intro p hp
    rcases List.mem_append.mp hp with hp | hp
    · obtain ⟨last, hlast, hreach⟩ := h.leaves p hp
      exact (reach_left hreach).tail (hmeet hlast)
    · obtain rfl := List.mem_singleton.mp hp
      exact .refl
  · intro wire hwire
    rcases List.mem_append.mp hwire with hwire | hwire
    · obtain ⟨hsource, htarget⟩ := h.ends wire hwire
      exact ⟨List.cons_subset_cons _ (List.subset_append_left ps [place]) hsource,
        List.mem_append_left _ htarget⟩
    · obtain ⟨last, hlast, rfl⟩ := List.mem_map.mp hwire
      exact ⟨List.mem_cons_of_mem _ (List.mem_append_left _ (h.lasts_subset hlast)),
        List.mem_append_right _ List.mem_cons_self⟩
  · exact List.mem_cons_of_mem _ (List.mem_append_right _ List.mem_cons_self)

end Fans

theorem exits_ne_nil (address : Address) (index : Nat) {branches : List Node}
    (h : branches ≠ []) : exits address index branches ≠ [] := by
  cases branches with
  | nil => exact absurd rfl h
  | cons node rest => exact List.cons_ne_nil _ _

mutual

/-- The wires of a part of a pattern lead over each of its places to where it is left. -/
theorem wires_pass (address : Address) (node : Node) (hpart : node.IsPart) (source : Place) :
    Passes (wires address source node) source (places address node) (exit address node) := by
  cases node with
  | alternative body | group _ body _ _ =>
      rw [wires, places, exit]
      apply (Passes.single source _ _).append
      exact chain_pass address 0 body
        (fun i child hi => @Node.IsPart.child? _ _ hpart (.element i) hi) _
  | quantifier min max greedy body shorthand =>
      have hbody := wires_pass (address ++ [.repeated]) body
        (@Node.IsPart.child? _ _ hpart .repeated rfl) (.node address)
      have hback := ((Passes.single source _ .plain).append hbody).back List.mem_cons_self .loop
      have hjunction := hback.append (Passes.single _ (.junction address) .plain)
      rw [wires, places, exit]
      simpa only [List.append_assoc, List.cons_append, List.nil_append] using hjunction
  | disjunction branches =>
      rw [wires, places, exit]
      apply (Passes.single source _ _).append
      apply (fan_fans address 0 branches
        (fun i child hi => @Node.IsPart.child? _ _ hpart (.branch i) hi) _).merge
      exact exits_ne_nil address 0 hpart.branches_ne_nil
  | _ => exact .single _ _ _
termination_by sizeOf node

theorem chain_pass (address : Address) (index : Nat) (body : List Node)
    (hparts : ∀ (i : Nat) (child : Node), body[i]? = some child → child.IsPart)
    (source : Place) :
    Passes (chain address index source body) source (placesAll address .element index body)
      (exitChain address index source body) := by
  cases body with
  | nil =>
      rw [chain, placesAll, exitChain]
      exact .nil source
  | cons node rest =>
      rw [chain, placesAll, exitChain]
      apply (wires_pass _ node (hparts 0 node rfl) source).append
      exact chain_pass address (index + 1) rest (fun i => hparts (i + 1)) _
termination_by sizeOf body

theorem fan_fans (address : Address) (index : Nat) (branches : List Node)
    (hparts : ∀ (i : Nat) (child : Node), branches[i]? = some child → child.IsPart)
    (source : Place) :
    Fans (fan address index source branches) source (placesAll address .branch index branches)
      (exits address index branches) := by
  cases branches with
  | nil =>
      rw [fan, placesAll]
      exact .nil source
  | cons node rest =>
      rw [fan, placesAll]
      apply Fans.cons (wires_pass _ node (hparts 0 node rfl) source) (exit_mem_places _ node)
      exact fan_fans address (index + 1) rest (fun i => hparts (i + 1)) source
termination_by sizeOf branches

end

end RegexTrace.Flow
