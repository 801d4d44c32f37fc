import RegexTrace.Proofs.Adequacy

/-!
# Traces tile their span

As long as lookarounds are matched like any other group, a trace is a path through the subject.
Every step is recorded at the position that has been reached, the entry of a leaf leads over the
code point there, and every other step holds the position. So positions never decrease along a
trace, and the entries of leaves lie next to each other from the start of the span to its end.

## Implementation notes

The start mark and the end mark hold the position too, so a whole trace is a path and not only the
steps between its marks.
-/

namespace RegexTrace

/-- A node that matches one code point. -/
def Node.isLeaf : Node → Bool
  | .value _ | .dot | .escape _ | .charClass _ _ => true
  | _ => false

/-- A step that records the entry of a leaf. -/
def Step.entersLeaf (step : Step Nat Occurrence) : Bool :=
  match step.mark with
  | .visit o => o.node.isLeaf
  | _ => false

namespace Search

variable {ctx : Context}

/-- Entries of leaves next to each other: each one accepts the code point that starts where the one
before it ended. -/
def Tiles (ctx : Context) : Nat → Steps → Nat → Prop
  | here, [], stop => here = stop
  | here, step :: rest, stop => ∃ o next, step = ⟨here, .visit o⟩ ∧ o.node.isLeaf = true ∧
      LeafRelates ctx o.node here next ∧ Tiles ctx next rest stop

/-- Steps along a path: the entry of a leaf leads over a code point, any other step holds the
position. -/
inductive Path (ctx : Context) : Nat → Steps → Nat → Prop
  | done (here : Nat) : Path ctx here [] here
  | held {here stop : Nat} {step : Step Nat Occurrence} {rest : Steps}
      (hposition : step.position = here) (hstep : step.entersLeaf = false)
      (onward : Path ctx here rest stop) : Path ctx here (step :: rest) stop
  | moved {here next stop : Nat} {o : Occurrence} {rest : Steps} (hleaf : o.node.isLeaf = true)
      (hover : LeafRelates ctx o.node here next) (onward : Path ctx next rest stop) :
      Path ctx here (⟨here, .visit o⟩ :: rest) stop

theorem LeafRelates.le {node : Node} {start stop : Nat} (h : LeafRelates ctx node start stop) :
    start ≤ stop := by
  obtain ⟨c, -, -, rfl⟩ := h
  exact Nat.le_add_right start _

namespace Path

variable {start mid stop : Nat} {steps later : Steps}

theorem append (h : Path ctx start steps mid) (hlater : Path ctx mid later stop) :
    Path ctx start (steps ++ later) stop := by
  induction h with
  | done here => exact hlater
  | held hposition hstep _ ih => exact .held hposition hstep (ih hlater)
  | moved hleaf hover _ ih => exact .moved hleaf hover (ih hlater)

theorem le (h : Path ctx start steps stop) : start ≤ stop := by
  induction h with
  | done here => exact Nat.le_refl here
  | held _ _ _ ih => exact ih
  | moved _ hover _ ih => exact Nat.le_trans hover.le ih

theorem le_size (closed : Utf16.Closed ctx.units) (h : Path ctx start steps stop)
    (hstart : start ≤ ctx.units.size) : stop ≤ ctx.units.size := by
  induction h with
  | done here => exact hstart
  | held _ _ _ ih => exact ih hstart
  | moved _ hover _ ih =>
      obtain ⟨c, hc, -, rfl⟩ := hover
      exact ih (Utf16.width_le_of_codePointAt? closed hc)

/-- No step of a path lies before its start. -/
theorem le_position {step : Step Nat Occurrence} (h : Path ctx start steps stop)
    (hstep : step ∈ steps) : start ≤ step.position := by
  induction h with
  | done here => exact absurd hstep List.not_mem_nil
  | held hposition _ _ ih =>
      rcases List.mem_cons.mp hstep with rfl | hstep
      · exact Nat.le_of_eq hposition.symm
      · exact ih hstep
  | moved _ hover _ ih =>
      rcases List.mem_cons.mp hstep with rfl | hstep
      · exact Nat.le_refl _
      · exact Nat.le_trans hover.le (ih hstep)

/-- The positions never decrease along a path. -/
theorem sorted (h : Path ctx start steps stop) :
    steps.Pairwise fun step later => step.position ≤ later.position := by
  induction h with
  | done here => exact .nil
  | held hposition _ onward ih =>
      refine .cons (fun step hstep => ?_) ih
      rw [hposition]
      exact onward.le_position hstep
  | moved _ hover onward ih =>
      refine .cons (fun step hstep => ?_) ih
      exact Nat.le_trans hover.le (onward.le_position hstep)

/-- The entries of leaves along a path lie next to each other from its start to its end. -/
theorem tiles (h : Path ctx start steps stop) :
    Tiles ctx start (steps.filter Step.entersLeaf) stop := by
  induction h with
  | done here => exact rfl
  | held _ hstep _ ih =>
      rw [List.filter_cons_of_neg (Bool.eq_false_iff.mp hstep)]
      exact ih
  | @moved here next stop o rest hleaf hover _ ih =>
      have hstep : Step.entersLeaf ⟨here, .visit o⟩ = true := hleaf
      rw [List.filter_cons_of_pos hstep]
      exact ⟨o, next, rfl, hleaf, hover, ih⟩

end Path

/-- A way follows a path from a position. -/
def Way.Follows (ctx : Context) (here : Nat) (way : Way) : Prop := Path ctx here way.steps way.stop

theorem follows_composes : Ways.Composes (Way.Follows ctx) where
  here := fun pos => Path.done pos
  onward := fun h hlater => Path.append h hlater

theorem follows_after {ws : Ways} {here : Nat} (h : ws.All (Way.Follows ctx here))
    (address : Address) {node : Node} (hnode : node.isLeaf = false) :
    (ws.after [entry address node here]).All (Way.Follows ctx here) :=
  Ways.All.after fun way hway => Path.held rfl hnode (h way hway)

/-- A leaf records nothing but its entry and leads over the code point at hand. -/
theorem mem_leafWays {node : Node} {pos : Nat} {way : Way}
    (h : way ∈ (leafWays ctx node pos).toList) :
    way.steps = [] ∧ LeafRelates ctx node pos way.stop := by
  unfold leafWays at h
  cases hc : Utf16.codePointAt? ctx.units pos with
  | none =>
      rw [hc] at h
      exact absurd h List.not_mem_nil
  | some c =>
      simp only [hc] at h
      cases haccepts : Leaf.accepts ctx.options.rules node c with
      | error cause =>
          rw [haccepts] at h
          exact absurd h List.not_mem_nil
      | ok accepted =>
          rw [haccepts] at h
          cases accepted with
          | false => exact absurd h List.not_mem_nil
          | true =>
              obtain rfl := List.mem_singleton.mp h
              exact ⟨rfl, c, hc, haccepts, rfl⟩

theorem leaf_follows (address : Address) {node : Node} (hnode : node.isLeaf = true) (pos : Nat) :
    ((leafWays ctx node pos).after [entry address node pos]).All (Way.Follows ctx pos) := by
  apply Ways.All.after
  intro way hway
  obtain ⟨hsteps, hover⟩ := mem_leafWays hway
  rw [hsteps]
  exact .moved hnode hover (.done _)

mutual

/-- The ways of a node follow paths. -/
theorem ways_follow (hmode : ctx.options.lookaround = .consume) (address : Address) :
    ∀ (node : Node) (pos : Nat), (ways ctx address node pos).All (Way.Follows ctx pos)
  | .anchor kind, pos => by
      rw [ways]
      exact follows_after (.singleIf _ (.done pos)) address rfl
  | .value c, pos => by
      rw [ways]
      exact leaf_follows address rfl pos
  | .dot, pos => by
      rw [ways]
      exact leaf_follows address rfl pos
  | .escape kind, pos => by
      rw [ways]
      exact leaf_follows address rfl pos
  | .charClass negative items, pos => by
      rw [ways]
      exact leaf_follows address rfl pos
  | .unsupported kind raw, pos => by
      rw [ways]
      exact .none
  | .alternative body, pos => by
      rw [ways]
      exact follows_after (sequenceWays_follow hmode address 0 body pos) address rfl
  | .disjunction branches, pos => by
      rw [ways]
      exact follows_after (choiceWays_follow hmode address 0 branches pos) address rfl
  | .group behaviour body name number, pos => by
      rw [ways]
      have hgroup : groupWays ctx.options.lookaround behaviour (sequenceWays ctx address 0 body) =
          sequenceWays ctx address 0 body := by
        funext start
        rw [hmode]
        cases behaviour <;> rfl
      rw [hgroup]
      exact follows_after (sequenceWays_follow hmode address 0 body pos) address rfl
  | .quantifier min max greedy body shorthand, pos => by
      rw [ways]
      split
      · exact .none
      · have hbody := ways_follow hmode (address ++ [.repeated]) body
        exact follows_after (follows_composes.rounds hbody 0 pos) address rfl
  | .range min max, pos => by
      rw [ways]
      exact .fault _
  | .alien, pos => by
      rw [ways]
      exact .fault _
  | .absent, pos => by
      rw [ways]
      exact .fault _

theorem sequenceWays_follow (hmode : ctx.options.lookaround = .consume) (address : Address)
    (index : Nat) : ∀ (body : List Node) (pos : Nat),
      (sequenceWays ctx address index body pos).All (Way.Follows ctx pos)
  | [], pos => by
      rw [sequenceWays]
      exact .singleIf true (.done pos)
  | node :: rest, pos => by
      rw [sequenceWays]
      have hrest := sequenceWays_follow hmode address (index + 1) rest
      exact follows_composes.andThen (ways_follow hmode _ node pos) hrest

theorem choiceWays_follow (hmode : ctx.options.lookaround = .consume) (address : Address)
    (index : Nat) : ∀ (branches : List Node) (pos : Nat),
      (choiceWays ctx address index branches pos).All (Way.Follows ctx pos)
  | [], pos => by
      rw [choiceWays]
      exact .none
  | node :: rest, pos => by
      rw [choiceWays]
      have hrest := choiceWays_follow hmode address (index + 1) rest pos
      exact (ways_follow hmode _ node pos).append hrest

end

/-- The ways of a whole pattern follow paths. -/
theorem rootWays_follow (hmode : ctx.options.lookaround = .consume) (root : Node) (start : Nat) :
    (rootWays ctx root start).All (Way.Follows ctx start) := by
  cases root with
  | alternative body => exact sequenceWays_follow hmode [] 0 body start
  | disjunction branches => exact choiceWays_follow hmode [] 0 branches start
  | _ => exact ways_follow hmode [] _ start

/-- The trace of a way is a path from its start to its end, the marks included. -/
theorem Way.trace_path {start : Nat} {way : Way} (h : Path ctx start way.steps way.stop) :
    Path ctx start (way.trace start).toList way.stop := by
  have hmark : Path ctx way.stop [⟨way.stop, .finish⟩] way.stop := .held rfl rfl (.done _)
  exact .held rfl rfl (h.append hmark)

/-- As long as lookarounds are matched like any other group, a trace that is not empty has a span
inside the subject. Its positions never decrease, and its entries of leaves tile the span: each of
them accepts the code point at its position, the first one lies at the start of the span, each later
one where the one before it ended, and the last one ends at the end of the span. -/
theorem trace_tiles {options : Options} (hmode : options.lookaround = .consume) {root : Node}
    {text : Text} {found : Trace Nat Occurrence} (h : trace options root text = .ok found)
    (hfound : found.isEmpty = false) :
    ∃ start stop, found.span? = some (start, stop) ∧
      start ≤ stop ∧ stop ≤ (Utf16.encode text).size ∧
      (found.toList.Pairwise fun step later => step.position ≤ later.position) ∧
      Tiles ⟨Utf16.encode text, options⟩ start (found.toList.filter Step.entersLeaf) stop := by
  obtain ⟨start, hstart, way, rest, hway, rfl, -⟩ := exists_way_of_trace h hfound
  have hmem : way ∈ (rootWays ⟨Utf16.encode text, options⟩ root start).toList := by
    rw [hway]
    exact List.mem_cons_self
  have hpath : Path ⟨Utf16.encode text, options⟩ start way.steps way.stop :=
    rootWays_follow hmode root start way hmem
  have hwhole := Way.trace_path hpath
  have hwithin := hpath.le_size (Utf16.closed_encode text) hstart
  exact ⟨start, way.stop, Way.span?_trace start way, hpath.le, hwithin, hwhole.sorted, hwhole.tiles⟩

/-- A repeated choice of a letter and the dot, over a letter and a code point of two units. -/
theorem trace_tiles_choice :
    let text : Text := ['a'.toNat, 0x1F600]
    let root : Node := .alternative [.quantifier 0 none true
      (.disjunction [.alternative [.value 'a'.toNat], .alternative [.dot]]) (some .star)]
    ∃ found, trace {} root text = .ok found ∧ found.isEmpty = false ∧
      ∃ start stop, found.span? = some (start, stop) ∧
        start ≤ stop ∧ stop ≤ (Utf16.encode text).size ∧
        (found.toList.Pairwise fun step later => step.position ≤ later.position) ∧
        Tiles ⟨Utf16.encode text, {}⟩ start (found.toList.filter Step.entersLeaf) stop := by
  intro text root
  have hsome : (trace {} root text).toOption.map Trace.isEmpty = some false := by decide +kernel
  cases htrace : trace {} root text with
  | error failure =>
      rw [htrace] at hsome
      cases hsome
  | ok found =>
      rw [htrace] at hsome
      have hfound : found.isEmpty = false := Option.some.inj hsome
      exact ⟨found, rfl, hfound, trace_tiles rfl htrace hfound⟩

end Search

end RegexTrace
