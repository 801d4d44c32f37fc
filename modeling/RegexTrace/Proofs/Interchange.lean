import Mathlib.Data.List.Forall2
import RegexTrace.Proofs.Adequacy

/-!
# Subtrees with the same ends can be interchanged

Two nodes are alike when at every position they have ways to the same ends, in the same order, and
the same fault after them, whatever steps their ways record. A node is alike to itself wherever it
stands, all combinations of alike nodes are alike, and so a search has the same answer after a
subtree is replaced by one that is alike.

## Implementation notes

The steps of the ways are forgotten. What is done with ways looks only at where they end, so it can
be done before forgetting or after it, and there is one equation for each combination.
-/

namespace RegexTrace

namespace Node

/-- The tree with another node at an address; an address that leads nowhere changes nothing. -/
def replaceAt (node : Node) (address : Address) (new : Node) : Node :=
  match address, node with
  | [], _ => new
  | .element i :: rest, .alternative body =>
    .alternative (body.modify i fun child => child.replaceAt rest new)
  | .element i :: rest, .group behaviour body name number =>
    .group behaviour (body.modify i fun child => child.replaceAt rest new) name number
  | .repeated :: rest, .quantifier min max greedy body shorthand =>
    .quantifier min max greedy (body.replaceAt rest new) shorthand
  | .branch i :: rest, .disjunction branches =>
    .disjunction (branches.modify i fun child => child.replaceAt rest new)
  | _, node => node

/-- A tree is missing as before after one of its nodes is replaced by one that is there. -/
theorem isAbsent_replaceAt {node old new : Node} {address : Address}
    (hat : node.at? address = some old) (h : old.isAbsent = new.isAbsent) :
    (node.replaceAt address new).isAbsent = node.isAbsent := by
  cases address with
  | nil =>
      obtain rfl := Option.some.inj hat
      rw [replaceAt]
      exact h.symm
  | cons move rest =>
      obtain ⟨child, hchild, -⟩ := Option.bind_eq_some_iff.mp hat
      unfold replaceAt
      split <;> first | rfl | contradiction

end Node

namespace Search

/-- A way without its steps. -/
def Way.bare (way : Way) : Way := ⟨way.stop, []⟩

namespace Ways

/-- The same ways without their steps. -/
def bare : Ways → Ways
  | none => none
  | fault cause => fault cause
  | more way rest => more way.bare rest.bare

/-- The failure that ways end with. -/
def failure? : Ways → Option Failure
  | none => .none
  | fault cause => some (.fault cause)
  | more _ rest => rest.failure?

variable {ws later : Ways}

theorem stops_bare (ws : Ways) : ws.bare.stops = ws.stops := by
  induction ws with
  | none => rfl
  | fault cause => rfl
  | more way rest ih => rw [bare, stops, stops, ih, Way.bare]

theorem failure?_bare (ws : Ways) : ws.bare.failure? = ws.failure? := by
  induction ws with
  | none => rfl
  | fault cause => rfl
  | more way rest ih => rw [bare, failure?, failure?, ih]

@[simp] theorem bare_singleIf (condition : Bool) (stop : Nat) :
    (singleIf condition stop).bare = singleIf condition stop := by
  cases condition <;> rfl

theorem bare_append (ws later : Ways) : (ws.append later).bare = ws.bare.append later.bare := by
  induction ws with
  | none => rfl
  | fault cause => rfl
  | more way rest ih => rw [append, bare, bare, append, ih]

theorem bare_ordered (ws later : Ways) (firstFirst : Bool) :
    (ws.ordered firstFirst later).bare = ws.bare.ordered firstFirst later.bare := by
  cases firstFirst with
  | true => exact bare_append ws later
  | false => exact bare_append later ws

@[simp] theorem bare_after (ws : Ways) (steps : List (Step Nat Occurrence)) :
    (ws.after steps).bare = ws.bare := by
  induction ws with
  | none => rfl
  | fault cause => rfl
  | more way rest ih => rw [after, bare, bare, ih, Way.bare, Way.bare]

@[simp] theorem after_nil (ws : Ways) : ws.after [] = ws := by
  induction ws with
  | none => rfl
  | fault cause => rfl
  | more way rest ih => rw [after, ih, List.nil_append]

theorem bare_andThen (ws : Ways) (next : Nat → Ways) :
    (ws.andThen next).bare = ws.bare.andThen fun stop => (next stop).bare := by
  induction ws with
  | none => rfl
  | fault cause => rfl
  | more way rest ih =>
      rw [andThen, bare_append, bare_after, ih, bare, andThen, Way.bare, after_nil]

theorem bare_andThen_single (ws : Ways) : ws.bare.andThen single = ws.bare := by
  induction ws with
  | none => rfl
  | fault cause => rfl
  | more way rest ih =>
      rw [bare, andThen, ih, Way.bare]
      rfl

theorem first?_bare (ws : Ways) (accept : Nat → Bool) :
    ws.bare.first? accept = (ws.first? accept).map (Option.map Way.bare) := by
  induction ws with
  | none => rfl
  | fault cause => rfl
  | more way rest ih =>
      rw [bare, first?, first?, ih, Way.bare]
      split <;> rfl

end Ways

section Bare

variable (body : Nat → Ways)

theorem firstBehind?_bare (pos : Nat) (starts : List Nat) :
    firstBehind? (fun start => (body start).bare) pos starts =
      (firstBehind? body pos starts).map (Option.map Way.bare) := by
  induction starts with
  | nil => rfl
  | cons start rest ih =>
      rw [firstBehind?, firstBehind?, Ways.first?_bare]
      rcases (body start).first? (· == pos) with cause | _ | way
      · rfl
      · exact ih
      · rfl

theorem bare_assertion (behind negative : Bool) (pos : Nat) :
    (assertion behind negative body pos).bare =
      assertion behind negative (fun start => (body start).bare) pos := by
  unfold assertion
  simp only
  have hfound : (if behind then
        firstBehind? (fun start => (body start).bare) pos (List.range (pos + 1))
      else (body pos).bare.first? fun _ => true) =
      (if behind then firstBehind? body pos (List.range (pos + 1))
        else (body pos).first? fun _ => true).map (Option.map Way.bare) := by
    cases behind with
    | true => exact firstBehind?_bare body pos _
    | false => exact Ways.first?_bare _ _
  rw [hfound]
  generalize (if behind then firstBehind? body pos (List.range (pos + 1))
    else (body pos).first? fun _ => true) = found
  rcases found with cause | _ | way
  · rfl
  · exact Ways.bare_singleIf negative pos
  · cases negative <;> rfl

theorem bare_groupWays (mode : LookaroundMode) (behaviour : Behaviour) (pos : Nat) :
    (groupWays mode behaviour body pos).bare =
      groupWays mode behaviour (fun start => (body start).bare) pos := by
  unfold groupWays
  split
  · exact bare_assertion body _ _ pos
  · rfl

theorem bare_rounds (few : Bool) (bounds : Bounds) (size count here : Nat) :
    (rounds few bounds size body count here).bare =
      rounds few bounds size (fun start => (body start).bare) count here := by
  induction count, here using rounds.induct bounds size with
  | case1 count here ih =>
      rw [rounds, rounds, Ways.bare_ordered, Ways.bare_singleIf]
      split
      · rfl
      · rw [Ways.bare_andThen]
        refine congrArg (Ways.ordered _ few) (Ways.andThen_congr fun way _ => ?_)
        split
        · next hon => exact ih way.stop hon
        · rfl

end Bare

/-- Two nodes have ways to the same ends, in the same order, with the same fault after them. -/
def Alike (ctx : Context) (node node' : Node) : Prop :=
  ∀ address address' pos, (ways ctx address node pos).bare = (ways ctx address' node' pos).bare

namespace Alike

variable {ctx : Context}

/-- Sequences of alike elements have the same ends. -/
theorem sequenceWays {body body' : List Node} (h : List.Forall₂ (Alike ctx) body body')
    (address address' : Address) (index index' pos : Nat) :
    (sequenceWays ctx address index body pos).bare =
      (sequenceWays ctx address' index' body' pos).bare := by
  induction h generalizing index index' pos with
  | nil => rw [Search.sequenceWays, Search.sequenceWays]
  | cons hnode _ ih =>
      rw [Search.sequenceWays, Search.sequenceWays, Ways.bare_andThen, Ways.bare_andThen,
        hnode _ (address' ++ [.element index'])]
      exact Ways.andThen_congr fun way _ => ih (index + 1) (index' + 1) way.stop

/-- Choices between alike branches have the same ends. -/
theorem choiceWays {branches branches' : List Node}
    (h : List.Forall₂ (Alike ctx) branches branches') (address address' : Address)
    (index index' pos : Nat) :
    (choiceWays ctx address index branches pos).bare =
      (choiceWays ctx address' index' branches' pos).bare := by
  induction h generalizing index index' with
  | nil => rw [Search.choiceWays, Search.choiceWays]
  | cons hnode _ ih =>
      rw [Search.choiceWays, Search.choiceWays, Ways.bare_append, Ways.bare_append,
        hnode _ (address' ++ [.branch index']), ih (index + 1) (index' + 1)]

theorem alternative {body body' : List Node} (h : List.Forall₂ (Alike ctx) body body') :
    Alike ctx (.alternative body) (.alternative body') := by
  intro address address' pos
  rw [ways, ways, Ways.bare_after, Ways.bare_after]
  exact sequenceWays h address address' 0 0 pos

theorem disjunction {branches branches' : List Node}
    (h : List.Forall₂ (Alike ctx) branches branches') :
    Alike ctx (.disjunction branches) (.disjunction branches') := by
  intro address address' pos
  rw [ways, ways, Ways.bare_after, Ways.bare_after]
  exact choiceWays h address address' 0 0 pos

theorem group (behaviour : Behaviour) {body body' : List Node}
    (h : List.Forall₂ (Alike ctx) body body') (name : Option Text) (number : Option Int) :
    Alike ctx (.group behaviour body name number) (.group behaviour body' name number) := by
  intro address address' pos
  rw [ways, ways, Ways.bare_after, Ways.bare_after, bare_groupWays, bare_groupWays]
  have hbody : (fun start => (Search.sequenceWays ctx address 0 body start).bare) =
      fun start => (Search.sequenceWays ctx address' 0 body' start).bare :=
    funext fun start => sequenceWays h address address' 0 0 start
  rw [hbody]

theorem quantifier (min : Int) (max : Option Int) (greedy : Bool) {body body' : Node}
    (h : Alike ctx body body') (shorthand : Option Shorthand) :
    Alike ctx (.quantifier min max greedy body shorthand)
      (.quantifier min max greedy body' shorthand) := by
  intro address address' pos
  rw [ways, ways]
  cases Bounds.ofInts? min max with
  | none => rfl
  | some bounds =>
      simp only [Ways.bare_after, bare_rounds]
      have hbody : (fun start => (ways ctx (address ++ [.repeated]) body start).bare) =
          fun start => (ways ctx (address' ++ [.repeated]) body' start).bare :=
        funext fun start => h _ _ start
      rw [hbody]

/-- A node is alike to itself, wherever it stands. -/
theorem refl (ctx : Context) (node : Node) : Alike ctx node node := by
  have same (nodes : List Node) (h : ∀ node ∈ nodes, Alike ctx node node) :
      List.Forall₂ (Alike ctx) nodes nodes := List.forall₂_same.mpr h
  cases node with
  | alternative body =>
      apply alternative
      apply same
      intro inner hinner
      have := List.sizeOf_lt_of_mem hinner
      exact refl ctx inner
  | disjunction branches =>
      apply disjunction
      apply same
      intro inner hinner
      have := List.sizeOf_lt_of_mem hinner
      exact refl ctx inner
  | group behaviour body name number =>
      apply group
      apply same
      intro inner hinner
      have := List.sizeOf_lt_of_mem hinner
      exact refl ctx inner
  | quantifier min max greedy body shorthand =>
      exact quantifier min max greedy (refl ctx body) shorthand
  | _ =>
      intro address address' pos
      simp only [ways, Ways.bare_after]
termination_by sizeOf node

/-- Changing one element for an alike one gives alike elements. -/
theorem forall₂_modify {nodes : List Node} {i : Nat} {child : Node}
    (hchild : nodes[i]? = some child) {change : Node → Node} (h : Alike ctx child (change child)) :
    List.Forall₂ (Alike ctx) nodes (nodes.modify i change) := by
  induction nodes generalizing i with
  | nil => cases hchild
  | cons node rest ih =>
      cases i with
      | zero =>
          obtain rfl := Option.some.inj hchild
          exact .cons h (List.forall₂_same.mpr fun other _ => refl ctx other)
      | succ i => exact .cons (refl ctx node) (ih hchild)

/-- A tree is alike to the tree with one of its nodes replaced by one that is alike to it. -/
theorem replaceAt {root old new : Node} {address : Address} (hat : root.at? address = some old)
    (h : Alike ctx old new) : Alike ctx root (root.replaceAt address new) := by
  induction address generalizing root with
  | nil =>
      obtain rfl := Option.some.inj hat
      rw [Node.replaceAt]
      exact h
  | cons move rest ih =>
      obtain ⟨child, hchild, hrest⟩ := Option.bind_eq_some_iff.mp hat
      have hnew := ih hrest
      unfold Node.replaceAt
      unfold Node.child? at hchild
      split at hchild
      · exact alternative (forall₂_modify hchild hnew)
      · exact group _ (forall₂_modify hchild hnew) _ _
      · obtain rfl := Option.some.inj hchild
        exact quantifier _ _ _ hnew _
      · exact disjunction (forall₂_modify hchild hnew)
      · cases hchild

theorem bare_rootWays (ctx : Context) (root : Node) (start : Nat) :
    (rootWays ctx root start).bare = (ways ctx [] root start).bare := by
  cases root with
  | alternative body => rw [rootWays, ways, Ways.bare_after]
  | disjunction branches => rw [rootWays, ways, Ways.bare_after]
  | _ => rfl

/-- From every start alike trees have the same first end, so the spans of their best traces are the
same. -/
theorem bestTrace_span?_eq {root root' : Node} (h : Alike ctx root root') (starts : List Nat) :
    (bestTrace ctx root starts).map Trace.span? = (bestTrace ctx root' starts).map Trace.span? := by
  induction starts with
  | nil => rfl
  | cons start rest ih =>
      have hstart : (rootWays ctx root start).bare = (rootWays ctx root' start).bare := by
        rw [bare_rootWays, bare_rootWays]
        exact h [] [] start
      rw [bestTrace, bestTrace]
      cases hways : rootWays ctx root start <;> cases hways' : rootWays ctx root' start <;>
        rw [hways, hways'] at hstart
      case none.none => exact ih
      case fault.fault =>
        cases hstart
        rfl
      case more.more way _ way' _ =>
        have hbare : way.bare = way'.bare := (Ways.more.inj hstart).1
        have hstop : way.stop = way'.stop := (Way.mk.inj hbare).1
        refine congrArg Except.ok ?_
        rw [Way.span?_trace, Way.span?_trace, hstop]
      all_goals cases hstart

end Alike

/-- A search without a budget has the same answer for alike trees. -/
theorem span?_eq_of_alike {options : Options} (hsteps : options.maxSteps = none)
    {root root' : Node} (habsent : root.isAbsent = root'.isAbsent) {text : Text}
    (h : Alike ⟨Utf16.encode text, options⟩ root root') :
    span? options root text = span? options root' text := by
  rw [span?_eq_map_backtrack hsteps, span?_eq_map_backtrack hsteps, backtrack, backtrack, habsent]
  split
  · rfl
  · exact h.bestTrace_span?_eq _

/-- A stream offers positions in order and then ends, in a failure or without one, as long as it is
resumed with the trace as it was at the last offer. -/
inductive Candidates.Offers : Candidates → List Nat → Option Failure → Prop
  | exhausted (s : State) : Offers (.exhausted s) [] none
  | aborted (failure : Failure) (s : State) : Offers (.aborted failure s) [] (some failure)
  | offer {stop : Nat} {s : State} {resume : State → Candidates} {rest : List Nat}
      {failure : Option Failure} (h : ∀ s', s'.trace = s.trace → Offers (resume s') rest failure) :
      Offers (.offer stop s resume) (stop :: rest) failure

theorem Replays.offers {base : Steps} {dry : Steps → Prop} {ws : Ways} {cs : Candidates}
    (h : Replays none base dry ws cs) : cs.Offers ws.stops ws.failure? := by
  induction h with
  | exhausted _ => exact .exhausted _
  | fault cause s => exact .aborted _ _
  | cut hlimit => cases hlimit
  | offer _ _ ih => exact .offer ih

/-- The streams of alike nodes offer the same positions in the same order. -/
theorem exists_offers_of_alike {ctx : Context} (hsteps : ctx.options.maxSteps = none)
    (closed : Utf16.Closed ctx.units) {node node' : Node} (h : Alike ctx node node') {pos : Nat}
    (hpos : pos ≤ ctx.units.size) (address address' : Address) (s s' : State) :
    ∃ ends failure, (candidates ctx address node pos s).Offers ends failure ∧
      (candidates ctx address' node' pos s').Offers ends failure := by
  have hfirst := candidates_restores closed address node pos s hpos
  have hsecond := candidates_restores closed address' node' pos s' hpos
  rw [hsteps] at hfirst hsecond
  refine ⟨_, _, hfirst.offers, ?_⟩
  have hsame := h address address' pos
  rw [← Ways.stops_bare, ← Ways.failure?_bare, hsame, Ways.stops_bare, Ways.failure?_bare]
  exact hsecond.offers

end Search

end RegexTrace
