import RegexTrace.Search.Scan

/-!
# The ways in which a pattern can match

Backtracking without streams, state or taking back: at a position a node has a list of ways, the
best first, and each way says where it ends and which steps it records. A sequence goes through the
ways of its first element and, for each of them, through the ways of the rest; a choice lists the
ways of its branches one after the other. A property of ways that staying at a position has and
going on keeps is carried from the elements of a pattern to the whole by one lemma per combination.

## Implementation notes

A test that has no answer ends the list early, so a list of ways ends in nothing or in a fault. The
rounds of a repetition are a well-founded recursion: up to the minimum the missing rounds decrease,
and beyond it every round that counts moves on in the subject.
-/

namespace RegexTrace.Search

/-- One way to match: where it ends and the steps that it records. -/
structure Way where
  stop : Nat
  steps : List (Step Nat Occurrence)

/-- Ways in the order of preference, up to the last one or up to a test without an answer. -/
inductive Ways
  | none
  | fault (cause : Node.Fault)
  | more (way : Way) (rest : Ways)

namespace Ways

/-- The single way that ends at a position and records nothing. -/
def single (stop : Nat) : Ways := more ⟨stop, []⟩ none

/-- A single way under a condition. -/
def singleIf (condition : Bool) (stop : Nat) : Ways := if condition then single stop else none

/-- The ways of one list before those of another. -/
def append : Ways → Ways → Ways
  | none, later => later
  | fault cause, _ => fault cause
  | more way rest, later => more way (rest.append later)

/-- The same ways after some steps. -/
def after (steps : List (Step Nat Occurrence)) : Ways → Ways
  | none => none
  | fault cause => fault cause
  | more way rest => more ⟨way.stop, steps ++ way.steps⟩ (rest.after steps)

/-- For each way in turn, the ways that go on from where it ends. -/
def andThen : Ways → (Nat → Ways) → Ways
  | none, _ => none
  | fault cause, _ => fault cause
  | more way rest, next => ((next way.stop).after way.steps).append (rest.andThen next)

/-- The first way that ends acceptably. -/
def first? (accept : Nat → Bool) : Ways → Except Node.Fault (Option Way)
  | none => .ok Option.none
  | fault cause => .error cause
  | more way rest => if accept way.stop then .ok (some way) else rest.first? accept

/-- Two lists of ways, the first one put first or last. -/
def ordered (ws : Ways) (firstFirst : Bool) (later : Ways) : Ways :=
  if firstFirst then ws.append later else later.append ws

/-- The ways that are there before the end or the fault. -/
def toList : Ways → List Way
  | none | fault _ => []
  | more way rest => way :: rest.toList

end Ways

namespace Ways

variable {ws later : Ways} {way : Way}

@[simp] theorem append_none (ws : Ways) : ws.append none = ws := by
  induction ws with
  | none => rfl
  | fault cause => rfl
  | more way rest ih => rw [append, ih]

theorem mem_of_mem_append (h : way ∈ (ws.append later).toList) :
    way ∈ ws.toList ∨ way ∈ later.toList := by
  induction ws with
  | none => exact Or.inr h
  | fault cause => exact absurd h List.not_mem_nil
  | more first rest ih =>
      rcases List.mem_cons.mp h with rfl | h
      · exact Or.inl List.mem_cons_self
      · exact (ih h).imp_left (List.mem_cons_of_mem _)

theorem mem_of_mem_ordered {firstFirst : Bool} (h : way ∈ (ws.ordered firstFirst later).toList) :
    way ∈ ws.toList ∨ way ∈ later.toList := by
  cases firstFirst with
  | true => exact mem_of_mem_append h
  | false => exact (mem_of_mem_append h).symm

theorem mem_after_iff {steps : List (Step Nat Occurrence)} :
    way ∈ (ws.after steps).toList ↔
      ∃ inner ∈ ws.toList, way = ⟨inner.stop, steps ++ inner.steps⟩ := by
  induction ws with
  | none => simp [after, toList]
  | fault cause => simp [after, toList]
  | more first rest ih => simp [after, toList, ih]

/-- A way that goes on is a way with a way from its end. -/
theorem mem_of_mem_andThen {next : Nat → Ways} (h : way ∈ (ws.andThen next).toList) :
    ∃ first ∈ ws.toList, ∃ second ∈ (next first.stop).toList,
      way = ⟨second.stop, first.steps ++ second.steps⟩ := by
  induction ws with
  | none => exact absurd h List.not_mem_nil
  | fault cause => exact absurd h List.not_mem_nil
  | more first rest ih =>
      rcases mem_of_mem_append h with h | h
      · obtain ⟨second, hsecond, rfl⟩ := mem_after_iff.mp h
        exact ⟨first, List.mem_cons_self, second, hsecond, rfl⟩
      · obtain ⟨other, hother, hrest⟩ := ih h
        exact ⟨other, List.mem_cons_of_mem _ hother, hrest⟩

theorem andThen_congr {f g : Nat → Ways} (h : ∀ way ∈ ws.toList, f way.stop = g way.stop) :
    ws.andThen f = ws.andThen g := by
  induction ws with
  | none => rfl
  | fault cause => rfl
  | more first rest ih =>
      rw [andThen, andThen, h first List.mem_cons_self,
        ih fun way hway => h way (List.mem_cons_of_mem _ hway)]

/-- All ways have a property. -/
def All (p : Way → Prop) (ws : Ways) : Prop := ∀ way ∈ ws.toList, p way

namespace All

variable {p : Way → Prop}

theorem none : All p .none := fun _ h => absurd h List.not_mem_nil

theorem fault (cause : Node.Fault) : All p (.fault cause) := fun _ h => absurd h List.not_mem_nil

theorem singleIf (condition : Bool) {stop : Nat} (h : p ⟨stop, []⟩) :
    All p (singleIf condition stop) := by
  intro way hway
  cases condition with
  | true =>
      obtain rfl := List.mem_singleton.mp hway
      exact h
  | false => exact absurd hway List.not_mem_nil

theorem append (h : ws.All p) (hlater : later.All p) : (ws.append later).All p :=
  fun way hway => (mem_of_mem_append hway).elim (h way) (hlater way)

theorem ordered {firstFirst : Bool} (h : ws.All p) (hlater : later.All p) :
    (ws.ordered firstFirst later).All p :=
  fun way hway => (mem_of_mem_ordered hway).elim (h way) (hlater way)

theorem after {steps : List (Step Nat Occurrence)}
    (h : ws.All fun way => p ⟨way.stop, steps ++ way.steps⟩) : (ws.after steps).All p := by
  intro way hway
  obtain ⟨inner, hinner, rfl⟩ := mem_after_iff.mp hway
  exact h inner hinner

end All

/-- The first acceptable way is one of the ways and acceptable. -/
theorem mem_of_first? {accept : Nat → Bool} (h : ws.first? accept = .ok (some way)) :
    way ∈ ws.toList ∧ accept way.stop = true := by
  induction ws with
  | none => simp [first?] at h
  | fault cause => simp [first?] at h
  | more first rest ih =>
      rw [first?] at h
      split at h
      · next haccept =>
          obtain rfl : first = way := by simpa using h
          exact ⟨List.mem_cons_self, haccept⟩
      · exact (ih h).imp_left (List.mem_cons_of_mem _)

end Ways

/-- The ways to go on with a repetition at `here` after `count` rounds: one more round, which beyond
the minimum has to move on, or stopping there. Few rounds or many rounds come first. -/
def rounds (few : Bool) (bounds : Bounds) (size : Nat) (body : Nat → Ways) (count here : Nat) :
    Ways :=
  (Ways.singleIf (bounds.min ≤ count) here).ordered few
    (if bounds.reached count then .none
      else
        (body here).andThen fun stop =>
          if count < bounds.min ∨ here < stop ∧ stop ≤ size then
            rounds few bounds size body (count + 1) stop
          else .none)
termination_by (bounds.min - count, size - here)
decreasing_by
  rw [Prod.lex_def]
  simp only
  omega

/-- A property of ways from a position that staying there has and going on keeps. -/
structure Ways.Composes (p : Nat → Way → Prop) : Prop where
  here : ∀ pos, p pos ⟨pos, []⟩
  onward : ∀ {start : Nat} {first second : Way}, p start first → p first.stop second →
    p start ⟨second.stop, first.steps ++ second.steps⟩

namespace Ways.Composes

variable {p : Nat → Way → Prop}

theorem andThen (h : Composes p) {ws : Ways} {next : Nat → Ways} {start : Nat}
    (hws : ws.All (p start)) (hnext : ∀ stop, (next stop).All (p stop)) :
    (ws.andThen next).All (p start) := by
  intro way hway
  obtain ⟨first, hfirst, second, hsecond, rfl⟩ := mem_of_mem_andThen hway
  exact h.onward (hws first hfirst) (hnext first.stop second hsecond)

/-- The rounds of a body with the property have it. -/
theorem rounds (h : Composes p) {few : Bool} {bounds : Bounds} {size : Nat} {body : Nat → Ways}
    (hbody : ∀ pos, (body pos).All (p pos)) (count here : Nat) :
    (rounds few bounds size body count here).All (p here) := by
  induction count, here using rounds.induct bounds size with
  | case1 count here ih =>
      rw [Search.rounds]
      apply Ways.All.ordered
      · exact .singleIf _ (h.here here)
      · split
        · exact .none
        · apply h.andThen (hbody here)
          intro stop
          split
          · next hon => exact ih stop hon
          · exact .none

end Ways.Composes

/-- The first start from which a body has a way that ends at `pos`, with its first such way. -/
def firstBehind? (body : Nat → Ways) (pos : Nat) : List Nat → Except Node.Fault (Option Way)
  | [] => .ok none
  | start :: rest =>
    match (body start).first? (· == pos) with
    | .ok none => firstBehind? body pos rest
    | found => found

/-- An assertion holds the position at most once: a positive one with the steps of the first success
of its body, a negative one without any when there is no success. -/
def assertion (behind negative : Bool) (body : Nat → Ways) (pos : Nat) : Ways :=
  let found :=
    if behind then firstBehind? body pos (List.range (pos + 1))
    else (body pos).first? fun _ => true
  match found with
  | .error cause => .fault cause
  | .ok (some way) => if negative then .none else .more ⟨pos, way.steps⟩ .none
  | .ok none => Ways.singleIf negative pos

/-- A leaf moves over the code point at hand if it accepts that. -/
def leafWays (ctx : Context) (node : Node) (pos : Nat) : Ways :=
  match Utf16.codePointAt? ctx.units pos with
  | none => .none
  | some c =>
    match Leaf.accepts ctx.options.rules node c with
    | .ok accepted => Ways.singleIf accepted (pos + Utf16.width c)
    | .error cause => .fault cause

/-- What a group does with the ways of its body. -/
def groupWays (mode : LookaroundMode) (behaviour : Behaviour) (body : Nat → Ways) (pos : Nat) :
    Ways :=
  match behaviour, mode with
  | .look behind negative, .assert => assertion behind negative body pos
  | _, _ => body pos

/-- The step that is recorded when a node is entered. -/
def entry (address : Address) (node : Node) (pos : Nat) : Step Nat Occurrence :=
  ⟨pos, .visit ⟨address, node⟩⟩

mutual

/-- The ways of a node at a position; each begins with the entry of the node. -/
def ways (ctx : Context) (address : Address) : Node → Nat → Ways
  | .anchor kind, pos =>
    (Ways.singleIf (anchorHolds ctx kind pos) pos).after [entry address (.anchor kind) pos]
  | .value c, pos => (leafWays ctx (.value c) pos).after [entry address (.value c) pos]
  | .dot, pos => (leafWays ctx .dot pos).after [entry address .dot pos]
  | .escape kind, pos => (leafWays ctx (.escape kind) pos).after [entry address (.escape kind) pos]
  | .charClass negative items, pos =>
    (leafWays ctx (.charClass negative items) pos).after
      [entry address (.charClass negative items) pos]
  | .unsupported _ _, _ => .none
  | .alternative body, pos =>
    (sequenceWays ctx address 0 body pos).after [entry address (.alternative body) pos]
  | .disjunction branches, pos =>
    (choiceWays ctx address 0 branches pos).after [entry address (.disjunction branches) pos]
  | .group behaviour body name number, pos =>
    (groupWays ctx.options.lookaround behaviour (sequenceWays ctx address 0 body) pos).after
      [entry address (.group behaviour body name number) pos]
  | .quantifier min max greedy body shorthand, pos =>
    match Bounds.ofInts? min max with
    | none => .none
    | some bounds =>
      (rounds (ctx.options.honorLazy && !greedy) bounds ctx.units.size
          (ways ctx (address ++ [.repeated]) body) 0 pos).after
        [entry address (.quantifier min max greedy body shorthand) pos]
  | .range min max, _ => .fault (.unmatchable (.range min max))
  | .alien, _ => .fault (.unmatchable .alien)
  | .absent, _ => .fault (.unmatchable .absent)

/-- The ways of elements one after the other, the first of them numbered `index`. -/
def sequenceWays (ctx : Context) (address : Address) (index : Nat) : List Node → Nat → Ways
  | [], pos => .single pos
  | node :: rest, pos =>
    (ways ctx (address ++ [.element index]) node pos).andThen
      (sequenceWays ctx address (index + 1) rest)

/-- The ways of branches one after the other, the first of them numbered `index`. -/
def choiceWays (ctx : Context) (address : Address) (index : Nat) : List Node → Nat → Ways
  | [], _ => .none
  | node :: rest, pos =>
    (ways ctx (address ++ [.branch index]) node pos).append
      (choiceWays ctx address (index + 1) rest pos)

end

/-- The ways of a whole pattern; a root that is a sequence or a choice is not itself entered. -/
def rootWays (ctx : Context) : Node → Nat → Ways
  | .alternative body => sequenceWays ctx [] 0 body
  | .disjunction branches => choiceWays ctx [] 0 branches
  | node => ways ctx [] node

/-- The trace of a way that was found from a start. -/
def Way.trace (start : Nat) (way : Way) : Trace Nat Occurrence :=
  ⟨(⟨start, .start⟩ :: (way.steps ++ [⟨way.stop, .finish⟩])).toArray⟩

/-- The trace of the first way from the first start that has one, empty if there is none. -/
def bestTrace (ctx : Context) (root : Node) : List Nat → Except Failure (Trace Nat Occurrence)
  | [] => .ok {}
  | start :: rest =>
    match rootWays ctx root start with
    | .none => bestTrace ctx root rest
    | .fault cause => .error (.fault cause)
    | .more way _ => .ok (way.trace start)

end RegexTrace.Search
