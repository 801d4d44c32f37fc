import RegexTrace.Search.Candidates
import RegexTrace.Search.Options
import RegexTrace.Text.Utf16

/-!
# How nodes match

For every kind of node, the stream of candidates that it offers at a position. Entering a node
counts against the budget and is recorded; a node that has no further candidate takes the trace back
to where it was before the entry. So whenever the whole pattern has a candidate, the trace holds
exactly the steps that led to it.

## Implementation notes

A repetition keeps the positions after each of its rounds. A round beyond the minimum that ends
where it began is dropped, so the rounds beyond the minimum move forward, and a repetition that
starts at `pos` has at most `min + (length - pos)` rounds and one more under trial. That number
bounds the recursion; the bound is never reached.
-/

namespace RegexTrace.Search

/-- The subject of a search and the options in force. -/
structure Context where
  units : Utf16.Units
  options : Options

/-- The bounds of a repetition. -/
structure Bounds where
  min : Nat
  max : Option Nat
  deriving DecidableEq, Repr

namespace Bounds

/-- Bounds are proper when they are in order and not negative. -/
def ofInts? (min : Int) (max : Option Int) : Option Bounds :=
  if min < 0 then none
  else
    match max with
    | none => some ⟨min.toNat, none⟩
    | some max => if max < min then none else some ⟨min.toNat, some max.toNat⟩

/-- No further round is allowed after `count` rounds. -/
def reached (b : Bounds) (count : Nat) : Bool :=
  match b.max with
  | none => false
  | some max => max ≤ count

end Bounds

/-- A node is entered at a position: the entry is counted and recorded, unless the budget is used
up. -/
def enter (ctx : Context) (o : Occurrence) (pos : Nat) (s : State) :
    Except (Failure × State) State :=
  let counted := { s with entries := s.entries + 1 }
  match ctx.options.maxSteps with
  | some limit =>
    if limit < counted.entries then
      .error (.budgetExceeded limit,
        { counted with notices := counted.notices.push (.budgetExhausted limit) })
    else .ok { counted with trace := counted.trace.append pos (.visit o) }
  | none => .ok { counted with trace := counted.trace.append pos (.visit o) }

/-- Everything recorded since a checkpoint is forgotten, and there is no further candidate. -/
def leave (checkpoint : Nat) (s : State) : Candidates :=
  match s.trace.rollback? checkpoint with
  | some trace => .exhausted { s with trace }
  | none => .aborted (.invalidCheckpoint checkpoint s.trace.length) s

/-- A node is entered, offers the candidates of its inside, and is left. -/
def visit (ctx : Context) (o : Occurrence) (pos : Nat) (s : State) (inside : State → Candidates) :
    Candidates :=
  match enter ctx o pos s with
  | .error (failure, s) => .aborted failure s
  | .ok entered => (inside entered).orElse (leave s.trace.length)

/-- A single candidate. -/
def offerOnce (stop : Nat) (s : State) : Candidates := .offer stop s .exhausted

/-- A candidate that is offered under a condition. -/
def offerIf (condition : Bool) (stop : Nat) (s : State) : Candidates :=
  if condition then offerOnce stop s else .exhausted s

/-- The code unit that multiline anchors look for. -/
def newline : Nat := 0x0A

/-- The condition of an anchor at a position. A foreign kind asks for what is no word boundary. -/
def anchorHolds (ctx : Context) (kind : AnchorKind) (pos : Nat) : Bool :=
  match kind with
  | .start => pos == 0 || (ctx.options.multiline && ctx.units[pos - 1]? == some newline)
  | .finish =>
    pos == ctx.units.size || (ctx.options.multiline && ctx.units[pos]? == some newline)
  | kind =>
    let before := Leaf.isWordAt (Utf16.codePointBefore? ctx.units pos)
    let after := Leaf.isWordAt (Utf16.codePointAt? ctx.units pos)
    (before != after) == (kind == .boundary)

/-- A leaf offers the position after the code point at hand, if it accepts that. -/
def leafInside (ctx : Context) (node : Node) (pos : Nat) (s : State) : Candidates :=
  match Utf16.codePointAt? ctx.units pos with
  | none => .exhausted s
  | some c =>
    match Leaf.accepts ctx.options.rules node c with
    | .ok accepted => offerIf accepted (pos + Utf16.width c) s
    | .error cause => .aborted (.fault cause) s

/-- The rounds of a repetition that is tried with many rounds first: at each position, one more
round before stopping there. `earlier` holds the positions before the present one, the latest
first. -/
def repeatMany (bounds : Bounds) (round : Nat → State → Candidates) :
    Nat → List Nat → Nat → State → Candidates
  | 0, _, _, s => .exhausted s
  | fuel + 1, earlier, here, s =>
    if bounds.reached earlier.length then offerOnce here s
    else
      ((round here s).andThen fun stop s' =>
        if bounds.min ≤ earlier.length ∧ stop = here then .exhausted s'
        else repeatMany bounds round fuel (here :: earlier) stop s').orElse
      fun s' => offerIf (bounds.min ≤ earlier.length) here s'

/-- The rounds of a repetition that is tried with few rounds first: at each position, stopping there
before one more round. -/
def repeatFew (bounds : Bounds) (round : Nat → State → Candidates) :
    Nat → List Nat → Nat → State → Candidates
  | 0, _, _, s => .exhausted s
  | fuel + 1, earlier, here, s =>
    (offerIf (bounds.min ≤ earlier.length) here s).orElse fun s' =>
      if bounds.reached earlier.length then .exhausted s'
      else
        (round here s').andThen fun stop s'' =>
          if bounds.min ≤ earlier.length ∧ stop = here then .exhausted s''
          else repeatFew bounds round fuel (here :: earlier) stop s''

/-- More rounds than a repetition can have at a position. -/
def roundLimit (ctx : Context) (bounds : Bounds) (pos : Nat) : Nat :=
  bounds.min + (ctx.units.size - pos) + 2

/-- The first start from which a body has a candidate that ends at `pos`. -/
def firstBehind (body : Nat → State → Candidates) (pos : Nat) : List Nat → State → Candidates.First
  | [], s => .none s
  | start :: rest, s =>
    match (body start s).first (· == pos) with
    | .none s' => firstBehind body pos rest s'
    | found => found

/-- An assertion looks for one candidate of its body, ahead from `pos` or ending there, and holds
the position when the finding is as asked. -/
def assertInside (behind negative : Bool) (body : Nat → State → Candidates) (pos : Nat)
    (s : State) : Candidates :=
  let finding :=
    if behind then firstBehind body pos (List.range (pos + 1)) s
    else (body pos s).first fun _ => true
  match finding with
  | .accepted _ s' => offerIf (!negative) pos s'
  | .none s' => offerIf negative pos s'
  | .aborted failure s' => .aborted failure s'

mutual

/-- The candidates of a node at a position. -/
def candidates (ctx : Context) (address : Address) : Node → Nat → State → Candidates
  | .anchor kind, pos, s =>
    visit ctx ⟨address, .anchor kind⟩ pos s (offerIf (anchorHolds ctx kind pos) pos)
  | .value c, pos, s => visit ctx ⟨address, .value c⟩ pos s (leafInside ctx (.value c) pos)
  | .dot, pos, s => visit ctx ⟨address, .dot⟩ pos s (leafInside ctx .dot pos)
  | .escape kind, pos, s =>
    visit ctx ⟨address, .escape kind⟩ pos s (leafInside ctx (.escape kind) pos)
  | .charClass negative items, pos, s =>
    visit ctx ⟨address, .charClass negative items⟩ pos s
      (leafInside ctx (.charClass negative items) pos)
  | .unsupported kind raw, pos, s => visit ctx ⟨address, .unsupported kind raw⟩ pos s .exhausted
  | .alternative body, pos, s =>
    visit ctx ⟨address, .alternative body⟩ pos s (sequence ctx address 0 body pos)
  | .disjunction branches, pos, s =>
    visit ctx ⟨address, .disjunction branches⟩ pos s (choice ctx address 0 branches pos)
  | .group behaviour body name number, pos, s =>
    visit ctx ⟨address, .group behaviour body name number⟩ pos s
      (match behaviour, ctx.options.lookaround with
        | .look behind negative, .assert =>
          assertInside behind negative (sequence ctx address 0 body) pos
        | _, _ => sequence ctx address 0 body pos)
  | .quantifier min max greedy body shorthand, pos, s =>
    match Bounds.ofInts? min max with
    | none => .exhausted { s with notices := s.notices.push (.malformedQuantifier min max) }
    | some bounds =>
      visit ctx ⟨address, .quantifier min max greedy body shorthand⟩ pos s
        ((if ctx.options.honorLazy && !greedy then repeatFew else repeatMany) bounds
          (candidates ctx (address ++ [.repeated]) body) (roundLimit ctx bounds pos) [] pos)
  | .range min max, _, s => .aborted (.fault (.unmatchable (.range min max))) s
  | .alien, _, s => .aborted (.fault (.unmatchable .alien)) s
  | .absent, _, s => .aborted (.fault (.unmatchable .absent)) s

/-- The candidates of elements one after the other, the first of them numbered `index`. -/
def sequence (ctx : Context) (address : Address) (index : Nat) :
    List Node → Nat → State → Candidates
  | [], pos, s => offerOnce pos s
  | node :: rest, pos, s =>
    (candidates ctx (address ++ [.element index]) node pos s).andThen
      (sequence ctx address (index + 1) rest)

/-- The candidates of branches one after the other, the first of them numbered `index`. -/
def choice (ctx : Context) (address : Address) (index : Nat) :
    List Node → Nat → State → Candidates
  | [], _, s => .exhausted s
  | node :: rest, pos, s =>
    (candidates ctx (address ++ [.branch index]) node pos s).orElse
      (choice ctx address (index + 1) rest pos)

end

/-- The candidates of a whole pattern. A root that is a sequence or a choice is not itself
recorded. -/
def rootCandidates (ctx : Context) : Node → Nat → State → Candidates
  | .alternative body => sequence ctx [] 0 body
  | .disjunction branches => choice ctx [] 0 branches
  | node => candidates ctx [] node

end RegexTrace.Search
