import RegexTrace.Log
import RegexTrace.Node.Fault
import RegexTrace.Trace

/-!
# Streams of candidates

A node at a position offers candidates, the positions where a match of it may end, best first. A
stream of candidates is consumed one by one: whoever cannot go on from a candidate resumes the
stream, handing over the state as it is then, and gets the next candidate or learns that there is
none.

## Implementation notes

The state is threaded through the stream and not copied: what is recorded between an offer and its
resumption is visible to the resumed stream, which takes it back itself. A stream is a finite tree,
so consuming it is structural recursion.
-/

namespace RegexTrace.Search

/-- What a search reports while it runs. -/
inductive Notice
  | budgetExhausted (limit : Nat)
  | malformedQuantifier (min : Int) (max : Option Int)
  | found (start finish entries : Nat)
  | notFound (entries : Nat)
  deriving DecidableEq, Repr

/-- Why a search stops without an answer. -/
inductive Failure
  /-- The budget of node entries is used up. -/
  | budgetExceeded (limit : Nat)
  /-- The tree holds something that cannot be matched. -/
  | fault (cause : Node.Fault)
  /-- A trace was asked to return to a checkpoint it does not have. -/
  | invalidCheckpoint (checkpoint length : Nat)
  deriving Repr

/-- The state of a search: the trace of the start position under trial, and the node entries and
notices of the whole search. -/
structure State where
  trace : Trace Nat Occurrence := {}
  entries : Nat := 0
  notices : Array Notice := #[]
  deriving Repr

/-- A stream of candidates. -/
inductive Candidates
  /-- There is no further candidate. -/
  | exhausted (s : State)
  /-- The next candidate, the state in which it is offered, and the rest of the stream. -/
  | offer (stop : Nat) (s : State) (resume : State → Candidates)
  /-- The search stops. -/
  | aborted (failure : Failure) (s : State)

namespace Candidates

/-- The candidates of a stream, and after the last one those of another stream. -/
def orElse : Candidates → (State → Candidates) → Candidates
  | .exhausted s, next => next s
  | .offer stop s resume, next => .offer stop s fun s' => (resume s').orElse next
  | .aborted failure s, _ => .aborted failure s

/-- For each candidate of a stream in turn, the candidates that follow from it. -/
def andThen : Candidates → (Nat → State → Candidates) → Candidates
  | .exhausted s, _ => .exhausted s
  | .offer stop s resume, next => (next stop s).orElse fun s' => (resume s').andThen next
  | .aborted failure s, _ => .aborted failure s

theorem orElse_assoc (cs : Candidates) (f g : State → Candidates) :
    (cs.orElse f).orElse g = cs.orElse fun s => (f s).orElse g := by
  induction cs with
  | exhausted s => rfl
  | offer stop s resume ih => simp only [orElse, ih]
  | aborted failure s => rfl

theorem orElse_andThen (cs : Candidates) (f : State → Candidates)
    (next : Nat → State → Candidates) :
    (cs.orElse f).andThen next = (cs.andThen next).orElse fun s => (f s).andThen next := by
  induction cs with
  | exhausted s => rfl
  | offer stop s resume ih => simp only [orElse, andThen, ih, orElse_assoc]
  | aborted failure s => rfl

theorem andThen_assoc (cs : Candidates) (f g : Nat → State → Candidates) :
    (cs.andThen f).andThen g = cs.andThen fun stop s => (f stop s).andThen g := by
  induction cs with
  | exhausted s => rfl
  | offer stop s resume ih => simp only [andThen, orElse_andThen, ih]
  | aborted failure s => rfl

/-- The outcome of looking for one acceptable candidate. -/
inductive First
  | accepted (stop : Nat) (s : State)
  | none (s : State)
  | aborted (failure : Failure) (s : State)

/-- The first acceptable candidate; a candidate that is not acceptable is given back as it came. -/
def first (accept : Nat → Bool) : Candidates → First
  | .exhausted s => .none s
  | .offer stop s resume => if accept stop then .accepted stop s else (resume s).first accept
  | .aborted failure s => .aborted failure s

end Candidates

namespace Notice

/-- How much a notice matters. -/
def severity : Notice → Severity
  | .budgetExhausted _ | .malformedQuantifier _ _ => .warning
  | .found _ _ _ | .notFound _ => .debug

/-- The wording of a notice. -/
def message : Notice → Text
  | .budgetExhausted limit => "step budget of " ++ Text.ofNat limit ++ " exhausted"
  | .malformedQuantifier min max =>
    "malformed quantifier \x7b" ++ Text.ofInt min ++ "," ++ Node.writeOptional Text.ofInt max ++
      "\x7d, treating as no match"
  | .found start finish entries =>
    "match at [" ++ Text.ofNat start ++ ", " ++ Text.ofNat finish ++ ") after " ++
      Text.ofNat entries ++ " node entries"
  | .notFound entries => "no match after " ++ Text.ofNat entries ++ " node entries"

end Notice

namespace Failure

/-- The wording of a failure. -/
def message : Failure → Text
  | .budgetExceeded limit => "gave up after " ++ Text.ofNat limit ++ " node entries"
  | .fault cause => cause.message
  | .invalidCheckpoint checkpoint length => Trace.checkpointMessage checkpoint length

end Failure

end RegexTrace.Search
