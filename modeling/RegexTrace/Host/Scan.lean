import RegexTrace.Host.Compile
import RegexTrace.Host.Matching

/-!
# The matches of the host in a text

A text is scanned from left to right for the first position where a program matches. The scan for
all matches goes on at the end of each match; after an empty match, the next one at the same place
must not be empty.
-/

namespace RegexTrace.Host

/-- A match: its span and the spans of its groups, in order. -/
structure Match where
  start : Nat
  finish : Nat
  groups : List (Option (Nat × Nat))
  deriving DecidableEq, Repr

namespace Program

/-- The best match at a position. Where a match must advance, an empty one does not count. -/
def matchAt? (program : Program) (text : Array CodePoint) (mustAdvance : Bool) (pos : Nat) :
    Option Match :=
  let finished : Continuation := fun finish captures =>
    if mustAdvance && finish == pos then none else accept finish captures
  (matchItems text program.flags program.body pos {} finished).map fun (finish, captures) =>
    ⟨pos, finish, (List.range program.groupCount).map fun group => captures.span? (group + 1)⟩

/-- The first match among the given positions; only at the first of them it may have to advance. -/
def searchFrom? (program : Program) (text : Array CodePoint) :
    Bool → List Nat → Option Match
  | _, [] => none
  | mustAdvance, pos :: rest =>
    match program.matchAt? text mustAdvance pos with
    | some found => some found
    | none => searchFrom? program text false rest

/-- The positions of a text from `pos` on. -/
def positionsFrom (text : Array CodePoint) (pos : Nat) : List Nat :=
  List.range' pos (text.size + 1 - pos)

/-- The leftmost match. -/
def search? (program : Program) (text : Array CodePoint) : Option Match :=
  program.searchFrom? text false (positionsFrom text 0)

/-- The matches from a position on. -/
def findFrom (program : Program) (text : Array CodePoint) : Nat → Bool → Nat → List Match
  | 0, _, _ => []
  | fuel + 1, mustAdvance, pos =>
    match program.searchFrom? text mustAdvance (positionsFrom text pos) with
    | none => []
    | some found =>
      found :: findFrom program text fuel (found.finish == found.start) found.finish

/-- All matches in order. Between two empty ones the position advances, so twice the number of
positions bounds them. -/
def findAll (program : Program) (text : Array CodePoint) : List Match :=
  program.findFrom text (2 * text.size + 2) false 0

end Program

end RegexTrace.Host
