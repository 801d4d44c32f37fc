import RegexTrace.Host.Character

/-!
# How the host matches

A program is matched by trying its choices in order and going on with the rest of the program; the
first way that leads to the end wins. What groups have captured is part of each way, so a way that
is given up leaves no captures behind, while captures of earlier rounds of a repetition stay.

## Implementation notes

Every function takes what is to be done afterwards as a continuation. A round of a repetition beyond
the minimum may be empty once, after which the repetition ends; so the rounds are bounded by the
minimum and the length of the text.
-/

namespace RegexTrace.Host

/-- Where groups were opened and where they were closed, the latest first. -/
structure Captures where
  opened : List (Nat × Nat) := []
  closed : List (Nat × Nat) := []
  deriving Repr

/-- The end of a match with its captures. -/
abbrev Finish := Nat × Captures

/-- What is done after a part of a program has matched. -/
abbrev Continuation := Nat → Captures → Option Finish

namespace Captures

/-- A group is opened at a position. -/
def openAt (captures : Captures) (group pos : Nat) : Captures :=
  { captures with opened := (group, pos) :: captures.opened }

/-- A group is closed at a position. -/
def closeAt (captures : Captures) (group pos : Nat) : Captures :=
  { captures with closed := (group, pos) :: captures.closed }

/-- The span of what a group has captured last. -/
def span? (captures : Captures) (group : Nat) : Option (Nat × Nat) :=
  match captures.opened.lookup group, captures.closed.lookup group with
  | some first, some last => if last < first then none else some (first, last)
  | _, _ => none

end Captures

/-- The way ends here. -/
def accept : Continuation := fun pos captures => some (pos, captures)

/-- One code point with some property, and then the rest. -/
def matchCharacter (text : Array CodePoint) (property : CodePoint → Bool) (pos : Nat)
    (captures : Captures) (k : Continuation) : Option Finish :=
  match text[pos]? with
  | some c => if property c then k (pos + 1) captures else none
  | none => none

/-- The text from `pos` on repeats the `length` code points from `first` on. -/
def repeatsAt (f : Flags) (text : Array CodePoint) (first pos : Nat) : Nat → Bool
  | 0 => true
  | length + 1 =>
    match text[first]?, text[pos]? with
    | some c, some d =>
      (if f.ignoreCase then foldUnder f c == foldUnder f d else c == d) &&
        repeatsAt f text (first + 1) (pos + 1) length
    | _, _ => false

/-- No further round is allowed after `count` rounds. -/
def roundsReached (max : Option Nat) (count : Nat) : Bool :=
  match max with
  | none => false
  | some max => max ≤ count

/-- Rounds of a greedy repetition. `last` is where the latest round beyond the minimum began. -/
def matchGreedy (round : Nat → Captures → Continuation → Option Finish) (min : Nat)
    (max : Option Nat) (k : Continuation) :
    Nat → Nat → Option Nat → Nat → Captures → Option Finish
  | 0, _, _, _, _ => none
  | fuel + 1, count, last, pos, captures =>
    if count < min then round pos captures (matchGreedy round min max k fuel (count + 1) last)
    else if roundsReached max count || last == some pos then k pos captures
    else
      match round pos captures (matchGreedy round min max k fuel (count + 1) (some pos)) with
      | some found => some found
      | none => k pos captures

/-- Rounds of a reluctant repetition. -/
def matchReluctant (round : Nat → Captures → Continuation → Option Finish) (min : Nat)
    (max : Option Nat) (k : Continuation) :
    Nat → Nat → Option Nat → Nat → Captures → Option Finish
  | 0, _, _, _, _ => none
  | fuel + 1, count, last, pos, captures =>
    if count < min then round pos captures (matchReluctant round min max k fuel (count + 1) last)
    else
      match k pos captures with
      | some found => some found
      | none =>
        if roundsReached max count || last == some pos then none
        else round pos captures (matchReluctant round min max k fuel (count + 1) (some pos))

/-- Rounds of a possessive repetition: each round is matched on its own and kept. -/
def matchPossessive (round : Nat → Captures → Continuation → Option Finish) (min : Nat)
    (max : Option Nat) : Nat → Nat → Option Nat → Nat → Captures → Option Finish
  | 0, _, _, _, _ => none
  | fuel + 1, count, last, pos, captures =>
    if count < min then
      match round pos captures accept with
      | some (pos, captures) => matchPossessive round min max fuel (count + 1) last pos captures
      | none => none
    else if roundsReached max count || last == some pos then some (pos, captures)
    else
      match round pos captures accept with
      | some (after, captures) =>
        matchPossessive round min max fuel (count + 1) (some pos) after captures
      | none => some (pos, captures)

/-- An assertion with its finding: what a successful one has captured is kept. -/
def matchAssertion (negated : Bool) (finding : Option Finish) (pos : Nat) (captures : Captures)
    (k : Continuation) : Option Finish :=
  match finding with
  | some (_, found) => if negated then none else k pos found
  | none => if negated then k pos captures else none

mutual

/-- An item at a position, and then the rest. -/
def matchItem (text : Array CodePoint) (f : Flags) :
    Item → Nat → Captures → Continuation → Option Finish
  | .literal negated c, pos, captures, k =>
    matchCharacter text (fun d => literalAccepts f c d != negated) pos captures k
  | .any, pos, captures, k =>
    matchCharacter text (fun d => f.dotAll || d != Ascii.newline) pos captures k
  | .set negated items, pos, captures, k =>
    matchCharacter text (setAccepts f negated items) pos captures k
  | .place place, pos, captures, k => if placeHolds f text pos place then k pos captures else none
  | .reference group _, pos, captures, k =>
    match captures.span? group with
    | none => none
    | some (first, last) =>
      if repeatsAt f text first pos (last - first) then k (pos + (last - first)) captures else none
  | .group none on off body, pos, captures, k =>
    matchItems text (f.inside on off) body pos captures k
  | .group (some number) on off body, pos, captures, k =>
    matchItems text (f.inside on off) body pos (captures.openAt number pos) fun pos captures =>
      k pos (captures.closeAt number pos)
  | .atomic body, pos, captures, k =>
    match matchItems text f body pos captures accept with
    | some (pos, captures) => k pos captures
    | none => none
  | .ahead negated body, pos, captures, k =>
    matchAssertion negated (matchItems text f body pos captures accept) pos captures k
  | .behind negated widths body, pos, captures, k =>
    let finding :=
      if pos < widths.1 then none else matchItems text f body (pos - widths.1) captures accept
    matchAssertion negated finding pos captures k
  | .branch branches, pos, captures, k => matchBranches text f branches pos captures k
  | .repetition mode min max body, pos, captures, k =>
    let fuel := min + (text.size - pos) + 3
    match mode with
    | .greedy => matchGreedy (matchItems text f body) min max k fuel 0 none pos captures
    | .reluctant => matchReluctant (matchItems text f body) min max k fuel 0 none pos captures
    | .possessive =>
      match matchPossessive (matchItems text f body) min max fuel 0 none pos captures with
      | some (pos, captures) => k pos captures
      | none => none
  | .condition group yes no, pos, captures, k =>
    if (captures.span? group).isSome then matchItems text f yes pos captures k
    else
      match no with
      | some no => matchItems text f no pos captures k
      | none => k pos captures

/-- Items one after the other, and then the rest. -/
def matchItems (text : Array CodePoint) (f : Flags) :
    List Item → Nat → Captures → Continuation → Option Finish
  | [], pos, captures, k => k pos captures
  | item :: rest, pos, captures, k =>
    matchItem text f item pos captures fun pos captures => matchItems text f rest pos captures k

/-- The first branch that leads on. -/
def matchBranches (text : Array CodePoint) (f : Flags) :
    List (List Item) → Nat → Captures → Continuation → Option Finish
  | [], _, _, _ => none
  | body :: rest, pos, captures, k =>
    match matchItems text f body pos captures k with
    | some found => some found
    | none => matchBranches text f rest pos captures k

end

end RegexTrace.Host
