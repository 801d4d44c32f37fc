import RegexTrace.Pattern.Brackets
import RegexTrace.Pattern.Repetition

/-!
# From a pattern to its tree

A pattern is read from left to right. At every moment there is one level being filled for each group
that is still open, and one for the pattern as a whole. A level holds branches, a branch holds
terms, and a term is an atom with an optional repetition mark. A closing parenthesis turns the
innermost level into a group of the level around it.

## Implementation notes

The reader is structural on the pattern: a step takes one code point, may look at what follows, and
says how many of the following code points it has taken too; these are then skipped. Positions are
counted along the way.
-/

namespace RegexTrace.Pattern

/-- The branches of a level that are complete and the terms of the one being filled, both with the
latest first. -/
structure Level where
  branches : List (List Node) := []
  terms : List Node := []
  deriving Repr

/-- A group that is still open, with the level around it. -/
structure Opening where
  openedAt : Nat
  behaviour : Behaviour
  name : Option Text
  number : Option Nat
  outer : Level
  deriving Repr

/-- What has been read: the level being filled, the open groups with the innermost first, and the
number of capturing groups. -/
structure Progress where
  level : Level := {}
  openings : List Opening := []
  groupCount : Nat := 0
  deriving Repr

/-- A pattern that was read. -/
structure Parsed where
  root : Node
  groupCount : Nat
  deriving Repr

namespace Level

/-- A term is added to the branch being filled. -/
def push (level : Level) (term : Node) : Level := { level with terms := term :: level.terms }

/-- The branch being filled is complete, and an empty one begins. -/
def split (level : Level) : Level := ⟨level.terms.reverse :: level.branches, []⟩

/-- All branches in order. -/
def allBranches (level : Level) : List (List Node) :=
  (level.terms.reverse :: level.branches).reverse

/-- The tree of a level: a sequence, or a choice between several. -/
def root (level : Level) : Node :=
  match level.allBranches with
  | [body] => .alternative body
  | branches => .disjunction (branches.map .alternative)

/-- The body of a group with this level inside: the terms of a single branch, or one choice. -/
def body (level : Level) : List Node :=
  match level.root with
  | .alternative body => body
  | root => [root]

end Level

namespace Opening

/-- The group that an opening becomes when its level is complete. -/
def close (opening : Opening) (inner : Level) : Node :=
  .group opening.behaviour inner.body opening.name (opening.number.map Int.ofNat)

end Opening

/-- The beginnings of groups that do not capture. -/
def groupSigns : List (Text × Behaviour) :=
  [("?:", .plain), ("?=", .look false false), ("?!", .look false true), ("?<=", .look true false),
    ("?<!", .look true true)]

/-- A group's name after its sign, which takes `width` code points; the distance of a fault counts
from the opening parenthesis. -/
def readNamed (t : Text) (width : Nat) : Reading (Behaviour × Option Text × Nat) :=
  match readGroupName? (t.drop width) with
  | some (name, nameWidth) => .ok (.capturing, some name, width + nameWidth)
  | none => .error (.invalidGroupName, width + 1)

/-- What follows an opening parenthesis up to the body of the group: its behaviour, its name, and
the number of code points that say so. -/
def readOpening (t : Text) : Reading (Behaviour × Option Text × Nat) :=
  match groupSigns.find? fun sign => Text.startsWith sign.1 t with
  | some (sign, behaviour) => .ok (behaviour, none, sign.length)
  | none =>
    match t with
    | Ascii.question :: Ascii.less :: _ => readNamed t 2
    | Ascii.question :: Ascii.upperP :: Ascii.less :: _ => readNamed t 3
    | Ascii.question :: _ => .error (.invalidGroup, 1)
    | _ => .ok (.capturing, none, 0)

/-- An anchor holds a position and cannot be repeated. -/
def isAnchor : Node → Bool
  | .anchor _ => true
  | _ => false

/-- A fault at a position. -/
def malformed (cause : Cause) (index : Nat) : Fault := .malformed ⟨cause, index⟩

/-- An atom that started at `start` with the repetition mark that follows it at `next`. -/
def readTerm (atom : Node) (start next : Nat) (rest : Text) : Except Fault (Node × Nat) :=
  match Repetition.read? rest with
  | .error .outOfOrder => .error (malformed .boundsOutOfOrder next)
  | .error (.numeral fault) => .error (.numeral fault)
  | .ok none => .ok (atom, 0)
  | .ok (some repetition) =>
    if isAnchor atom then .error (malformed .nothingToRepeat start)
    else .ok (repetition.apply atom, repetition.width)

/-- The atom at the code point `c` that is no parenthesis and no bar, with the number of code points
that it takes after `c`. -/
def readAtom (c : CodePoint) (rest : Text) : Reading (Node × Nat) :=
  if c = Ascii.openBracket then readClass rest
  else if c = Ascii.dot then .ok (.dot, 0)
  else if c = Ascii.caret then .ok (.anchor .start, 0)
  else if c = Ascii.dollar then .ok (.anchor .finish, 0)
  else if c = Ascii.backslash then readEscape false rest
  else if startsWithMark (c :: rest) then .error (.nothingToRepeat, 0)
  else .ok (.value c, 0)

namespace Progress

/-- A group is opened. -/
def openGroup (p : Progress) (pos : Nat) (behaviour : Behaviour) (name : Option Text) : Progress :=
  let number := if behaviour = .capturing then some (p.groupCount + 1) else none
  { level := {}
    openings := ⟨pos, behaviour, name, number, p.level⟩ :: p.openings
    groupCount := number.getD p.groupCount }

/-- One step at the code point `c` at `pos`: what is then read, and how many of the following code
points were taken. -/
def step (p : Progress) (pos : Nat) (c : CodePoint) (rest : Text) : Except Fault (Progress × Nat) :=
  if c = Ascii.bar then .ok ({ p with level := p.level.split }, 0)
  else if c = Ascii.closeParen then
    match p.openings with
    | [] => .error (malformed .unmatchedParenthesis pos)
    | opening :: openings => do
      let (term, width) ← readTerm (opening.close p.level) opening.openedAt (pos + 1) rest
      return ({ p with level := opening.outer.push term, openings }, width)
  else if c = Ascii.openParen then
    match readOpening rest with
    | .error (cause, distance) => .error (malformed cause (pos + distance))
    | .ok (behaviour, name, width) => .ok (p.openGroup pos behaviour name, width)
  else
    match readAtom c rest with
    | .error (cause, distance) => .error (malformed cause (pos + distance))
    | .ok (atom, width) => do
      let (term, markWidth) ← readTerm atom pos (pos + 1 + width) (rest.drop width)
      return ({ p with level := p.level.push term }, width + markWidth)

/-- The end of the pattern: no group may be open. -/
def finish (p : Progress) : Except Fault Parsed :=
  match p.openings with
  | [] => .ok ⟨p.level.root, p.groupCount⟩
  | opening :: _ => .error (malformed .unterminatedGroup opening.openedAt)

/-- The reading of a text at `pos`, of which the first code points may have been taken already. -/
def run : Nat → Nat → Progress → Text → Except Fault Parsed
  | _, _, p, [] => p.finish
  | skip + 1, pos, p, _ :: rest => run skip (pos + 1) p rest
  | 0, pos, p, c :: rest => do
    let (p, taken) ← p.step pos c rest
    run taken (pos + 1) p rest

end Progress

/-- The tree of a pattern. -/
def parse (pattern : Text) : Except Fault Parsed := Progress.run 0 0 {} pattern

end RegexTrace.Pattern
