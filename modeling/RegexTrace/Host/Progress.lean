import RegexTrace.Host.Branches
import RegexTrace.Host.Escape

/-!
# What has been read of a pattern

As with pattern trees, a level is filled for each open group and for the pattern as a whole. Beside
the items, it is kept which flags the whole pattern has, the names and the widths of the groups, and
how far references may reach from inside an assertion about what stands before.
-/

namespace RegexTrace.Host

/-- What an open group will become. -/
inductive Opening.Kind
  | capture (number : Nat)
  | plain (on off : Flags)
  | atomic
  | ahead (negated : Bool)
  /-- A lookbehind, and whether it is inside no other one. -/
  | behind (negated outermost : Bool)
  | condition (group : Nat)

/-- The complete branches of a level and the items of the one being filled, the latest first. -/
structure Level where
  branches : List (List Item) := []
  items : List Item := []

/-- A group that is still open. -/
structure Opening where
  openedAt : Nat
  kind : Opening.Kind
  /-- Whether blanks and comments are skipped outside the group. -/
  verboseOutside : Bool
  outer : Level

/-- What has been read. -/
structure Progress where
  flags : Flags
  verbose : Bool
  level : Level := {}
  openings : List Opening := []
  groupCount : Nat := 0
  names : List (Text × Nat) := []
  /-- The widths of the groups that are complete. -/
  widths : List (Nat × Widths) := []
  /-- Inside a lookbehind, the number of the first group that cannot be referred to. -/
  lookbehindLimit : Option Nat := none
  /-- The groups that conditions ask for by number, with the places where they first do. -/
  conditions : List (Nat × Nat) := []

namespace Level

/-- An item is added to the branch being filled. -/
def push (level : Level) (item : Item) : Level := { level with items := item :: level.items }

/-- The branch being filled is complete, and an empty one begins. -/
def split (level : Level) : Level := ⟨completeBranch level.items.reverse :: level.branches, []⟩

/-- All branches in order. -/
def allBranches (level : Level) : List (List Item) := level.split.branches.reverse

/-- The items of a level. -/
def body (level : Level) : List Item := itemsOfBranches level.allBranches

end Level

namespace Progress

/-- An item is added. -/
def push (p : Progress) (item : Item) : Progress := { p with level := p.level.push item }

/-- A group is complete and can be referred to. -/
def isComplete (p : Progress) (group : Nat) : Bool := (p.widths.lookup group).isSome

/-- Inside a lookbehind, only groups that are complete and stand before it can be referred to. -/
def checkLookbehind (p : Progress) (group position : Nat) : Except Fault Unit :=
  match p.lookbehindLimit with
  | none => .ok ()
  | some limit =>
    if !p.isComplete group then refuse .openReference position
    else if limit ≤ group then refuse .lookbehindReference position
    else .ok ()

/-- A reference to a group that must be complete; `position` is where an open group is refused. -/
def reference (p : Progress) (group position : Nat) (cursor : Cursor) : Except Fault Item := do
  match p.widths.lookup group with
  | none => refuse .openReference position
  | some widths =>
    p.checkLookbehind group cursor.position
    return .reference group widths

/-- The item of an escape whose code point after the backslash was just taken. -/
def readEscape [CharacterNames] (p : Progress) (c : CodePoint) (cursor : Cursor) :
    Except Fault (Item × Cursor) := do
  let ((escape, spelling), cursor) ← readItemEscape c cursor
  match escape with
  | .character c => return (.literal false c, cursor)
  | .category kind => return (.set false [.category kind], cursor)
  | .place place => return (.place place, cursor)
  | .reference group =>
    if p.groupCount < group then
      refuse (.invalidReference group) (cursor.position - spelling.length)
    else
      let item ← p.reference group (cursor.position - (spelling.length + 1)) cursor
      return (item, cursor)

end Progress

end RegexTrace.Host
