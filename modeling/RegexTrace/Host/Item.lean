import RegexTrace.Node.Basic

/-!
# Patterns of the host engine

The host reads a pattern into items of its own. It knows constructs that pattern trees have no node
for: references, atomic groups, repetitions that give nothing back, conditions on groups, and flags
that hold inside a group.
-/

namespace RegexTrace.Host

/-- The flags of the host. -/
structure Flags where
  ignoreCase : Bool := false
  multiline : Bool := false
  dotAll : Bool := false
  verbose : Bool := false
  /-- Classes hold ASCII characters only. -/
  ascii : Bool := false
  /-- Classes hold all characters, which is the rule anyway. -/
  unicode : Bool := false
  template : Bool := false
  deriving DecidableEq, Repr

/-- An item of a set. -/
inductive SetItem
  | literal (c : CodePoint)
  | range (low high : CodePoint)
  | category (kind : EscapeKind)
  deriving DecidableEq, Repr

/-- A condition on a position. -/
inductive Place
  /-- The start of the text, or of a line in multiline mode. -/
  | start
  /-- The end of the text, also before a final newline, or of a line in multiline mode. -/
  | finish
  | textStart
  | textEnd
  | boundary
  | notBoundary
  deriving DecidableEq, Repr

/-- How a repetition chooses the number of its rounds. -/
inductive Mode
  | greedy
  | reluctant
  /-- As many rounds as possible, none of which is given back. -/
  | possessive
  deriving DecidableEq, Repr

/-- The least and the greatest width of what an item matches. -/
abbrev Widths := Nat × Nat

/-- An item of a pattern. -/
inductive Item
  /-- One literal code point, or any other one. -/
  | literal (negated : Bool) (c : CodePoint)
  | any
  | set (negated : Bool) (items : List SetItem)
  | place (place : Place)
  /-- What a group has matched, with the widths of the group. -/
  | reference (group : Nat) (widths : Widths)
  /-- A group, with its number if it captures and the flags it turns on and off. -/
  | group (number : Option Nat) (on off : Flags) (body : List Item)
  | atomic (body : List Item)
  | ahead (negated : Bool) (body : List Item)
  /-- An assertion about what stands before, with the widths of its body. -/
  | behind (negated : Bool) (widths : Widths) (body : List Item)
  | branch (branches : List (List Item))
  | repetition (mode : Mode) (min : Nat) (max : Option Nat) (body : List Item)
  | condition (group : Nat) (yes : List Item) (no : Option (List Item))
  deriving Repr

/-- A pattern that was compiled. -/
structure Program where
  body : List Item
  flags : Flags
  /-- The number of capturing groups. -/
  groupCount : Nat
  deriving Repr

namespace Flags

/-- All flags that either operand has. -/
def union (f g : Flags) : Flags where
  ignoreCase := f.ignoreCase || g.ignoreCase
  multiline := f.multiline || g.multiline
  dotAll := f.dotAll || g.dotAll
  verbose := f.verbose || g.verbose
  ascii := f.ascii || g.ascii
  unicode := f.unicode || g.unicode
  template := f.template || g.template

/-- The flags of the first operand that the second one has not. -/
def without (f g : Flags) : Flags where
  ignoreCase := f.ignoreCase && !g.ignoreCase
  multiline := f.multiline && !g.multiline
  dotAll := f.dotAll && !g.dotAll
  verbose := f.verbose && !g.verbose
  ascii := f.ascii && !g.ascii
  unicode := f.unicode && !g.unicode
  template := f.template && !g.template

/-- Some flag is set. -/
def any (f : Flags) : Bool :=
  f.ignoreCase || f.multiline || f.dotAll || f.verbose || f.ascii || f.unicode || f.template

/-- Operands that share a flag. -/
def meets (f g : Flags) : Bool :=
  (f.ignoreCase && g.ignoreCase) || (f.multiline && g.multiline) || (f.dotAll && g.dotAll) ||
    (f.verbose && g.verbose) || (f.ascii && g.ascii) || (f.unicode && g.unicode) ||
    (f.template && g.template)

/-- The flags inside a group: a choice of classes replaces the one outside. -/
def inside (f on off : Flags) : Flags :=
  let kept := if on.ascii || on.unicode then { f with ascii := false, unicode := false } else f
  (kept.union on).without off

/-- The flag with a letter. -/
def ofLetter? (c : CodePoint) : Option Flags :=
  if c = 'i'.toNat then some { ignoreCase := true }
  else if c = 'm'.toNat then some { multiline := true }
  else if c = 's'.toNat then some { dotAll := true }
  else if c = 'x'.toNat then some { verbose := true }
  else if c = 'a'.toNat then some { ascii := true }
  else if c = 't'.toNat then some { template := true }
  else if c = 'u'.toNat then some { unicode := true }
  else none

/-- The flags that a pattern is compiled with; letters without a meaning are ignored. -/
def ofText (flags : Text) : Flags where
  ignoreCase := flags.contains 'i'.toNat
  multiline := flags.contains 'm'.toNat
  dotAll := flags.contains 's'.toNat

end Flags

namespace Item

/-- No width is counted beyond this one. -/
def widthLimit : Nat := Nat.pow 2 64

/-- A sum of widths up to the limit. -/
def capWidths (w : Widths) : Widths := (Nat.min w.1 widthLimit, Nat.min w.2 widthLimit)

/-- The widths of a number of rounds. -/
def repeatWidths (min : Nat) (max : Option Nat) (w : Widths) : Widths :=
  (w.1 * min,
    match max with
    | some max => w.2 * max
    | none => if w.2 = 0 then 0 else widthLimit)

mutual

/-- The widths of an item. -/
def widths : Item → Widths
  | .literal _ _ => (1, 1)
  | .any => (1, 1)
  | .set _ _ => (1, 1)
  | .place _ => (0, 0)
  | .reference _ w => w
  | .group _ _ _ body => bodyWidths body
  | .atomic body => bodyWidths body
  | .ahead _ _ => (0, 0)
  | .behind _ _ _ => (0, 0)
  | .branch branches => branchWidths branches
  | .repetition _ min max body => repeatWidths min max (bodyWidths body)
  | .condition _ yes no =>
    match no with
    | none => (0, (bodyWidths yes).2)
    | some no =>
      (Nat.min (bodyWidths yes).1 (bodyWidths no).1, Nat.max (bodyWidths yes).2 (bodyWidths no).2)

/-- The widths of items one after the other. -/
def bodyWidths (items : List Item) : Widths := capWidths (sumWidths items)

/-- The sums of the widths of items. -/
def sumWidths : List Item → Widths
  | [] => (0, 0)
  | item :: rest => ((widths item).1 + (sumWidths rest).1, (widths item).2 + (sumWidths rest).2)

/-- The least and the greatest width of several branches. -/
def branchWidths : List (List Item) → Widths
  | [] => (widthLimit, 0)
  | body :: rest =>
    (Nat.min (bodyWidths body).1 (branchWidths rest).1,
      Nat.max (bodyWidths body).2 (branchWidths rest).2)

end

end Item

end RegexTrace.Host
