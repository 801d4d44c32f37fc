import RegexTrace.Host.InlineFlags
import RegexTrace.Host.Progress
import RegexTrace.Unicode.Identifier

/-!
# Groups and what else stands in parentheses

An opening parenthesis opens a group, or it begins a reference by name, a comment or flags. A
closing one turns the innermost open group into an item.
-/

namespace RegexTrace.Host

/-- The number from which on no group can be referred to. -/
def groupLimit : Nat := 1073741823

namespace Progress

/-- A group is opened. -/
def openGroup (p : Progress) (openedAt : Nat) (kind : Opening.Kind) (verbose : Bool) : Progress :=
  { p with level := {}, openings := ⟨openedAt, kind, p.verbose, p.level⟩ :: p.openings, verbose }

/-- A capturing group is opened, possibly with a name that was just taken with its closing sign. -/
def openCapture (p : Progress) (openedAt : Nat) (name : Option Text) (cursor : Cursor) :
    Except Fault Progress :=
  let number := p.groupCount + 1
  let opened := { p with groupCount := number }.openGroup openedAt (.capture number) p.verbose
  match name with
  | none => .ok opened
  | some name =>
    match p.names.lookup name with
    | some earlier =>
      refuse (.redefinedGroup name number earlier) (cursor.position - (name.length + 1))
    | none => .ok { opened with names := (name, number) :: p.names }

/-- A name that was just taken with its closing sign must be an identifier. -/
def checkName (name : Text) (cursor : Cursor) : Except Fault Unit :=
  if Unicode.isIdentifier name then .ok ()
  else refuse (.badGroupName name) (cursor.position - (name.length + 1))

/-- A reference by name. -/
def readNamedReference (p : Progress) (cursor : Cursor) : Except Fault (Progress × Cursor) := do
  let (name, cursor) ← cursor.takeUntil Ascii.closeParen "group name"
  checkName name cursor
  let position := cursor.position - (name.length + 1)
  match p.names.lookup name with
  | none => refuse (.unknownGroupName name) position
  | some group =>
    let item ← p.reference group position cursor
    return (p.push item, cursor)

/-- What follows `(?P`. -/
def readExtension (p : Progress) (openedAt : Nat) (cursor : Cursor) :
    Except Fault (Progress × Cursor) := do
  match ← cursor.takeIf Ascii.less with
  | some cursor =>
    let (name, cursor) ← cursor.takeUntil Ascii.greater "group name"
    checkName name cursor
    return (← p.openCapture openedAt (some name) cursor, cursor)
  | none =>
    match ← cursor.takeIf Ascii.equals with
    | some cursor => p.readNamedReference cursor
    | none =>
      match ← cursor.take with
      | (none, cursor) => refuse .unexpectedEnd cursor.position
      | (some token, cursor) =>
        refuse (.unknownExtension (Text.ofString "P" ++ token.text))
          (cursor.position - (token.text.length + 2))

/-- A comment up to its closing parenthesis. -/
def skipComment (openedAt : Nat) : Nat → Cursor → Except Fault Cursor
  | 0, cursor => .ok cursor
  | fuel + 1, cursor => do
    match ← cursor.take with
    | (none, _) => refuse .unterminatedComment openedAt
    | (some token, after) =>
      if token = .plain Ascii.closeParen then return after else skipComment openedAt fuel after

/-- What follows `(?<`: an assertion about what stands before. -/
def readBehind (p : Progress) (openedAt : Nat) (cursor : Cursor) :
    Except Fault (Progress × Cursor) := do
  match ← cursor.take with
  | (none, cursor) => refuse .unexpectedEnd cursor.position
  | (some token, cursor) =>
    if token = .plain Ascii.equals ∨ token = .plain Ascii.bang then
      let negated := decide (token = .plain Ascii.bang)
      let limit := p.lookbehindLimit.getD (p.groupCount + 1)
      let opened := p.openGroup openedAt (.behind negated p.lookbehindLimit.isNone) p.verbose
      return ({ opened with lookbehindLimit := some limit }, cursor)
    else
      refuse (.unknownExtension (Text.ofString "<" ++ token.text))
        (cursor.position - (token.text.length + 2))

/-- The number of the group that a condition asks for, by its name or its number. -/
def conditionGroup (p : Progress) (name : Text) (cursor : Cursor) : Except Fault (Nat × Progress) :=
  let position := cursor.position - (name.length + 1)
  if Unicode.isIdentifier name then
    match p.names.lookup name with
    | some group => .ok (group, p)
    | none => refuse (.unknownGroupName name) position
  else
    match Numeral.toInt name with
    | .ok (.ofNat 0) => refuse .badGroupNumber position
    | .ok (.ofNat group) =>
      if groupLimit ≤ group then refuse (.invalidReference group) position
      else if (p.conditions.lookup group).isSome then .ok (group, p)
      else .ok (group, { p with conditions := p.conditions ++ [(group, position)] })
    | _ => refuse (.badGroupName name) position

/-- What follows `(?(`: a condition on a group. -/
def readCondition (p : Progress) (openedAt : Nat) (cursor : Cursor) :
    Except Fault (Progress × Cursor) := do
  let (name, cursor) ← cursor.takeUntil Ascii.closeParen "group name"
  let (group, p) ← p.conditionGroup name cursor
  p.checkLookbehind group cursor.position
  return (p.openGroup openedAt (.condition group) p.verbose, cursor)

/-- Nothing has been read that could be matched. -/
def isAtStart (p : Progress) : Bool :=
  p.openings.isEmpty && p.level.branches.isEmpty && p.level.items.isEmpty

/-- Flags that begin with `c`, which was just taken. -/
def readFlags (p : Progress) (openedAt : Nat) (c : CodePoint) (cursor : Cursor) :
    Except Fault (Progress × Cursor) := do
  match ← readInlineFlags c cursor with
  | (.everywhere on, cursor) =>
    if !p.isAtStart then refuse .lateGlobalFlags openedAt
    let flags := p.flags.union on
    return ({ p with flags, verbose := flags.verbose }, cursor)
  | (.within on off, cursor) =>
    let verbose := (p.verbose || on.verbose) && !off.verbose
    return (p.openGroup openedAt (.plain on off) verbose, cursor)

/-- What follows `(?`, of which the first token was just taken. -/
def readOption (p : Progress) (openedAt : Nat) (token : Token) (cursor : Cursor) :
    Except Fault (Progress × Cursor) :=
  let unknown : Except Fault (Progress × Cursor) :=
    refuse (.unknownExtension token.text) (cursor.position - (token.text.length + 1))
  match token.plain? with
  | none => unknown
  | some c =>
    if c = Ascii.upperP then p.readExtension openedAt cursor
    else if c = Ascii.colon then .ok (p.openGroup openedAt (.plain {} {}) p.verbose, cursor)
    else if c = Ascii.hash then
      (skipComment openedAt (cursor.rest.length + 1) cursor).map fun cursor => (p, cursor)
    else if c = Ascii.equals then .ok (p.openGroup openedAt (.ahead false) p.verbose, cursor)
    else if c = Ascii.bang then .ok (p.openGroup openedAt (.ahead true) p.verbose, cursor)
    else if c = Ascii.less then p.readBehind openedAt cursor
    else if c = Ascii.openParen then p.readCondition openedAt cursor
    else if c = Ascii.greater then .ok (p.openGroup openedAt .atomic p.verbose, cursor)
    else if c = Ascii.hyphen ∨ namesFlag c then p.readFlags openedAt c cursor
    else unknown

/-- An opening parenthesis was just taken. -/
def readGroup (p : Progress) (cursor : Cursor) : Except Fault (Progress × Cursor) := do
  let openedAt := cursor.position - 1
  match ← cursor.takeIf Ascii.question with
  | none => return (← p.openCapture openedAt none cursor, cursor)
  | some cursor =>
    match ← cursor.take with
    | (none, cursor) => refuse .unexpectedEnd cursor.position
    | (some token, cursor) => p.readOption openedAt token cursor

/-- The item that an opening becomes when its level is complete. -/
def itemOf (kind : Opening.Kind) (level : Level) : Item :=
  match kind with
  | .capture number => .group (some number) {} {} level.body
  | .plain on off => .group none on off level.body
  | .atomic => .atomic level.body
  | .ahead negated => .ahead negated level.body
  | .behind negated _ => .behind negated (Item.bodyWidths level.body) level.body
  | .condition group =>
    match level.allBranches with
    | yes :: no :: _ => .condition group yes (some no)
    | [yes] => .condition group yes none
    | [] => .condition group [] none

/-- The innermost open group is complete. -/
def closeGroup (p : Progress) (opening : Opening) (openings : List Opening) : Progress :=
  let closed :=
    { p with
      level := opening.outer.push (itemOf opening.kind p.level)
      openings
      verbose := opening.verboseOutside }
  match opening.kind with
  | .capture number =>
    { closed with widths := (number, Item.bodyWidths p.level.body) :: p.widths }
  | .behind _ true => { closed with lookbehindLimit := none }
  | _ => closed

/-- A bar ends a branch. A condition has at most two; at the top, the flags of the whole pattern say
again whether blanks are skipped. -/
def splitBranch (p : Progress) (position : Nat) : Except Fault Progress :=
  let split := { p with level := p.level.split }
  match p.openings with
  | [] => .ok { split with verbose := p.flags.verbose }
  | { kind := .condition _, .. } :: _ =>
    if p.level.branches.isEmpty then .ok split else refuse .conditionalBranches position
  | _ => .ok split

end Progress

end RegexTrace.Host
