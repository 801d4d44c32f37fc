import RegexTrace.Host.Cursor
import RegexTrace.Host.Item
import RegexTrace.Unicode.Category

/-!
# Flags inside a pattern

A pattern may set flags for the whole of itself, at its start, or turn flags on and off for a group.
-/

namespace RegexTrace.Host

/-- What a list of flags is for. -/
inductive InlineFlags
  /-- Flags for the whole pattern. -/
  | everywhere (on : Flags)
  /-- Flags for the group that they open. -/
  | within (on off : Flags)

/-- The letter of a flag that exists but cannot be used. -/
def localeLetter : CodePoint := 'L'.toNat

/-- A code point that names a flag. -/
def namesFlag (c : CodePoint) : Bool := c == localeLetter || (Flags.ofLetter? c).isSome

/-- A choice of classes. -/
def Flags.choosesClasses (f : Flags) : Bool := f.ascii || f.unicode

/-- A token in the place of a flag that names none is refused, as an unknown flag if it is a
letter. -/
def refuseFlag (otherwise : Cause) (token : Token) (cursor : Cursor) : Except Fault α :=
  match token.plain? with
  | some c =>
    if Unicode.isLetter c then refuse .unknownFlag (cursor.position - 1)
    else refuse otherwise (cursor.position - 1)
  | none => refuse otherwise (cursor.position - token.text.length)

/-- The flags that are turned on, beginning with the letter `c` that was just taken, and the code
point that ends them. -/
def readFlagsOn : Nat → Flags → CodePoint → Cursor → Except Fault (Flags × CodePoint × Cursor)
  | 0, on, c, cursor => .ok (on, c, cursor)
  | fuel + 1, on, c, cursor => do
    if c = localeLetter then refuse .localeFlag cursor.position
    let flag := (Flags.ofLetter? c).getD {}
    let on := on.union flag
    if flag.choosesClasses ∧ on.ascii ∧ on.unicode then refuse .incompatibleFlags cursor.position
    match ← cursor.take with
    | (none, after) => refuse .missingFlagEnd after.position
    | (some token, after) =>
      match token.plain? with
      | some d =>
        if d = Ascii.closeParen ∨ d = Ascii.hyphen ∨ d = Ascii.colon then return (on, d, after)
        else if namesFlag d then readFlagsOn fuel on d after
        else refuseFlag .missingFlagEnd token after
      | none => refuseFlag .missingFlagEnd token after

/-- The flags that are turned off, beginning with the letter `c` that was just taken. -/
def readFlagsOff : Nat → Flags → CodePoint → Cursor → Except Fault (Flags × Cursor)
  | 0, off, _, cursor => .ok (off, cursor)
  | fuel + 1, off, c, cursor => do
    let flag := (Flags.ofLetter? c).getD {}
    if c = localeLetter ∨ flag.choosesClasses then refuse .typeFlagOff cursor.position
    let off := off.union flag
    match ← cursor.take with
    | (none, after) => refuse .missingColon after.position
    | (some token, after) =>
      match token.plain? with
      | some d =>
        if d = Ascii.colon then return (off, after)
        else if namesFlag d then readFlagsOff fuel off d after
        else refuseFlag .missingColon token after
      | none => refuseFlag .missingColon token after

/-- The flags after the hyphen that was just taken. -/
def readFlagsAfterHyphen (cursor : Cursor) : Except Fault (Flags × Cursor) := do
  match ← cursor.take with
  | (none, after) => refuse .missingFlag after.position
  | (some token, after) =>
    match token.plain? with
    | some c =>
      if namesFlag c then readFlagsOff (after.rest.length + 1) {} c after
      else refuseFlag .missingFlag token after
    | none => refuseFlag .missingFlag token after

/-- The flags that begin with `c`, which was just taken: a flag or a hyphen. -/
def readInlineFlags (c : CodePoint) (cursor : Cursor) : Except Fault (InlineFlags × Cursor) := do
  let (on, last, cursor) ←
    if c = Ascii.hyphen then pure ({}, c, cursor)
    else readFlagsOn (cursor.rest.length + 1) {} c cursor
  if last = Ascii.closeParen then return (.everywhere on, cursor)
  if on.template then refuse .globalFlagOn (cursor.position - 1)
  let (off, cursor) ←
    if last = Ascii.hyphen then readFlagsAfterHyphen cursor else pure ({}, cursor)
  if off.template then refuse .globalFlagOff (cursor.position - 1)
  if on.meets off then refuse .flagOnAndOff (cursor.position - 1)
  return (.within on off, cursor)

end RegexTrace.Host
