import RegexTrace.Host.CharacterSet
import RegexTrace.Host.Check
import RegexTrace.Host.Group
import RegexTrace.Host.Repetition

/-!
# From a pattern to a program of the host

A pattern is read token by token, and then the finished items are checked.

## Implementation notes

Every step takes at least one token, so the number of tokens bounds the steps.
-/

namespace RegexTrace.Host

namespace Progress

/-- Blanks that are skipped in verbose patterns. -/
def isSkipped (token : Token) : Bool :=
  match token with
  | .plain c => c == Ascii.space || (Ascii.tab ≤ c && c ≤ Ascii.carriageReturn)
  | _ => false

/-- A comment of a verbose pattern, up to the end of its line. -/
def skipLine : Nat → Cursor → Except Fault Cursor
  | 0, cursor => .ok cursor
  | fuel + 1, cursor => do
    match ← cursor.take with
    | (none, after) => return after
    | (some token, after) =>
      if token = .plain Ascii.newline then return after else skipLine fuel after

/-- One token that is no bar and no closing parenthesis was just taken. -/
def readToken [CharacterNames] (p : Progress) (token : Token) (cursor : Cursor) :
    Except Fault (Progress × Cursor) :=
  if p.verbose && isSkipped token then .ok (p, cursor)
  else if p.verbose && token == .plain Ascii.hash then
    (skipLine (cursor.rest.length + 1) cursor).map fun cursor => (p, cursor)
  else
    match token with
    | .dangling => refuse .danglingBackslash cursor.position
    | .escaped c => (p.readEscape c cursor).map fun (item, cursor) => (p.push item, cursor)
    | .plain c =>
      if c = Ascii.openBracket then
        (readSet cursor).map fun (item, cursor) => (p.push item, cursor)
      else if c = Ascii.star ∨ c = Ascii.plus ∨ c = Ascii.question ∨ c = Ascii.openBrace then
        p.readRepetition c cursor
      else if c = Ascii.dot then .ok (p.push .any, cursor)
      else if c = Ascii.openParen then p.readGroup cursor
      else if c = Ascii.caret then .ok (p.push (.place .start), cursor)
      else if c = Ascii.dollar then .ok (p.push (.place .finish), cursor)
      else .ok (p.push (.literal false c), cursor)

/-- The end of the pattern at the top: the flags must agree, no parenthesis may be left, and every
group that a condition asks for must exist. -/
def finish (p : Progress) (cursor : Cursor) : Except Fault Program :=
  if p.flags.ascii && p.flags.unicode then .error .contradictoryClasses
  else if cursor.next?.isSome then refuse .unbalancedParenthesis cursor.position
  else
    match p.conditions.find? fun condition => p.groupCount < condition.1 with
    | some (group, position) => refuse (.invalidReference group) position
    | none => .ok ⟨p.level.body, p.flags, p.groupCount⟩

/-- The steps from a cursor on. -/
def run [CharacterNames] : Nat → Progress → Cursor → Except Fault Program
  | 0, p, cursor => p.finish cursor
  | fuel + 1, p, cursor =>
    match cursor.next?, p.openings with
    | none, [] => p.finish cursor
    | none, opening :: _ => refuse .missingParenthesis opening.openedAt
    | some (.plain Ascii.closeParen), [] => p.finish cursor
    | some (.plain Ascii.closeParen), opening :: openings => do
      let (_, after) ← cursor.take
      run fuel (p.closeGroup opening openings) after
    | some (.plain Ascii.bar), _ => do
      let split ← p.splitBranch cursor.position
      let (_, after) ← cursor.take
      run fuel split after
    | some token, _ => do
      let (_, after) ← cursor.take
      let (p, after) ← p.readToken token after
      run fuel p after

end Progress

/-- The program of a pattern in the host's notation. -/
def compile [CharacterNames] (flags : Flags) (pattern : Text) : Except Fault Program := do
  let cursor ← Cursor.start pattern
  let program ← Progress.run (cursor.rest.length + 1) { flags, verbose := flags.verbose } cursor
  checkItems program.flags program.body
  return program

end RegexTrace.Host
