import RegexTrace.Host.Fault

/-!
# Reading a pattern by tokens

The host reads a pattern by tokens: single code points, and backslashes together with the code point
after them. It always looks one token ahead, so a backslash that ends the pattern is refused as soon
as the token before it has been taken.

## Implementation notes

A cursor is a position with the tokens from there on. Readers take a cursor and answer with a value
and a cursor further on.
-/

namespace RegexTrace.Host

/-- A token of a pattern. -/
inductive Token
  | plain (c : CodePoint)
  | escaped (c : CodePoint)
  /-- A backslash with nothing after it. -/
  | dangling
  deriving DecidableEq, Repr

namespace Token

/-- The code points of a token. -/
def text : Token → Text
  | .plain c => [c]
  | .escaped c => [Ascii.backslash, c]
  | .dangling => [Ascii.backslash]

/-- The tokens of a text. -/
def split : Text → List Token
  | [] => []
  | [c] => if c = Ascii.backslash then [.dangling] else [.plain c]
  | c :: d :: rest =>
    if c = Ascii.backslash then .escaped d :: split rest else .plain c :: split (d :: rest)

/-- The code point of a token that is one. -/
def plain? : Token → Option CodePoint
  | .plain c => some c
  | _ => none

end Token

/-- A position of a pattern with the tokens from there on. -/
structure Cursor where
  position : Nat
  rest : List Token
  deriving Repr

namespace Cursor

/-- The next token must not be a dangling backslash. -/
def check (cursor : Cursor) : Except Fault Cursor :=
  match cursor.rest with
  | .dangling :: _ => refuse .danglingBackslash cursor.position
  | _ => .ok cursor

/-- The start of a pattern. -/
def start (pattern : Text) : Except Fault Cursor := check ⟨0, Token.split pattern⟩

/-- The next token. -/
def next? (cursor : Cursor) : Option Token := cursor.rest.head?

/-- The next token is taken; at the end there is none. -/
def take (cursor : Cursor) : Except Fault (Option Token × Cursor) :=
  match cursor.rest with
  | [] => .ok (none, cursor)
  | token :: rest =>
    (check ⟨cursor.position + token.text.length, rest⟩).map fun after => (some token, after)

/-- A given code point is taken if it comes next. -/
def takeIf (c : CodePoint) (cursor : Cursor) : Except Fault (Option Cursor) :=
  if cursor.next? = some (.plain c) then cursor.take.map fun (_, after) => some after else .ok none

/-- The code points with some property that come next are taken, at most `count` of them. -/
def takeWhile (property : CodePoint → Bool) : Nat → Cursor → Except Fault (Text × Cursor)
  | 0, cursor => .ok ([], cursor)
  | count + 1, cursor =>
    match cursor.next? with
    | some (.plain c) =>
      if property c then do
        let (_, after) ← cursor.take
        let (more, last) ← takeWhile property count after
        return (c :: more, last)
      else .ok ([], cursor)
    | _ => .ok ([], cursor)

/-- The tokens before a terminator, which is taken too. `what` names what is asked for and `found`
holds what was taken so far. -/
def takeUntilFrom (terminator : CodePoint) (what : Text) : Nat → Text → Cursor →
    Except Fault (Text × Cursor)
  | 0, found, cursor => .ok (found, cursor)
  | fuel + 1, found, cursor => do
    match ← cursor.take with
    | (none, after) =>
      if found.isEmpty then refuse (.missingText what) after.position
      else refuse (.unterminatedText terminator) (after.position - found.length)
    | (some token, after) =>
      if token = .plain terminator then
        if found.isEmpty then refuse (.missingText what) (after.position - 1)
        else .ok (found, after)
      else takeUntilFrom terminator what fuel (found ++ token.text) after

/-- The text before a terminator, which is taken too; it must not be empty. -/
def takeUntil (terminator : CodePoint) (what : Text) (cursor : Cursor) :
    Except Fault (Text × Cursor) :=
  takeUntilFrom terminator what (cursor.rest.length + 1) [] cursor

end Cursor

end RegexTrace.Host
