import RegexTrace.Host.Escape

/-!
# Sets of the host

The items between brackets. A closing bracket in the first place is an item; a range sign before the
closing bracket is one too. A set of one literal is that literal.
-/

namespace RegexTrace.Host

/-- The item that an escape is inside a set. -/
def setItemOfEscape : Escape → SetItem
  | .character c => .literal c
  | .category kind => .category kind
  | .place _ | .reference _ => .literal 0

/-- The item that starts with a token, which was just taken. -/
def readSetItem [CharacterNames] (token : Token) (cursor : Cursor) :
    Except Fault (SetItem × Cursor) :=
  match token with
  | .escaped c =>
    (readSetEscape c cursor).map fun (escape, cursor) => (setItemOfEscape escape, cursor)
  | .plain c => .ok (.literal c, cursor)
  | .dangling => .ok (.literal Ascii.backslash, cursor)

/-- A range has literals at both ends, the lower one first. -/
def rangeOf (low high : SetItem) (lowToken highToken : Token) (cursor : Cursor) :
    Except Fault SetItem :=
  let bad :=
    refuse (.badRange lowToken.text highToken.text)
      (cursor.position - (lowToken.text.length + 1 + highToken.text.length))
  match low, high with
  | .literal low, .literal high => if high < low then bad else .ok (.range low high)
  | _, _ => bad

/-- One step inside a set after `token` was taken: the items it gives, and whether the set is closed
by it. `opened` is the position of the opening bracket. -/
def readSetStep [CharacterNames] (opened : Nat) (token : Token) (cursor : Cursor) :
    Except Fault (List SetItem × Bool × Cursor) := do
  let (low, cursor) ← readSetItem token cursor
  match ← cursor.takeIf Ascii.hyphen with
  | none => return ([low], false, cursor)
  | some cursor =>
    match ← cursor.take with
    | (none, _) => refuse .unterminatedSet opened
    | (some (.plain Ascii.closeBracket), cursor) =>
      return ([low, .literal Ascii.hyphen], true, cursor)
    | (some highToken, cursor) =>
      let (high, cursor) ← readSetItem highToken cursor
      let range ← rangeOf low high token highToken cursor
      return ([range], false, cursor)

/-- The items up to the closing bracket, after the items read so far. -/
def readSetItems [CharacterNames] (opened : Nat) : Nat → List SetItem → Cursor →
    Except Fault (List SetItem × Cursor)
  | 0, items, cursor => .ok (items, cursor)
  | fuel + 1, items, cursor => do
    match ← cursor.take with
    | (none, _) => refuse .unterminatedSet opened
    | (some token, after) =>
      if token = .plain Ascii.closeBracket ∧ !items.isEmpty then return (items, after)
      let (found, closed, after) ← readSetStep opened token after
      if closed then return (items ++ found, after)
      readSetItems opened fuel (items ++ found) after

/-- The item of a set: a set of one literal, however often it is repeated, is that literal. -/
def itemOfSet (negated : Bool) (items : List SetItem) : Item :=
  match items.eraseDups with
  | [.literal c] => .literal negated c
  | items => .set negated items

/-- The set whose opening bracket was just taken. -/
def readSet [CharacterNames] (cursor : Cursor) : Except Fault (Item × Cursor) := do
  let opened := cursor.position - 1
  let (negated, cursor) ←
    match ← cursor.takeIf Ascii.caret with
    | some cursor => pure (true, cursor)
    | none => pure (false, cursor)
  let (items, cursor) ← readSetItems opened (cursor.rest.length + 1) [] cursor
  return (itemOfSet negated items, cursor)

end RegexTrace.Host
