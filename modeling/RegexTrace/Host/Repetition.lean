import RegexTrace.Host.Progress

/-!
# Repetition marks

A mark repeats the last item. It is one of three signs or bounds in braces, and a sign after it says
how the repetition behaves. A brace that opens no bounds stands for itself.
-/

namespace RegexTrace.Host

/-- The number of rounds from which on a count is too large. -/
def countLimit : Nat := 4294967295

namespace Progress

/-- A count of rounds; nothing is asked for by no digits. -/
def readCount (digits : Text) : Except Fault (Option Nat) :=
  if digits.isEmpty then .ok none
  else
    match Numeral.ofDigits digits with
    | .error fault => .error (.numeral fault)
    | .ok n => if countLimit ≤ n then .error .countTooLarge else .ok (some n)

/-- The bounds after an opening brace that was just taken; nothing if it opens none. -/
def readBounds? (cursor : Cursor) : Except Fault (Option (Nat × Option Nat × Cursor)) := do
  if cursor.next? = some (.plain Ascii.closeBrace) then return none
  let (low, after) ← cursor.takeWhile Ascii.isDigit cursor.rest.length
  let (high, after) ←
    match ← after.takeIf Ascii.comma with
    | some after => after.takeWhile Ascii.isDigit after.rest.length
    | none => pure (low, after)
  match ← after.takeIf Ascii.closeBrace with
  | none => return none
  | some after =>
    let min := (← readCount low).getD 0
    let max ← readCount high
    if max.any (· < min) then refuse .bareMinimum cursor.position
    return some (min, max, after)

/-- The bounds of the repetition mark `c` that was just taken; nothing for a literal brace. -/
def readMark? (c : CodePoint) (cursor : Cursor) :
    Except Fault (Option (Nat × Option Nat × Cursor)) :=
  if c = Ascii.question then .ok (some (0, some 1, cursor))
  else if c = Ascii.star then .ok (some (0, none, cursor))
  else if c = Ascii.plus then .ok (some (1, none, cursor))
  else readBounds? cursor

/-- The mode that a repetition mark is followed by. -/
def readMode (cursor : Cursor) : Except Fault (Mode × Cursor) := do
  match ← cursor.takeIf Ascii.question with
  | some after => return (.reluctant, after)
  | none =>
    match ← cursor.takeIf Ascii.plus with
    | some after => return (.possessive, after)
    | none => return (.greedy, cursor)

/-- The last item is repeated. Places and repetitions cannot be; `position` is that of the mark. -/
def repeatLast (p : Progress) (min : Nat) (max : Option Nat) (position : Nat) (cursor : Cursor) :
    Except Fault (Progress × Cursor) := do
  match p.level.items with
  | [] => refuse .nothingToRepeat position
  | .place _ :: _ => refuse .nothingToRepeat position
  | .repetition _ _ _ _ :: _ => refuse .multipleRepeat position
  | item :: earlier =>
    let (mode, cursor) ← readMode cursor
    let repeated := Item.repetition mode min max (item.plainBody?.getD [item])
    return ({ p with level := { p.level with items := repeated :: earlier } }, cursor)

/-- The repetition mark `c` was just taken. -/
def readRepetition (p : Progress) (c : CodePoint) (cursor : Cursor) :
    Except Fault (Progress × Cursor) := do
  match ← readMark? c cursor with
  | none => return (p.push (.literal false c), cursor)
  | some (min, max, after) => p.repeatLast min max (cursor.position - 1) after

end Progress

end RegexTrace.Host
