import RegexTrace.Pattern.Escape

/-!
# Classes in brackets

The items between brackets are single code points, escapes, and ranges between two single code
points. A range sign next to an escape for a class is an item itself, and so is one before the
closing bracket. A closing bracket always closes; an empty class is allowed.
-/

namespace RegexTrace.Pattern

/-- One end of a range, or an item of its own. -/
def readClassAtom : Text → Reading (Node × Nat)
  | Ascii.backslash :: rest =>
    (readEscape true rest).map fun (node, width) => (node, width + 1)
  | c :: _ => .ok (.value c, 1)
  | [] => .error (.unterminatedClass, 0)

/-- Whether a range sign and an upper end follow. -/
def rangeFollows : Text → Bool
  | Ascii.hyphen :: c :: _ => c != Ascii.closeBracket
  | _ => false

/-- The items for two ends with a range sign between them; `width` code points were read. -/
def rangeItems (lower upper : Node) (width : Nat) : Reading (List Node × Nat) :=
  match lower, upper with
  | .value low, .value high =>
    if high < low then .error (.rangeOutOfOrder, width) else .ok ([.range low high], width)
  | lower, upper => .ok ([lower, .value Ascii.hyphen, upper], width)

/-- The items at the start of a text: one, a range, or what a range sign next to a class gives. -/
def readClassItems (t : Text) : Reading (List Node × Nat) := do
  let (lower, width) ← readClassAtom t
  let rest := t.drop width
  if rangeFollows rest then
    match readClassAtom rest.tail with
    | .error (cause, distance) => .error (cause, width + 1 + distance)
    | .ok (upper, upperWidth) => rangeItems lower upper (width + 1 + upperWidth)
  else
    return ([lower], width)

/-- The items up to the closing bracket. Code points that belong to the last items are skipped;
`distance` counts the code points from the opening bracket, and `items` holds what was read, the
latest first. -/
def readClassBody : Nat → Nat → List Node → Text → Reading (List Node × Nat)
  | _, _, _, [] => .error (.unterminatedClass, 0)
  | skip + 1, distance, items, _ :: rest => readClassBody skip (distance + 1) items rest
  | 0, distance, items, c :: rest =>
    if c = Ascii.closeBracket then .ok (items.reverse, distance + 1)
    else
      match readClassItems (c :: rest) with
      | .error (cause, further) => .error (cause, distance + further)
      | .ok (found, width) =>
        readClassBody (width - 1) (distance + 1) (found.reverse ++ items) rest

/-- The class whose text after the opening bracket is given, with the number of code points after
that bracket that it takes. Distances of faults are counted from the opening bracket. -/
def readClass (t : Text) : Reading (Node × Nat) :=
  match t with
  | Ascii.caret :: rest =>
    (readClassBody 0 2 [] rest).map fun (items, distance) => (.charClass true items, distance - 1)
  | _ =>
    (readClassBody 0 1 [] t).map fun (items, distance) => (.charClass false items, distance - 1)

end RegexTrace.Pattern
