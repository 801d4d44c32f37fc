import RegexTrace.Node.Basic
import RegexTrace.Pattern.Fault
import RegexTrace.Text.Ascii
import RegexTrace.Text.Numeral

/-!
# Repetition marks

The marks that may follow a term: `*`, `+`, `?` and bounds in braces, each with an optional `?` that
makes the repetition lazy. Bounds take decimal digits of any script. Braces that do not hold bounds
are no mark.
-/

namespace RegexTrace.Pattern

/-- Bounds in braces as they are written. -/
structure Braces where
  low : Text
  /-- What follows the comma, if there is one. -/
  high : Option Text
  /-- The number of code points from brace to brace. -/
  width : Nat
  deriving DecidableEq, Repr

/-- The bounds in braces at the start of a text. -/
def Braces.read? : Text → Option Braces
  | Ascii.openBrace :: t =>
    let low := t.takeWhile Unicode.isDecimal
    if low.isEmpty then none
    else
      match t.drop low.length with
      | Ascii.closeBrace :: _ => some ⟨low, none, low.length + 2⟩
      | Ascii.comma :: t =>
        let high := t.takeWhile Unicode.isDecimal
        match t.drop high.length with
        | Ascii.closeBrace :: _ => some ⟨low, some high, low.length + high.length + 3⟩
        | _ => none
      | _ => none
  | _ => none

/-- A repetition mark. -/
structure Repetition where
  min : Nat
  max : Option Nat
  shorthand : Option Shorthand
  greedy : Bool
  /-- The number of code points of the mark. -/
  width : Nat
  deriving DecidableEq, Repr

/-- Why bounds are refused. -/
inductive BoundsFault
  | outOfOrder
  | numeral (fault : NumeralFault)
  deriving DecidableEq, Repr

/-- The least and the greatest number of rounds that braces ask for. -/
def Braces.bounds (b : Braces) : Except BoundsFault (Nat × Option Nat) := do
  let min ← (Numeral.ofDigits b.low).mapError .numeral
  let max ←
    match b.high with
    | none => .ok (some min)
    | some [] => .ok none
    | some high => ((Numeral.ofDigits high).mapError .numeral).map some
  match max with
  | some limit => if limit < min then .error .outOfOrder else .ok (min, max)
  | none => .ok (min, max)

/-- A mark without its lazy sign. -/
def readBare? (t : Text) :
    Except BoundsFault (Option (Nat × Option Nat × Option Shorthand × Nat)) :=
  match t with
  | Ascii.star :: _ => .ok (some (0, none, some .star, 1))
  | Ascii.plus :: _ => .ok (some (1, none, some .plus, 1))
  | Ascii.question :: _ => .ok (some (0, some 1, some .question, 1))
  | _ =>
    match Braces.read? t with
    | none => .ok none
    | some braces => do
      let (min, max) ← braces.bounds
      return some (min, max, none, braces.width)

/-- The repetition mark at the start of a text, if there is one. -/
def Repetition.read? (t : Text) : Except BoundsFault (Option Repetition) := do
  match ← readBare? t with
  | none => return none
  | some (min, max, shorthand, width) =>
    match t.drop width with
    | Ascii.question :: _ => return some ⟨min, max, shorthand, false, width + 1⟩
    | _ => return some ⟨min, max, shorthand, true, width⟩

/-- A text that starts with a repetition mark, so that nothing is there to be repeated. -/
def startsWithMark (t : Text) : Bool :=
  match t with
  | Ascii.star :: _ | Ascii.plus :: _ | Ascii.question :: _ => true
  | _ => (Braces.read? t).isSome

/-- The node that is repeated as a mark asks. -/
def Repetition.apply (r : Repetition) (node : Node) : Node :=
  .quantifier r.min (r.max.map Int.ofNat) r.greedy node r.shorthand

end RegexTrace.Pattern
