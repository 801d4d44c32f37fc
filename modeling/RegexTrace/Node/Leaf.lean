import RegexTrace.Node.Fault
import RegexTrace.Unicode.Case
import RegexTrace.Unicode.Category

/-!
# What a leaf accepts

A leaf accepts or refuses one code point; positions play no part here. Without regard to case, a
literal is compared with the case variants of the code point and the code point with those of the
literal, while a range asks for the variants of the code point only.

## Implementation notes

The numbers in a tree and the tested number are integers that need not be code points. A fault
arises only when a test has to look at a character, so a class stops at the first item that accepts.
-/

namespace RegexTrace.Leaf

/-- The circumstances under which leaves are tested. -/
structure Rules where
  /-- The dot accepts line terminators too. -/
  dotAll : Bool := true
  /-- Literals and ranges are compared without regard to case. -/
  ignoreCase : Bool := false
  deriving DecidableEq, Repr

/-- The code points that the dot can be told to refuse. -/
def isLineTerminator (n : Int) : Bool := n == 0x0A || n == 0x0D || n == 0x2028 || n == 0x2029

/-- The code points of a class with a letter. -/
def classHolds (c : CodePoint) : EscapeKind → Bool
  | .digit => Unicode.isDecimal c
  | .notDigit => !Unicode.isDecimal c
  | .word => Unicode.isWord c
  | .notWord => !Unicode.isWord c
  | .blank => Unicode.isBlank c
  | .notBlank => !Unicode.isBlank c
  | .other _ => false

/-- A class with a foreign letter refuses every number, the others look at the character. -/
def escapeAccepts (kind : EscapeKind) (n : Int) : Except Node.Fault Bool :=
  match kind with
  | .other _ => .ok false
  | kind => (Node.character n).map fun c => classHolds c kind

/-- The absent character beyond an edge of the subject is no word character. -/
def isWordAt : Option CodePoint → Bool
  | none => false
  | some c => Unicode.isWord c

/-- The case variants of a character as numbers. -/
def variants (n : Int) : Except Node.Fault (List Int) :=
  (Node.character n).map fun c => (Unicode.caseVariants c).map Int.ofNat

/-- A literal without regard to case. -/
def valueAcceptsFolded (value n : Int) : Except Node.Fault Bool := do
  if (← variants n).contains value then return true
  return (← variants value).contains n

/-- One item of a class; nodes that are no items accept nothing. -/
def itemAccepts (ignoreCase : Bool) (item : Node) (n : Int) : Except Node.Fault Bool :=
  match item with
  | .value value => if ignoreCase then valueAcceptsFolded value n else .ok (value == n)
  | .range min max =>
    if ignoreCase then (variants n).map fun vs => vs.any fun v => min ≤ v && v ≤ max
    else .ok (min ≤ n && n ≤ max)
  | .escape kind => escapeAccepts kind n
  | _ => .ok false

/-- Some item of a class accepts; the items are asked in order up to the first that does. -/
def someItemAccepts (ignoreCase : Bool) (n : Int) : List Node → Except Node.Fault Bool
  | [] => .ok false
  | item :: rest => do
    if ← itemAccepts ignoreCase item n then return true
    someItemAccepts ignoreCase n rest

/-- A leaf accepts a number; a node that is no leaf is a fault. -/
def accepts (rules : Rules) (node : Node) (n : Int) : Except Node.Fault Bool :=
  match node with
  | .value value => itemAccepts rules.ignoreCase (.value value) n
  | .dot => .ok (rules.dotAll || !isLineTerminator n)
  | .escape kind => escapeAccepts kind n
  | .charClass negative items =>
    (someItemAccepts rules.ignoreCase n items).map fun found => found != negative
  | node => .error (.notLeaf node)

end RegexTrace.Leaf
