import RegexTrace.Host.Item
import RegexTrace.Text.Ascii
import RegexTrace.Unicode.Category
import RegexTrace.Unicode.Fold

/-!
# What single items of the host accept

Without regard to case, the host compares folds, and a literal stands also for the companions of its
fold. A range is asked for any code point of its own with a fitting fold; beyond the first plane it
is asked for the fold and its upper case instead.
-/

namespace RegexTrace.Host

/-- The greatest code point of the first plane. -/
def lastOfFirstPlane : CodePoint := 0xFFFF

/-- The code points of a class, of ASCII only or of all characters. -/
def categoryHolds (ascii : Bool) (c : CodePoint) : EscapeKind → Bool
  | .digit => if ascii then Ascii.isDigit c else Unicode.isDecimal c
  | .notDigit => !(if ascii then Ascii.isDigit c else Unicode.isDecimal c)
  | .blank => if ascii then c == 0x20 || (0x09 ≤ c && c ≤ 0x0D) else Unicode.isBlank c
  | .notBlank => !(if ascii then c == 0x20 || (0x09 ≤ c && c ≤ 0x0D) else Unicode.isBlank c)
  | .word => wordHolds
  | .notWord => !wordHolds
  | .other _ => false
where
  /-- A word character. -/
  wordHolds : Bool :=
    if ascii then Ascii.isLetter c || Ascii.isDigit c || c == Ascii.lowLine else Unicode.isWord c

/-- The fold of a code point under the flags in force. -/
def foldUnder (f : Flags) (c : CodePoint) : CodePoint :=
  if f.ascii then (if 0x41 ≤ c ∧ c ≤ 0x5A then c + 0x20 else c) else Unicode.fold c

/-- The companions of a fold under the flags in force. -/
def companionsUnder (f : Flags) (d : CodePoint) : List CodePoint :=
  if f.ascii then [] else Unicode.companions d

/-- The code points that share the fold `d` or have it as a companion. -/
def foldClassUnder (f : Flags) (d : CodePoint) : List CodePoint :=
  if f.ascii then
    (if 0x41 ≤ d ∧ d ≤ 0x5A then [] else [d]) ++ (if 0x61 ≤ d ∧ d ≤ 0x7A then [d - 0x20] else [])
  else Unicode.foldClass d

/-- A literal accepts a code point. -/
def literalAccepts (f : Flags) (literal c : CodePoint) : Bool :=
  if f.ignoreCase then
    let d := foldUnder f literal
    (d :: companionsUnder f d).contains (foldUnder f c)
  else literal == c

/-- An item of a set accepts a code point, which is folded already where case is ignored. -/
def setItemAccepts (f : Flags) (c : CodePoint) : SetItem → Bool
  | .literal literal =>
    if f.ignoreCase ∧ foldUnder f literal ≤ lastOfFirstPlane then
      let d := foldUnder f literal
      (d :: companionsUnder f d).contains c
    else literal == c
  | .range low high =>
    if f.ignoreCase then
      ((foldClassUnder f c).any fun d => low ≤ d && d ≤ Nat.min high lastOfFirstPlane) ||
        (lastOfFirstPlane < high &&
          ((low ≤ c && c ≤ high) || (low ≤ Unicode.upperHead c && Unicode.upperHead c ≤ high)))
    else low ≤ c && c ≤ high
  | .category kind => categoryHolds f.ascii c kind

/-- A set accepts a code point. -/
def setAccepts (f : Flags) (negated : Bool) (items : List SetItem) (c : CodePoint) : Bool :=
  let seen := if f.ignoreCase then foldUnder f c else c
  items.any (setItemAccepts f seen) != negated

/-- A place holds at a position of a text. -/
def placeHolds (f : Flags) (text : Array CodePoint) (pos : Nat) : Place → Bool
  | .start => pos == 0 || (f.multiline && text[pos - 1]? == some Ascii.newline)
  | .finish =>
    pos == text.size ||
      (if f.multiline then text[pos]? == some Ascii.newline
        else pos + 1 == text.size && text[pos]? == some Ascii.newline)
  | .textStart => pos == 0
  | .textEnd => pos == text.size
  | .boundary => !text.isEmpty && before != after
  | .notBoundary => !text.isEmpty && before == after
where
  /-- A word character stands before the position. -/
  before : Bool := 0 < pos && (text[pos - 1]?).any fun c => categoryHolds f.ascii c .word
  /-- A word character stands after the position. -/
  after : Bool := (text[pos]?).any fun c => categoryHolds f.ascii c .word

end RegexTrace.Host
