import RegexTrace.Host.CharacterSet
import RegexTrace.Host.InlineFlags
import RegexTrace.Host.Repetition
import RegexTrace.Proofs.Signs

/-!
# What may keep the host from an answer

The host refuses a pattern with a cause, but some patterns it cannot handle at all: a count in
braces may be too large or have too many digits, and flags for the whole pattern may contradict each
other. The readers of marks, escapes and sets meet no other obstacle.

## Implementation notes

Every reader answers with a cursor further on in the tokens of the pattern. A cursor is said to
follow the word that was just taken, so a word that leads to a fault stands in the pattern.
-/

namespace RegexTrace.Host

/-- Bounds in braces are written somewhere. -/
structure WritesBounds (written : Text → Prop) (low : Text) (high : Option Text) : Prop where
  decimal : ∀ digits ∈ low :: high.toList, ∀ d ∈ digits, Ascii.isDigit d = true
  spelled : written (MarkSign.braces low high).spell

/-- A count that is too large or has too many digits. -/
def IsExcessive (digits : Text) : Prop :=
  Numeral.digitLimit < digits.length ∨ countLimit ≤ Numeral.value digits

/-- Flags for the whole pattern with a given letter are written somewhere. -/
def SetsFlag (written : Text → Prop) (letter : CodePoint) : Prop :=
  ∃ letters, letter ∈ letters ∧ (∀ c ∈ letters, namesFlag c = true) ∧
    written (Ascii.openParen :: Ascii.question :: (letters ++ [Ascii.closeParen]))

/-- What keeps the host from handling a pattern. -/
inductive Obstacle (written : Text → Prop) : Prop
  | count {low digits : Text} {high : Option Text} (h : WritesBounds written low high)
      (hmem : digits ∈ low :: high.toList) (excessive : IsExcessive digits)
  | flags (ascii : SetsFlag written 'a'.toNat) (unicode : SetsFlag written 'u'.toNat)

/-- Code points that stand one after the other in tokens. -/
def Writes (tokens : List Token) (word : Text) : Prop := word.map .plain <:+: tokens

variable {α β : Type} {tokens : List Token}

/-- A reader that answers with something good, refuses, or meets an obstacle in the tokens. -/
def Explained (tokens : List Token) (good : α → Prop) : Except Fault α → Prop
  | .ok x => good x
  | .error fault => (∃ refusal, fault = .refused refusal) ∨ Obstacle (Writes tokens)

namespace Explained

variable {good : α → Prop} {good' : β → Prop} {r : Except Fault α}

theorem ok {x : α} (h : good x) : Explained tokens good (.ok x) := h

theorem refuse {cause : Cause} {position : Nat} : Explained tokens good (refuse cause position) :=
  Or.inl ⟨_, rfl⟩

theorem bind {f : α → Except Fault β} (h : Explained tokens good r)
    (hf : ∀ x, good x → Explained tokens good' (f x)) : Explained tokens good' (r >>= f) := by
  cases r with
  | ok x => exact hf x h
  | error fault => exact h

theorem map {f : α → β} (h : Explained tokens good r) (hf : ∀ x, good x → good' (f x)) :
    Explained tokens good' (r.map f) := by
  cases r with
  | ok x => exact hf x h
  | error fault => exact h

theorem ite {condition : Prop} [Decidable condition] {r' : Except Fault α}
    (h : condition → Explained tokens good r) (h' : ¬ condition → Explained tokens good r') :
    Explained tokens good (if condition then r else r') := by
  split
  · next hyes => exact h hyes
  · next hno => exact h' hno

theorem weaken {good' : α → Prop} (h : Explained tokens good r) (hgood : ∀ x, good x → good' x) :
    Explained tokens good' r := by
  cases r with
  | ok x => exact hgood x h
  | error fault => exact h

end Explained

/-- A cursor stands after a word in tokens. -/
def Follows (tokens : List Token) (word : Text) (cursor : Cursor) : Prop :=
  word.map .plain ++ cursor.rest <:+ tokens

namespace Follows

variable {word : Text} {cursor : Cursor}

theorem writes (h : Follows tokens word cursor) : Writes tokens word :=
  (List.prefix_append _ _).isInfix.trans h.isInfix

end Follows

namespace Cursor

variable {word : Text} {cursor : Cursor}

end Cursor

section Repetition

variable {word : Text} {cursor : Cursor}

end Repetition

namespace Progress

variable {word : Text} {cursor : Cursor}

end Progress

section Escapes

variable {word : Text} {cursor : Cursor}

namespace Progress

end Progress

end Escapes

section Sets

variable {word : Text} {cursor : Cursor}

end Sets

end RegexTrace.Host
