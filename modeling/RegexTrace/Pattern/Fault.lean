import RegexTrace.Text.Numeral

/-!
# Why a pattern is refused
-/

namespace RegexTrace.Pattern

/-- The ways in which the notation of a pattern can be wrong. -/
inductive Cause
  | unmatchedParenthesis
  | nothingToRepeat
  | boundsOutOfOrder
  | unterminatedGroup
  | invalidGroup
  | invalidGroupName
  | trailingBackslash
  | invalidPropertyName
  | rangeOutOfOrder
  | unterminatedClass
  deriving DecidableEq, Repr

/-- A cause at an index of the pattern. -/
structure SyntaxFault where
  cause : Cause
  index : Nat
  deriving DecidableEq, Repr

/-- Why a pattern has no tree. -/
inductive Fault
  | malformed (fault : SyntaxFault)
  /-- A bound has too many digits. -/
  | numeral (fault : NumeralFault)
  deriving DecidableEq, Repr

/-- The wording of a cause. -/
def Cause.message : Cause → Text
  | .unmatchedParenthesis => "Unmatched ')'"
  | .nothingToRepeat => "Nothing to repeat"
  | .boundsOutOfOrder => "numbers out of order in \x7b\x7d quantifier"
  | .unterminatedGroup => "Unterminated group"
  | .invalidGroup => "Invalid group"
  | .invalidGroupName => "Invalid capture group name"
  | .trailingBackslash => "\\ at end of pattern"
  | .invalidPropertyName => "Invalid property name"
  | .rangeOutOfOrder => "Range out of order in character class"
  | .unterminatedClass => "Unterminated character class"

/-- The wording of a fault, with its place. -/
def SyntaxFault.message (fault : SyntaxFault) : Text :=
  fault.cause.message ++ Text.ofString " at position " ++ Text.ofNat fault.index

/-- The wording of a refused pattern. -/
def Fault.message : Fault → Text
  | .malformed fault => fault.message
  | .numeral fault => fault.message

/-- A cause at a distance from where the reading began. -/
abbrev Reading (α : Type) := Except (Cause × Nat) α

end RegexTrace.Pattern
