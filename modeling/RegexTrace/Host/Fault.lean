import RegexTrace.Text.Numeral

/-!
# Why the host refuses a pattern

A refusal has a cause and mostly a position in the pattern. When the pattern has several lines, the
line and the column are given too. Some patterns are not refused but cannot be handled at all.
-/

namespace RegexTrace.Host

/-- What is wrong with a pattern in the host's notation. -/
inductive Cause
  | missingParenthesis
  | unbalancedParenthesis
  | nothingToRepeat
  | multipleRepeat
  | bareMinimum
  | unterminatedSet
  | badRange (low high : Text)
  | badEscape (escape : Text)
  | danglingBackslash
  | incompleteEscape (escape : Text)
  | octalTooLarge (escape : Text)
  | missingBrace
  | unknownCharacterName (name : Text)
  | missingText (what : Text)
  | unterminatedText (terminator : CodePoint)
  | badGroupName (name : Text)
  | unknownGroupName (name : Text)
  | redefinedGroup (name : Text) (number earlier : Nat)
  | badGroupNumber
  | invalidReference (number : Nat)
  | openReference
  | lookbehindReference
  | conditionalBranches
  | unknownExtension (extension : Text)
  | unexpectedEnd
  | unterminatedComment
  | lateGlobalFlags
  | localeFlag
  | incompatibleFlags
  | missingFlagEnd
  | unknownFlag
  | globalFlagOn
  | missingFlag
  | typeFlagOff
  | missingColon
  | globalFlagOff
  | flagOnAndOff
  | distantLookbehind
  | variableLookbehind
  | templateRepeat (operator : Text)
  deriving DecidableEq, Repr

/-- A cause, at a position if it has one. -/
structure Refusal where
  cause : Cause
  position : Option Nat
  deriving DecidableEq, Repr

/-- Why there is no compiled pattern. -/
inductive Fault
  | refused (refusal : Refusal)
  /-- A repetition count beyond the greatest one. -/
  | countTooLarge
  | numeral (fault : NumeralFault)
  /-- The pattern asks for ASCII and for Unicode classes at once. -/
  | contradictoryClasses
  deriving DecidableEq, Repr

/-- The wording of a cause. -/
def Cause.message : Cause → Text
  | .missingParenthesis => "missing ), unterminated subpattern"
  | .unbalancedParenthesis => "unbalanced parenthesis"
  | .nothingToRepeat => "nothing to repeat"
  | .multipleRepeat => "multiple repeat"
  | .bareMinimum => "min repeat greater than max repeat"
  | .unterminatedSet => "unterminated character set"
  | .badRange low high => "bad character range " ++ low ++ "-" ++ high
  | .badEscape escape => "bad escape " ++ escape
  | .danglingBackslash => "bad escape (end of pattern)"
  | .incompleteEscape escape => "incomplete escape " ++ escape
  | .octalTooLarge escape => "octal escape value " ++ escape ++ " outside of range 0-0o377"
  | .missingBrace => "missing \x7b"
  | .unknownCharacterName name => "undefined character name " ++ Text.Quoted.encode name
  | .missingText what => "missing " ++ what
  | .unterminatedText terminator => "missing " ++ [terminator] ++ ", unterminated name"
  | .badGroupName name => "bad character in group name " ++ Text.Quoted.encode name
  | .unknownGroupName name => "unknown group name " ++ Text.Quoted.encode name
  | .redefinedGroup name number earlier =>
    "redefinition of group name " ++ Text.Quoted.encode name ++ " as group " ++ Text.ofNat number ++
      "; was group " ++ Text.ofNat earlier
  | .badGroupNumber => "bad group number"
  | .invalidReference number => "invalid group reference " ++ Text.ofNat number
  | .openReference => "cannot refer to an open group"
  | .lookbehindReference => "cannot refer to group defined in the same lookbehind subpattern"
  | .conditionalBranches => "conditional backref with more than two branches"
  | .unknownExtension extension => "unknown extension ?" ++ extension
  | .unexpectedEnd => "unexpected end of pattern"
  | .unterminatedComment => "missing ), unterminated comment"
  | .lateGlobalFlags => "global flags not at the start of the expression"
  | .localeFlag => "bad inline flags: cannot use 'L' flag with a str pattern"
  | .incompatibleFlags => "bad inline flags: flags 'a', 'u' and 'L' are incompatible"
  | .missingFlagEnd => "missing -, : or )"
  | .unknownFlag => "unknown flag"
  | .globalFlagOn => "bad inline flags: cannot turn on global flag"
  | .missingFlag => "missing flag"
  | .typeFlagOff => "bad inline flags: cannot turn off flags 'a', 'u' and 'L'"
  | .missingColon => "missing :"
  | .globalFlagOff => "bad inline flags: cannot turn off global flag"
  | .flagOnAndOff => "bad inline flags: flag turned on and off"
  | .distantLookbehind => "looks too much behind"
  | .variableLookbehind => "look-behind requires fixed-width pattern"
  | .templateRepeat operator => "internal: unsupported template operator " ++ operator

/-- The number of newlines before a position. -/
def newlinesBefore (pattern : Text) (position : Nat) : Nat :=
  (pattern.take position).count Ascii.newline

/-- The column of a position, counted from one in its line. -/
def columnOf (pattern : Text) (position : Nat) : Nat :=
  ((pattern.take position).reverse.takeWhile (· != Ascii.newline)).length + 1

/-- The wording of a refusal of a pattern. -/
def Refusal.message (pattern : Text) (r : Refusal) : Text :=
  match r.position with
  | none => r.cause.message
  | some position =>
    r.cause.message ++ Text.ofString " at position " ++ Text.ofNat position ++
      if pattern.contains Ascii.newline then
        " (line " ++ Text.ofNat (newlinesBefore pattern position + 1) ++ ", column " ++
          Text.ofNat (columnOf pattern position) ++ Text.ofString ")"
      else []

/-- A refusal at a position. -/
def refuse (cause : Cause) (position : Nat) : Except Fault α :=
  .error (.refused ⟨cause, some position⟩)

end RegexTrace.Host
