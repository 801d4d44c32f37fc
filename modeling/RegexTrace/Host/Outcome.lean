import RegexTrace.Host.Spelling
import RegexTrace.Host.Scan
import RegexTrace.Pattern.Literal
import RegexTrace.Text.Utf16

/-!
# Production matches

What users of a pattern get: the host engine is asked with the respelled pattern, and its matches
are reported in UTF-16 units. Groups that took no part in a match are left out.
-/

namespace RegexTrace.Host

/-- What a match tells: its span in units and the captured texts. -/
structure Outcome.Hit where
  start : Nat
  finish : Nat
  groups : List Text
  deriving DecidableEq, Repr

/-- One of all matches. -/
structure Outcome.Listed where
  index : Nat
  start : Nat
  finish : Nat
  text : Text
  groups : List Text
  deriving DecidableEq, Repr

/-- Why nothing is matched at all. -/
inductive Outcome.Problem
  /-- The pattern is empty. -/
  | noPattern
  /-- The host refuses the pattern; the respelled pattern is what positions refer to. -/
  | refused (respelled : Text) (refusal : Refusal)
  deriving DecidableEq, Repr

/-- The outcome of asking for one match or for all. -/
abbrev Outcome (α : Type) := Except Outcome.Problem α

namespace Outcome.Problem

/-- The wording of a problem. -/
def message : Outcome.Problem → Text
  | .noPattern => "No regex pattern provided"
  | .refused respelled refusal => refusal.message respelled

end Outcome.Problem

/-- The wording of a pattern that cannot be handled at all. -/
def Fault.message : Fault → Text
  | .refused refusal => refusal.cause.message
  | .countTooLarge => "the repetition number is too large"
  | .numeral fault => fault.message
  | .contradictoryClasses => "ASCII and UNICODE flags are incompatible"

/-- The program of a pattern as users write it, possibly a literal with flags, which take the place
of the given ones. -/
def compileText [CharacterNames] (patternText flags : Text) : Except Fault (Outcome Program) :=
  let (pattern, literalFlags) := Pattern.splitLiteral patternText
  let flags := Pattern.effectiveFlags literalFlags flags
  let respelled := respell (flags.contains 'm'.toNat) pattern
  match compile (Flags.ofText flags) respelled with
  | .ok program => .ok (.ok program)
  | .error (.refused refusal) => .ok (.error (.refused respelled refusal))
  | .error fault => .error fault

/-- The program of a pattern that must not be empty. -/
def prepare [CharacterNames] (patternText flags : Text) : Except Fault (Outcome Program) :=
  if patternText.isEmpty then .ok (.error .noPattern) else compileText patternText flags

/-- The part of a text in a span. -/
def slice (text : Text) (first last : Nat) : Text := (text.take last).drop first

/-- The captured texts of a match. -/
def Match.captured (m : Match) (text : Text) : List Text :=
  m.groups.filterMap fun span => span.map fun (first, last) => slice text first last

/-- The first match of a pattern in a text. -/
def testMatch [CharacterNames] (patternText text flags : Text) :
    Except Fault (Outcome (Option Outcome.Hit)) :=
  (prepare patternText flags).map fun outcome =>
    outcome.map fun program =>
      (program.search? text.toArray).map fun m =>
        ⟨Utf16.offset text m.start, Utf16.offset text m.finish, m.captured text⟩

/-- All matches of a pattern in a text. -/
def testMatchAll [CharacterNames] (patternText text flags : Text) :
    Except Fault (Outcome (List Outcome.Listed)) :=
  (prepare patternText flags).map fun outcome =>
    outcome.map fun program =>
      (program.findAll text.toArray).zipIdx.map fun (m, index) =>
        ⟨index, Utf16.offset text m.start, Utf16.offset text m.finish, slice text m.start m.finish,
          m.captured text⟩

end RegexTrace.Host
