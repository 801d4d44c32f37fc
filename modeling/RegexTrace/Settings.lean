import RegexTrace.Flow.Dot
import RegexTrace.Search.Options
import RegexTrace.Text.Numeral

/-!
# Settings from the environment

Environment variables choose the defaults of a search and of diagrams. A variable that is not set
leaves the built-in default. The formats that diagrams can be rendered in do not depend on the
environment but on the renderer that is installed.

## Implementation notes

The name of the lookaround mode and that of the diagram format are kept as they are given: they are
checked where they are used, so a wrong name does no harm to what does not use it.
-/

namespace RegexTrace

/-- The variables of an environment. -/
abbrev Environment := Text → Option Text

/-- The defaults that an environment chooses. -/
structure Settings where
  honorLazy : Bool := false
  lookaround : Text := "consume"
  dotAll : Bool := true
  maxSteps : Option Int := none
  diagramFormat : Text := "png"
  /-- The formats of the renderer. -/
  formats : List Text := Flow.usualFormats
  deriving DecidableEq, Repr

namespace Environment

/-- The values that switch something on, in any case; every other value switches it off. -/
def isOn (value : Text) : Bool :=
  ([Text.ofString "1", "true", "yes", "on"] : List Text).contains (Text.asciiLower value)

/-- A variable that switches something, which has a default for when it is not set. -/
def flag (env : Environment) (name : Text) (default : Bool) : Bool :=
  match env name with
  | none => default
  | some value => isOn value

/-- A variable that holds a number; an empty one counts as not set. -/
def number? (env : Environment) (name : Text) : Except NumeralFault (Option Int) :=
  match env name with
  | none | some [] => .ok none
  | some value => (Numeral.toInt value).map some

end Environment

namespace Settings

/-- The names of the variables that settings look at. -/
def variableNames : List Text :=
  ["BKTRACE_HONOR_LAZY", "BKTRACE_DOT_ALL", "BKTRACE_LOOKAROUND", "BKTRACE_MAX_STEPS",
    "BKTRACE_DIAGRAM_FORMAT"]

/-- The settings of an environment; only the step budget can be wrong. -/
def load (env : Environment) : Except NumeralFault Settings :=
  (env.number? "BKTRACE_MAX_STEPS").map fun maxSteps =>
    { honorLazy := env.flag "BKTRACE_HONOR_LAZY" false
      lookaround := (env "BKTRACE_LOOKAROUND").getD "consume"
      dotAll := env.flag "BKTRACE_DOT_ALL" true
      maxSteps
      diagramFormat := (env "BKTRACE_DIAGRAM_FORMAT").getD "png" }

/-- The options that settings ask for. Case and line options are not theirs to choose. -/
def request (s : Settings) : OptionsRequest where
  honorLazy := s.honorLazy
  lookaround := some s.lookaround
  dotAll := s.dotAll
  maxSteps := s.maxSteps

end Settings

end RegexTrace
