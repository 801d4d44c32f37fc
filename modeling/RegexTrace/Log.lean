import RegexTrace.Text.Basic

/-!
# Log entries

What a part of the program reports on its way, besides its answer.
-/

namespace RegexTrace

/-- How much an entry matters. -/
inductive Severity
  | debug
  | warning
  deriving DecidableEq, Repr

/-- A report of one part of the program. -/
structure LogEntry where
  severity : Severity
  source : Text
  message : Text
  deriving DecidableEq, Repr

/-- The name of a severity. -/
def Severity.name : Severity → Text
  | .debug => "DEBUG"
  | .warning => "WARNING"

/-- The line of an entry. -/
def LogEntry.line (e : LogEntry) : Text :=
  e.severity.name ++ Text.ofString " " ++ e.source ++ Text.ofString ": " ++ e.message

end RegexTrace
