import RegexTrace.Pattern.Tree
import RegexTrace.Text.Lines

/-!
# Pattern literals

A pattern may be written between slashes with flags after the second one. The last slash separates
the flags; without a slash at the start, or with only one, the whole text is the pattern.
-/

namespace RegexTrace.Pattern

/-- What stands before and after the last slash. -/
def splitLastSlash? (t : Text) : Option (Text × Text) :=
  let flags := (t.reverse.takeWhile (· != Ascii.slash)).reverse
  if flags.length < t.length then some (t.take (t.length - flags.length - 1), flags) else none

/-- The pattern and the flags of a text, without surrounding blanks. -/
def splitLiteral (t : Text) : Text × Text :=
  let cleaned := Text.trim t
  match cleaned with
  | Ascii.slash :: rest => (splitLastSlash? rest).getD (cleaned, [])
  | _ => (cleaned, [])

/-- The flags that a literal brings take the place of the given ones. -/
def effectiveFlags (literalFlags flags : Text) : Text :=
  if literalFlags.isEmpty then flags else literalFlags

/-- A text that was read as a pattern: its tree, or why it has none. -/
structure Reading.Result where
  pattern : Text
  result : Except SyntaxFault Parsed
  flags : Text

namespace Reading.Result

/-- The tree of the pattern; missing when the pattern is refused. -/
def root (r : Reading.Result) : Node :=
  match r.result with
  | .ok parsed => parsed.root
  | .error _ => .absent

/-- The wording of the fault of a refused pattern. -/
def error? (r : Reading.Result) : Option Text :=
  match r.result with
  | .ok _ => none
  | .error fault => some fault.message

end Reading.Result

/-- A text is read as a pattern or a literal. A pattern that is refused for its notation has a
result that says so; only a bound with too many digits is a failure. -/
def read (t : Text) (flags : Text) : Except NumeralFault Reading.Result :=
  let (pattern, literalFlags) := splitLiteral t
  let flags := effectiveFlags literalFlags flags
  match parse pattern with
  | .ok parsed => .ok ⟨pattern, .ok parsed, flags⟩
  | .error (.malformed fault) => .ok ⟨pattern, .error fault, flags⟩
  | .error (.numeral fault) => .error fault

end RegexTrace.Pattern
