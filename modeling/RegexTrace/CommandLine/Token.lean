import RegexTrace.CommandLine.Grammar
import RegexTrace.Text.Lines
import RegexTrace.Unicode.Category

/-!
# The tokens of a command line

Every argument is an option, the separator or plain. Options may be shortened as long as one option
only is meant, and the value of an option may be attached to it. After the separator, a double
hyphen, every argument is plain.
-/

namespace RegexTrace.CommandLine

/-- A value that is attached to an option, with or without an equals sign. -/
structure Attached where
  assigned : Bool
  value : Text
  deriving DecidableEq, Repr

/-- An option as it occurs in a command line. -/
structure OptionUse (α : Type) where
  rule : OptionRule α
  spelling : Text
  attached : Option Attached

/-- What an argument is before anything is taken. -/
inductive Token (α : Type)
  | plain
  | separator
  /-- An option, or something that looks like one but is not known. -/
  | option (use : Option (OptionUse α))

namespace Token

variable {α : Type}

/-- The separator before which no argument is an option for its looks. -/
def isSeparator : Token α → Bool
  | .separator => true
  | _ => false

/-- Options, known or not. -/
def isOption : Token α → Bool
  | .option _ => true
  | _ => false

end Token

/-- What stands before and after the first equals sign. -/
def splitAssignment (argument : Text) : Text × Option Text :=
  let name := argument.takeWhile (· != Ascii.equals)
  match argument.drop name.length with
  | [] => (name, none)
  | _ :: value => (name, some value)

/-- A hyphen and a decimal numeral, possibly with a fraction. -/
def isNegativeNumber (argument : Text) : Bool :=
  match Text.dropFinalNewline argument with
  | Ascii.hyphen :: t =>
    let fraction := t.dropWhile Unicode.isDecimal
    match fraction with
    | [] => !t.isEmpty
    | Ascii.dot :: digits => !digits.isEmpty && digits.all Unicode.isDecimal
    | _ => false
  | _ => false

/-- The text that separates options from other arguments. -/
def separator : Text := [Ascii.hyphen, Ascii.hyphen]

namespace Grammar

variable {α : Type}

/-- The spellings of all options, in order. -/
def spellings (g : Grammar α) : List (Text × OptionRule α) :=
  g.options.flatMap fun rule => rule.spellings.map fun spelling => (spelling, rule)

/-- The option with exactly a given spelling. -/
def spelled? (g : Grammar α) (spelling : Text) : Option (OptionRule α) :=
  (g.spellings.find? fun entry => entry.1 = spelling).map Prod.snd

/-- The options that a long argument may be short for. -/
def longCandidates (g : Grammar α) (argument : Text) : List (OptionUse α) :=
  let (start, value) := splitAssignment argument
  g.spellings.filterMap fun (spelling, rule) =>
    if Text.startsWith start spelling then
      some ⟨rule, spelling, value.map fun value => ⟨true, value⟩⟩
    else none

/-- The options that an argument with one hyphen may mean: one of a single letter with a value
attached, or a longer one that is shortened. -/
def shortCandidates (g : Grammar α) (argument : Text) : List (OptionUse α) :=
  g.spellings.filterMap fun (spelling, rule) =>
    if spelling = argument.take 2 then some ⟨rule, spelling, some ⟨false, argument.drop 2⟩⟩
    else if Text.startsWith argument spelling then some ⟨rule, spelling, none⟩
    else none

/-- The options that an argument may mean. -/
def candidates (g : Grammar α) (argument : Text) : List (OptionUse α) :=
  if Text.startsWith separator argument then g.longCandidates argument
  else g.shortCandidates argument

/-- An argument that is no known option in full. -/
def classifyShortened (g : Grammar α) (argument : Text) : Except Mistake (Token α) :=
  match g.candidates argument with
  | [use] => .ok (.option (some use))
  | [] =>
    .ok (if isNegativeNumber argument || argument.contains Ascii.space then .plain
      else .option none)
  | uses => .error (.ambiguous argument (uses.map OptionUse.spelling))

/-- What an argument is; only those that begin with a hyphen and go on can be options. -/
def classify (g : Grammar α) (argument : Text) : Except Mistake (Token α) :=
  match argument with
  | Ascii.hyphen :: _ :: _ =>
    match g.spelled? argument with
    | some rule => .ok (.option (some ⟨rule, argument, none⟩))
    | none =>
      match splitAssignment argument with
      | (_, none) => g.classifyShortened argument
      | (name, some value) =>
        match g.spelled? name with
        | some rule => .ok (.option (some ⟨rule, name, some ⟨true, value⟩⟩))
        | none => g.classifyShortened argument
  | _ => .ok .plain

/-- The arguments with what they are. After a separator no argument is an option. -/
def classifyAll (g : Grammar α) : List Text → Except Mistake (List (Text × Token α))
  | [] => .ok []
  | argument :: rest =>
    if argument = separator then
      .ok ((argument, .separator) :: rest.map fun argument => (argument, .plain))
    else do
      let token ← g.classify argument
      let others ← g.classifyAll rest
      return (argument, token) :: others

end Grammar

end RegexTrace.CommandLine
