import RegexTrace.CommandLine.Reading
import RegexTrace.Settings

/-!
# The commands of the program

A command line names one command with its arguments. The options of the search, where a command has
them, go before the settings of the environment.
-/

namespace RegexTrace.CommandLine

/-- The options of the search that a command line chooses. -/
structure EngineFlags where
  honorLazy : Bool := false
  lookaround : Option LookaroundMode := none
  noDotAll : Bool := false
  maxSteps : Option Int := none
  deriving DecidableEq, Repr

/-- The trace of the first match is shown. -/
structure TraceArguments where
  pattern : Text := []
  text : Text := []
  json : Bool := false
  engine : EngineFlags := {}
  deriving DecidableEq, Repr

/-- Production matches are shown. -/
structure MatchArguments where
  pattern : Text := []
  text : Text := []
  all : Bool := false
  deriving DecidableEq, Repr

/-- Every node is explained. -/
structure ExplainArguments where
  pattern : Text := []
  deriving DecidableEq, Repr

/-- The flow graph is drawn, with the trace in a text highlighted if there is one. -/
structure DiagramArguments where
  pattern : Text := []
  text : Option Text := none
  output : Text := "regex_flow"
  format : Option Text := none
  /-- The file for the outline of the tree. -/
  outline : Option Text := none
  source : Bool := false
  engine : EngineFlags := {}
  deriving DecidableEq, Repr

/-- Every line of a file is tested. -/
structure BatchArguments where
  pattern : Text := []
  file : Text := []
  deriving DecidableEq, Repr

/-- What the program is told to do. -/
inductive Command
  | trace (arguments : TraceArguments)
  | test (arguments : MatchArguments)
  | explain (arguments : ExplainArguments)
  | diagram (arguments : DiagramArguments)
  | batch (arguments : BatchArguments)
  deriving DecidableEq, Repr

/-- What a command line says so far. -/
structure Draft where
  verbose : Bool := false
  command : Option Command := none
  /-- Arguments that the command does not know. -/
  leftOver : List Text := []
  deriving DecidableEq, Repr

/-- A command, and whether the whole log is shown. -/
structure Invocation where
  verbose : Bool
  command : Command
  deriving DecidableEq, Repr

/-- The options of a search: those of the command line, and the settings for the others. -/
def EngineFlags.request (flags : EngineFlags) (settings : Settings) : OptionsRequest :=
  let r := settings.request
  { r with
    honorLazy := flags.honorLazy || r.honorLazy
    lookaround := (flags.lookaround.map LookaroundMode.name).or r.lookaround
    dotAll := !flags.noDotAll && r.dotAll
    maxSteps := flags.maxSteps.or r.maxSteps }

/-- The lookaround mode that an option chooses. -/
def readLookaround (value : Text) : Except Complaint LookaroundMode :=
  match LookaroundMode.ofName? value with
  | some mode => .ok mode
  | none =>
    .error (.unknownChoice value
      [LookaroundMode.name .consume, LookaroundMode.name .assert])

/-- The number that an option gives. -/
def readNumber (value : Text) : Except Complaint Int :=
  match Numeral.toInt value with
  | .ok n => .ok n
  | .error _ => .error (.noNumber value)

/-- The options that choose how to search, for any value that holds them. -/
def engineRules {α : Type} (update : (EngineFlags → EngineFlags) → α → α) : List (OptionRule α) :=
  [⟨["--honor-lazy"], .switch (update fun f => { f with honorLazy := true })⟩,
    ⟨["--lookaround"], .value fun value a =>
      (readLookaround value).map fun mode =>
        update (fun f => { f with lookaround := some mode }) a⟩,
    ⟨["--no-dot-all"], .switch (update fun f => { f with noDotAll := true })⟩,
    ⟨["--max-steps"], .value fun value a =>
      (readNumber value).map fun n => update (fun f => { f with maxSteps := some n }) a⟩]

/-- The name of the program. -/
def programName : Text := "bktrace"

/-- The name of the program with that of a command. -/
def commandProgram (name : Text) : Text := programName ++ Text.ofString " " ++ name

/-- How the trace command is called. -/
def traceGrammar : Grammar TraceArguments where
  program := commandProgram "trace"
  options :=
    helpRule :: ⟨["--json"], .switch fun a => { a with json := true }⟩ ::
      engineRules fun f a => { a with engine := f a.engine }
  positions :=
    [.required "pattern" fun value a => { a with pattern := value },
      .required "text" fun value a => { a with text := value }]

/-- How the match command is called. -/
def matchGrammar : Grammar MatchArguments where
  program := commandProgram "match"
  options := [helpRule, ⟨["--all"], .switch fun a => { a with all := true }⟩]
  positions :=
    [.required "pattern" fun value a => { a with pattern := value },
      .required "text" fun value a => { a with text := value }]

/-- How the explain command is called. -/
def explainGrammar : Grammar ExplainArguments where
  program := commandProgram "explain"
  options := [helpRule]
  positions := [.required "pattern" fun value a => { a with pattern := value }]

/-- How the diagram command is called. -/
def diagramGrammar : Grammar DiagramArguments where
  program := commandProgram "diagram"
  options :=
    [helpRule,
      ⟨["-o", "--output"], .value fun value a => .ok { a with output := value }⟩,
      ⟨["--format"], .value fun value a => .ok { a with format := some value }⟩,
      ⟨["--json"], .value fun value a => .ok { a with outline := some value }⟩,
      ⟨["--source"], .switch fun a => { a with source := true }⟩] ++
      engineRules fun f a => { a with engine := f a.engine }
  positions :=
    [.required "pattern" fun value a => { a with pattern := value },
      .optional "text" fun value a => { a with text := some value }]

/-- How the batch command is called. -/
def batchGrammar : Grammar BatchArguments where
  program := commandProgram "batch"
  options := [helpRule]
  positions :=
    [.required "pattern" fun value a => { a with pattern := value },
      .required "file" fun value a => { a with file := value }]

/-- A command with its name and a reader of its arguments. -/
structure CommandRule where
  name : Text
  usage : Text
  read : List Text → Except Refusal (Command × List Text)

/-- The rule of a command with a grammar. -/
def CommandRule.ofGrammar {α : Type} (name : Text) (grammar : Grammar α) (start : α)
    (command : α → Command) : CommandRule where
  name
  usage := grammar.usage
  read arguments := do
    let (value, leftOver) ← grammar.read start arguments
    return (command value, leftOver)

/-- All commands. -/
def commandRules : List CommandRule :=
  [.ofGrammar "trace" traceGrammar {} .trace,
    .ofGrammar "match" matchGrammar {} .test,
    .ofGrammar "explain" explainGrammar {} .explain,
    .ofGrammar "diagram" diagramGrammar {} .diagram,
    .ofGrammar "batch" batchGrammar {} .batch]

/-- The first argument names the command, which reads the others. -/
def readCommand (arguments : List Text) (draft : Draft) : Except Refusal Draft :=
  match arguments with
  | [] => .ok draft
  | name :: arguments =>
    match commandRules.find? fun rule => rule.name = name with
    | none =>
      .error (.mistake programName
        (.badValue "command" (.unknownChoice name (commandRules.map CommandRule.name))))
    | some rule =>
      (rule.read arguments).map fun (command, leftOver) =>
        { draft with command := some command, leftOver }

/-- How the program is called. -/
def mainGrammar : Grammar Draft where
  program := programName
  options := [helpRule, ⟨["-v", "--verbose"], .switch fun draft => { draft with verbose := true }⟩]
  positions := [.remainder "command" readCommand]

/-- What a command line says. Nothing may be left over. -/
def Invocation.read (arguments : List Text) : Except Refusal Invocation := do
  let (draft, leftOver) ← mainGrammar.read {} arguments
  match leftOver ++ draft.leftOver, draft.command with
  | [], some command => return ⟨draft.verbose, command⟩
  | [], none => .error (.mistake programName (.missing ["command"]))
  | unknown, _ => .error (.mistake programName (.unrecognized unknown))

/-- The help for a program: how it is called. -/
def helpText (program : Text) : Text :=
  match commandRules.find? fun rule => commandProgram rule.name = program with
  | some rule => rule.usage
  | none =>
    mainGrammar.usage ++ Text.ofString "\ncommands: " ++
      Text.join (Text.ofString ", ") (commandRules.map CommandRule.name)

end RegexTrace.CommandLine
