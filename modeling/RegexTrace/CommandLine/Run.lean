import RegexTrace.CommandLine.Command
import RegexTrace.CommandLine.Report
import RegexTrace.Json
import RegexTrace.Node.Outline
import RegexTrace.Session

/-!
# Running commands

A command that works on the tree of a pattern ends with the status of a bad pattern when the pattern
is refused, whatever else it was asked for. A trace is printed as a list of steps or as a JSON
document; an explanation is a line for each node; a diagram is the flow graph of the pattern in the
DOT language, with the path of a trace highlighted if there is a text to match. Production matches
are asked for once, or for every line of a file.
-/

namespace RegexTrace.CommandLine

/-! ## Commands on the tree of a pattern -/

/-- What is to be done with the tree of a pattern, when it has one. -/
def withTree (patternText : Text) (go : Pattern.Reading.Result → Node → Report) : Report :=
  match Pattern.read patternText [] with
  | .error fault => { result := .error (.numeral fault) }
  | .ok reading =>
    match reading.result with
    | .ok parsed => go reading parsed.root
    | .error fault =>
      { result := .ok .badPattern
        remarks := [.ofSyntax reading.pattern fault.message, .error fault.message] }

/-- What is to be done with the trace of a tree in a text. A search that exceeds its budget counts
as one without a match. -/
def withTrace (settings : Settings) (flags : EngineFlags) (reading : Pattern.Reading.Result)
    (root : Node) (text : Text) (go : Trace Nat Occurrence → List Remark → Report) : Report :=
  match Options.ofRequest (flags.request settings) with
  | .error fault => { result := .error (.options fault) }
  | .ok options =>
    let search := Search.run (options.withFlags reading.flags) root text
    let remarks := search.notices.toList.map Remark.ofNotice
    match search.result with
    | .ok trace => go trace remarks
    | .error (.budgetExceeded limit) =>
      { result := .ok .noMatch
        remarks := remarks ++ [.error (Search.Failure.message (.budgetExceeded limit))] }
    | .error failure => { result := .error (.search failure), remarks }

/-- The line of an explanation. -/
def explanationLine (e : Explanation) : Text :=
  Text.padRight 24 e.id ++ Text.ofString " " ++ e.text

/-- The explain command. -/
def runExplain (a : ExplainArguments) : Report :=
  withTree a.pattern fun _ root =>
    match Explanation.ofTree root with
    | .ok explanations => { result := .ok .ok, lines := explanations.map explanationLine }
    | .error fault => { result := .error (.node fault) }

/-! ## Traces -/

/-- A trace as a JSON document: its span and its named steps. -/
def traceDocument (root : Node) (trace : Trace Nat Occurrence) : Json :=
  let span := trace.span?.map fun (first, last) => [first, last]
  let steps := (trace.named (traceNames root)).map fun (position, name) =>
    Json.object [("string_index", .number position), ("node", .text name)]
  .object
    [("span", Json.optional (fun span => .array (span.map fun (n : Nat) => .number n)) span),
      ("steps", .array steps)]

/-- The line of a step: its position, its label and the kind of its node. -/
def stepLine (step : Step Nat Occurrence) : Except Node.Fault Text := do
  let (label, kind) ←
    match step.mark with
    | .visit o => do pure (← o.node.label, o.node.typeName)
    | mark => pure (mark.display fun _ => [], [])
  return Text.ofString "  " ++ Text.padLeft 4 (Text.ofNat step.position) ++ Text.ofString "  " ++
    Text.padRight 12 label ++ Text.ofString " " ++ kind

/-- The heading of a trace. -/
def traceHeading (pattern text : Text) (span : Option (Nat × Nat)) : Text :=
  "[TRACE] " ++ Text.Quoted.encode pattern ++ Text.ofString " in " ++ Text.Quoted.encode text ++
    match span with
    | some (first, last) =>
      " → match [" ++ Text.ofNat first ++ Text.ofString ", " ++ Text.ofNat last ++ Text.ofString "]"
    | none => " → no match"

/-- A trace in lines. -/
def traceLines (pattern text : Text) (trace : Trace Nat Occurrence) :
    Except Node.Fault (List Text) := do
  let steps ← trace.toList.mapM stepLine
  return traceHeading pattern text trace.span? :: steps

/-- The trace command. -/
def runTrace (settings : Settings) (a : TraceArguments) : Report :=
  withTree a.pattern fun reading root =>
    withTrace settings a.engine reading root a.text fun trace remarks =>
      if a.json then
        { result := .ok (statusOf !trace.isEmpty)
          lines := [(traceDocument root trace).write]
          remarks }
      else
        match traceLines a.pattern a.text trace with
        | .ok lines => { result := .ok (statusOf !trace.isEmpty), lines, remarks }
        | .error fault => { result := .error (.node fault), remarks }

/-! ## Diagrams -/

/-- The file with the outline of a tree, if one is asked for. -/
def outlineFile (root : Node) : Option Text → Except Node.Fault (Option (Text × Text))
  | none | some [] => .ok none
  | some path => do return some (path, (← Outline.ofNode "root" root).toJson.write)

/-- The diagram format that a command line chooses, or else that of the settings. -/
def DiagramArguments.formatIn (settings : Settings) (a : DiagramArguments) : Text :=
  match a.format with
  | none | some [] => settings.diagramFormat
  | some format => format

/-- The end of the diagram command: the outline is written, and the source printed. -/
def finishDiagram (settings : Settings) (files : Files) (a : DiagramArguments) (root : Node)
    (graph : Flow.Graph) (highlight : List Text) (remarks : List Remark) : Report :=
  match outlineFile root a.outline with
  | .error fault => { result := .error (.node fault), remarks }
  | .ok outline =>
    match outline.bind fun file => files.writeFault? file.1 with
    | some fault => { result := .error (.file fault), remarks }
    | none =>
      let written := outline.toList
      let format := a.formatIn settings
      if !Flow.isFormat settings.formats format then
        { result := .error (.format ⟨format, settings.formats⟩), remarks, written }
      else if a.source then
        { result := .ok .ok, lines := [Flow.Dot.source graph highlight], remarks, written }
      else { result := .error .noRenderer, remarks, written }

/-- The diagram command. -/
def runDiagram (settings : Settings) (files : Files) (a : DiagramArguments) : Report :=
  withTree a.pattern fun reading root =>
    match Flow.Graph.ofTree root with
    | .error fault => { result := .error (.node fault) }
    | .ok graph =>
      match a.text with
      | none => finishDiagram settings files a root graph [] []
      | some text =>
        withTrace settings a.engine reading root text fun trace remarks =>
          finishDiagram settings files a root graph ((graph.path trace).map Flow.Id.text) remarks

/-! ## Production matches -/

/-- The span of a match and what it captured. -/
def spanText (start finish : Nat) : Text :=
  "[" ++ Text.ofNat start ++ Text.ofString ", " ++ Text.ofNat finish ++ Text.ofString ")"

/-- The captured texts of a match. -/
def groupsText (groups : List Text) : Text := "groups=" ++ Text.Quoted.encodeList groups

/-- The line of one of all matches. -/
def listedLine (m : Host.Outcome.Listed) : Text :=
  Text.join (Text.ofString " ")
    [Text.ofNat m.index ++ Text.ofString ":", spanText m.start m.finish, Text.Quoted.encode m.text,
      groupsText m.groups]

/-- The lines on the first match. -/
def hitLine : Option Host.Outcome.Hit → Text
  | none => "no match"
  | some hit =>
    Text.join (Text.ofString " ")
      [Text.ofString "match", spanText hit.start hit.finish, groupsText hit.groups]

/-- What is to be done with production matches, when the pattern is not refused. -/
def withOutcome (patternText : Text) (outcome : Except Host.Fault (Host.Outcome α))
    (go : α → Report) : Report :=
  match outcome with
  | .error fault => { result := .error (.host fault) }
  | .ok (.error problem) =>
    { result := .ok .badPattern
      remarks := Remark.ofProblem patternText problem ++ [.error problem.message] }
  | .ok (.ok found) => go found

/-- The match command. -/
def runMatch [Host.CharacterNames] (a : MatchArguments) : Report :=
  if a.all then
    withOutcome a.pattern (Host.testMatchAll a.pattern a.text []) fun found =>
      { result := .ok (statusOf !found.isEmpty), lines := found.map listedLine }
  else
    withOutcome a.pattern (Host.testMatch a.pattern a.text []) fun found =>
      { result := .ok (statusOf found.isSome), lines := [hitLine found] }

/-! ## Batches -/

/-- The remarks on the pattern of a session. -/
def sessionRemarks (s : Session) : List Remark :=
  match s.reading, s.error? with
  | some reading, some message =>
    [.ofSyntax reading.pattern message,
      .logged ⟨.debug, "bktrace.session", Text.ofString "parse error: " ++ message⟩]
  | _, _ => []

/-- A line of a batch counts as matched when it has a match. -/
def isMatched : Host.Outcome (Option Host.Outcome.Hit) → Bool
  | .ok (some _) => true
  | _ => false

/-- The line on a line of a batch. -/
def batchLine (line : Text) (matched : Bool) : Text :=
  Text.ofString (if matched then "MATCH  " else "-----  ") ++ line

/-- The lines of a batch without a problem. -/
def batchLines (results : List (Text × Host.Outcome (Option Host.Outcome.Hit))) : List Text :=
  let matched := results.countP fun r => isMatched r.2
  results.map (fun r => batchLine r.1 (isMatched r.2)) ++
    [Text.ofNat matched ++ Text.ofString "/" ++ Text.ofNat results.length ++
      Text.ofString " lines matched"]

/-- The remarks on the results of a batch. -/
def batchRemarks (patternText : Text)
    (results : List (Text × Host.Outcome (Option Host.Outcome.Hit))) : List Remark :=
  results.flatMap fun r =>
    match r.2 with
    | .error problem => Remark.ofProblem patternText problem
    | .ok _ => []

/-- The report on the results of a batch; the first line tells whether the pattern is refused. -/
def reportBatch (patternText : Text) (remarks : List Remark)
    (results : List (Text × Host.Outcome (Option Host.Outcome.Hit))) : Report :=
  let remarks := remarks ++ batchRemarks patternText results
  match results with
  | (_, .error problem) :: _ =>
    { result := .ok .badPattern, remarks := remarks ++ [.error problem.message] }
  | _ => { result := .ok .ok, lines := batchLines results, remarks }

/-- The batch command. -/
def runBatch [Host.CharacterNames] (settings : Settings) (files : Files) (a : BatchArguments) :
    Report :=
  match Options.ofRequest settings.request with
  | .error fault => { result := .error (.options fault) }
  | .ok options =>
    match Session.read { options, patternText := a.pattern } with
    | .error fault => { result := .error (.numeral fault) }
    | .ok session =>
      let remarks := sessionRemarks session
      match files.read a.file with
      | .error fault => { result := .error (.file fault), remarks }
      | .ok contents =>
        let session := { session with batch := Text.lines (Text.unifyNewlines contents) }
        match session.testBatch with
        | .error fault => { result := .error (.host fault), remarks }
        | .ok results => reportBatch a.pattern remarks results

/-! ## All commands -/

/-- A command is run. -/
def Command.run [Host.CharacterNames] (settings : Settings) (files : Files) : Command → Report
  | .trace a => runTrace settings a
  | .test a => runMatch a
  | .explain a => runExplain a
  | .diagram a => runDiagram settings files a
  | .batch a => runBatch settings files a

end RegexTrace.CommandLine
