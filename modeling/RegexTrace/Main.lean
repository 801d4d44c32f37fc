import RegexTrace.CommandLine.Run

/-!
# The program

Arguments, environment and files come from the process, and the report of the command goes back to
it.
-/

namespace RegexTrace.CommandLine

/-- The environment of the process, as far as settings look at it. -/
def processEnvironment : IO Environment := do
  let entries ← Settings.variableNames.mapM fun name => do
    return (name, (← IO.getEnv name.asString).map Text.ofString)
  return fun name => (entries.find? fun entry => entry.1 = name).bind Prod.snd

/-- What the file of a path holds. -/
def readFile (path : Text) : IO (Except FileFault Text) := do
  try return .ok (Text.ofString (← IO.FS.readFile path.asString))
  catch
    | .noFileOrDirectory _ _ _ => return .error (.notFound path)
    | _ => return .error (.isDirectory path)

/-- The files that a command needs. -/
def gatherFiles : Command → IO Files
  | .batch a => do
    let contents ← readFile a.file
    return { read := fun _ => contents }
  | _ => return { read := fun path => .error (.notFound path) }

/-- A line on the error output, which escapes what it has no bytes for. -/
def complain (message : Text) : IO Unit :=
  IO.eprintln (Codec.utf8.escape message).asString

/-- The files of a report are written, and its lines are printed as far as the output takes them. -/
def deliver (report : Report) (verbose : Bool) : IO UInt32 := do
  for (path, contents) in report.written do
    IO.FS.writeFile path.asString contents.asString
  IO.eprint (Codec.utf8.escape (report.stderr verbose)).asString
  IO.print (Report.joinLines (report.printed Codec.utf8)).asString
  match report.outcome Codec.utf8 with
  | .ok status => return status.code.toUInt32
  | .error breakdown =>
    complain breakdown.message
    return 1

/-- The program with its arguments. -/
def runProgram (arguments : List Text) : IO UInt32 := do
  match Invocation.read arguments, Settings.load (← processEnvironment) with
  | _, .error fault =>
    complain fault.message
    return 1
  | .error (.help program), _ =>
    IO.println (helpText program).asString
    return 0
  | .error (.mistake program mistake), _ =>
    complain (program ++ Text.ofString ": error: " ++ mistake.message)
    return 2
  | .ok invocation, .ok settings =>
    let files ← gatherFiles invocation.command
    deliver (invocation.command.run settings files) invocation.verbose

end RegexTrace.CommandLine

/-- The program is started with its arguments. -/
def main (args : List String) : IO UInt32 :=
  RegexTrace.CommandLine.runProgram (args.map RegexTrace.Text.ofString)
