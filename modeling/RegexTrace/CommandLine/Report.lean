import RegexTrace.Flow.Dot
import RegexTrace.Host.Outcome
import RegexTrace.Log
import RegexTrace.Search.Candidates
import RegexTrace.Search.Options
import RegexTrace.Text.Codec

/-!
# Reports of commands

What a command leaves behind: its exit status or a fault, what it prints, what it logs and the files
it writes. Nothing is printed or written here; that is done with the report. The output may refuse
what is to be printed, so how the program ends depends on the encoding of the output too. The error
output refuses nothing: it escapes what it has no bytes for.
-/

namespace RegexTrace.CommandLine

/-- How a command ends. -/
inductive ExitStatus
  | ok
  | noMatch
  | badPattern
  deriving DecidableEq, Repr

/-- The number of an exit status. -/
def ExitStatus.code : ExitStatus → Nat
  | .ok => 0
  | .noMatch => 1
  | .badPattern => 2

/-- A match is a success. -/
def statusOf (matched : Bool) : ExitStatus := if matched then .ok else .noMatch

/-- Why a file cannot be used. -/
inductive FileFault
  | notFound (path : Text)
  | isDirectory (path : Text)
  deriving DecidableEq, Repr

/-- The wording of a fault of a file. -/
def FileFault.message : FileFault → Text
  | .notFound path => "[Errno 2] No such file or directory: " ++ Text.Quoted.encode path
  | .isDirectory path => "[Errno 21] Is a directory: " ++ Text.Quoted.encode path

/-- The files that a command can reach. -/
structure Files where
  /-- What a file holds. -/
  read : Text → Except FileFault Text
  /-- Why a file cannot be written. -/
  writeFault? : Text → Option FileFault := fun _ => none

/-- What keeps a command from ending. -/
inductive Fault
  | numeral (fault : NumeralFault)
  | options (fault : OptionsFault)
  | search (failure : Search.Failure)
  | node (fault : Node.Fault)
  | host (fault : Host.Fault)
  | file (fault : FileFault)
  | format (fault : Flow.UnknownFormat)
  /-- Diagrams are not rendered. -/
  | noRenderer
  deriving Repr

/-- The wording of a fault. -/
def Fault.message : Fault → Text
  | .numeral fault => fault.message
  | .options fault => fault.message
  | .search failure => failure.message
  | .node fault => fault.message
  | .host fault => fault.message
  | .file fault => fault.message
  | .format fault => fault.message
  | .noRenderer => "diagrams are not rendered here; ask for their source"

/-- Why the program ends without an exit status of its own. -/
inductive Breakdown
  | command (fault : Fault)
  | output (fault : EncodingFault)
  deriving Repr

/-- The wording of what the program ends with. -/
def Breakdown.message : Breakdown → Text
  | .command fault => fault.message
  | .output fault => fault.message

/-- What goes to the error output. -/
inductive Remark
  | logged (entry : LogEntry)
  | error (message : Text)
  deriving DecidableEq, Repr

/-- What a command leaves behind. -/
structure Report where
  result : Except Fault ExitStatus
  /-- What is printed, one part at a time. -/
  lines : List Text := []
  remarks : List Remark := []
  /-- The written files. -/
  written : List (Text × Text) := []

namespace Remark

/-- Entries for debugging are shown on demand only. -/
def isShown (verbose : Bool) : Remark → Bool
  | .logged entry => verbose || entry.severity != .debug
  | .error _ => true

/-- The line of a remark. -/
def line : Remark → Text
  | .logged entry => entry.line
  | .error message => Text.ofString "error: " ++ message

/-- The remark on a notice of a search. -/
def ofNotice (notice : Search.Notice) : Remark :=
  .logged ⟨notice.severity, "bktrace.engine", notice.message⟩

/-- The remark on a pattern that is refused. -/
def ofSyntax (pattern message : Text) : Remark :=
  .logged ⟨.debug, "bktrace.parser",
    "pattern " ++ Text.Quoted.encode pattern ++ Text.ofString " rejected: " ++ message⟩

/-- The remark on a pattern that the host refuses. An empty pattern is not worth one. -/
def ofProblem (patternText : Text) : Host.Outcome.Problem → List Remark
  | .noPattern => []
  | problem => [.logged ⟨.debug, "bktrace.native",
      "native engine rejected " ++ Text.Quoted.encode patternText ++ Text.ofString ": " ++
        problem.message⟩]

end Remark

namespace Report

/-- Lines with their ends. -/
def joinLines (lines : List Text) : Text := lines.flatMap fun line => line ++ [Ascii.newline]

/-- What is printed by an output that refuses nothing. -/
def stdout (r : Report) : Text := joinLines r.lines

/-- The lines before the first one that the output refuses. -/
def printed (codec : Codec) (r : Report) : List Text :=
  r.lines.takeWhile fun line => codec.Encodes line

/-- How the program ends: as the command does, unless the output refuses a line. -/
def outcome (codec : Codec) (r : Report) : Except Breakdown ExitStatus :=
  match r.lines.findSome? codec.fault? with
  | some fault => .error (.output fault)
  | none => r.result.mapError .command

/-- What goes to the error output. -/
def stderr (r : Report) (verbose : Bool) : Text :=
  joinLines ((r.remarks.filter (Remark.isShown verbose)).map Remark.line)

end Report

end RegexTrace.CommandLine
