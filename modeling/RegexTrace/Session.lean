import RegexTrace.Host.Outcome
import RegexTrace.Pattern.Literal
import RegexTrace.Search.Scan

/-!
# Sessions

A session holds the pattern that is being worked on with what came of reading it, the texts it is
tested against, and the node whose explanation is shown. It is changed and asked by commands.

## Implementation notes

The tree, the error and the flags of the pattern are not kept one by one but as one reading, which
is missing for a blank pattern. So they always belong to the same text.
-/

namespace RegexTrace

/-- The state of a session. -/
structure Session where
  options : Options := {}
  patternText : Text := []
  /-- The text that should match. -/
  safeText : Text := []
  /-- The text that should not match. -/
  deniedText : Text := []
  batch : List Text := []
  /-- What came of reading the pattern; nothing for a blank one. -/
  reading : Option Pattern.Reading.Result := none
  /-- The identifier of the node whose explanation is shown. -/
  selected : Option Text := none

namespace Session

/-- What a session is told or asked. -/
inductive Command
  | setPattern (text : Text)
  | reparse
  | setSafe (text : Text)
  | setDenied (text : Text)
  | setBatch (lines : List Text)
  | clearBatch
  | select (id : Option Text)
  | trace (text : Text)
  | test (text : Text)
  | testAll (text : Text)
  | testSafe
  | testDenied
  | testBatch
  | explain
  deriving DecidableEq, Repr

/-- Why a command has no reply. -/
inductive Fault
  | numeral (fault : NumeralFault)
  | search (failure : Search.Failure)
  | host (fault : Host.Fault)
  | explanation (fault : Node.Fault)
  deriving Repr

/-- What a session replies. -/
inductive Reply
  | done
  | traced (trace : Trace Nat Occurrence)
  | matched (outcome : Host.Outcome (Option Host.Outcome.Hit))
  | listed (outcome : Host.Outcome (List Host.Outcome.Listed))
  /-- The lines with what became of each. -/
  | batched (results : List (Text × Host.Outcome (Option Host.Outcome.Hit)))
  | explained (explanation : Option Explanation)

/-- The tree of the pattern, missing for a blank or refused one. -/
def root (s : Session) : Node :=
  match s.reading with
  | some reading => reading.root
  | none => .absent

/-- The wording of what is wrong with the pattern. -/
def error? (s : Session) : Option Text := s.reading.bind Pattern.Reading.Result.error?

/-- The flags of the pattern. -/
def flags (s : Session) : Text :=
  match s.reading with
  | some reading => reading.flags
  | none => []

/-- The pattern text is read. -/
def read (s : Session) : Except NumeralFault Session :=
  if (Text.trim s.patternText).isEmpty then .ok { s with reading := none }
  else (Pattern.read s.patternText []).map fun reading => { s with reading := some reading }

/-- The trace of the pattern in a text, empty without a tree. -/
def trace (s : Session) (text : Text) : Except Search.Failure (Trace Nat Occurrence) :=
  Search.trace (s.options.withFlags s.flags) s.root text

/-- The first production match in a text. -/
def test [Host.CharacterNames] (s : Session) (text : Text) :
    Except Host.Fault (Host.Outcome (Option Host.Outcome.Hit)) :=
  Host.testMatch s.patternText text s.flags

/-- All production matches in a text. -/
def testAll [Host.CharacterNames] (s : Session) (text : Text) :
    Except Host.Fault (Host.Outcome (List Host.Outcome.Listed)) :=
  Host.testMatchAll s.patternText text s.flags

/-- Every line of the batch is tested. -/
def testBatch [Host.CharacterNames] (s : Session) :
    Except Host.Fault (List (Text × Host.Outcome (Option Host.Outcome.Hit))) :=
  s.batch.mapM fun line => (s.test line).map fun outcome => (line, outcome)

/-- The explanation of the selected node. -/
def explanation (s : Session) : Except Node.Fault (Option Explanation) :=
  match s.selected with
  | none => .ok none
  | some id => Explanation.find? s.root id

/-- A session after reading its pattern. When that fails, the earlier reading stays. -/
def reparse (s : Session) : Except Fault Reply × Session :=
  match s.read with
  | .ok s => (.ok .done, s)
  | .error fault => (.error (.numeral fault), s)

/-- The reply to a question, which leaves the session as it is. -/
def answer (s : Session) (fault : ε → Fault) (reply : α → Reply) :
    Except ε α → Except Fault Reply × Session
  | .ok value => (.ok (reply value), s)
  | .error e => (.error (fault e), s)

/-- The reply to a command and the session after it. -/
def step [Host.CharacterNames] (s : Session) : Command → Except Fault Reply × Session
  | .setPattern text => reparse { s with patternText := text }
  | .reparse => reparse s
  | .setSafe text => (.ok .done, { s with safeText := text })
  | .setDenied text => (.ok .done, { s with deniedText := text })
  | .setBatch lines => (.ok .done, { s with batch := lines })
  | .clearBatch => (.ok .done, { s with batch := [] })
  | .select id => (.ok .done, { s with selected := id })
  | .trace text => s.answer .search .traced (s.trace text)
  | .test text => s.answer .host .matched (s.test text)
  | .testAll text => s.answer .host .listed (s.testAll text)
  | .testSafe => s.answer .host .matched (s.test s.safeText)
  | .testDenied => s.answer .host .matched (s.test s.deniedText)
  | .testBatch => s.answer .host .batched s.testBatch
  | .explain => s.answer .explanation .explained s.explanation

end Session

end RegexTrace
