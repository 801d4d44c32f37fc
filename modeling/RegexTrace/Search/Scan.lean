import RegexTrace.Search.Matching

/-!
# The scan for the leftmost match

Start positions are tried in increasing order, and the first one from which the pattern has a
candidate wins with its best candidate. Every start begins a fresh trace; the count of node entries
goes on.
-/

namespace RegexTrace.Search

/-- What a search reports, with its answer: a trace, empty without a match, or a failure. -/
structure Report where
  result : Except Failure (Trace Nat Occurrence)
  /-- The node entries over all start positions. -/
  entries : Nat
  notices : Array Notice

/-- The report of a match. -/
def Report.found (start finish : Nat) (s : State) : Report where
  result := .ok (s.trace.append finish .finish)
  entries := s.entries
  notices := s.notices.push (.found start finish s.entries)

/-- The trial of start positions in the given order. -/
def scanFrom (ctx : Context) (root : Node) : List Nat → State → Report
  | [], s => ⟨.ok {}, s.entries, s.notices.push (.notFound s.entries)⟩
  | start :: rest, s =>
    let fresh := { s with trace := Trace.append {} start .start }
    match rootCandidates ctx root start fresh with
    | .offer finish s' _ => Report.found start finish s'
    | .exhausted s' => scanFrom ctx root rest s'
    | .aborted failure s' => ⟨.error failure, s'.entries, s'.notices⟩

/-- The search for the leftmost match of a pattern in a text. A missing pattern has an empty trace
and nothing is reported. -/
def run (options : Options) (root : Node) (text : Text) : Report :=
  if root.isAbsent then ⟨.ok {}, 0, #[]⟩
  else
    let units := Utf16.encode text
    scanFrom ⟨units, options⟩ root (List.range (units.size + 1)) {}

/-- The trace of the leftmost match, empty without a match. -/
def trace (options : Options) (root : Node) (text : Text) : Except Failure (Trace Nat Occurrence) :=
  (run options root text).result

/-- The span of the leftmost match. -/
def span? (options : Options) (root : Node) (text : Text) : Except Failure (Option (Nat × Nat)) :=
  (trace options root text).map Trace.span?

end RegexTrace.Search
