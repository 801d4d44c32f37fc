import RegexTrace.Main
import RegexTrace.Node.Coverage
import RegexTrace.Proofs.Alignment
import RegexTrace.Proofs.Arguments
import RegexTrace.Proofs.Batches
import RegexTrace.Proofs.Blankness
import RegexTrace.Proofs.Budget
import RegexTrace.Proofs.ClassItems
import RegexTrace.Proofs.Compatibility
import RegexTrace.Proofs.Completeness
import RegexTrace.Proofs.Composition
import RegexTrace.Proofs.Decoding
import RegexTrace.Proofs.DiagramSources
import RegexTrace.Proofs.Discipline
import RegexTrace.Proofs.ExitStatus
import RegexTrace.Proofs.Findings
import RegexTrace.Proofs.Freshness
import RegexTrace.Proofs.Identifiers
import RegexTrace.Proofs.MarkLabels
import RegexTrace.Proofs.Parsing
import RegexTrace.Proofs.Recovery
import RegexTrace.Proofs.Replies
import RegexTrace.Proofs.Resolution
import RegexTrace.Proofs.Roles
import RegexTrace.Proofs.SpelledRanges
import RegexTrace.Proofs.Termination
import RegexTrace.Proofs.Tiling
import RegexTrace.Proofs.Totality
import RegexTrace.Proofs.Unrolling
import RegexTrace.Proofs.Walks
import RegexTrace.Proofs.Wiring
