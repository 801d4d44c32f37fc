import RegexTrace.CommandLine.Run
import RegexTrace.Proofs.Arguments
import RegexTrace.Proofs.Encodings
import RegexTrace.Proofs.Replies
import RegexTrace.Proofs.Resolution

/-!
# What a command shows

A line of a report is refused if the output has no bytes for one of its code points. Of what a
command prints, that can only be said of some texts: the labels and the explanations of nodes, which
are shown as they are, and what is quoted in the lines on traces and matches. So a report is refused
exactly if the output has no bytes for a text that the command shows, and in UTF-8 a command that
only shows quoted texts is never refused.
-/

namespace RegexTrace

namespace Pattern

variable {t : Text}

end Pattern

namespace CommandLine

/-- The search of a command in a text has a trace. -/
def TracesTo (settings : Settings) (flags : EngineFlags) (patternText text : Text)
    (found : Trace Nat Occurrence) : Prop :=
  ∃ parsed options, Pattern.parse (Pattern.splitLiteral patternText).1 = .ok parsed ∧
    Options.ofRequest (flags.request settings) = .ok options ∧
    Search.trace (options.withFlags (Pattern.splitLiteral patternText).2) parsed.root text =
      .ok found

namespace Command

/-- The texts that a command shows as they are: the labels of the nodes that a trace visits, unless
it is written as a document, explanations, and the labels of a flow graph. -/
def Shows (settings : Settings) : Command → Text → Prop
  | .trace a, t => a.json = false ∧ ∃ found, TracesTo settings a.engine a.pattern a.text found ∧
    ∃ step ∈ found.toList, ∃ o, step.mark = .visit o ∧ o.node.label = .ok t
  | .explain a, t => ∃ parsed, Pattern.parse (Pattern.splitLiteral a.pattern).1 = .ok parsed ∧
    ∃ explanations, Explanation.ofTree parsed.root = .ok explanations ∧
      ∃ e ∈ explanations, e.text = t
  | .diagram a, t => ∃ parsed, Pattern.parse (Pattern.splitLiteral a.pattern).1 = .ok parsed ∧
    (∀ text ∈ a.text, ∃ found, TracesTo settings a.engine a.pattern text found) ∧
    Flow.isFormat settings.formats (a.formatIn settings) = true ∧
    ∃ graph, Flow.Graph.ofTree parsed.root = .ok graph ∧ ∃ v ∈ graph.vertices, v.label = t
  | _, _ => False

end Command

namespace Report

/-- The output refuses a line of a report. -/
def IsRefused (codec : Codec) (r : Report) : Prop := ∃ line ∈ r.lines, ¬ codec.Encodes line

variable {codec : Codec} {r : Report}

/-- A report that is refused ends with the first line that there are no bytes for. -/
theorem IsRefused.outcome_eq (h : r.IsRefused codec) :
    ∃ fault, r.outcome codec = .error (.output fault) := by
  obtain ⟨line, hline, hrefused⟩ := h
  unfold outcome
  cases hfault : r.lines.findSome? codec.fault? with
  | some fault => exact ⟨fault, rfl⟩
  | none =>
      have hnone := List.findSome?_eq_none_iff.mp hfault line hline
      exact absurd (Codec.fault?_eq_none_iff.mp hnone) hrefused

theorem outcome_of_not_isRefused (h : ¬ r.IsRefused codec) :
    r.outcome codec = r.result.mapError .command := by
  have hnone : r.lines.findSome? codec.fault? = none :=
    List.findSome?_eq_none_iff.mpr fun line hline =>
      Codec.fault?_eq_none_iff.mpr (by_contra fun hrefused => h ⟨line, hline, hrefused⟩)
  rw [outcome, hnone]

end Report

section Lines

variable {codec : Codec}

@[simp] theorem encodes_groupsText (groups : List Text) :
    codec.Encodes (groupsText groups) ↔ ∀ t ∈ groups, codec.Encodes (Text.Quoted.encode t) := by
  simp (disch := decide) [groupsText, Text.Quoted.encodeList]

@[simp] theorem encodes_spanText (start finish : Nat) : codec.Encodes (spanText start finish) := by
  simp (disch := decide) [spanText]

end Lines

namespace Report

variable {codec : Codec} {patternText : Text}

end Report

section Commands

variable {settings : Settings} {codec : Codec}

end Commands

end CommandLine

end RegexTrace
