import RegexTrace.Proofs.Printing

/-!
# The exit status of a command

A command ends with the status of a bad pattern if the engine that it asks refuses the pattern, with
the status of no match if it looks for a match and finds none or exceeds its budget, and with
success otherwise. Some requests end in a fault instead: a bound with too many digits, options that
are refused, an unknown diagram format, and what the host cannot handle. So does every command that
shows a text that the output has no bytes for.

## Implementation notes

What a search comes to is said with the reader, the options and the search alone, in the order in
which a command asks them: options are not looked at for a refused pattern, and the format of a
diagram is not for a search that exceeds its budget. First the result of a command is settled as if
everything could be printed, and then the output is asked.
-/

namespace RegexTrace

namespace Search

variable {options : Options} {root : Node} {text : Text}

end Search

namespace Pattern

/-- The reader refuses the pattern of a text. -/
def IsRefused (t : Text) : Prop := ∃ fault, parse (splitLiteral t).1 = .error (.malformed fault)

variable {t : Text}

end Pattern

namespace CommandLine

/-- What the search of a command in a text comes to: the pattern is accepted, so are the options,
and the leftmost match under the flags of the pattern is as given. -/
def SearchesTo (settings : Settings) (flags : EngineFlags) (patternText text : Text)
    (result : Except Search.Failure (Option (Nat × Nat))) : Prop :=
  ∃ parsed options, Pattern.parse (Pattern.splitLiteral patternText).1 = .ok parsed ∧
    Options.ofRequest (flags.request settings) = .ok options ∧
    Search.span? (options.withFlags (Pattern.splitLiteral patternText).2) parsed.root text = result

namespace Command

end Command

/-- Which of four ends a result is, said by properties of what was asked for. -/
structure Settles {ε : Type} (result : Except ε ExitStatus) (refused nothing stuck : Prop) :
    Prop where
  badPattern : result = .ok .badPattern ↔ refused
  noMatch : result = .ok .noMatch ↔ nothing
  ok : result = .ok .ok ↔ ¬ refused ∧ ¬ nothing ∧ ¬ stuck
  fault : (∃ fault, result = .error fault) ↔ stuck

namespace Settles

variable {ε : Type} {result : Except ε ExitStatus} {refused nothing stuck : Prop}

theorem of_fault {fault : ε} (h : result = .error fault) (hrefused : ¬ refused)
    (hnothing : ¬ nothing) (hstuck : stuck) : Settles result refused nothing stuck := by
  constructor <;> simp [*]

theorem congr {refused' nothing' stuck' : Prop} (h : Settles result refused nothing stuck)
    (hrefused : refused ↔ refused') (hnothing : nothing ↔ nothing') (hstuck : stuck ↔ stuck') :
    Settles result refused' nothing' stuck' :=
  propext hrefused ▸ propext hnothing ▸ propext hstuck ▸ h

/-- The end of the program is settled if that of the command is, and if the output refuses nothing
of a report on a pattern that is refused. -/
theorem outcome {r : Report} {codec : Codec} (h : Settles r.result refused nothing stuck)
    (hsilent : refused → ¬ r.IsRefused codec) :
    Settles (r.outcome codec) refused (nothing ∧ ¬ r.IsRefused codec)
      (stuck ∨ r.IsRefused codec) := by
  by_cases hrefused : r.IsRefused codec
  · obtain ⟨fault, hfault⟩ := hrefused.outcome_eq
    exact .of_fault hfault (fun h => hsilent h hrefused) (fun h => h.2 hrefused) (Or.inr hrefused)
  · have hmap : ∀ status, r.outcome codec = .ok status ↔ r.result = .ok status := by
      intro status
      rw [Report.outcome_of_not_isRefused hrefused]
      cases r.result <;> simp [Except.mapError]
    refine ⟨(hmap _).trans h.badPattern, (hmap _).trans ?_, (hmap _).trans ?_, ?_⟩
    · rw [h.noMatch, and_iff_left hrefused]
    · rw [h.ok, and_iff_left hrefused, or_iff_left hrefused]
    · rw [or_iff_left hrefused, ← h.fault, Report.outcome_of_not_isRefused hrefused]
      cases r.result <;> simp [Except.mapError]

end Settles

section Tree

variable {settings : Settings} {flags : EngineFlags} {patternText text : Text}
  {parsed : Pattern.Parsed} {nothing stuck : Prop}

theorem SearchesTo.unique {result result' : Except Search.Failure (Option (Nat × Nat))}
    (h : SearchesTo settings flags patternText text result)
    (h' : SearchesTo settings flags patternText text result') : result = result' := by
  obtain ⟨parsed, options, hparsed, hoptions, rfl⟩ := h
  obtain ⟨parsed', options', hparsed', hoptions', rfl⟩ := h'
  cases hparsed.symm.trans hparsed'
  cases hoptions.symm.trans hoptions'
  rfl

end Tree

end CommandLine

end RegexTrace
