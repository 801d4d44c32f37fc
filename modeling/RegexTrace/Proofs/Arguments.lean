import RegexTrace.CommandLine.Command
import RegexTrace.Proofs.Parsing

/-!
# The texts of a command

Reading a command line tells arguments apart, cuts values off them and hands these to options and
positions. It makes up no text of its own. So a command that was read from texts of code points has
texts of code points only.

## Implementation notes

This is shown for any grammar and any property of the value that it builds: the property is kept by
the whole reading if every option and every position keeps it.
-/

namespace RegexTrace

namespace CommandLine

variable {α : Type} {holds : α → Prop}

/-- An option keeps a property of the value that is built. -/
def OptionRule.Keeps (holds : α → Prop) (rule : OptionRule α) : Prop :=
  match rule.effect with
  | .help => True
  | .switch set => ∀ state, holds state → holds (set state)
  | .value set => ∀ value state next, value.Valid → holds state → set value state = .ok next →
      holds next

/-- A position keeps a property of the value that is built. -/
def PositionRule.Keeps (holds : α → Prop) : PositionRule α → Prop
  | .required _ set | .optional _ set => ∀ value state, value.Valid → holds state →
      holds (set value state)
  | .remainder _ set => ∀ values state next, (∀ value ∈ values, value.Valid) → holds state →
      set values state = .ok next → holds next

/-- All options and positions of a grammar keep a property. -/
structure Grammar.Keeps (holds : α → Prop) (g : Grammar α) : Prop where
  options : ∀ rule ∈ g.options, rule.Keeps holds
  positions : ∀ rule ∈ g.positions, rule.Keeps holds

/-- What the use of an option does keeps what the option keeps. -/
theorem OptionRule.Keeps.apply {rule : OptionRule α} (h : rule.Keeps holds) {program value : Text}
    (valid : value.Valid) {state next : α} (hstate : holds state)
    (happly : rule.apply program value state = .ok next) : holds next := by
  unfold OptionRule.Keeps at h
  unfold OptionRule.apply at happly
  cases heffect : rule.effect with
  | help =>
      rw [heffect] at happly
      cases happly
  | switch set =>
      rw [heffect] at h happly
      cases happly
      exact h state hstate
  | value set =>
      rw [heffect] at h happly
      dsimp only at h happly
      split at happly
      · next hset =>
          cases happly
          exact h value state _ valid hstate hset
      · cases happly

/-- What the arguments of a position do keeps what the position keeps. -/
theorem PositionRule.Keeps.apply {rule : PositionRule α} (h : rule.Keeps holds)
    {arguments : List Text} (valid : ∀ argument ∈ arguments, argument.Valid) {state next : α}
    (hstate : holds state) (happly : rule.apply arguments state = .ok next) : holds next := by
  unfold PositionRule.apply at happly
  cases rule with
  | remainder name set => exact h arguments state next valid hstate happly
  | required name set | optional name set =>
      dsimp only at happly
      split at happly
      · cases happly
        exact hstate
      · next argument rest herase =>
          cases happly
          have hmem : argument ∈ arguments.erase separator := by
            rw [herase]
            exact List.mem_cons_self
          exact h argument state (valid argument (List.mem_of_mem_erase hmem)) hstate

variable (g : Grammar α)

/-- An option as it occurs is one of a grammar, and a value attached to it has code points only. -/
structure OptionUse.Fits (use : OptionUse α) : Prop where
  rule : use.rule ∈ g.options
  attached : ∀ attached ∈ use.attached, attached.value.Valid

/-- An argument with what it is: it has code points only, and so has a value that is attached to an
option of the grammar. -/
structure ArgumentFits (argument : Text × Token α) : Prop where
  text : argument.1.Valid
  use : ∀ use, argument.2 = .option (some use) → use.Fits g

namespace Grammar

variable {g}

end Grammar

/-- The state of a reading fits: what is still to be served fits, and the value has the property
that the positions keep. -/
structure Progress.Fits (holds : α → Prop) (p : Progress α) : Prop where
  positions : ∀ rule ∈ p.positions, rule.Keeps holds
  arguments : ∀ argument ∈ p.arguments, ArgumentFits g argument
  state : holds p.state

variable {g}

namespace Grammar

/-- What an argument with options asks for fits. -/
structure ClusterFits (g : Grammar α) (cluster : Cluster α) : Prop where
  uses : ∀ use ∈ cluster.uses, use.1 ∈ g.options ∧ use.2.Valid
  last : ∀ rule ∈ cluster.last, rule ∈ g.options

theorem ClusterFits.cons {cluster : Cluster α} (h : g.ClusterFits cluster) {rule : OptionRule α}
    (hrule : rule ∈ g.options) :
    g.ClusterFits { cluster with uses := (rule, []) :: cluster.uses } where
  uses := List.forall_mem_cons.mpr ⟨⟨hrule, List.forall_mem_nil _⟩, h.uses⟩
  last := h.last

end Grammar

/-- The texts of a command have code points only. -/
def Command.Valid : Command → Prop
  | .trace a => a.pattern.Valid ∧ a.text.Valid
  | .test a => a.pattern.Valid ∧ a.text.Valid
  | .explain a => a.pattern.Valid
  | .diagram a => a.pattern.Valid ∧ ∀ text ∈ a.text, text.Valid
  | .batch a => a.pattern.Valid ∧ a.file.Valid

end CommandLine

end RegexTrace
