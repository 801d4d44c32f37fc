import RegexTrace.CommandLine.Mistake

/-!
# Grammars of command lines

A grammar says which options a program knows and which arguments it takes by position. Reading a
command line folds what it says into a value, so a grammar is given by what each part of it does to
that value.
-/

namespace RegexTrace.CommandLine

/-- What an option does. -/
inductive Effect (α : Type)
  | help
  | switch (set : α → α)
  /-- The option takes a value. -/
  | value (set : Text → α → Except Complaint α)

/-- An option with its spellings. -/
structure OptionRule (α : Type) where
  spellings : List Text
  effect : Effect α

/-- An argument by position. -/
inductive PositionRule (α : Type)
  | required (name : Text) (set : Text → α → α)
  | optional (name : Text) (set : Text → α → α)
  /-- This argument takes all that follows, options as well. -/
  | remainder (name : Text) (set : List Text → α → Except Refusal α)

/-- The options and the positions of a program. -/
structure Grammar (α : Type) where
  program : Text
  options : List (OptionRule α)
  positions : List (PositionRule α)

namespace OptionRule

variable {α : Type}

/-- An option is named by all its spellings. -/
def name (rule : OptionRule α) : Text := Text.join "/" rule.spellings

/-- Some options take a value. -/
def takesValue (rule : OptionRule α) : Bool :=
  match rule.effect with
  | .value _ => true
  | _ => false

/-- What the use of an option does. -/
def apply (program : Text) (rule : OptionRule α) (value : Text) (state : α) : Except Refusal α :=
  match rule.effect with
  | .help => .error (.help program)
  | .switch set => .ok (set state)
  | .value set =>
    match set value state with
    | .ok state => .ok state
    | .error complaint => .error (.mistake program (.badValue rule.name complaint))

end OptionRule

/-- The options that every program has. -/
def helpRule {α : Type} : OptionRule α := ⟨["-h", "--help"], .help⟩

namespace PositionRule

variable {α : Type}

/-- The name of a position. -/
def name : PositionRule α → Text
  | .required name _ | .optional name _ | .remainder name _ => name

/-- Only optional positions may be left empty. -/
def isRequired : PositionRule α → Bool
  | .optional _ _ => false
  | _ => true

end PositionRule

namespace Grammar

variable {α : Type}

/-- A line that shows how a program is called. -/
def usage (g : Grammar α) : Text :=
  Text.join (Text.ofString " ")
    ([Text.ofString "usage:", g.program] ++
      (g.options.map fun rule => Text.ofString "[" ++ rule.name ++ Text.ofString "]") ++
      g.positions.map PositionRule.name)

end Grammar

end RegexTrace.CommandLine
