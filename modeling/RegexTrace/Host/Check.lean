import RegexTrace.Host.Fault
import RegexTrace.Host.Item

/-!
# What is checked on finished items

The width of a lookbehind is known only when all of it has been read.
-/

namespace RegexTrace.Host

/-- The greatest width of a lookbehind. -/
def widthLimit : Nat := 4294967295

mutual

/-- What can only be checked when all is read: lookbehinds have one width, and nothing is repeated
in a template. -/
def checkItem (flags : Flags) : Item → Except Fault Unit
  | .group _ on off body => checkItems (flags.inside on off) body
  | .atomic body => checkItems flags body
  | .ahead _ body => checkItems flags body
  | .behind _ widths body =>
    if widthLimit < widths.1 then .error (.refused ⟨.distantLookbehind, none⟩)
    else if widths.1 ≠ widths.2 then .error (.refused ⟨.variableLookbehind, none⟩)
    else checkItems flags body
  | .branch branches => checkBranches flags branches
  | .repetition mode _ _ body =>
    if flags.template then .error (.refused ⟨.templateRepeat (operatorName mode), none⟩)
    else checkItems flags body
  | .condition _ yes no => do
    checkItems flags yes
    match no with
    | some no => checkItems flags no
    | none => .ok ()
  | _ => .ok ()
where
  /-- The name of a repetition in messages. -/
  operatorName : Mode → Text
    | .greedy => "MAX_REPEAT"
    | .reluctant => "MIN_REPEAT"
    | .possessive => "POSSESSIVE_REPEAT"

/-- All items are checked in order. -/
def checkItems (flags : Flags) : List Item → Except Fault Unit
  | [] => .ok ()
  | item :: rest => do
    checkItem flags item
    checkItems flags rest

/-- All branches are checked in order. -/
def checkBranches (flags : Flags) : List (List Item) → Except Fault Unit
  | [] => .ok ()
  | body :: rest => do
    checkItems flags body
    checkBranches flags rest

end

end RegexTrace.Host
