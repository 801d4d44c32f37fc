import RegexTrace.Text.Basic

/-!
# Coverage of the node kinds

A table of handlers covers the node kinds when it has an entry for each of them; more entries do no
harm.
-/

namespace RegexTrace.Coverage

/-- The names of the node kinds that every table has to cover. -/
def nodeKinds : List Text :=
  ["Anchor", "Value", "Dot", "ClassEscape", "CharacterClass", "Unsupported", "Alternative",
    "Disjunction", "Group", "Quantifier"]

/-- Texts in the order of their code points. -/
def precedes : Text → Text → Bool
  | [], _ => true
  | _ :: _, [] => false
  | c :: s, d :: t => c < d || (c == d && precedes s t)

/-- The kinds without an entry, each once and in order. -/
def missing (kinds entries : List Text) : List Text :=
  ((kinds.filter fun kind => !entries.contains kind).eraseDups).mergeSort precedes

/-- What is wrong with a table; nothing when it covers the kinds. -/
def complaint? (table : Text) (kinds entries : List Text) : Option Text :=
  match missing kinds entries with
  | [] => none
  | kinds => some (table ++ Text.ofString " has no handler for: " ++ Text.join ", " kinds)

end RegexTrace.Coverage
