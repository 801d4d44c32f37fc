import RegexTrace.Node.Basic

/-!
# Well-formed trees

The grammar of the trees that stand for patterns: a pattern is a sequence of terms or a choice
between several, a term is a leaf, a group or a repetition, and every number and name in a tree is
one that a pattern can spell.

## Implementation notes

The body of a group is a run of terms or one choice. The grammar has a rule for each, so a choice is
a sequence of sequences and never a term itself.
-/

namespace RegexTrace

/-- A number is a code point. -/
def IsCodePoint (n : Int) : Prop := 0 ≤ n ∧ n < codePointLimit

instance (n : Int) : Decidable (IsCodePoint n) := inferInstanceAs (Decidable (_ ∧ _))

/-- All members of a text are code points. -/
def Text.Valid (t : Text) : Prop := ∀ c ∈ t, c < codePointLimit

instance (t : Text) : Decidable t.Valid := inferInstanceAs (Decidable (∀ c ∈ t, c < codePointLimit))

/-- An anchor kind that a pattern can ask for. -/
def AnchorKind.Known : AnchorKind → Prop
  | .other _ => False
  | _ => True

/-- A class that has a letter in patterns. -/
def EscapeKind.Known : EscapeKind → Prop
  | .other _ => False
  | _ => True

instance (kind : AnchorKind) : Decidable kind.Known :=
  match kind with
  | .other _ => .isFalse id
  | .start | .finish | .boundary | .notBoundary => .isTrue trivial

instance (kind : EscapeKind) : Decidable kind.Known :=
  match kind with
  | .other _ => .isFalse id
  | .digit | .notDigit | .word | .notWord | .blank | .notBlank => .isTrue trivial

/-- A behaviour that has a sign in patterns. -/
def Behaviour.Known : Behaviour → Prop
  | .other _ => False
  | _ => True

namespace Node

/-- The constructs that are read but never matched. -/
def unsupportedKinds : List Text := ["reference", "unicodePropertyEscape"]

/-- An item of a class. -/
def IsItem : Node → Prop
  | .value c => IsCodePoint c
  | .range min max => IsCodePoint min ∧ IsCodePoint max ∧ min ≤ max
  | .escape kind => kind.Known
  | .unsupported kind _ => kind ∈ unsupportedKinds
  | _ => False

/-- What a repetition can stand after: no anchor and no other repetition. -/
def Repeatable : Node → Prop
  | .anchor _ | .quantifier _ _ _ _ _ => False
  | _ => True

/-- A one-character spelling belongs to its own bounds. -/
def ShorthandFits (min : Int) (max : Option Int) : Option Shorthand → Prop
  | none => True
  | some .star => min = 0 ∧ max = none
  | some .plus => min = 1 ∧ max = none
  | some .question => min = 0 ∧ max = some 1
  | some (.other _) => False

/-- The labels of a group: a capturing group has a number and may have a name, any other group has
neither. -/
def LabelsFit (behaviour : Behaviour) (name : Option Text) (number : Option Int) : Prop :=
  behaviour.Known ∧ (name ≠ none → behaviour = .capturing) ∧
    (number ≠ none ↔ behaviour = .capturing)

/-- A term of a pattern. -/
inductive IsTerm : Node → Prop
  | anchor {kind : AnchorKind} (known : kind.Known) : IsTerm (.anchor kind)
  | value {c : Int} (codePoint : IsCodePoint c) : IsTerm (.value c)
  | dot : IsTerm .dot
  | escape {kind : EscapeKind} (known : kind.Known) : IsTerm (.escape kind)
  | charClass {negative : Bool} {items : List Node} (known : ∀ item ∈ items, item.IsItem) :
      IsTerm (.charClass negative items)
  | unsupported {kind raw : Text} (known : kind ∈ unsupportedKinds) : IsTerm (.unsupported kind raw)
  | run {behaviour : Behaviour} {body : List Node} {name : Option Text} {number : Option Int}
      (labels : LabelsFit behaviour name number) (terms : ∀ term ∈ body, IsTerm term) :
      IsTerm (.group behaviour body name number)
  | choice {behaviour : Behaviour} {branches : List (List Node)} {name : Option Text}
      {number : Option Int} (labels : LabelsFit behaviour name number)
      (several : 2 ≤ branches.length) (terms : ∀ branch ∈ branches, ∀ term ∈ branch, IsTerm term) :
      IsTerm (.group behaviour [.disjunction (branches.map .alternative)] name number)
  | quantifier {min : Int} {max : Option Int} {greedy : Bool} {body : Node}
      {shorthand : Option Shorthand} (nonnegative : 0 ≤ min)
      (ordered : ∀ limit, max = some limit → min ≤ limit) (term : IsTerm body)
      (repeatable : body.Repeatable) (spelling : ShorthandFits min max shorthand) :
      IsTerm (.quantifier min max greedy body shorthand)

/-- The tree of a whole pattern: a sequence of terms, or a choice between several sequences. -/
inductive IsPattern : Node → Prop
  | run {body : List Node} (terms : ∀ term ∈ body, IsTerm term) : IsPattern (.alternative body)
  | choice {branches : List (List Node)} (several : 2 ≤ branches.length)
      (terms : ∀ branch ∈ branches, ∀ term ∈ branch, IsTerm term) :
      IsPattern (.disjunction (branches.map .alternative))

mutual

/-- The numbers of the capturing groups of a tree, in the order in which the groups open. -/
def captures : Node → List (Option Int)
  | .alternative body => capturesAll body
  | .disjunction branches => capturesAll branches
  | .group behaviour body _ number =>
    (if behaviour = .capturing then [number] else []) ++ capturesAll body
  | .quantifier _ _ _ body _ => captures body
  | _ => []

/-- The numbers of the capturing groups of several trees. -/
def capturesAll : List Node → List (Option Int)
  | [] => []
  | node :: rest => captures node ++ capturesAll rest

end

@[simp] theorem capturesAll_append (body later : List Node) :
    capturesAll (body ++ later) = capturesAll body ++ capturesAll later := by
  induction body with
  | nil => simp [capturesAll]
  | cons node rest ih => simp [capturesAll, ih]

theorem capturesAll_map_alternative (branches : List (List Node)) :
    capturesAll (branches.map .alternative) = branches.flatMap capturesAll := by
  induction branches with
  | nil => simp [capturesAll]
  | cons branch rest ih => simp [capturesAll, captures, ih]

end Node

end RegexTrace
