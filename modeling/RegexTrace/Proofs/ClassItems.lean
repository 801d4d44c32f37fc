import RegexTrace.Node.Leaf
import RegexTrace.Proofs.Copying
import RegexTrace.Proofs.Provenance
import RegexTrace.Search.Scan

/-!
# What the items of a class are

A class tests a code point against literals, ranges and classes with a letter. Two constructs are
read in a class and never tested: a reference to a group by its name, and a property in braces. They
are kept as items, refuse every code point, and so a negated class accepts as if they were not
there.
-/

namespace RegexTrace

namespace Node

/-- An item that a class tests code points against. -/
def IsTested : Node → Prop
  | .value _ => True
  | .range min max => min ≤ max
  | .escape kind => kind.Known
  | _ => False

instance (node : Node) : Decidable node.IsTested :=
  match node with
  | .value _ => .isTrue trivial
  | .range min max => inferInstanceAs (Decidable (min ≤ max))
  | .escape kind => inferInstanceAs (Decidable kind.Known)
  | .anchor _ | .dot | .charClass _ _ | .unsupported _ _ | .alternative _ | .disjunction _
  | .group _ _ _ _ | .quantifier _ _ _ _ _ | .alien | .absent => .isFalse id

end Node

namespace Leaf

/-- Constructs that are never tested make no difference to whether an item accepts. -/
theorem someItemAccepts_filter (ignoreCase : Bool) (n : Int) {items : List Node}
    (h : ∀ item ∈ items, item.IsTested ∨ ∃ kind raw, item = .unsupported kind raw) :
    someItemAccepts ignoreCase n (items.filter (·.IsTested)) =
      someItemAccepts ignoreCase n items := by
  induction items with
  | nil => rfl
  | cons item rest ih =>
      obtain ⟨hitem, hrest⟩ := List.forall_mem_cons.mp h
      rcases hitem with htested | ⟨kind, raw, rfl⟩
      · rw [List.filter_cons_of_pos (by simpa using htested), someItemAccepts, someItemAccepts,
          ih hrest]
      · have huntested : ¬ (Node.unsupported kind raw).IsTested := id
        rw [List.filter_cons_of_neg (by simpa using huntested), ih hrest]
        rfl

end Leaf

namespace Pattern

/-- The spellings of the constructs that are read in a class and never tested. -/
inductive UntestedSpelling : Text → Text → Prop
  | reference {name : Text} (named : ∀ c ∈ name, continuesGroupName c = true) :
      UntestedSpelling "reference"
        (Ascii.backslash :: 'k'.toNat :: Ascii.less :: (name ++ [Ascii.greater]))
  | property {letter : CodePoint} {inside : Text} (known : letter = 'p'.toNat ∨ letter = 'P'.toNat)
      (closed : Ascii.closeBrace ∉ inside) :
      UntestedSpelling "unicodePropertyEscape"
        (Ascii.backslash :: letter :: Ascii.openBrace :: (inside ++ [Ascii.closeBrace]))

/-- What the constructs that are never tested begin with. -/
def untestedSigns : List Text := ["\\k<", "\\p\x7b", "\\P\x7b"]

theorem UntestedSpelling.exists_sign {kind raw : Text} (h : UntestedSpelling kind raw) :
    ∃ sign ∈ untestedSigns, sign <+: raw := by
  cases h with
  | reference named => exact ⟨"\\k<", by decide, _, rfl⟩
  | property known closed =>
      rcases known with rfl | rfl
      · exact ⟨"\\p\x7b", by decide, _, rfl⟩
      · exact ⟨"\\P\x7b", by decide, _, rfl⟩

/-- An item of a class of a pattern: it is tested, or else the pattern spells a construct that is
not. -/
def IsItemOf (pattern : Text) (item : Node) : Prop :=
  item.IsTested ∨
    ∃ kind raw, item = .unsupported kind raw ∧ UntestedSpelling kind raw ∧ raw <:+: pattern

theorem IsItemOf.mono {t pattern : Text} {item : Node} (h : IsItemOf t item)
    (left : t <:+: pattern) : IsItemOf pattern item := by
  rcases h with h | ⟨kind, raw, rfl, hspelled, hraw⟩
  · exact Or.inl h
  · exact Or.inr ⟨kind, raw, rfl, hspelled, hraw.trans left⟩

theorem IsItemOf.unsupportedEscape {kind t : Text} {width : Nat}
    (h : UntestedSpelling kind (Ascii.backslash :: t.take width)) :
    IsItemOf (Ascii.backslash :: t) (unsupportedEscape kind t width).1 := by
  refine Or.inr ⟨kind, _, rfl, h, List.IsPrefix.isInfix ?_⟩
  exact List.cons_prefix_cons.mpr ⟨rfl, List.take_prefix width t⟩

theorem take_append_cons (before after : Text) (sign : CodePoint) :
    (before ++ sign :: after).take (before.length + 1) = before ++ [sign] := by
  rw [List.take_length_add_append, List.take_succ_cons, List.take_zero]

/-- A reference by a name is an item. -/
theorem IsItemOf.reference {t name : Text} {width : Nat}
    (hname : readGroupName? t = some (name, width)) :
    IsItemOf (Ascii.backslash :: 'k'.toNat :: Ascii.less :: t)
      (Pattern.unsupportedEscape "reference" ('k'.toNat :: Ascii.less :: t) (width + 2)).1 := by
  obtain ⟨more, rfl, rfl, -, hcontinues⟩ := Host.exists_of_readGroupName? hname
  apply unsupportedEscape
  rw [List.take_succ_cons, List.take_succ_cons, take_append_cons]
  exact .reference hcontinues

/-- A property in braces is an item. -/
theorem IsItemOf.property {letter : CodePoint} (known : letter = 'p'.toNat ∨ letter = 'P'.toNat)
    {t inside : Text} (hinside : beforeBrace? (Ascii.openBrace :: t) = some inside) :
    IsItemOf (Ascii.backslash :: letter :: Ascii.openBrace :: t)
      (Pattern.unsupportedEscape "unicodePropertyEscape" (letter :: Ascii.openBrace :: t)
        (inside.length + 2)).1 := by
  obtain ⟨hclosed, more, hsplit⟩ := beforeBrace?_eq_some_iff.mp hinside
  apply unsupportedEscape
  rw [hsplit, List.take_succ_cons, take_append_cons]
  cases inside with
  | nil => cases hsplit
  | cons d inside =>
      obtain rfl : Ascii.openBrace = d := (List.cons.inj hsplit).1
      exact .property known fun hmem => hclosed (List.mem_cons_of_mem _ hmem)

/-- An escape in a class is an item. -/
theorem readLetter_isItemOf (c : CodePoint) (rest : Text) :
    (readLetter true c rest).Answers fun node _ =>
      IsItemOf (Ascii.backslash :: c :: rest) node := by
  intro node width hread
  cases (readLetter_answers true c rest node width hread).1 with
  | value n => exact Or.inl trivial
  | escape known => exact Or.inl known
  | anchor _ outside => cases outside
  | number _ _ outside => cases outside
  | name hc hrest hname => exact hc ▸ hrest ▸ .reference hname
  | property hc hrest hinside =>
      subst hrest
      exact .property hc hinside

/-- What is read in a pattern has no other items than the pattern. -/
theorem readOff_isItemOf {pattern : Text} (valid : pattern.Valid) :
    ReadOff pattern (IsItemOf pattern) fun node =>
      ∀ negative items, node = .charClass negative items →
        ∀ item ∈ items, IsItemOf pattern item where
  literalItem _ := Or.inl trivial
  escapeItem {t node width} left h := by
    cases t with
    | nil => cases h
    | cons c rest => exact (readLetter_isItemOf c rest _ _ h).mono left.isInfix
  range ordered := Or.inl ordered
  charClass _ _ h _ _ heq := by
    cases heq
    exact h
  dot := nofun
  anchor _ := nofun
  literal _ := nofun
  escape {t node width} left h := by
    rintro negative items rfl
    have hfits := readEscape_fits false fun c hc =>
      valid c (left.subset (List.mem_cons_of_mem _ hc))
    rw [h] at hfits
    exact hfits.1.elim
  group _ _ _ _ := nofun
  alternative _ := nofun
  disjunction _ := nofun
  repeated _ _ _ := nofun

/-- The items of the classes of a pattern: literals, ranges in order, classes with a letter, and
constructs that the pattern spells and that make no difference to what a class accepts. In a
pattern without their signs all items are tested. -/
theorem classItems_of_parse {pattern : Text} (valid : pattern.Valid) {parsed : Parsed}
    (h : parse pattern = .ok parsed) {address : Address} {negative : Bool} {items : List Node}
    (hat : parsed.root.at? address = some (.charClass negative items)) :
    (∀ item ∈ items, IsItemOf pattern item) ∧
      (∀ rules n, Leaf.accepts rules (.charClass negative items) n =
        Leaf.accepts rules (.charClass negative (items.filter (·.IsTested))) n) ∧
      ((∀ sign ∈ untestedSigns, ¬ sign <:+: pattern) → ∀ item ∈ items, item.IsTested) := by
  have hitems := (readOff_isItemOf valid).everywhere valid h address _ hat negative items rfl
  refine ⟨hitems, ?_, ?_⟩
  · have hkinds : ∀ item ∈ items, item.IsTested ∨ ∃ kind raw, item = .unsupported kind raw := by
      intro item hitem
      rcases hitems item hitem with htested | ⟨kind, raw, heq, -⟩
      · exact Or.inl htested
      · exact Or.inr ⟨kind, raw, heq⟩
    intro rules n
    rw [Leaf.accepts, Leaf.accepts, Leaf.someItemAccepts_filter rules.ignoreCase n hkinds]
  · intro hfree item hitem
    rcases hitems item hitem with htested | ⟨kind, raw, -, hspelled, hraw⟩
    · exact htested
    · obtain ⟨sign, hsign, hstart⟩ := hspelled.exists_sign
      exact (hfree sign hsign (hstart.isInfix.trans hraw)).elim

/-- A negated class with a property, a range and a class with a letter accepts as if the property
were not there. -/
theorem classItems_of_parse_property :
    let pattern : Text := "x[^\\P\x7bL\x7da-c\\d]"
    let items : List Node := [.unsupported "unicodePropertyEscape" "\\P\x7bL\x7d",
      .range 'a'.toNat 'c'.toNat, .escape .digit]
    let root : Node := .alternative [.value 'x'.toNat, .charClass true items]
    pattern.Valid ∧ parse pattern = .ok ⟨root, 0⟩ ∧
      root.at? [.element 1] = some (.charClass true items) ∧
      (∀ item ∈ items, IsItemOf pattern item) ∧
      (∀ rules n, Leaf.accepts rules (.charClass true items) n =
        Leaf.accepts rules (.charClass true [.range 'a'.toNat 'c'.toNat, .escape .digit]) n) ∧
      ((∀ sign ∈ untestedSigns, ¬ sign <:+: pattern) → ∀ item ∈ items, item.IsTested) := by
  intro pattern items root
  have valid : pattern.Valid := by decide
  have hparse : parse pattern = .ok ⟨root, 0⟩ := rfl
  have hat : root.at? [.element 1] = some (.charClass true items) := rfl
  exact ⟨valid, hparse, hat, classItems_of_parse valid hparse hat⟩

/-- A negated class with nothing but a property accepts a letter that has the property. -/
theorem negated_property_accepts :
    let pattern : Text := "[^\\p\x7bL\x7d]"
    let item : Node := .unsupported "unicodePropertyEscape" "\\p\x7bL\x7d"
    let root : Node := .alternative [.charClass true [item]]
    pattern.Valid ∧ parse pattern = .ok ⟨root, 0⟩ ∧ ¬ item.IsTested ∧
      Leaf.accepts {} (.charClass true [item]) 'L'.toNat = .ok true ∧
      Search.span? {} root "L" = .ok (some (0, 1)) :=
  ⟨by decide, rfl, by decide, rfl, rfl⟩

end Pattern

end RegexTrace
