import RegexTrace.Proofs.Digits
import RegexTrace.Proofs.Marks

/-!
# Spelling a tree

Every tree that a pattern can stand for has a spelling. Code points are spelled by their numbers in
braces, so none of them is taken for a sign; a repetition is spelled by its shorthand or else by
both bounds.

## Implementation notes

Nothing is asked of a tree here that is spelled. What the readers need of it is that it is
well-formed, and of its nodes that they are spellable.
-/

namespace RegexTrace

/-- The spelling of a code point: its number in braces. -/
def spellCodePoint (c : Int) : Text :=
  Ascii.backslash :: 'u'.toNat :: Ascii.openBrace :: (Text.hex 0 c.toNat ++ [Ascii.closeBrace])

/-- The mark for bounds and a shorthand. -/
def MarkSign.ofBounds (min : Int) (max : Option Int) : Option Shorthand → MarkSign
  | some .star => .star
  | some .plus => .plus
  | some .question => .question
  | _ => .braces (Text.ofInt min) (some (max.elim [] Text.ofInt))

/-- What follows the parenthesis that opens a group. -/
def spellOpening : Behaviour → Option Text → Text
  | .capturing, some name => Ascii.question :: Ascii.less :: (name ++ [Ascii.greater])
  | .plain, _ => [Ascii.question, Ascii.colon]
  | .look false negative, _ => [Ascii.question, if negative then Ascii.bang else Ascii.equals]
  | .look true negative, _ =>
    [Ascii.question, Ascii.less, if negative then Ascii.bang else Ascii.equals]
  | _, _ => []

namespace Node

/-- The spelling of an item of a class. -/
def spellItem : Node → Text
  | .value c => spellCodePoint c
  | .range min max => spellCodePoint min ++ Ascii.hyphen :: spellCodePoint max
  | .escape kind => Ascii.backslash :: kind.letter
  | _ => []

mutual

/-- The spelling of a tree. -/
def spell : Node → Text
  | .anchor kind => Sign.spellAnchor kind
  | .value c => spellCodePoint c
  | .dot => [Ascii.dot]
  | .escape kind => Ascii.backslash :: kind.letter
  | .charClass negative items =>
    Ascii.openBracket :: ((if negative then [Ascii.caret] else []) ++
      (items.flatMap spellItem ++ [Ascii.closeBracket]))
  | .alternative body => (spellEach body).flatten
  | .disjunction branches => Text.join [Ascii.bar] (spellEach branches)
  | .group behaviour body name _ =>
    Ascii.openParen :: (spellOpening behaviour name ++
      ((spellEach body).flatten ++ [Ascii.closeParen]))
  | .quantifier min max greedy body shorthand =>
    spell body ++ ((MarkSign.ofBounds min max shorthand).spell ++ lazySign greedy)
  | _ => []

/-- The spellings of trees. -/
def spellEach : List Node → List Text
  | [] => []
  | node :: rest => spell node :: spellEach rest

end

theorem spellEach_eq_map (nodes : List Node) : spellEach nodes = nodes.map spell := by
  induction nodes with
  | nil => rw [spellEach, List.map_nil]
  | cons node nodes ih => rw [spellEach, List.map_cons, ih]

mutual

/-- The nodes of a tree, the items of its classes included. -/
def subnodes : Node → List Node
  | .charClass negative items => .charClass negative items :: subnodesAll items
  | .alternative body => .alternative body :: subnodesAll body
  | .disjunction branches => .disjunction branches :: subnodesAll branches
  | .group behaviour body name number =>
    .group behaviour body name number :: subnodesAll body
  | .quantifier min max greedy body shorthand =>
    .quantifier min max greedy body shorthand :: subnodes body
  | node => [node]

/-- The nodes of several trees. -/
def subnodesAll : List Node → List Node
  | [] => []
  | node :: rest => subnodes node ++ subnodesAll rest

end

theorem mem_subnodesAll {node : Node} {nodes : List Node} :
    node ∈ subnodesAll nodes ↔ ∃ tree ∈ nodes, node ∈ tree.subnodes := by
  induction nodes with
  | nil => simp [subnodesAll]
  | cons tree nodes ih => simp [subnodesAll, ih]

theorem mem_subnodes_self (node : Node) : node ∈ node.subnodes := by
  cases node <;> simp [subnodes]

theorem mem_subnodesAll_branches {inner term : Node} {body : List Node}
    {branches : List (List Node)} (hinner : inner ∈ term.subnodes) (hterm : term ∈ body)
    (hbody : body ∈ branches) : inner ∈ subnodesAll (branches.map .alternative) := by
  apply mem_subnodesAll.mpr
  refine ⟨.alternative body, List.mem_map_of_mem hbody, ?_⟩
  rw [subnodes]
  exact List.mem_cons_of_mem _ (mem_subnodesAll.mpr ⟨term, hterm, hinner⟩)

/-- The names of groups that are spelled: ASCII letters, digits, low lines and dollar signs, with no
digit first. -/
def IsGroupName (name : Text) : Prop :=
  name ≠ [] ∧
    (∀ c ∈ name, Ascii.isAlphanumeric c = true ∨ c = Ascii.lowLine ∨ c = Ascii.dollar) ∧
    ∀ c ∈ name.head?, Ascii.isDigit c = false

instance (name : Text) : Decidable (IsGroupName name) := inferInstanceAs (Decidable (_ ∧ _ ∧ _))

/-- What a pattern can spell: no construct that is never matched, names as above, and bounds with so
many digits as are read. -/
def Spellable : Node → Prop
  | .unsupported _ _ => False
  | .group _ _ name _ => ∀ t ∈ name, IsGroupName t
  | .quantifier min max _ _ _ =>
    ∀ bound ∈ min :: max.toList, (Text.ofInt bound).length ≤ Numeral.digitLimit
  | _ => True

instance (node : Node) : Decidable node.Spellable :=
  match node with
  | .unsupported _ _ => .isFalse id
  | .group _ _ name _ => inferInstanceAs (Decidable (∀ t ∈ name, IsGroupName t))
  | .quantifier min max _ _ _ => inferInstanceAs (Decidable (∀ bound ∈ min :: max.toList, _))
  | .anchor _ | .value _ | .dot | .escape _ | .charClass _ _ | .alternative _ | .disjunction _
  | .range _ _ | .alien | .absent => .isTrue trivial

end Node

namespace Pattern

/-- A code point in braces is read from its number. -/
theorem readUnicode_spell {n : Nat} (h : n < codePointLimit) (t : Text) :
    readUnicode (Ascii.openBrace :: (Text.hex 0 n ++ Ascii.closeBrace :: t)) =
      (n, (Text.hex 0 n).length + 2) := by
  have hbrace : Ascii.closeBrace ∉ Text.hex 0 n := fun hmem =>
    absurd (Text.isHex_of_mem_hex n _ hmem) (by decide)
  have hbefore : beforeBrace? (Text.hex 0 n ++ Ascii.closeBrace :: t) = some (Text.hex 0 n) :=
    beforeBrace?_eq_some_iff.mpr ⟨hbrace, t, rfl⟩
  have hne : (Text.hex 0 n).isEmpty = false := by
    rw [Text.hex_zero, List.isEmpty_eq_false_iff, ne_eq, List.map_eq_nil_iff]
    exact Nat.toDigits_ne_nil
  have hcode : bracedCodePoint? (Text.hex 0 n) = some n := by
    rw [bracedCodePoint?, if_pos, Text.hexNumber_hex]
    rw [Text.hexNumber_hex, hne, List.all_eq_true.mpr (Text.isHex_of_mem_hex n)]
    exact decide_eq_true h
  rw [readUnicode_eq]
  simp [readBraced?, hbefore, hcode]

/-- The escape with `u` is a code point, inside brackets and outside. -/
theorem readLetter_unicode (inClass : Bool) (t : Text) :
    readLetter inClass 'u'.toNat t =
      .ok (.value (readUnicode t).1, (readUnicode t).2 + 1) := by
  have hcontrol : controlLetters.lookup 'u'.toNat = none := by decide
  unfold readLetter
  rw [hcontrol]
  simp [EscapeKind.letter, Text.ofString, Ascii.zero]

theorem readEscape_codePoint (inClass : Bool) {c : Int} (h : IsCodePoint c) (t : Text) :
    readEscape inClass ((spellCodePoint c).tail ++ t) =
      .ok (.value c, (spellCodePoint c).tail.length) := by
  obtain ⟨n, rfl⟩ := Int.eq_ofNat_of_zero_le h.1
  have hread := readUnicode_spell (Int.ofNat_lt.mp h.2) t
  have hletter := readLetter_unicode inClass
    (Ascii.openBrace :: (Text.hex 0 n ++ Ascii.closeBrace :: t))
  rw [hread] at hletter
  simpa [spellCodePoint, readEscape] using hletter

theorem readEscape_letter (inClass : Bool) {kind : EscapeKind} (h : kind.Known) (t : Text) :
    readEscape inClass (kind.letter ++ t) = .ok (.escape kind, kind.letter.length) := by
  obtain ⟨c, hletter, -⟩ := EscapeKind.letter_cases h
  rw [hletter]
  exact readLetter_letter inClass h hletter t

section Brackets

variable {item : Node} {items : List Node}

theorem readClassAtom_codePoint {c : Int} (h : IsCodePoint c) (t : Text) :
    readClassAtom (spellCodePoint c ++ t) = .ok (.value c, (spellCodePoint c).length) := by
  have hescape := readEscape_codePoint true h t
  have hlead : spellCodePoint c = Ascii.backslash :: (spellCodePoint c).tail := rfl
  rw [hlead, List.cons_append, readClassAtom, hescape]
  rfl

theorem exists_spellItem (h : item.IsItem) (supported : item.Spellable) :
    ∃ l, item.spellItem = Ascii.backslash :: l := by
  cases item with
  | value c => exact ⟨_, rfl⟩
  | range min max => exact ⟨_, rfl⟩
  | escape kind => exact ⟨_, rfl⟩
  | unsupported kind raw => exact supported.elim
  | _ => exact h.elim

/-- An item of a class is read from its spelling. -/
theorem readClassItems_item (h : item.IsItem) (supported : item.Spellable) {t : Text}
    (ht : t.head? ≠ some Ascii.hyphen) :
    readClassItems (item.spellItem ++ t) = .ok ([item], item.spellItem.length) := by
  cases item with
  | value c =>
      exact readClassItems_of_atom (readClassAtom_codePoint h t) List.drop_left ht
  | range min max =>
      obtain ⟨hmin, hmax, hordered⟩ := h
      have hlower := readClassAtom_codePoint hmin (Ascii.hyphen :: (spellCodePoint max ++ t))
      have hupper := readClassAtom_codePoint hmax t
      have hfollows : rangeFollows (Ascii.hyphen :: (spellCodePoint max ++ t)) = true := rfl
      rw [Node.spellItem, List.append_assoc, List.cons_append, readClassItems, hlower]
      simp only [bind, Except.bind, List.drop_left, List.tail_cons, hfollows, if_true, hupper]
      rw [rangeItems, if_neg (Int.not_lt.mpr hordered), List.length_append, List.length_cons,
        Nat.add_assoc, Nat.add_comm 1]
  | escape kind =>
      refine readClassItems_of_atom ?_ List.drop_left ht
      have hescape := readEscape_letter true h t
      rw [Node.spellItem, List.cons_append, readClassAtom, hescape]
      rfl
  | unsupported kind raw => exact supported.elim
  | _ => exact h.elim

/-- What follows items of a class does not go on as a range. -/
theorem head?_spellItems (h : ∀ item ∈ items, item.IsItem)
    (supported : ∀ item ∈ items, item.Spellable) (t : Text) :
    ∀ c, (items.flatMap Node.spellItem ++ Ascii.closeBracket :: t).head? = some c →
      c = Ascii.backslash ∨ c = Ascii.closeBracket := by
  cases items with
  | nil => exact fun c hc => Or.inr (Option.some.inj hc).symm
  | cons item items =>
      obtain ⟨l, hspell⟩ := exists_spellItem (h item List.mem_cons_self)
        (supported item List.mem_cons_self)
      rw [List.flatMap_cons, hspell]
      exact fun c hc => Or.inl (Option.some.inj hc).symm

/-- The items of a class are read from their spellings. -/
theorem readClassBody_items (h : ∀ item ∈ items, item.IsItem)
    (supported : ∀ item ∈ items, item.Spellable) (distance : Nat) (earlier : List Node) (t : Text) :
    readClassBody 0 distance earlier
        (items.flatMap Node.spellItem ++ Ascii.closeBracket :: t) =
      .ok (earlier.reverse ++ items,
        distance + (items.flatMap Node.spellItem).length + 1) := by
  induction items generalizing distance earlier with
  | nil =>
      rw [List.flatMap_nil, List.nil_append, readClassBody, if_pos rfl, List.append_nil]
      rfl
  | cons item items ih =>
      obtain ⟨hitem, hitems⟩ := List.forall_mem_cons.mp h
      obtain ⟨hone, hmore⟩ := List.forall_mem_cons.mp supported
      obtain ⟨l, hspell⟩ := exists_spellItem hitem hone
      have hnext : (items.flatMap Node.spellItem ++ Ascii.closeBracket :: t).head? ≠
          some Ascii.hyphen := fun hhead =>
        absurd (head?_spellItems hitems hmore t _ hhead) (by decide)
      have hread := readClassItems_item hitem hone hnext
      rw [hspell, List.cons_append] at hread
      rw [List.flatMap_cons, List.append_assoc, hspell, List.cons_append, readClassBody,
        if_neg (by decide), hread, List.length_cons]
      simp only [Nat.add_sub_cancel]
      rw [readClassBody_skip, ih hitems hmore]
      simp only [List.reverse_nil, List.nil_append, List.singleton_append, List.reverse_cons,
        List.append_assoc, List.length_append, List.length_cons]
      congr 2
      omega

/-- A class is read from its spelling. -/
theorem readClass_items (negative : Bool) (h : ∀ item ∈ items, item.IsItem)
    (supported : ∀ item ∈ items, item.Spellable) (t : Text) :
    readClass ((if negative then [Ascii.caret] else []) ++
        (items.flatMap Node.spellItem ++ Ascii.closeBracket :: t)) =
      .ok (.charClass negative items, (if negative then [Ascii.caret] else []).length +
        ((items.flatMap Node.spellItem).length + 1)) := by
  cases negative with
  | true =>
      rw [if_pos rfl, List.singleton_append, readClass, readClassBody_items h supported]
      simp [Except.map]
      omega
  | false =>
      have hcaret : ∀ rest, items.flatMap Node.spellItem ++ Ascii.closeBracket :: t ≠
          Ascii.caret :: rest := by
        intro rest heq
        have hhead := head?_spellItems h supported t
        rw [heq] at hhead
        exact absurd (hhead _ rfl) (by decide)
      rw [if_neg Bool.false_ne_true, List.nil_append, readClass]
      · rw [readClassBody_items h supported]
        simp [Except.map, Nat.add_comm]
      · exact hcaret

end Brackets

theorem readTerm_of_readBare? {t : Text} (h : readBare? t = .ok none) (atom : Node)
    (start next : Nat) : readTerm atom start next t = .ok (atom, 0) := by
  rw [readTerm, Repetition.read?, h]
  rfl

theorem readTerm_eq_atom {t : Text}
    (h : ∀ c ∈ t.head?, c ∉ [Ascii.star, Ascii.plus, Ascii.question, Ascii.openBrace])
    (atom : Node) (start next : Nat) : readTerm atom start next t = .ok (atom, 0) := by
  apply readTerm_of_readBare?
  cases t with
  | nil => rfl
  | cons c t => exact (readBare?_eq_none (h c rfl) t).1

section Marks

variable {min : Int} {max : Option Int} {shorthand : Option Shorthand}

/-- The bounds that a repetition is spelled with are read as its bounds. -/
theorem bounds_ofBounds (nonnegative : 0 ≤ min) (ordered : ∀ limit, max = some limit → min ≤ limit)
    (spelling : Node.ShorthandFits min max shorthand)
    (short : ∀ bound ∈ min :: max.toList, (Text.ofInt bound).length ≤ Numeral.digitLimit) :
    (MarkSign.ofBounds min max shorthand).Shared ∧
      (MarkSign.ofBounds min max shorthand).shorthand = shorthand ∧
      ∃ low high, (MarkSign.ofBounds min max shorthand).bounds = .ok (low, high) ∧
        min = (low : Int) ∧ max = high.map Int.ofNat := by
  cases shorthand with
  | some spelled =>
      cases spelled with
      | star => exact ⟨trivial, rfl, 0, none, rfl, spelling⟩
      | plus => exact ⟨trivial, rfl, 1, none, rfl, spelling⟩
      | question => exact ⟨trivial, rfl, 0, some 1, rfl, spelling⟩
      | other spelling' => exact spelling.elim
  | none =>
      obtain ⟨low, rfl⟩ := Int.eq_ofNat_of_zero_le nonnegative
      have hread : ∀ n : Nat, (n : Int) ∈ (low : Int) :: max.toList →
          Numeral.ofDigits (Text.ofNat n) = .ok n :=
        fun n hn => Text.ofDigits_ofNat (short n hn)
      have hlow := hread low List.mem_cons_self
      cases max with
      | none =>
          refine ⟨⟨Text.ofNat_ne_nil low, ?_⟩, rfl, low, none, Braces.bounds_open hlow, rfl, rfl⟩
          exact List.forall_mem_cons.mpr ⟨Text.isDigit_of_mem_ofNat low, by simp⟩
      | some limit =>
          have hle := ordered limit rfl
          obtain ⟨high, rfl⟩ := Int.eq_ofNat_of_zero_le (Int.le_trans nonnegative hle)
          have hhigh := hread high (by simp)
          have hbounds : Braces.bounds ⟨Text.ofNat low, some (Text.ofNat high), 0⟩ = _ :=
            Braces.bounds_two (Text.ofNat_ne_nil high) hlow hhigh
          rw [if_neg (Nat.not_lt.mpr (Int.ofNat_le.mp hle))] at hbounds
          refine ⟨⟨Text.ofNat_ne_nil low, ?_⟩, rfl, low, some high, hbounds, rfl, rfl⟩
          refine List.forall_mem_cons.mpr ⟨Text.isDigit_of_mem_ofNat low, ?_⟩
          exact List.forall_mem_singleton.mpr (Text.isDigit_of_mem_ofNat high)

/-- A mark is read from its spelling after what is repeated. -/
theorem readTerm_spell {m : MarkSign} (shared : m.Shared) {low : Nat} {high : Option Nat}
    (hbounds : m.bounds = .ok (low, high)) {atom : Node} (hanchor : isAnchor atom = false)
    {greedy : Bool} {t : Text} (ht : greedy = true → t.head? ≠ some Ascii.question)
    (start next : Nat) :
    readTerm atom start next (m.spell ++ (lazySign greedy ++ t)) =
      .ok (.quantifier low (high.map Int.ofNat) greedy atom m.shorthand,
        (m.spell ++ lazySign greedy).length) := by
  rw [readTerm, Repetition.read?_spell shared ht, hbounds]
  simp only [Except.map, hanchor, Bool.false_eq_true, if_false]
  rfl

/-- A repetition is read from its spelling after what is repeated. -/
theorem readTerm_ofBounds (nonnegative : 0 ≤ min)
    (ordered : ∀ limit, max = some limit → min ≤ limit)
    (spelling : Node.ShorthandFits min max shorthand)
    (short : ∀ bound ∈ min :: max.toList, (Text.ofInt bound).length ≤ Numeral.digitLimit)
    {atom : Node} (hanchor : isAnchor atom = false) (greedy : Bool) {t : Text}
    (ht : t.head? ≠ some Ascii.question) (start next : Nat) :
    readTerm atom start next
        ((MarkSign.ofBounds min max shorthand).spell ++ lazySign greedy ++ t) =
      .ok (.quantifier min max greedy atom shorthand,
        ((MarkSign.ofBounds min max shorthand).spell ++ lazySign greedy).length) := by
  obtain ⟨shared, hshorthand, low, high, hbounds, rfl, rfl⟩ :=
    bounds_ofBounds nonnegative ordered spelling short
  rw [List.append_assoc, readTerm_spell shared hbounds hanchor (fun _ => ht), hshorthand]

end Marks

theorem isWord_of_isAlphanumeric {c : CodePoint} (h : Ascii.isAlphanumeric c = true) :
    Unicode.isWord c = true := by
  have hall : ∀ d < 0x80, Ascii.isAlphanumeric d = true → Unicode.isWord d = true := by
    decide +kernel
  have hlimit := (Ascii.isAlphanumeric_iff c).mp h
  exact hall c (by omega) h

/-- The name of a group is read up to the sign that closes it. -/
theorem readGroupName?_spell {name : Text} (h : Node.IsGroupName name) (t : Text) :
    readGroupName? (name ++ Ascii.greater :: t) = some (name, name.length + 1) := by
  obtain ⟨hne, hmembers, hfirst⟩ := h
  obtain ⟨c, rest, rfl⟩ := List.exists_cons_of_ne_nil hne
  obtain ⟨hc, hrest⟩ := List.forall_mem_cons.mp hmembers
  have hstarts : startsGroupName c = true := by
    have hdigit := hfirst c rfl
    rcases hc with hc | rfl | rfl
    · rw [Ascii.isAlphanumeric, hdigit, Bool.or_false] at hc
      rw [startsGroupName, hc]
      rfl
    · rfl
    · rfl
  have hcontinues : ∀ d ∈ rest, continuesGroupName d = true := by
    intro d hd
    rcases hrest d hd with hd | rfl | rfl
    · rw [continuesGroupName, isWord_of_isAlphanumeric hd]
      rfl
    · decide +kernel
    · decide +kernel
  have hrun : (rest ++ Ascii.greater :: t).takeWhile continuesGroupName = rest := by
    have hstop : continuesGroupName Ascii.greater = false := by decide +kernel
    rw [List.takeWhile_append_of_pos hcontinues, List.takeWhile_cons_of_neg (by simp [hstop]),
      List.append_nil]
  rw [List.cons_append, readGroupName?_cons, hrun, List.drop_left,
    if_pos ⟨hstarts, rfl⟩, List.length_cons]

/-- What opens a group is read from its spelling. -/
theorem readOpening_spell {behaviour : Behaviour} {name : Option Text} (known : behaviour.Known)
    (capturing : name ≠ none → behaviour = .capturing) (named : ∀ t ∈ name, Node.IsGroupName t)
    {t : Text} (ht : t.head? ≠ some Ascii.question) :
    readOpening (spellOpening behaviour name ++ t) =
      .ok (behaviour, name, (spellOpening behaviour name).length) := by
  cases name with
  | none =>
      cases behaviour with
      | capturing => exact readOpening_capture ht
      | plain => rfl
      | look behind negative => cases behind <;> cases negative <;> rfl
      | other name => exact known.elim
  | some name =>
      obtain rfl := capturing nofun
      have hname := named name rfl
      have hread := readGroupName?_spell hname t
      obtain ⟨c, rest, rfl⟩ := List.exists_cons_of_ne_nil hname.1
      have hc := hname.2.1 c List.mem_cons_self
      have hequals : ¬ Ascii.equals = c := by
        rintro rfl
        exact absurd hc (by decide)
      have hbang : ¬ Ascii.bang = c := by
        rintro rfl
        exact absurd hc (by decide)
      have hfind : (groupSigns.find? fun sign => Text.startsWith sign.1
          (Ascii.question :: Ascii.less :: (c :: rest ++ Ascii.greater :: t))) = none := by
        simp [groupSigns, Text.startsWith, Text.dropLeading?, Text.ofString, Ascii.less, hequals,
          hbang]
      simp only [spellOpening, List.cons_append, List.append_assoc, List.nil_append] at hread ⊢
      rw [readOpening]
      simp only [List.cons_append] at hfind
      rw [hfind]
      simp only [readNamed, List.drop_succ_cons, List.drop_zero, hread, List.length_cons,
        List.length_append, List.length_nil]
      congr 3
      omega

end Pattern

end RegexTrace
