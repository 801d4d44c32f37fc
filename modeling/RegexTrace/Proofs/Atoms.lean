import RegexTrace.Proofs.Respelling

/-!
# How an atom is read from its spelling

A literal, the dot, an anchor, an escape or a class in brackets is read from its spelling into a
node.

## Implementation notes

A range that is out of order is refused, so the statements are about what the reader answers where
it does not refuse.
-/

namespace RegexTrace

/-- The node of an item of a class. -/
def ClassSign.node : ClassSign → Node
  | .literal c => .value c
  | .range low high => .range low high
  | .escape kind => .escape kind
  | .boundary => .value (0x08 : Nat)
  | .notBoundary => .value 'B'.toNat

namespace Sign

/-- The node of a sign that is an atom. -/
def node : Sign → Node
  | .literal c => .value c
  | .dot => .dot
  | .anchor kind => .anchor kind
  | .escape kind => .escape kind
  | .brackets negative items => .charClass negative (items.map ClassSign.node)
  | _ => .absent

/-- The signs that are atoms. -/
def IsAtom : Sign → Prop
  | .literal _ | .dot | .anchor _ | .escape _ | .brackets _ _ => True
  | _ => False

end Sign

namespace Pattern

/-- The class escapes are read as classes, inside brackets and outside. -/
theorem readLetter_letter (inClass : Bool) {kind : EscapeKind} (h : kind.Known) {c : CodePoint}
    (hc : kind.letter = [c]) (t : Text) : readLetter inClass c t = .ok (.escape kind, 1) := by
  cases kind with
  | other letter => exact h.elim
  | _ =>
      obtain rfl := List.singleton_inj.mp hc
      rfl

theorem rangeFollows_eq_false {t : Text} (h : t.head? ≠ some Ascii.hyphen) :
    rangeFollows t = false := by
  unfold rangeFollows
  split
  · exact absurd rfl h
  · rfl

theorem readClassAtom_literal {c : CodePoint} (h : Ascii.isAlphanumeric c = true) (t : Text) :
    readClassAtom (c :: t) = .ok (.value c, 1) := by
  rw [readClassAtom]
  rintro rfl
  exact absurd h (by decide)

theorem readClassItems_of_atom {t t' : Text} {node : Node} {width : Nat}
    (hatom : readClassAtom t = .ok (node, width)) (hdrop : t.drop width = t')
    (ht : t'.head? ≠ some Ascii.hyphen) : readClassItems t = .ok ([node], width) := by
  rw [readClassItems, hatom]
  simp [bind, Except.bind, hdrop, rangeFollows_eq_false ht, pure, Except.pure]

/-- An item of a class is read from its spelling. -/
theorem readClassItems_spell {item : ClassSign} (h : item.Shared) {t : Text}
    (ht : t.head? ≠ some Ascii.hyphen) {found : List Node} {width : Nat}
    (hread : readClassItems (item.spell ++ t) = .ok (found, width)) :
    found = [item.node] ∧ width = item.spell.length := by
  have hone : ∀ {node : Node} {n : Nat}, readClassAtom (item.spell ++ t) = .ok (node, n) →
      n = item.spell.length → found = [node] ∧ width = item.spell.length := by
    intro node n hatom hn
    have hdrop : (item.spell ++ t).drop n = t := by rw [hn, List.drop_left]
    rw [readClassItems_of_atom hatom hdrop ht] at hread
    cases hread
    exact ⟨rfl, hn⟩
  cases item with
  | literal c => exact hone (readClassAtom_literal h t) rfl
  | range low high =>
      have hclose : high ≠ Ascii.closeBracket := by
        rintro rfl
        exact absurd h.2 (by decide)
      have hlow := readClassAtom_literal h.1 (Ascii.hyphen :: high :: t)
      have hhigh := readClassAtom_literal h.2 t
      simp only [ClassSign.spell, List.cons_append, List.nil_append] at hread ⊢
      rw [readClassItems, hlow] at hread
      simp only [bind, Except.bind, List.drop_succ_cons, List.drop_zero, List.tail_cons, hhigh,
        rangeFollows, bne_iff_ne, ne_eq, hclose, not_false_eq_true, if_true, rangeItems] at hread
      split at hread
      · cases hread
      · cases hread
        exact ⟨rfl, rfl⟩
  | escape kind =>
      obtain ⟨c, hletter, -⟩ := EscapeKind.letter_cases h
      refine hone ?_ (by rw [ClassSign.spell, hletter])
      rw [ClassSign.spell, hletter, List.cons_append, List.singleton_append, readClassAtom,
        readEscape, readLetter_letter true h hletter]
      rfl
  | boundary => exact hone rfl rfl
  | notBoundary => exact hone rfl rfl

theorem readClassBody_skip (l : Text) (distance : Nat) (items : List Node) (t : Text) :
    readClassBody l.length distance items (l ++ t) =
      readClassBody 0 (distance + l.length) items t := by
  induction l generalizing distance with
  | nil => rfl
  | cons c l ih =>
      rw [List.length_cons, List.cons_append, readClassBody, ih, Nat.add_right_comm]
      rfl

/-- The spelling of an item of a class is not empty, and it begins neither with a closing bracket
nor with a range sign nor with a negation. -/
theorem spell_classSign {item : ClassSign} (h : item.Shared) :
    ∃ c l, item.spell = c :: l ∧ c ∉ [Ascii.closeBracket, Ascii.hyphen, Ascii.caret] := by
  have hmem : ∀ c, Ascii.isAlphanumeric c = true →
      c ∉ [Ascii.closeBracket, Ascii.hyphen, Ascii.caret] := by
    intro c hc hin
    have hall : ∀ d ∈ [Ascii.closeBracket, Ascii.hyphen, Ascii.caret],
      Ascii.isAlphanumeric d = false := by decide
    exact absurd ((hall c hin).symm.trans hc) Bool.false_ne_true
  cases item with
  | literal c => exact ⟨c, [], rfl, hmem c h⟩
  | range low high => exact ⟨low, _, rfl, hmem low h.1⟩
  | escape kind => exact ⟨Ascii.backslash, kind.letter, rfl, by decide⟩
  | boundary => exact ⟨Ascii.backslash, ['b'.toNat], rfl, by decide⟩
  | notBoundary => exact ⟨Ascii.backslash, ['B'.toNat], rfl, by decide⟩

theorem head?_classSigns {items : List ClassSign} (h : ∀ item ∈ items, item.Shared) (t : Text) :
    (items.flatMap ClassSign.spell ++ Ascii.closeBracket :: t).head? ≠ some Ascii.hyphen := by
  cases items with
  | nil => exact fun h => absurd (Option.some.inj h) (by decide)
  | cons item items =>
      obtain ⟨c, l, hspell, hc⟩ := spell_classSign (h item List.mem_cons_self)
      rw [List.flatMap_cons, hspell]
      simp only [List.mem_cons, not_or] at hc
      exact fun h => hc.2.1 (Option.some.inj h)

/-- The items of a class are read from their spelling. -/
theorem readClassBody_spell {items : List ClassSign} (h : ∀ item ∈ items, item.Shared) {t : Text}
    {distance : Nat} {earlier found : List Node} {last : Nat}
    (hread : readClassBody 0 distance earlier
      (items.flatMap ClassSign.spell ++ Ascii.closeBracket :: t) = .ok (found, last)) :
    found = earlier.reverse ++ items.map ClassSign.node ∧
      last = distance + (items.flatMap ClassSign.spell).length + 1 := by
  induction items generalizing distance earlier with
  | nil =>
      rw [List.flatMap_nil, List.nil_append, readClassBody, if_pos rfl] at hread
      cases hread
      exact ⟨(List.append_nil _).symm, rfl⟩
  | cons item items ih =>
      obtain ⟨hitem, hitems⟩ := List.forall_mem_cons.mp h
      obtain ⟨c, l, hspell, hc⟩ := spell_classSign hitem
      simp only [List.mem_cons, not_or] at hc
      have hnext := head?_classSigns hitems t
      rw [List.flatMap_cons, List.append_assoc] at hread
      have hone : ∀ {inner : List Node} {width : Nat},
          readClassItems (item.spell ++ (items.flatMap ClassSign.spell ++ Ascii.closeBracket :: t))
            = .ok (inner, width) → inner = [item.node] ∧ width = item.spell.length :=
        readClassItems_spell hitem hnext
      rw [hspell, List.cons_append] at hread hone
      rw [readClassBody, if_neg hc.1] at hread
      split at hread
      · cases hread
      · next inner width hinner =>
          obtain ⟨rfl, rfl⟩ := hone hinner
          rw [List.length_cons, Nat.add_sub_cancel, readClassBody_skip] at hread
          obtain ⟨rfl, rfl⟩ := ih hitems hread
          rw [List.flatMap_cons, hspell]
          simp only [List.reverse_append, List.reverse_cons, List.reverse_nil, List.nil_append,
            List.append_assoc, List.map_cons, List.length_append, List.length_cons]
          exact ⟨rfl, by omega⟩

/-- A class is read from its spelling. -/
theorem readClass_spell {negative : Bool} {items : List ClassSign} (hne : items ≠ [])
    (h : ∀ item ∈ items, item.Shared) {t : Text} {node : Node} {width : Nat}
    (hread : readClass ((if negative then [Ascii.caret] else []) ++
      (items.flatMap ClassSign.spell ++ Ascii.closeBracket :: t)) = .ok (node, width)) :
    node = .charClass negative (items.map ClassSign.node) ∧
      width + 1 = (Sign.brackets negative items).spell.length := by
  have hbody : ∀ {distance last : Nat} {found : List Node},
      readClassBody 0 distance [] (items.flatMap ClassSign.spell ++ Ascii.closeBracket :: t) =
        .ok (found, last) →
      found = items.map ClassSign.node ∧
        last = distance + (items.flatMap ClassSign.spell).length + 1 := fun hread => by
    simpa using readClassBody_spell h hread
  cases negative with
  | true =>
      rw [if_pos rfl, List.singleton_append, readClass] at hread
      cases hfound : readClassBody 0 2 []
          (items.flatMap ClassSign.spell ++ Ascii.closeBracket :: t) with
      | error fault =>
          rw [hfound] at hread
          cases hread
      | ok found =>
          obtain ⟨hitems, hlast⟩ := hbody hfound
          rw [hfound] at hread
          cases hread
          refine ⟨by rw [hitems], ?_⟩
          rw [hlast, Sign.spell, if_pos rfl]
          simp only [List.length_cons, List.length_append, List.length_nil]
          omega
  | false =>
      have hcaret : ∀ rest, items.flatMap ClassSign.spell ++ Ascii.closeBracket :: t ≠
          Ascii.caret :: rest := by
        intro rest
        cases items with
        | nil => exact absurd rfl hne
        | cons item items =>
            obtain ⟨c, l, hspell, hc⟩ := spell_classSign (h item List.mem_cons_self)
            simp only [List.mem_cons, not_or] at hc
            rw [List.flatMap_cons, hspell]
            exact fun heq => hc.2.2.1 (List.cons.inj heq).1
      rw [if_neg Bool.false_ne_true, List.nil_append, readClass] at hread
      · cases hfound : readClassBody 0 1 []
            (items.flatMap ClassSign.spell ++ Ascii.closeBracket :: t) with
        | error fault =>
            rw [hfound] at hread
            cases hread
        | ok found =>
            obtain ⟨hitems, hlast⟩ := hbody hfound
            rw [hfound] at hread
            cases hread
            refine ⟨by rw [hitems], ?_⟩
            rw [hlast, Sign.spell, if_neg Bool.false_ne_true]
            simp only [List.length_cons, List.length_append, List.length_nil]
            omega
      · exact hcaret

theorem readBare?_eq_none {c : CodePoint}
    (h : c ∉ [Ascii.star, Ascii.plus, Ascii.question, Ascii.openBrace]) (t : Text) :
    readBare? (c :: t) = .ok none ∧ startsWithMark (c :: t) = false := by
  simp only [List.mem_cons, List.not_mem_nil, or_false, not_or] at h
  obtain ⟨hstar, hplus, hquestion, hbrace⟩ := h
  have hnone : Braces.read? (c :: t) = none := by
    rw [Braces.read?]
    exact fun rest heq => hbrace (List.cons.inj heq).1
  unfold readBare? startsWithMark
  constructor <;> split <;> simp_all

/-- A letter or digit stands for itself. -/
theorem readAtom_alphanumeric {c : CodePoint} (h : Ascii.isAlphanumeric c = true) (t : Text) :
    readAtom c t = .ok (.value c, 0) := by
  have hne : ∀ x, Ascii.isAlphanumeric x = false → c ≠ x := fun x hx heq =>
    absurd (hx.symm.trans (heq ▸ h)) Bool.false_ne_true
  have hmark : startsWithMark (c :: t) = false := by
    refine (readBare?_eq_none (fun hmem => ?_) t).2
    have hall : ∀ x ∈ [Ascii.star, Ascii.plus, Ascii.question, Ascii.openBrace],
      Ascii.isAlphanumeric x = false := by decide
    exact hne c (hall c hmem) rfl
  rw [readAtom, if_neg (hne _ (by decide)), if_neg (hne _ (by decide)), if_neg (hne _ (by decide)),
    if_neg (hne _ (by decide)), if_neg (hne _ (by decide)), hmark, if_neg Bool.false_ne_true]

/-- An atom is read from its spelling. -/
theorem readAtom_spell {s : Sign} (hatom : s.IsAtom) (h : s.Shared) {c : CodePoint} {l t : Text}
    (hspell : s.spell = c :: l) {node : Node} {width : Nat}
    (hread : readAtom c (l ++ t) = .ok (node, width)) : node = s.node ∧ width = l.length := by
  cases s with
  | literal d =>
      obtain ⟨rfl, rfl⟩ := List.cons.inj hspell
      rw [List.nil_append, readAtom_alphanumeric h] at hread
      cases hread
      exact ⟨rfl, rfl⟩
  | dot =>
      obtain ⟨rfl, rfl⟩ := List.cons.inj hspell
      cases hread
      exact ⟨rfl, rfl⟩
  | anchor kind =>
      cases kind with
      | other name => exact h.elim
      | _ =>
          obtain ⟨rfl, rfl⟩ := List.cons.inj hspell
          cases hread
          exact ⟨rfl, rfl⟩
  | escape kind =>
      obtain ⟨d, hletter, -⟩ := EscapeKind.letter_cases h
      rw [Sign.spell, hletter] at hspell
      obtain ⟨rfl, rfl⟩ := List.cons.inj hspell
      have hescape := readLetter_letter false h hletter t
      have hread' : readLetter false d t = .ok (node, width) := hread
      rw [hescape] at hread'
      cases hread'
      exact ⟨rfl, rfl⟩
  | brackets negative items =>
      obtain ⟨rfl, rfl⟩ := List.cons.inj hspell
      rw [List.append_assoc, List.append_assoc] at hread
      obtain ⟨hnode, hwidth⟩ := readClass_spell h.1 h.2 hread
      refine ⟨hnode, ?_⟩
      rw [Sign.spell, List.length_cons] at hwidth
      exact Nat.succ.inj hwidth
  | _ => exact hatom.elim

end Pattern

end RegexTrace
