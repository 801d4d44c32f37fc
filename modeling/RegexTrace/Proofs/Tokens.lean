import RegexTrace.Host.Compile
import RegexTrace.Proofs.Atoms
import RegexTrace.Proofs.Readers
import RegexTrace.Proofs.Rewriting

/-!
# How the host reads an atom from its tokens

The host reads the tokens of an atom into an item that offers the ends of the node of the atom.

## Implementation notes

An escape that the host does not know inside brackets is refused, and so is a range that is out of
order. The statements are about what a reader answers where it does not refuse, so positions play no
part in them.
-/

namespace RegexTrace

namespace Host

namespace Cursor

variable {cursor after : Cursor} {token : Token} {toks : List Token}

theorem eq_of_check (h : cursor.check = .ok after) : after = cursor := by
  unfold check at h
  split at h
  · cases h
  · exact (Except.ok.inj h).symm

theorem take_cons (hrest : cursor.rest = token :: toks) {found : Option Token}
    (h : cursor.take = .ok (found, after)) : found = some token ∧ after.rest = toks := by
  unfold take at h
  rw [hrest] at h
  obtain ⟨next, hcheck, h⟩ := exists_of_map_ok h
  cases h
  rw [eq_of_check hcheck]
  exact ⟨rfl, rfl⟩

theorem takeIf_cons {c : CodePoint} (hrest : cursor.rest = .plain c :: toks)
    {found : Option Cursor} (h : cursor.takeIf c = .ok found) :
    ∃ after, found = some after ∧ after.rest = toks := by
  unfold takeIf at h
  rw [if_pos (by rw [next?, hrest]; rfl)] at h
  obtain ⟨taken, htake, h⟩ := exists_of_map_ok h
  exact ⟨taken.2, h.symm, (take_cons hrest htake).2⟩

theorem takeIf_eq_none {c : CodePoint} (h : cursor.rest.head? ≠ some (.plain c)) :
    cursor.takeIf c = .ok none := if_neg h

/-- The code points with a property up to one without it are taken. -/
theorem takeWhile_spec {property : CodePoint → Bool} {digits : Text}
    (hdigits : ∀ c ∈ digits, property c = true) {c : CodePoint} (hc : property c = false)
    {count : Nat} (hcount : digits.length ≤ count)
    (hrest : cursor.rest = digits.map .plain ++ .plain c :: toks) {found : Text}
    (h : cursor.takeWhile property count = .ok (found, after)) :
    found = digits ∧ after.rest = .plain c :: toks := by
  induction digits generalizing cursor count found after with
  | nil =>
      cases count with
      | zero =>
          cases h
          exact ⟨rfl, hrest⟩
      | succ count =>
          simp only [takeWhile, next?, hrest, List.map_nil, List.nil_append, List.head?_cons, hc,
            Bool.false_eq_true, if_false] at h
          cases h
          exact ⟨rfl, hrest⟩
  | cons d digits ih =>
      obtain ⟨hd, hdigits⟩ := List.forall_mem_cons.mp hdigits
      cases count with
      | zero => exact absurd hcount (Nat.not_succ_le_zero _)
      | succ count =>
          rw [List.map_cons, List.cons_append] at hrest
          simp only [takeWhile, next?, hrest, List.head?_cons, hd, if_true] at h
          obtain ⟨taken, htake, h⟩ := exists_of_bind_ok h
          obtain ⟨more, hmore, h⟩ := exists_of_bind_ok h
          cases h
          obtain ⟨-, hnext⟩ := take_cons hrest htake
          obtain ⟨rfl, hlast⟩ := ih hdigits (Nat.le_of_succ_le_succ hcount) hnext hmore
          exact ⟨rfl, hlast⟩

end Cursor

section Sets

/-- The item of the host's set for an item of a class. -/
def setItem : ClassSign → SetItem
  | .literal c => .literal c
  | .range low high => .range low high
  | .escape kind => .category kind
  | .boundary => .literal 0x08
  | .notBoundary => .literal 'B'.toNat

theorem readSetEscape_letter [CharacterNames] {kind : EscapeKind} (h : kind.Known) {c : CodePoint}
    (hc : kind.letter = [c]) (cursor : Cursor) :
    readSetEscape c cursor = .ok (.category kind, cursor) := by
  cases kind with
  | other letter => exact h.elim
  | _ =>
      obtain rfl := List.singleton_inj.mp hc
      rfl

theorem readItemEscape_letter [CharacterNames] {kind : EscapeKind} (h : kind.Known) {c : CodePoint}
    (hc : kind.letter = [c]) (cursor : Cursor) :
    readItemEscape c cursor = .ok ((.category kind, [c]), cursor) := by
  cases kind with
  | other letter => exact h.elim
  | _ =>
      obtain rfl := List.singleton_inj.mp hc
      rfl

variable {toks : List Token}

/-- A step that reads one atom of a set reads only that where no range sign follows. -/
theorem readSetStep_of_item [CharacterNames] {opened : Nat} {token : Token} {cursor : Cursor}
    {item : SetItem} (hitem : readSetItem token cursor = .ok (item, cursor))
    (hnext : cursor.rest.head? ≠ some (.plain Ascii.hyphen)) :
    readSetStep opened token cursor = .ok ([item], false, cursor) := by
  rw [readSetStep, hitem]
  simp [bind, Except.bind, Cursor.takeIf_eq_none hnext, pure, Except.pure]

/-- An item of a class is read from its tokens. -/
theorem readSetStep_spec [CharacterNames] {item : ClassSign} (h : item.Shared) {token : Token}
    {more : List Token} (htokens : item.tokens = token :: more) {opened : Nat} {cursor : Cursor}
    (hrest : cursor.rest = more ++ toks) (hnext : toks.head? ≠ some (.plain Ascii.hyphen))
    {found : List SetItem} {closed : Bool} {after : Cursor}
    (hread : readSetStep opened token cursor = .ok (found, closed, after)) :
    found = [setItem item] ∧ closed = false ∧ after.rest = toks := by
  have hone : ∀ {inner : SetItem}, more = [] → readSetItem token cursor = .ok (inner, cursor) →
      found = [inner] ∧ closed = false ∧ after.rest = toks := by
    intro inner hmore hitem
    rw [hmore, List.nil_append] at hrest
    rw [readSetStep_of_item hitem (hrest ▸ hnext)] at hread
    cases hread
    exact ⟨rfl, rfl, hrest⟩
  cases item with
  | literal c =>
      obtain ⟨rfl, rfl⟩ := List.cons.inj htokens
      exact hone rfl rfl
  | range low high =>
      obtain ⟨rfl, rfl⟩ := List.cons.inj htokens
      have hclose : high ≠ Ascii.closeBracket := by
        rintro rfl
        exact absurd h.2 (by decide)
      obtain ⟨⟨first, cursor'⟩, hfirst, hread⟩ := exists_of_bind_ok hread
      cases hfirst
      obtain ⟨hyphen, hhyphen, hread⟩ := exists_of_bind_ok hread
      obtain ⟨cursor', rfl, hrest⟩ := Cursor.takeIf_cons hrest hhyphen
      obtain ⟨⟨token, cursor''⟩, htake, hread⟩ := exists_of_bind_ok hread
      obtain ⟨rfl, hrest⟩ := Cursor.take_cons hrest htake
      split at hread
      · next heq => cases heq
      · next heq => exact absurd (Token.plain.inj (Option.some.inj (Prod.mk.inj heq).1)) hclose
      · next heq =>
          cases heq
          obtain ⟨⟨last, cursor'⟩, hlast, hread⟩ := exists_of_bind_ok hread
          cases hlast
          obtain ⟨range, hrange, hread⟩ := exists_of_bind_ok hread
          cases hread
          simp only [rangeOf] at hrange
          split at hrange
          · cases hrange
          · cases hrange
            exact ⟨rfl, rfl, hrest⟩
  | escape kind =>
      obtain ⟨c, hletter, -⟩ := EscapeKind.letter_cases h
      rw [ClassSign.tokens, hletter] at htokens
      obtain ⟨rfl, rfl⟩ := List.cons.inj htokens
      refine hone rfl ?_
      rw [readSetItem, readSetEscape_letter h hletter]
      rfl
  | boundary =>
      obtain ⟨rfl, rfl⟩ := List.cons.inj htokens
      exact hone rfl rfl
  | notBoundary =>
      obtain ⟨rfl, rfl⟩ := List.cons.inj htokens
      cases hread

/-- The tokens of an item of a class are not empty, and they begin neither with a closing bracket
nor with a range sign nor with a negation. -/
theorem tokens_classSign {item : ClassSign} (h : item.Shared) :
    ∃ token more, item.tokens = token :: more ∧
      token ∉ [.plain Ascii.closeBracket, .plain Ascii.hyphen, .plain Ascii.caret] := by
  have hmem : ∀ c, Ascii.isAlphanumeric c = true →
      Token.plain c ∉ [.plain Ascii.closeBracket, .plain Ascii.hyphen, .plain Ascii.caret] := by
    intro c hc hin
    have hall : ∀ d ∈ [Ascii.closeBracket, Ascii.hyphen, Ascii.caret],
      Ascii.isAlphanumeric d = false := by decide
    have hin' : c ∈ [Ascii.closeBracket, Ascii.hyphen, Ascii.caret] := by simpa using hin
    exact absurd ((hall c hin').symm.trans hc) Bool.false_ne_true
  cases item with
  | literal c => exact ⟨.plain c, [], rfl, hmem c h⟩
  | range low high => exact ⟨.plain low, _, rfl, hmem low h.1⟩
  | escape kind =>
      obtain ⟨c, hletter, -⟩ := EscapeKind.letter_cases h
      exact ⟨.escaped c, [], by rw [ClassSign.tokens, hletter]; rfl, by simp⟩
  | boundary => exact ⟨.escaped 'b'.toNat, [], rfl, by simp⟩
  | notBoundary => exact ⟨.escaped 'B'.toNat, [], rfl, by simp⟩

theorem head?_classTokens {items : List ClassSign} (h : ∀ item ∈ items, item.Shared) :
    (items.flatMap ClassSign.tokens ++ .plain Ascii.closeBracket :: toks).head? ≠
      some (.plain Ascii.hyphen) := by
  cases items with
  | nil => exact fun heq => absurd (Option.some.inj heq) (by decide)
  | cons item items =>
      obtain ⟨token, more, htokens, htoken⟩ := tokens_classSign (h item List.mem_cons_self)
      rw [List.flatMap_cons, htokens]
      simp only [List.mem_cons, not_or] at htoken
      exact fun heq => htoken.2.1 (Option.some.inj heq)

/-- The items of a class are read from their tokens. -/
theorem readSetItems_spec [CharacterNames] {items : List ClassSign}
    (h : ∀ item ∈ items, item.Shared)
    {opened fuel : Nat} (hfuel : items.length < fuel) {earlier : List SetItem}
    (hne : earlier ≠ [] ∨ items ≠ []) {cursor : Cursor}
    (hrest : cursor.rest = items.flatMap ClassSign.tokens ++ .plain Ascii.closeBracket :: toks)
    {found : List SetItem} {after : Cursor}
    (hread : readSetItems opened fuel earlier cursor = .ok (found, after)) :
    found = earlier ++ items.map setItem ∧ after.rest = toks := by
  induction items generalizing fuel earlier cursor with
  | nil =>
      cases fuel with
      | zero => exact absurd hfuel (Nat.not_lt_zero _)
      | succ fuel =>
          rw [readSetItems] at hread
          obtain ⟨⟨token, cursor'⟩, htake, hread⟩ := exists_of_bind_ok hread
          obtain ⟨rfl, hrest⟩ := Cursor.take_cons hrest htake
          have hfull : earlier.isEmpty = false := by
            simpa using hne
          dsimp only at hread
          rw [hfull, if_pos ⟨rfl, rfl⟩] at hread
          cases hread
          exact ⟨(List.append_nil _).symm, hrest⟩
  | cons item items ih =>
      obtain ⟨hitem, hitems⟩ := List.forall_mem_cons.mp h
      obtain ⟨token, more, htokens, htoken⟩ := tokens_classSign hitem
      simp only [List.mem_cons, not_or] at htoken
      cases fuel with
      | zero => exact absurd hfuel (Nat.not_lt_zero _)
      | succ fuel =>
          rw [List.flatMap_cons, htokens, List.cons_append, List.cons_append,
            List.append_assoc] at hrest
          rw [readSetItems] at hread
          obtain ⟨⟨token', cursor'⟩, htake, hread⟩ := exists_of_bind_ok hread
          obtain ⟨rfl, hrest⟩ := Cursor.take_cons hrest htake
          dsimp only at hread
          rw [if_neg (fun hclose => htoken.1 hclose.1)] at hread
          obtain ⟨⟨inner, closed, after'⟩, hstep, hread⟩ := exists_of_bind_ok hread
          obtain ⟨rfl, rfl, hrest⟩ :=
            readSetStep_spec hitem htokens hrest (head?_classTokens hitems) hstep
          obtain ⟨rfl, hlast⟩ := ih hitems (Nat.lt_of_succ_lt_succ hfuel)
            (Or.inl (List.append_ne_nil_of_right_ne_nil _ (List.cons_ne_nil _ _))) hrest hread
          exact ⟨by simp, hlast⟩

/-- Every item of a class has a token. -/
theorem length_le_classTokens {items : List ClassSign} (h : ∀ item ∈ items, item.Shared) :
    items.length ≤ (items.flatMap ClassSign.tokens).length := by
  induction items with
  | nil => exact Nat.le_refl 0
  | cons item items ih =>
      obtain ⟨hitem, hitems⟩ := List.forall_mem_cons.mp h
      obtain ⟨token, more, htokens, -⟩ := tokens_classSign hitem
      have hrest := ih hitems
      rw [List.flatMap_cons, htokens]
      simp only [List.length_cons, List.length_append]
      omega

/-- A class is read from its tokens into a set. -/
theorem readSet_spec [CharacterNames] {negative : Bool} {items : List ClassSign} (hne : items ≠ [])
    (h : ∀ item ∈ items, item.Shared) {cursor after : Cursor}
    (hrest : cursor.rest = (if negative then [.plain Ascii.caret] else []) ++
      (items.flatMap ClassSign.tokens ++ .plain Ascii.closeBracket :: toks))
    {item : Item} (hread : readSet cursor = .ok (item, after)) :
    item = itemOfSet negative (items.map setItem) ∧ after.rest = toks := by
  have hfuel : ∀ cursor : Cursor,
      cursor.rest = items.flatMap ClassSign.tokens ++ .plain Ascii.closeBracket :: toks →
        items.length < cursor.rest.length + 1 := by
    intro cursor hrest
    have hlength := length_le_classTokens h
    rw [hrest, List.length_append]
    omega
  rw [readSet] at hread
  cases negative with
  | true =>
      rw [if_pos rfl, List.singleton_append] at hrest
      obtain ⟨caret, hcaret, hread⟩ := exists_of_bind_ok hread
      obtain ⟨cursor', rfl, hrest⟩ := Cursor.takeIf_cons hrest hcaret
      obtain ⟨⟨sign, cursor''⟩, hsign, hread⟩ := exists_of_bind_ok hread
      cases hsign
      obtain ⟨⟨found, last⟩, hitems, hread⟩ := exists_of_bind_ok hread
      cases hread
      obtain ⟨rfl, hlast⟩ := readSetItems_spec h (hfuel cursor' hrest) (Or.inr hne) hrest hitems
      exact ⟨rfl, hlast⟩
  | false =>
      rw [if_neg Bool.false_ne_true, List.nil_append] at hrest
      have hcaret : cursor.takeIf Ascii.caret = .ok none := by
        refine Cursor.takeIf_eq_none ?_
        rw [hrest]
        cases items with
        | nil => exact absurd rfl hne
        | cons item items =>
            obtain ⟨token, more, htokens, htoken⟩ := tokens_classSign (h item List.mem_cons_self)
            rw [List.flatMap_cons, htokens]
            simp only [List.mem_cons, not_or] at htoken
            exact fun heq => htoken.2.2.1 (Option.some.inj heq)
      obtain ⟨caret, hnone, hread⟩ := exists_of_bind_ok hread
      rw [hcaret] at hnone
      cases hnone
      obtain ⟨⟨sign, cursor'⟩, hsign, hread⟩ := exists_of_bind_ok hread
      cases hsign
      obtain ⟨⟨found, last⟩, hitems, hread⟩ := exists_of_bind_ok hread
      cases hread
      obtain ⟨rfl, hlast⟩ := readSetItems_spec h (hfuel cursor hrest) (Or.inr hne) hrest hitems
      exact ⟨rfl, hlast⟩

end Sets

section Atoms

/-- The item of the host for a sign that is an atom. -/
def itemOfSign : Sign → Item
  | .literal c => .literal false c
  | .dot => .any
  | .anchor kind => .place (placeOf kind)
  | .escape kind => .set false [.category kind]
  | .brackets negative items => itemOfSet negative (items.map setItem)
  | _ => .any

/-- What a mark may stand after. -/
def Item.Repeatable : Item → Prop
  | .place _ | .repetition _ _ _ _ => False
  | _ => True

theorem repeatable_itemOfSet (negated : Bool) (items : List SetItem) :
    (itemOfSet negated items).Repeatable := by
  unfold itemOfSet
  split <;> trivial

theorem repeatable_itemOfSign {s : Sign} (hanchor : Pattern.isAnchor s.node = false) :
    (itemOfSign s).Repeatable := by
  cases s with
  | anchor kind => cases hanchor
  | brackets negative items => exact repeatable_itemOfSet negative _
  | _ => trivial

theorem readToken_alphanumeric [CharacterNames] {c : CodePoint} (h : Ascii.isAlphanumeric c = true)
    {q : Progress} (hverbose : q.verbose = false) (cursor : Cursor) :
    q.readToken (.plain c) cursor = .ok (q.push (.literal false c), cursor) := by
  have hne : ∀ x, Ascii.isAlphanumeric x = false → c ≠ x := fun x hx heq =>
    absurd (hx.symm.trans (heq ▸ h)) Bool.false_ne_true
  have hmark : ¬ (c = Ascii.star ∨ c = Ascii.plus ∨ c = Ascii.question ∨ c = Ascii.openBrace) := by
    rintro (rfl | rfl | rfl | rfl) <;> exact absurd h (by decide)
  simp only [Progress.readToken, hverbose, Bool.false_and, Bool.false_eq_true, if_false]
  rw [if_neg (hne _ (by decide)), if_neg hmark, if_neg (hne _ (by decide)),
    if_neg (hne _ (by decide)), if_neg (hne _ (by decide)), if_neg (hne _ (by decide))]

/-- An escape is read as what its letter stands for. -/
theorem readToken_escaped [CharacterNames] {c : CodePoint} {q q' : Progress}
    (hverbose : q.verbose = false)
    {cursor after : Cursor} (hread : q.readToken (.escaped c) cursor = .ok (q', after)) :
    ∃ item, q.readEscape c cursor = .ok (item, after) ∧ q' = q.push item := by
  simp only [Progress.readToken, hverbose, Bool.false_and, Bool.false_eq_true, if_false] at hread
  obtain ⟨⟨item, cursor'⟩, hescape, hread⟩ := exists_of_map_ok hread
  cases hread
  exact ⟨item, hescape, rfl⟩

variable {s : Sign} {token : Token} {more toks : List Token} {q q' : Progress}
  {cursor after : Cursor}

/-- An atom is read from its tokens. -/
theorem readToken_spec [CharacterNames] (hatom : s.IsAtom) (h : s.Shared)
    (htokens : s.tokens = token :: more)
    (hverbose : q.verbose = false) (hrest : cursor.rest = more ++ toks)
    (hread : q.readToken token cursor = .ok (q', after)) :
    q' = q.push (itemOfSign s) ∧ after.rest = toks := by
  have hescaped : ∀ {c : CodePoint} {item : Item}, token = .escaped c → more = [] →
      q.readEscape c cursor = .ok (item, cursor) →
      q' = q.push item ∧ after.rest = toks := by
    rintro c item rfl rfl hescape
    obtain ⟨item', hitem, rfl⟩ := readToken_escaped hverbose hread
    rw [hescape] at hitem
    cases hitem
    exact ⟨rfl, hrest⟩
  cases s with
  | literal c =>
      obtain ⟨rfl, rfl⟩ := List.cons.inj htokens
      rw [readToken_alphanumeric h hverbose] at hread
      cases hread
      exact ⟨rfl, hrest⟩
  | dot =>
      obtain ⟨rfl, rfl⟩ := List.cons.inj htokens
      simp only [Progress.readToken, hverbose, Bool.false_and, Bool.false_eq_true,
        if_false] at hread
      cases hread
      exact ⟨rfl, hrest⟩
  | anchor kind =>
      cases kind with
      | start =>
          obtain ⟨rfl, rfl⟩ := List.cons.inj htokens
          simp only [Progress.readToken, hverbose, Bool.false_and, Bool.false_eq_true,
            if_false] at hread
          cases hread
          exact ⟨rfl, hrest⟩
      | finish =>
          obtain ⟨rfl, rfl⟩ := List.cons.inj htokens
          exact hescaped rfl rfl rfl
      | boundary =>
          obtain ⟨rfl, rfl⟩ := List.cons.inj htokens
          exact hescaped rfl rfl rfl
      | notBoundary =>
          obtain ⟨rfl, rfl⟩ := List.cons.inj htokens
          exact hescaped rfl rfl rfl
      | other name => exact h.elim
  | escape kind =>
      obtain ⟨c, hletter, -⟩ := EscapeKind.letter_cases h
      rw [Sign.tokens, hletter] at htokens
      obtain ⟨rfl, rfl⟩ := List.cons.inj htokens
      refine hescaped rfl rfl ?_
      rw [Progress.readEscape, readItemEscape_letter h hletter]
      rfl
  | brackets negative items =>
      obtain ⟨rfl, rfl⟩ := List.cons.inj htokens
      simp only [Progress.readToken, hverbose, Bool.false_and, Bool.false_eq_true,
        if_false] at hread
      obtain ⟨⟨item, cursor'⟩, hset, hread⟩ := exists_of_map_ok hread
      cases hread
      rw [List.append_assoc, List.append_assoc] at hrest
      obtain ⟨rfl, hlast⟩ := readSet_spec h.1 h.2 hrest hset
      exact ⟨rfl, hlast⟩
  | _ => exact hatom.elim

end Atoms

section Offers

variable {text : Text}

theorem classHolds_eq {kind : EscapeKind} (h : kind.Known) (c : CodePoint) :
    Leaf.classHolds c kind = categoryHolds false c kind := by
  cases kind with
  | other letter => exact h.elim
  | _ => rfl

/-- A class with a letter accepts a character as the host does. -/
theorem escapeAccepts_eq {kind : EscapeKind} (h : kind.Known) {c : CodePoint}
    (hc : c < codePointLimit) : Leaf.escapeAccepts kind c = .ok (categoryHolds false c kind) := by
  have hcharacter : Node.character c = .ok c := by
    rw [Leaf.character_eq_ok (isCodePoint_natCast hc), Int.toNat_natCast]
  rw [← classHolds_eq h]
  cases kind with
  | other letter => exact h.elim
  | _ =>
      rw [Leaf.escapeAccepts, hcharacter, Except.map]
      all_goals simp

theorem natCast_beq (c d : Nat) : ((c : Int) == d) = (c == d) := by
  rw [Bool.eq_iff_iff, beq_iff_eq, beq_iff_eq, Int.natCast_inj]

theorem literalAccepts_eq (c d : CodePoint) :
    Leaf.itemAccepts false (.value c) d = .ok (c == d) := congrArg Except.ok (natCast_beq c d)

/-- An item of a class accepts a character as the item of the host's set does. -/
theorem itemAccepts_eq {item : ClassSign} (h : item.Shared) {c : CodePoint}
    (hc : c < codePointLimit) :
    Leaf.itemAccepts false item.node c = .ok (setItemAccepts {} c (setItem item)) := by
  have hvalue : ∀ d : CodePoint, Leaf.itemAccepts false (.value d) c =
      .ok (setItemAccepts {} c (.literal d)) := by
    intro d
    rw [literalAccepts_eq]
    simp [setItemAccepts]
  cases item with
  | literal d => exact hvalue d
  | range low high =>
      simp [ClassSign.node, setItem, Leaf.itemAccepts, setItemAccepts]
  | escape kind => exact escapeAccepts_eq h hc
  | boundary => exact hvalue 0x08
  | notBoundary => exact hvalue 'B'.toNat

/-- The items of a class accept a character as the items of the host's set do. -/
theorem someItemAccepts_eq {items : List ClassSign} (h : ∀ item ∈ items, item.Shared)
    {c : CodePoint} (hc : c < codePointLimit) :
    Leaf.someItemAccepts false c (items.map ClassSign.node) =
      .ok ((items.map setItem).any (setItemAccepts {} c)) := by
  induction items with
  | nil => rfl
  | cons item items ih =>
      obtain ⟨hitem, hitems⟩ := List.forall_mem_cons.mp h
      rw [List.map_cons, List.map_cons, List.any_cons, Leaf.someItemAccepts,
        itemAccepts_eq hitem hc]
      cases setItemAccepts {} c (setItem item) with
      | true => rfl
      | false => exact ih hitems

/-- The item of an atom offers the ends of its node. -/
theorem offers_itemOfSign {s : Sign} (hatom : s.IsAtom) (h : s.Shared) (valid : text.Valid)
    (hline : Ascii.newline ∉ text) (hempty : s = .anchor .notBoundary → text ≠ []) :
    Offers text (matchItem text.toArray {} (itemOfSign s)) (Search.ends true text s.node) := by
  have hleaf : ∀ {node : Node} {item : Item} {property : CodePoint → Bool},
      (∀ i, Search.ends true text node i = Search.leafEnds text node i) →
      (∀ i captures k, matchItem text.toArray {} item i captures k =
        matchCharacter text.toArray property i captures k) →
      (∀ c ∈ text, Leaf.accepts {} node c = .ok (property c)) →
      Offers text (matchItem text.toArray {} item) (Search.ends true text node) := by
    intro node item property hends hitem haccepts
    have hsame : Search.ends true text node = Search.leafEnds text node := funext hends
    exact hsame ▸ (offers_character haccepts).congr hitem
  cases s with
  | literal c =>
      refine hleaf (fun i => by rw [Sign.node, Search.ends])
        (fun i captures k => matchItem_literal text.toArray {} i captures k false c) fun d hd => ?_
      rw [Sign.node, Leaf.accepts, literalAccepts_eq]
      simp [literalAccepts]
  | dot =>
      refine hleaf (fun i => by rw [Sign.node, Search.ends])
        (matchItem_any text.toArray {}) fun d hd => ?_
      have hd' : d ≠ Ascii.newline := fun heq => hline (heq ▸ hd)
      simp [Sign.node, Leaf.accepts, hd']
  | anchor kind =>
      have hplace := placeHolds_placeOf h fun hkind => hempty (by rw [hkind])
      have hsame : Search.ends true text (.anchor kind) =
          fun i => if Search.anchorHoldsAt text kind i then [i] else [] :=
        funext fun i => by rw [Search.ends]
      rw [Sign.node, hsame]
      refine (Offers.selfIf fun i _ => hplace i).congr fun i captures k => ?_
      exact matchItem_place text.toArray {} i captures k (placeOf kind)
  | escape kind =>
      refine hleaf (fun i => by rw [Sign.node, Search.ends])
        (fun i captures k => matchItem_set text.toArray {} i captures k false _) fun d hd => ?_
      simpa [Sign.node, Leaf.accepts, setAccepts_eq, setItemAccepts] using
        escapeAccepts_eq h (valid d hd)
  | brackets negative items =>
      refine hleaf (fun i => by rw [Sign.node, Search.ends])
        (matchItem_itemOfSet text.toArray negative _) fun d hd => ?_
      simp [Sign.node, Leaf.accepts, someItemAccepts_eq h.2 (valid d hd), Except.map]
  | _ => exact hatom.elim

end Offers

end Host

end RegexTrace
