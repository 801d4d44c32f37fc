import RegexTrace.Proofs.Tokens

/-!
# How both readers read a repetition mark

A mark asks for bounds, and a question mark after it makes it lazy. Both readers find the same
bounds. The host has a third kind of repetition, which a plus sign after a mark asks for; no pattern
that the other reader accepts has one.
-/

namespace RegexTrace

namespace MarkSign

/-- The bounds that a mark asks for. -/
def bounds : MarkSign → Except Pattern.BoundsFault (Nat × Option Nat)
  | .star => .ok (0, none)
  | .plus => .ok (1, none)
  | .question => .ok (0, some 1)
  | .braces low high => Pattern.Braces.bounds ⟨low, high, 0⟩

/-- The one-character spelling of a mark. -/
def shorthand : MarkSign → Option Shorthand
  | .star => some .star
  | .plus => some .plus
  | .question => some .question
  | .braces _ _ => none

end MarkSign

/-- What makes a mark lazy. -/
def lazySign (greedy : Bool) : Text := if greedy then [] else [Ascii.question]

namespace Pattern

theorem readBare?_spell {m : MarkSign} (h : m.Shared) (t : Text) :
    readBare? (m.spell ++ t) =
      m.bounds.map fun bounds => some (bounds.1, bounds.2, m.shorthand, m.spell.length) := by
  cases m with
  | braces low high =>
      have hbraces := Braces.read?_spell h t
      have hopen : ∃ l, (MarkSign.braces low high).spell = Ascii.openBrace :: l := by
        cases high <;> exact ⟨_, rfl⟩
      obtain ⟨l, hspell⟩ := hopen
      rw [hspell, List.cons_append] at hbraces ⊢
      rw [readBare?, hbraces, ← hspell]
      · have hbounds : Braces.bounds ⟨low, high, (MarkSign.braces low high).spell.length⟩ =
            (MarkSign.braces low high).bounds := rfl
        dsimp only
        rw [hbounds]
        cases (MarkSign.braces low high).bounds <;> rfl
      all_goals exact fun rest heq => absurd (List.cons.inj heq).1 (by decide)
  | _ => rfl

/-- A mark is read from its spelling, greedy unless a question mark follows it. -/
theorem Repetition.read?_spell {m : MarkSign} (h : m.Shared) {greedy : Bool} {t : Text}
    (ht : greedy = true → t.head? ≠ some Ascii.question) :
    Repetition.read? (m.spell ++ (lazySign greedy ++ t)) =
      m.bounds.map fun bounds => some ⟨bounds.1, bounds.2, m.shorthand, greedy,
        (m.spell ++ lazySign greedy).length⟩ := by
  rw [Repetition.read?, readBare?_spell h]
  cases m.bounds with
  | error fault => rfl
  | ok bounds =>
      simp only [Except.map, bind, Except.bind, List.drop_left]
      cases greedy with
      | true =>
          rw [lazySign, if_pos rfl, List.nil_append, List.append_nil]
          split
          · exact absurd rfl (ht rfl)
          · rfl
      | false => simp [lazySign, pure, Except.pure]

end Pattern

namespace Host

variable {toks : List Token}

theorem readCount_spec {digits : Text} (hne : digits ≠ []) {found : Option Nat}
    (h : Progress.readCount digits = .ok found) :
    ∃ n, Numeral.ofDigits digits = .ok n ∧ found = some n := by
  rw [Progress.readCount, if_neg (by simpa using hne)] at h
  cases hn : Numeral.ofDigits digits with
  | error fault =>
      rw [hn] at h
      cases h
  | ok n =>
      rw [hn] at h
      dsimp only at h
      split at h
      · cases h
      · exact ⟨n, rfl, (Except.ok.inj h).symm⟩

theorem takeDigits_spec {digits : Text} (hdigits : ∀ c ∈ digits, Ascii.isDigit c = true)
    {c : CodePoint} (hc : Ascii.isDigit c = false) {cursor after : Cursor}
    (hrest : cursor.rest = digits.map .plain ++ .plain c :: toks) {found : Text}
    (h : cursor.takeWhile Ascii.isDigit cursor.rest.length = .ok (found, after)) :
    found = digits ∧ after.rest = .plain c :: toks := by
  have hlength : digits.length ≤ cursor.rest.length := by
    rw [hrest, List.length_append, List.length_map]
    exact Nat.le_add_right _ _
  exact Cursor.takeWhile_spec hdigits hc hlength hrest h

theorem next?_ne_closeBrace {digits : Text} (hne : digits ≠ [])
    (hdigits : ∀ c ∈ digits, Ascii.isDigit c = true) {cursor : Cursor}
    (hrest : cursor.rest = digits.map .plain ++ toks) :
    cursor.next? ≠ some (.plain Ascii.closeBrace) := by
  cases digits with
  | nil => exact absurd rfl hne
  | cons d digits =>
      have hd := hdigits d List.mem_cons_self
      rw [Cursor.next?, hrest]
      intro heq
      obtain rfl : d = Ascii.closeBrace := Token.plain.inj (Option.some.inj heq)
      exact absurd hd (by decide)

/-- One number in braces bounds a repetition from both sides. -/
theorem readBounds?_one {digits : Text} (hne : digits ≠ [])
    (hdigits : ∀ c ∈ digits, Ascii.isDigit c = true) {cursor : Cursor}
    (hrest : cursor.rest = digits.map .plain ++ .plain Ascii.closeBrace :: toks)
    {found : Option (Nat × Option Nat × Cursor)}
    (hread : Progress.readBounds? cursor = .ok found) :
    ∃ n after, found = some (n, some n, after) ∧ after.rest = toks ∧
      Numeral.ofDigits digits = .ok n := by
  rw [Progress.readBounds?, if_neg (next?_ne_closeBrace hne hdigits hrest)] at hread
  obtain ⟨⟨low, after⟩, htake, hread⟩ := exists_of_bind_ok hread
  obtain ⟨rfl, hafter⟩ := takeDigits_spec hdigits rfl hrest htake
  have hcomma : after.takeIf Ascii.comma = .ok none := by
    refine Cursor.takeIf_eq_none ?_
    rw [hafter]
    exact fun heq => absurd (Token.plain.inj (Option.some.inj heq)) (by decide)
  dsimp only at hread
  rw [hcomma] at hread
  obtain ⟨comma, htook, hread⟩ := exists_of_bind_ok hread
  cases htook
  obtain ⟨⟨high, next⟩, hhigh, hread⟩ := exists_of_bind_ok hread
  cases hhigh
  obtain ⟨brace, hbrace, hread⟩ := exists_of_bind_ok hread
  obtain ⟨last, rfl, hlast⟩ := Cursor.takeIf_cons hafter hbrace
  obtain ⟨min, hmin, hread⟩ := exists_of_bind_ok hread
  obtain ⟨n, hn, rfl⟩ := readCount_spec hne hmin
  obtain ⟨max, hmax, hread⟩ := exists_of_bind_ok hread
  cases hmin.symm.trans hmax
  simp only [Option.getD_some, Option.any_some, Nat.lt_irrefl, decide_false, Bool.false_eq_true,
    if_false] at hread
  cases hread
  exact ⟨n, last, rfl, hlast, hn⟩

/-- Two numbers in braces bound a repetition if they are in order; the second may be missing. -/
theorem readBounds?_two {low high : Text} (hne : low ≠ [])
    (hlow : ∀ c ∈ low, Ascii.isDigit c = true) (hhigh : ∀ c ∈ high, Ascii.isDigit c = true)
    {cursor : Cursor}
    (hrest : cursor.rest = low.map .plain ++ .plain Ascii.comma ::
      (high.map .plain ++ .plain Ascii.closeBrace :: toks))
    {found : Option (Nat × Option Nat × Cursor)}
    (hread : Progress.readBounds? cursor = .ok found) :
    ∃ n max after, found = some (n, max, after) ∧ after.rest = toks ∧
      Numeral.ofDigits low = .ok n ∧ Progress.readCount high = .ok max ∧
      ∀ limit, max = some limit → n ≤ limit := by
  rw [Progress.readBounds?, if_neg (next?_ne_closeBrace hne hlow hrest)] at hread
  obtain ⟨⟨digits, after⟩, htake, hread⟩ := exists_of_bind_ok hread
  obtain ⟨rfl, hafter⟩ := takeDigits_spec hlow rfl hrest htake
  obtain ⟨comma, hcomma, hread⟩ := exists_of_bind_ok hread
  obtain ⟨after, rfl, hafter⟩ := Cursor.takeIf_cons hafter hcomma
  obtain ⟨⟨upper, next⟩, htake, hread⟩ := exists_of_bind_ok hread
  obtain ⟨rfl, hnext⟩ := takeDigits_spec hhigh rfl hafter htake
  obtain ⟨brace, hbrace, hread⟩ := exists_of_bind_ok hread
  obtain ⟨last, rfl, hlast⟩ := Cursor.takeIf_cons hnext hbrace
  obtain ⟨min, hmin, hread⟩ := exists_of_bind_ok hread
  obtain ⟨n, hn, rfl⟩ := readCount_spec hne hmin
  obtain ⟨max, hmax, hread⟩ := exists_of_bind_ok hread
  rw [Option.getD_some] at hread
  split at hread
  · cases hread
  · next hordered =>
      cases hread
      refine ⟨n, max, last, rfl, hlast, hn, hmax, ?_⟩
      rintro limit rfl
      simpa using hordered

/-- Bounds in braces are read from their tokens. -/
theorem readBounds?_spec {low : Text} {high : Option Text}
    (h : (MarkSign.braces low high).Shared) {l : Text}
    (hspell : (MarkSign.braces low high).spell = Ascii.openBrace :: l) {cursor : Cursor}
    (hrest : cursor.rest = l.map .plain ++ toks) {found : Option (Nat × Option Nat × Cursor)}
    (hread : Progress.readBounds? cursor = .ok found) :
    ∃ min max after, found = some (min, max, after) ∧ after.rest = toks ∧
      (MarkSign.braces low high).bounds = .ok (min, max) := by
  obtain ⟨hne, hdigits⟩ := h
  have hlow := hdigits low List.mem_cons_self
  cases high with
  | none =>
      obtain ⟨-, rfl⟩ := List.cons.inj hspell
      simp only [List.map_append, List.map_cons, List.map_nil, List.append_assoc,
        List.cons_append, List.nil_append] at hrest
      obtain ⟨n, after, rfl, hafter, hn⟩ := readBounds?_one hne hlow hrest hread
      exact ⟨n, some n, after, rfl, hafter, Pattern.Braces.bounds_one hn⟩
  | some high =>
      have hhigh := hdigits high (List.mem_cons_of_mem low List.mem_cons_self)
      obtain ⟨-, rfl⟩ := List.cons.inj hspell
      simp only [List.map_append, List.map_cons, List.map_nil, List.append_assoc,
        List.cons_append, List.nil_append] at hrest
      obtain ⟨n, max, after, rfl, hafter, hn, hmax, hordered⟩ :=
        readBounds?_two hne hlow hhigh hrest hread
      refine ⟨n, max, after, rfl, hafter, ?_⟩
      cases high with
      | nil =>
          cases hmax
          exact Pattern.Braces.bounds_open hn
      | cons c high =>
          obtain ⟨limit, hlimit, rfl⟩ := readCount_spec (List.cons_ne_nil c high) hmax
          exact (Pattern.Braces.bounds_two (List.cons_ne_nil c high) hn hlimit).trans
            (if_neg (Nat.not_lt.mpr (hordered limit rfl)))

/-- A mark is read from its tokens. -/
theorem readMark?_spec {m : MarkSign} (h : m.Shared) {c : CodePoint} {l : Text}
    (hspell : m.spell = c :: l) {cursor : Cursor} (hrest : cursor.rest = l.map .plain ++ toks)
    {found : Option (Nat × Option Nat × Cursor)}
    (hread : Progress.readMark? c cursor = .ok found) :
    ∃ min max after, found = some (min, max, after) ∧ after.rest = toks ∧
      m.bounds = .ok (min, max) := by
  cases m with
  | star =>
      obtain ⟨rfl, rfl⟩ := List.cons.inj hspell
      cases hread
      exact ⟨0, none, cursor, rfl, hrest, rfl⟩
  | plus =>
      obtain ⟨rfl, rfl⟩ := List.cons.inj hspell
      cases hread
      exact ⟨1, none, cursor, rfl, hrest, rfl⟩
  | question =>
      obtain ⟨rfl, rfl⟩ := List.cons.inj hspell
      cases hread
      exact ⟨0, some 1, cursor, rfl, hrest, rfl⟩
  | braces low high =>
      obtain rfl : c = Ascii.openBrace := by
        cases high <;> exact (List.cons.inj hspell).1.symm
      exact readBounds?_spec h hspell hrest hread

/-- The mode of a repetition. -/
def modeOf (greedy : Bool) : Mode := if greedy then .greedy else .reluctant

theorem readMode_spec {greedy : Bool} {cursor after : Cursor} {mode : Mode}
    (hrest : cursor.rest = (lazySign greedy).map .plain ++ toks)
    (htoks : greedy = true →
      toks.head? ≠ some (.plain Ascii.question) ∧ toks.head? ≠ some (.plain Ascii.plus))
    (hread : Progress.readMode cursor = .ok (mode, after)) :
    mode = modeOf greedy ∧ after.rest = toks := by
  rw [Progress.readMode] at hread
  cases greedy with
  | true =>
      obtain ⟨hquestion, hplus⟩ := htoks rfl
      rw [lazySign, if_pos rfl, List.map_nil, List.nil_append] at hrest
      rw [Cursor.takeIf_eq_none (hrest ▸ hquestion), Cursor.takeIf_eq_none (hrest ▸ hplus)] at hread
      cases hread
      exact ⟨rfl, hrest⟩
  | false =>
      obtain ⟨found, hfound, hread⟩ := exists_of_bind_ok hread
      obtain ⟨next, rfl, hnext⟩ := Cursor.takeIf_cons hrest hfound
      cases hread
      exact ⟨rfl, hnext⟩

/-- A mark after an item that can be repeated makes a repetition of it. -/
theorem readRepetition_spec {m : MarkSign} (h : m.Shared) {c : CodePoint} {l : Text}
    (hspell : m.spell = c :: l) {greedy : Bool} {cursor after : Cursor}
    (hrest : cursor.rest = l.map .plain ++ ((lazySign greedy).map .plain ++ toks))
    (htoks : greedy = true →
      toks.head? ≠ some (.plain Ascii.question) ∧ toks.head? ≠ some (.plain Ascii.plus))
    {q q' : Progress} {item : Item} {earlier : List Item}
    (hitems : q.level.items = item :: earlier) (hitem : item.Repeatable)
    (hread : q.readRepetition c cursor = .ok (q', after)) :
    ∃ min max, m.bounds = .ok (min, max) ∧ after.rest = toks ∧
      q' = { q with level := { q.level with
        items :=
          .repetition (modeOf greedy) min max (item.plainBody?.getD [item]) :: earlier } } := by
  rw [Progress.readRepetition] at hread
  obtain ⟨found, hfound, hread⟩ := exists_of_bind_ok hread
  obtain ⟨min, max, next, rfl, hnext, hbounds⟩ := readMark?_spec h hspell hrest hfound
  refine ⟨min, max, hbounds, ?_⟩
  dsimp only at hread
  rw [Progress.repeatLast, hitems] at hread
  cases item with
  | place place => exact hitem.elim
  | repetition mode min max body => exact hitem.elim
  | _ =>
      obtain ⟨⟨mode, last⟩, hmode, hread⟩ := exists_of_bind_ok hread
      obtain ⟨rfl, hlast⟩ := readMode_spec hnext htoks hmode
      cases hread
      exact ⟨hlast, rfl⟩

end Host

end RegexTrace
