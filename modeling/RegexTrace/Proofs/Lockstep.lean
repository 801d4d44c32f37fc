import RegexTrace.Proofs.Levels
import RegexTrace.Proofs.Marks

/-!
# Two readers in step

The reader of pattern trees and the host read the signs of a pattern in step: what they have read
corresponds after every sign, where a term is read together with its mark. So the program of the
host offers the ends of the tree.

## Implementation notes

Either reader may refuse the signs. Nothing is said then, so a sign that one of them refuses ends
the proof, such as a plus sign after a mark, which would be another kind of repetition to the host.
-/

namespace RegexTrace

namespace Sign

/-- The code points that marks begin with. -/
def markSigns : Text := [Ascii.star, Ascii.plus, Ascii.question, Ascii.openBrace]

/-- The code points that have a meaning to a reader between atoms. -/
def structureSigns : Text := [Ascii.bar, Ascii.openParen, Ascii.closeParen, Ascii.colon]

theorem not_mem_signs_of_isAlphanumeric {c : CodePoint} (h : Ascii.isAlphanumeric c = true) :
    c ∉ markSigns ∧ c ∉ structureSigns := by
  have hall : ∀ d ∈ markSigns ++ structureSigns, Ascii.isAlphanumeric d = false := by decide
  have hnot : ∀ d ∈ markSigns ++ structureSigns, c ≠ d := fun d hd heq =>
    absurd ((hall d hd).symm.trans (heq ▸ h)) Bool.false_ne_true
  exact ⟨fun hc => hnot c (List.mem_append_left _ hc) rfl,
    fun hc => hnot c (List.mem_append_right _ hc) rfl⟩

/-- How an atom begins: neither its spelling nor its tokens mark or structure a pattern. -/
theorem IsAtom.first {s : Sign} (hatom : s.IsAtom) (h : s.Shared) :
    ∃ c l token toks, s.spell = c :: l ∧ s.tokens = token :: toks ∧
      (c ∉ markSigns ∧ c ∉ structureSigns) ∧
      ∀ d ∈ markSigns ++ structureSigns, token ≠ .plain d := by
  have hplain : ∀ {c : CodePoint}, c ∉ markSigns ∧ c ∉ structureSigns →
      ∀ d ∈ markSigns ++ structureSigns, Host.Token.plain c ≠ .plain d := by
    rintro c ⟨hmark, hstructure⟩ d hd heq
    obtain rfl := Host.Token.plain.inj heq
    exact (List.mem_append.mp hd).elim hmark hstructure
  have hescaped : ∀ (c : CodePoint), ∀ d ∈ markSigns ++ structureSigns,
      Host.Token.escaped c ≠ .plain d := fun c d _ heq => by cases heq
  cases s with
  | literal c =>
      have hc := not_mem_signs_of_isAlphanumeric h
      exact ⟨c, [], .plain c, [], rfl, rfl, hc, hplain hc⟩
  | dot => exact ⟨_, _, _, _, rfl, rfl, by decide, hplain (by decide)⟩
  | anchor kind =>
      cases kind with
      | start => exact ⟨_, _, _, _, rfl, rfl, by decide, hplain (by decide)⟩
      | finish => exact ⟨_, _, _, _, rfl, rfl, by decide, hescaped _⟩
      | boundary => exact ⟨_, _, _, _, rfl, rfl, by decide, hescaped _⟩
      | notBoundary => exact ⟨_, _, _, _, rfl, rfl, by decide, hescaped _⟩
      | other name => exact h.elim
  | escape kind =>
      obtain ⟨c, hletter, -⟩ := EscapeKind.letter_cases h
      refine ⟨Ascii.backslash, kind.letter, .escaped c, [], rfl, ?_, by decide, hescaped c⟩
      rw [tokens, hletter]
      rfl
  | brackets negative items => exact ⟨_, _, _, _, rfl, rfl, by decide, hplain (by decide)⟩
  | _ => exact hatom.elim

/-- How a mark begins. -/
theorem first_mark (m : MarkSign) :
    ∃ c l, m.spell = c :: l ∧ c ∈ markSigns ∧ (c = Ascii.question → m = .question) ∧
      (c = Ascii.plus → m = .plus) := by
  cases m with
  | star => exact ⟨_, _, rfl, by decide, by decide, by decide⟩
  | plus => exact ⟨_, _, rfl, by decide, by decide, by decide⟩
  | question => exact ⟨_, _, rfl, by decide, by decide, by decide⟩
  | braces low high =>
      cases high <;>
        exact ⟨Ascii.openBrace, _, rfl, by decide, fun h => absurd h (by decide),
          fun h => absurd h (by decide)⟩

theorem atom_or_mark_or_structure (s : Sign) :
    s.IsAtom ∨ (∃ m, s = .mark m) ∨
      s = .bar ∨ s = .openCapture ∨ s = .openPlain ∨ s = .close := by
  cases s <;> simp [IsAtom]

/-- Signs that do not begin with a mark are spelled and read by none. -/
theorem first_of_no_mark {signs : List Sign} (h : ∀ s ∈ signs, s.Shared)
    (hmark : ∀ m rest, signs ≠ .mark m :: rest) :
    (∀ c, (spellAll signs).head? = some c → c ∉ markSigns) ∧
      ∀ c ∈ markSigns, (tokensAll signs).head? ≠ some (.plain c) := by
  cases signs with
  | nil => exact ⟨nofun, nofun⟩
  | cons s rest =>
      have hnot : ∀ {c d : CodePoint}, d ∈ markSigns → c ∉ markSigns →
          some (Host.Token.plain c) ≠ some (.plain d) := by
        intro c d hd hc heq
        obtain rfl := Host.Token.plain.inj (Option.some.inj heq)
        exact hc hd
      rcases s.atom_or_mark_or_structure with hatom | ⟨m, rfl⟩ | rfl | rfl | rfl | rfl
      · obtain ⟨c, l, token, toks, hspell, htokens, hc, htoken⟩ :=
          hatom.first (h s List.mem_cons_self)
        rw [spellAll, tokensAll, List.flatMap_cons, List.flatMap_cons, hspell, htokens]
        refine ⟨fun d hd => Option.some.inj hd ▸ hc.1, ?_⟩
        intro d hd heq
        exact htoken d (List.mem_append_left _ hd) (Option.some.inj heq)
      · exact absurd rfl (hmark m rest)
      all_goals
        refine ⟨fun d hd => ?_, fun d hd => hnot hd (by decide)⟩
        obtain rfl := Option.some.inj hd
        decide

/-- Signs whose spelling or tokens begin as a mark begin with a mark. -/
theorem mark_of_head {signs : List Sign} (h : ∀ s ∈ signs, s.Shared) {d : CodePoint}
    (hd : d ∈ markSigns)
    (hhead : (spellAll signs).head? = some d ∨ (tokensAll signs).head? = some (.plain d)) :
    ∃ m rest l, signs = .mark m :: rest ∧ m.spell = d :: l := by
  by_cases hmark : ∃ m rest, signs = .mark m :: rest
  · obtain ⟨m, rest, rfl⟩ := hmark
    obtain ⟨c, l, hspell, -⟩ := first_mark m
    refine ⟨m, rest, l, rfl, ?_⟩
    have hspells : spellAll (.mark m :: rest) = c :: (l ++ spellAll rest) := by
      rw [spellAll, List.flatMap_cons, spell, hspell]
      rfl
    have htokens : (tokensAll (.mark m :: rest)).head? = some (.plain c) := by
      rw [tokensAll, List.flatMap_cons, tokens, hspell]
      rfl
    rcases hhead with hhead | hhead
    · rw [hspells] at hhead
      rw [hspell, Option.some.inj hhead]
    · rw [htokens] at hhead
      rw [hspell, Host.Token.plain.inj (Option.some.inj hhead)]
  · obtain ⟨hspells, htokens⟩ := first_of_no_mark h fun m rest heq => hmark ⟨m, rest, heq⟩
    rcases hhead with hhead | hhead
    · exact absurd hd (hspells d hhead)
    · exact absurd hhead (htokens d hd)

/-- No sign is spelled by a colon first. -/
theorem head?_spellAll_ne_colon {signs : List Sign} (h : ∀ s ∈ signs, s.Shared) :
    (spellAll signs).head? ≠ some Ascii.colon := by
  cases signs with
  | nil => exact nofun
  | cons s rest =>
      rw [spellAll, List.flatMap_cons]
      rcases s.atom_or_mark_or_structure with hatom | ⟨m, rfl⟩ | rfl | rfl | rfl | rfl
      · obtain ⟨c, l, token, toks, hspell, -, hc, -⟩ := hatom.first (h s List.mem_cons_self)
        rw [hspell]
        intro heq
        exact absurd hc.2 (Option.some.inj heq ▸ by decide)
      · obtain ⟨c, l, hspell, hc, -⟩ := first_mark m
        rw [spell, hspell]
        intro heq
        exact absurd hc (Option.some.inj heq ▸ by decide)
      all_goals exact fun heq => absurd (Option.some.inj heq) (by decide)

/-- Signs that do not begin with a question mark are neither spelled nor read by one first. -/
theorem head?_ne_question {signs : List Sign} (h : ∀ s ∈ signs, s.Shared)
    (hquestion : ∀ rest, signs ≠ .mark .question :: rest) :
    (spellAll signs).head? ≠ some Ascii.question ∧
      (tokensAll signs).head? ≠ some (.plain Ascii.question) := by
  rw [← not_or]
  intro hhead
  obtain ⟨m, rest, l, rfl, hspell⟩ := mark_of_head h (by decide) hhead
  obtain ⟨c, l', hspell', -, hm, -⟩ := first_mark m
  rw [hspell] at hspell'
  rw [hm (List.cons.inj hspell').1.symm] at hquestion
  exact hquestion rest rfl

/-- A question mark after a mark makes it lazy, and then other signs follow. -/
theorem exists_lazySign {signs : List Sign} (h : ∀ s ∈ signs, s.Shared) :
    ∃ greedy rest, rest <:+ signs ∧ spellAll signs = lazySign greedy ++ spellAll rest ∧
      tokensAll signs = (lazySign greedy).map .plain ++ tokensAll rest ∧
      (greedy = true → (spellAll rest).head? ≠ some Ascii.question ∧
        (tokensAll rest).head? ≠ some (.plain Ascii.question)) := by
  by_cases hquestion : ∃ rest, signs = .mark .question :: rest
  · obtain ⟨rest, rfl⟩ := hquestion
    exact ⟨false, rest, List.suffix_cons _ _, rfl, rfl, nofun⟩
  · exact ⟨true, signs, List.suffix_rfl, rfl, rfl, fun _ =>
      head?_ne_question h fun rest heq => hquestion ⟨rest, heq⟩⟩

end Sign

namespace MarkSign

/-- Bounds that are read are in order. -/
theorem bounds_ordered {m : MarkSign} {min : Nat} {max : Option Nat}
    (h : m.bounds = .ok (min, max)) : ∀ limit, max = some limit → min ≤ limit := by
  cases m with
  | star =>
      cases h
      exact nofun
  | plus =>
      cases h
      exact nofun
  | question =>
      cases h
      exact fun limit _ => Nat.zero_le limit
  | braces low high =>
      rcases Pattern.Braces.bounds_spec ⟨low, high, 0⟩ with
        ⟨min', max', hbounds, hordered⟩ | hbounds | ⟨fault, hbounds, -⟩
      · cases hbounds.symm.trans h
        exact hordered
      · cases hbounds.symm.trans h
      · cases hbounds.symm.trans h

end MarkSign

namespace Search

theorem Bounds.ofInts?_natCast {min : Nat} {max : Option Nat}
    (h : ∀ limit, max = some limit → min ≤ limit) :
    Bounds.ofInts? min (max.map Int.ofNat) = some ⟨min, max⟩ := by
  cases max with
  | none => simp [Bounds.ofInts?]
  | some limit =>
      have hle := h limit rfl
      simp [Bounds.ofInts?]
      omega

end Search

namespace Pattern

/-- A mark with nothing before it is refused. -/
theorem run_mark_ne_ok {m : MarkSign} (h : m.Shared) (pos : Nat) (p : Progress) (t : Text)
    (parsed : Parsed) : Progress.run 0 pos p (m.spell ++ t) ≠ .ok parsed := by
  have hmark : startsWithMark (m.spell ++ t) = true := by
    cases m with
    | braces low high =>
        have hbraces := Braces.read?_spell h t
        obtain ⟨l, hspell⟩ : ∃ l, (MarkSign.braces low high).spell = Ascii.openBrace :: l := by
          cases high <;> exact ⟨_, rfl⟩
        rw [hspell, List.cons_append] at hbraces ⊢
        rw [startsWithMark, hbraces]
        · rfl
        all_goals exact fun rest heq => absurd (List.cons.inj heq).1 (by decide)
    | _ => rfl
  obtain ⟨c, l, hspell, hc, -⟩ := Sign.first_mark m
  rw [hspell, List.cons_append] at hmark ⊢
  have hatom : readAtom c (l ++ t) = .error (.nothingToRepeat, 0) := by
    have hne : ∀ d, d ∉ Sign.markSigns → c ≠ d := fun d hd heq => hd (heq ▸ hc)
    rw [readAtom, if_neg (hne _ (by decide)), if_neg (hne _ (by decide)),
      if_neg (hne _ (by decide)), if_neg (hne _ (by decide)), if_neg (hne _ (by decide)),
      if_pos hmark]
  have hne : ∀ d, d ∉ Sign.markSigns → c ≠ d := fun d hd heq => hd (heq ▸ hc)
  rw [Progress.run, Progress.step, if_neg (hne _ (by decide)), if_neg (hne _ (by decide)),
    if_neg (hne _ (by decide)), hatom]
  intro heq
  cases heq

theorem readTerm_of_no_mark {signs : List Sign} (h : ∀ s ∈ signs, s.Shared)
    (hmark : ∀ m rest, signs ≠ .mark m :: rest) (atom : Node) (start next : Nat) :
    readTerm atom start next (Sign.spellAll signs) = .ok (atom, 0) := by
  have hbare : readBare? (Sign.spellAll signs) = .ok none := by
    have hfirst := (Sign.first_of_no_mark h hmark).1
    cases hspell : Sign.spellAll signs with
    | nil => rfl
    | cons c t => exact (readBare?_eq_none (hfirst c (hspell ▸ rfl)) t).1
  rw [readTerm, Repetition.read?, hbare]
  rfl

/-- Where a mark follows, a term is a repetition of its atom, which is no anchor. -/
theorem readTerm_mark {m : MarkSign} (h : m.Shared) {greedy : Bool} {t : Text}
    (ht : greedy = true → t.head? ≠ some Ascii.question) {atom term : Node}
    {start next taken : Nat}
    (hread : readTerm atom start next (m.spell ++ (lazySign greedy ++ t)) = .ok (term, taken)) :
    ∃ min max, m.bounds = .ok (min, max) ∧ isAnchor atom = false ∧
      term = Repetition.apply ⟨min, max, m.shorthand, greedy, taken⟩ atom ∧
      (m.spell ++ (lazySign greedy ++ t)).drop taken = t := by
  rw [readTerm, Repetition.read?_spell h ht] at hread
  cases hbounds : m.bounds with
  | error fault =>
      rw [hbounds] at hread
      cases fault <;> cases hread
  | ok bounds =>
      rw [hbounds] at hread
      simp only [Except.map] at hread
      split at hread
      · cases hread
      · next hanchor =>
          cases hread
          refine ⟨bounds.1, bounds.2, rfl, Bool.eq_false_iff.mpr hanchor, rfl, ?_⟩
          rw [← List.append_assoc, List.drop_left]

/-- An opening parenthesis that is read opens a group. -/
theorem openGroup_of_step {p p' : Progress} {pos taken : Nat} {rest : Text}
    (h : p.step pos Ascii.openParen rest = .ok (p', taken)) :
    ∃ behaviour name, readOpening rest = .ok (behaviour, name, taken) ∧
      p' = p.openGroup pos behaviour name := by
  rw [Progress.step, if_neg (by decide), if_neg (by decide), if_pos rfl] at h
  split at h
  · cases h
  · next hopening =>
      cases h
      exact ⟨_, _, hopening, rfl⟩

/-- A question mark at the start of a group must go on as one of the signs of groups. -/
theorem readOpening_question {t : Text} (h : ∀ c ∈ t, Ascii.IsSpelling c)
    (hcolon : t.head? ≠ some Ascii.colon) :
    ∃ fault, readOpening (Ascii.question :: t) = .error fault := by
  cases t with
  | nil => exact ⟨_, rfl⟩
  | cons c t =>
      obtain ⟨hlow, -, -, hless, hequals⟩ := h c List.mem_cons_self
      have hc : ¬ Ascii.colon = c := fun heq => hcolon (by rw [← heq]; rfl)
      have hbang : ¬ Ascii.bang = c := by
        rintro rfl
        exact absurd hlow (by decide)
      have hfind : (groupSigns.find? fun sign =>
          Text.startsWith sign.1 (Ascii.question :: c :: t)) = none := by
        simp [groupSigns, Text.startsWith, Text.dropLeading?, Text.ofString, hc, hbang,
          Ne.symm hless, Ne.symm hequals]
      unfold readOpening
      rw [hfind]
      dsimp only
      split
      · next heq => exact absurd (List.cons.inj (List.cons.inj heq).2).1 hless
      · next heq =>
          have hmem := h Ascii.less (by rw [(List.cons.inj heq).2]; simp)
          exact absurd rfl hmem.2.2.2.1
      · exact ⟨_, rfl⟩
      · next hnot => exact absurd rfl (hnot _)

end Pattern

namespace Host

namespace Progress

variable {q : Progress} {cursor : Cursor} {token : Token} {toks : List Token} {fuel : Nat}
  {program : Program}

theorem finish_ne_ok (hrest : cursor.rest = token :: toks) : q.finish cursor ≠ .ok program := by
  intro h
  unfold finish at h
  split at h
  · cases h
  · rw [if_pos (by rw [Cursor.next?, hrest]; rfl)] at h
    cases h

variable [CharacterNames]

/-- A token that neither ends a branch nor closes a group is read. -/
theorem run_token (hrest : cursor.rest = token :: toks) (hbar : token ≠ .plain Ascii.bar)
    (hclose : token ≠ .plain Ascii.closeParen) (h : run fuel q cursor = .ok program) :
    ∃ fuel' after q' after', after.rest = toks ∧ q.readToken token after = .ok (q', after') ∧
      run fuel' q' after' = .ok program := by
  cases fuel with
  | zero => exact absurd h (finish_ne_ok hrest)
  | succ fuel =>
      have hnext : cursor.next? = some token := by rw [Cursor.next?, hrest]; rfl
      rw [run, hnext] at h
      split at h
      · next heq _ => cases heq
      · next heq _ => cases heq
      · next heq _ => exact absurd (Option.some.inj heq) hclose
      · next heq _ => exact absurd (Option.some.inj heq) hclose
      · next heq => exact absurd (Option.some.inj heq) hbar
      · next heq _ _ =>
          obtain rfl := Option.some.inj heq
          obtain ⟨⟨found, after⟩, htake, h⟩ := exists_of_bind_ok h
          obtain ⟨⟨q', after'⟩, hread, h⟩ := exists_of_bind_ok h
          exact ⟨fuel, after, q', after', (Cursor.take_cons hrest htake).2, hread, h⟩

/-- A bar ends a branch. -/
theorem run_bar (hrest : cursor.rest = .plain Ascii.bar :: toks)
    (h : run fuel q cursor = .ok program) :
    ∃ fuel' after q', after.rest = toks ∧ q.splitBranch cursor.position = .ok q' ∧
      run fuel' q' after = .ok program := by
  cases fuel with
  | zero => exact absurd h (finish_ne_ok hrest)
  | succ fuel =>
      have hnext : cursor.next? = some (.plain Ascii.bar) := by rw [Cursor.next?, hrest]; rfl
      rw [run, hnext] at h
      obtain ⟨q', hsplit, h⟩ := exists_of_bind_ok h
      obtain ⟨⟨found, after⟩, htake, h⟩ := exists_of_bind_ok h
      exact ⟨fuel, after, q', (Cursor.take_cons hrest htake).2, hsplit, h⟩

/-- A closing parenthesis closes the innermost group. -/
theorem run_close (hrest : cursor.rest = .plain Ascii.closeParen :: toks)
    (h : run fuel q cursor = .ok program) :
    ∃ opening openings fuel' after, q.openings = opening :: openings ∧ after.rest = toks ∧
      run fuel' (q.closeGroup opening openings) after = .ok program := by
  cases fuel with
  | zero => exact absurd h (finish_ne_ok hrest)
  | succ fuel =>
      have hnext : cursor.next? = some (.plain Ascii.closeParen) := by
        rw [Cursor.next?, hrest]
        rfl
      rw [run, hnext] at h
      cases hopenings : q.openings with
      | nil =>
          rw [hopenings] at h
          exact absurd h (finish_ne_ok hrest)
      | cons opening openings =>
          rw [hopenings] at h
          obtain ⟨⟨found, after⟩, htake, h⟩ := exists_of_bind_ok h
          exact ⟨opening, openings, fuel, after, rfl, (Cursor.take_cons hrest htake).2, h⟩

end Progress

open Search in
/-- A repetition of an item offers the ends of the repetition of its term. -/
theorem ItemFits.repeat {text : Text} {atom : Node} {item : Item} (h : ItemFits text atom item)
    {min : Nat} {max : Option Nat} (hordered : ∀ limit, max = some limit → min ≤ limit)
    (shorthand : Option Shorthand) (greedy : Bool) (width : Nat) :
    ItemFits text (Pattern.Repetition.apply ⟨min, max, shorthand, greedy, width⟩ atom)
      (.repetition (modeOf greedy) min max (item.plainBody?.getD [item])) := by
  have hbody : Offers text (matchItems text.toArray {} (item.plainBody?.getD [item]))
      (ends true text atom) := Offers.congr h fun i captures k =>
    matchItems_plainBody? text.toArray {} i captures k item
  have hends : ends true text (Pattern.Repetition.apply ⟨min, max, shorthand, greedy, width⟩ atom) =
      roundEnds true (!greedy) ⟨min, max⟩ text.length (ends true text atom) 0 := by
    funext i
    rw [Pattern.Repetition.apply, ends, Bounds.ofInts?_natCast hordered]
  rw [ItemFits, hends]
  exact offers_repetition hbody hordered greedy

theorem readToken_mark [CharacterNames] {c : CodePoint} (hc : c ∈ Sign.markSigns) {q : Progress}
    (hverbose : q.verbose = false) (cursor : Cursor) :
    q.readToken (.plain c) cursor = q.readRepetition c cursor := by
  have hbracket : c ≠ Ascii.openBracket := fun heq => absurd (heq ▸ hc) (by decide)
  have hmark : c = Ascii.star ∨ c = Ascii.plus ∨ c = Ascii.question ∨ c = Ascii.openBrace := by
    simpa [Sign.markSigns] using hc
  simp only [Progress.readToken, hverbose, Bool.false_and, Bool.false_eq_true, if_false]
  rw [if_neg hbracket, if_pos hmark]

section Terms

variable {text : Text} {signs : List Sign} {atom term : Node} {item : Item} {outer : Level}
  {start next taken pos fuel : Nat} {p : Pattern.Progress} {parsed : Pattern.Parsed} {q : Progress}
  {cursor : Cursor} {program : Program}

/-- An item whose term has been read is repeated as the term is, or neither is. -/
theorem exists_term [CharacterNames] (h : ∀ s ∈ signs, s.Shared) (hitem : ItemFits text atom item)
    (hshape : Pattern.isAnchor atom = false → item.Repeatable)
    (hterm : Pattern.readTerm atom start next (Sign.spellAll signs) = .ok (term, taken))
    (hparse : Pattern.Progress.run 0 pos p ((Sign.spellAll signs).drop taken) = .ok parsed)
    (hverbose : q.verbose = false) (hlevel : q.level = outer.push item)
    (hrest : cursor.rest = Sign.tokensAll signs) (hrun : Progress.run fuel q cursor = .ok program) :
    ∃ signs' item' fuel' cursor', signs' <:+ signs ∧
      (Sign.spellAll signs).drop taken = Sign.spellAll signs' ∧ ItemFits text term item' ∧
      cursor'.rest = Sign.tokensAll signs' ∧
      Progress.run fuel' { q with level := outer.push item' } cursor' = .ok program := by
  by_cases hmark : ∃ m rest, signs = .mark m :: rest
  · obtain ⟨m, rest, rfl⟩ := hmark
    obtain ⟨hm, hothers⟩ := List.forall_mem_cons.mp h
    obtain ⟨greedy, signs', hsuffix, hspells, htokens, hgreedy⟩ := Sign.exists_lazySign hothers
    have hsigns : Sign.spellAll (.mark m :: rest) =
        m.spell ++ (lazySign greedy ++ Sign.spellAll signs') := by
      rw [← hspells]
      rfl
    rw [hsigns] at hterm hparse
    obtain ⟨min, max, hbounds, hanchor, rfl, hdrop⟩ :=
      Pattern.readTerm_mark hm (fun hg => (hgreedy hg).1) hterm
    rw [hdrop] at hparse
    have hplus : (Sign.tokensAll signs').head? ≠ some (.plain Ascii.plus) := by
      intro hhead
      have hshared : ∀ s ∈ signs', s.Shared := fun s hs => hothers s (hsuffix.mem hs)
      obtain ⟨m', rest', l, rfl, -⟩ := Sign.mark_of_head hshared (by decide) (Or.inr hhead)
      exact Pattern.run_mark_ne_ok (hshared _ List.mem_cons_self) pos p _ parsed hparse
    obtain ⟨c, l, hspell, hc, -⟩ := Sign.first_mark m
    have htoks : cursor.rest = .plain c ::
        (l.map .plain ++ ((lazySign greedy).map .plain ++ Sign.tokensAll signs')) := by
      rw [hrest, ← htokens, Sign.tokensAll, List.flatMap_cons, Sign.tokens, hspell]
      rfl
    have hne : ∀ d, d ∉ Sign.markSigns → Token.plain c ≠ .plain d := fun d hd heq =>
      hd (Token.plain.inj heq ▸ hc)
    obtain ⟨fuel', after, q', after', hafter, hread, hrun⟩ :=
      Progress.run_token htoks (hne _ (by decide)) (hne _ (by decide)) hrun
    rw [readToken_mark hc hverbose] at hread
    obtain ⟨min', max', hbounds', hafter', rfl⟩ := readRepetition_spec hm hspell hafter
      (fun hg => ⟨(hgreedy hg).2, hplus⟩) (congrArg Level.items hlevel) (hshape hanchor) hread
    cases hbounds.symm.trans hbounds'
    rw [hlevel] at hrun
    refine ⟨signs', _, fuel', after', hsuffix.trans (List.suffix_cons _ _), hsigns ▸ hdrop, ?_,
      hafter', hrun⟩
    exact hitem.repeat (MarkSign.bounds_ordered hbounds) m.shorthand greedy taken
  · have hnot : ∀ m rest, signs ≠ .mark m :: rest := fun m rest heq => hmark ⟨m, rest, heq⟩
    cases (Pattern.readTerm_of_no_mark h hnot atom start next).symm.trans hterm
    exact ⟨signs, item, fuel, cursor, List.suffix_rfl, rfl, hitem, hrest, hlevel ▸ hrun⟩

end Terms

variable [CharacterNames]

/-- Both readers have the rest of a pattern in front of them, have read what corresponds, and will
succeed. -/
def InStep (text : Text) (parsed : Pattern.Parsed) (program : Program) (signs : List Sign) : Prop :=
  ∃ p q pos fuel cursor, ProgressFits text p q ∧ cursor.rest = Sign.tokensAll signs ∧
    Pattern.Progress.run 0 pos p (Sign.spellAll signs) = .ok parsed ∧
    Progress.run fuel q cursor = .ok program

section Steps

variable {text : Text} {parsed : Pattern.Parsed} {program : Program} {signs : List Sign}

theorem InStep.bar (h : InStep text parsed program (.bar :: signs)) :
    InStep text parsed program signs := by
  obtain ⟨p, q, pos, fuel, cursor, hfits, hrest, hparse, hrun⟩ := h
  obtain ⟨p', taken, hstep, hparse⟩ := Pattern.exists_step_of_run hparse
  cases hstep
  obtain ⟨fuel', after, q', hafter, hsplit, hrun⟩ := Progress.run_bar hrest hrun
  exact ⟨_, q', _, fuel', after, hfits.split hsplit, hafter, hparse, hrun⟩

theorem readToken_openParen {q : Progress} (hverbose : q.verbose = false) (cursor : Cursor) :
    q.readToken (.plain Ascii.openParen) cursor = q.readGroup cursor := by
  simp only [Progress.readToken, hverbose, Bool.false_and, Bool.false_eq_true, if_false]
  rfl

/-- The opening of a capturing group is read in step. -/
theorem InStep.openCapture (hshared : ∀ s ∈ signs, s.Shared)
    (h : InStep text parsed program (.openCapture :: signs)) :
    InStep text parsed program signs := by
  obtain ⟨p, q, pos, fuel, cursor, hfits, hrest, hparse, hrun⟩ := h
  obtain ⟨p', taken, hstep, hparse⟩ := Pattern.exists_step_of_run hparse
  obtain ⟨behaviour, name, hopening, rfl⟩ := Pattern.openGroup_of_step hstep
  have hopening : Pattern.readOpening (Sign.spellAll signs) = .ok (behaviour, name, taken) :=
    hopening
  have hquestion : ∀ rest, signs ≠ .mark .question :: rest := by
    rintro rest rfl
    have hothers : ∀ s ∈ rest, s.Shared := fun s hs => hshared s (List.mem_cons_of_mem _ hs)
    obtain ⟨fault, hfault⟩ := Pattern.readOpening_question
      (Sign.isSpelling_of_mem_spellAll hothers) (Sign.head?_spellAll_ne_colon hothers)
    have hspell : Sign.spellAll (.mark .question :: rest) =
      Ascii.question :: Sign.spellAll rest := rfl
    rw [hspell, hfault] at hopening
    cases hopening
  obtain ⟨hspell, htokens⟩ := Sign.head?_ne_question hshared hquestion
  rw [Pattern.readOpening_capture hspell] at hopening
  cases hopening
  obtain ⟨fuel', after, q', after', hafter, hread, hrun⟩ :=
    Progress.run_token hrest (by decide) (by decide) hrun
  rw [readToken_openParen hfits.verbose, Progress.readGroup,
    Cursor.takeIf_eq_none (hafter ▸ htokens)] at hread
  obtain ⟨option, hoption, hread⟩ := exists_of_bind_ok hread
  cases hoption
  cases hread
  exact ⟨_, _, _, fuel', after, hfits.openGroup (Or.inl ⟨_, rfl⟩), hafter, hparse, hrun⟩

/-- The opening of a plain group is read in step. -/
theorem InStep.openPlain (h : InStep text parsed program (.openPlain :: signs)) :
    InStep text parsed program signs := by
  obtain ⟨p, q, pos, fuel, cursor, hfits, hrest, hparse, hrun⟩ := h
  obtain ⟨p', taken, hstep, hparse⟩ := Pattern.exists_step_of_run hparse
  cases hstep
  obtain ⟨fuel', after, q', after', hafter, hread, hrun⟩ :=
    Progress.run_token hrest (by decide) (by decide) hrun
  rw [readToken_openParen hfits.verbose, Progress.readGroup] at hread
  obtain ⟨question, hquestion, hread⟩ := exists_of_bind_ok hread
  obtain ⟨next, rfl, hnext⟩ := Cursor.takeIf_cons hafter hquestion
  obtain ⟨⟨found, last⟩, htake, hread⟩ := exists_of_bind_ok hread
  obtain ⟨rfl, hlast⟩ := Cursor.take_cons hnext htake
  cases hread
  exact ⟨_, _, _, fuel', _, hfits.openGroup (Or.inr rfl), hlast, hparse, hrun⟩

/-- A closing parenthesis is read in step with the mark after it. -/
theorem InStep.close (hshared : ∀ s ∈ signs, s.Shared)
    (h : InStep text parsed program (.close :: signs)) :
    ∃ rest, rest <:+ signs ∧ InStep text parsed program rest := by
  obtain ⟨⟨level, openings, count⟩, q, pos, fuel, cursor, hfits, hrest, hparse, hrun⟩ := h
  have hspells : Sign.spellAll (.close :: signs) = Ascii.closeParen :: Sign.spellAll signs := rfl
  rw [hspells] at hparse
  obtain ⟨p', taken, hstep, hparse⟩ := Pattern.exists_step_of_run hparse
  cases openings with
  | nil => cases hstep
  | cons opening openings =>
      obtain ⟨⟨term, width⟩, hterm, hstep⟩ := exists_of_bind_ok hstep
      cases hstep
      obtain ⟨host, hosts, fuel', after, hopenings, hafter, hrun⟩ := Progress.run_close hrest hrun
      have hfitting := hfits.openings
      rw [hopenings] at hfitting
      obtain ⟨hopening, -⟩ := List.forall₂_cons.mp hfitting
      have hverbose : (q.closeGroup host hosts).verbose = false := by
        rw [Progress.closeGroup_verbose]
        exact hopening.verboseOutside
      obtain ⟨rest, item, fuel', cursor', hsuffix, hdrop, hitem, hcursor, hrun⟩ :=
        exists_term hshared (hopening.close hfits.level) (fun _ => hopening.repeatable _) hterm
          hparse hverbose (Progress.closeGroup_level q host hosts) hafter hrun
      rw [hdrop] at hparse
      exact ⟨rest, hsuffix, _, _, _, fuel', cursor', hfits.closeGroup hopenings hitem, hcursor,
        hparse, hrun⟩

/-- An atom is read in step with the mark after it. -/
theorem InStep.atom {s : Sign} (hatom : s.IsAtom) (hs : s.Shared)
    (hshared : ∀ s ∈ signs, s.Shared) (valid : text.Valid) (hline : Ascii.newline ∉ text)
    (hempty : s = .anchor .notBoundary → text ≠ [])
    (h : InStep text parsed program (s :: signs)) :
    ∃ rest, rest <:+ signs ∧ InStep text parsed program rest := by
  obtain ⟨p, q, pos, fuel, cursor, hfits, hrest, hparse, hrun⟩ := h
  obtain ⟨c, l, token, toks, hspell, htokens, ⟨hmark, hstructure⟩, htoken⟩ := hatom.first hs
  have hspells : Sign.spellAll (s :: signs) = c :: (l ++ Sign.spellAll signs) := by
    rw [Sign.spellAll, List.flatMap_cons, hspell]
    rfl
  have hrest' : cursor.rest = token :: (toks ++ Sign.tokensAll signs) := by
    rw [hrest, Sign.tokensAll, List.flatMap_cons, htokens]
    rfl
  rw [hspells] at hparse
  obtain ⟨p', taken, hstep, hparse⟩ := Pattern.exists_step_of_run hparse
  have hne : ∀ d ∈ Sign.structureSigns, c ≠ d := fun d hd heq => hstructure (heq ▸ hd)
  rw [Pattern.Progress.step, if_neg (hne _ (by decide)), if_neg (hne _ (by decide)),
    if_neg (hne _ (by decide))] at hstep
  split at hstep
  · cases hstep
  · next atom width hread =>
      obtain ⟨rfl, rfl⟩ := Pattern.readAtom_spell hatom hs hspell hread
      obtain ⟨⟨term, markWidth⟩, hterm, hstep⟩ := exists_of_bind_ok hstep
      cases hstep
      rw [List.drop_left] at hterm
      rw [← List.drop_drop, List.drop_left] at hparse
      have htoken' : ∀ d ∈ Sign.structureSigns, token ≠ .plain d := fun d hd =>
        htoken d (List.mem_append_right _ hd)
      obtain ⟨fuel', after, q', after', hafter, hread, hrun⟩ :=
        Progress.run_token hrest' (htoken' _ (by decide)) (htoken' _ (by decide)) hrun
      obtain ⟨rfl, hafter'⟩ := readToken_spec hatom hs htokens hfits.verbose hafter hread
      have hitem : ItemFits text s.node (itemOfSign s) :=
        offers_itemOfSign hatom hs valid hline hempty
      have hverbose : (q.push (itemOfSign s)).verbose = false := hfits.verbose
      have hlevel : (q.push (itemOfSign s)).level = q.level.push (itemOfSign s) := rfl
      obtain ⟨rest, item, fuel', cursor', hsuffix, hdrop, hitem, hcursor, hrun⟩ :=
        exists_term hshared hitem repeatable_itemOfSign hterm hparse hverbose hlevel hafter' hrun
      rw [hdrop] at hparse
      exact ⟨rest, hsuffix, _, _, _, fuel', cursor', hfits.push hitem, hcursor, hparse, hrun⟩

/-- At the end of the pattern the program offers the ends of the tree. -/
theorem InStep.finish (h : InStep text parsed program []) :
    Offers text (matchItems text.toArray {} program.body) (Search.ends true text parsed.root) ∧
      program.flags = {} := by
  obtain ⟨⟨level, openings, count⟩, q, pos, fuel, cursor, hfits, hrest, hparse, hrun⟩ := h
  cases openings with
  | cons opening openings => cases hparse
  | nil =>
      cases hparse
      have hopenings : q.openings = [] := List.forall₂_nil_left_iff.mp hfits.openings
      have hnext : cursor.next? = none := by
        rw [Cursor.next?, hrest]
        rfl
      have hfinish : q.finish cursor = .ok program := by
        cases fuel with
        | zero => exact hrun
        | succ fuel => rwa [Progress.run, hnext, hopenings] at hrun
      unfold Progress.finish at hfinish
      split at hfinish
      · cases hfinish
      · split at hfinish
        · cases hfinish
        · split at hfinish
          · cases hfinish
          · cases hfinish
            exact ⟨hfits.level.root, hfits.flags⟩

/-- A pattern that is read in step to its end has a program that offers the ends of its tree. -/
theorem InStep.offers (valid : text.Valid) (hline : Ascii.newline ∉ text)
    (hshared : ∀ s ∈ signs, s.Shared)
    (hempty : .anchor .notBoundary ∈ signs → text ≠ [])
    (h : InStep text parsed program signs) :
    Offers text (matchItems text.toArray {} program.body) (Search.ends true text parsed.root) ∧
      program.flags = {} := by
  induction hlength : signs.length using Nat.strongRecOn generalizing signs with
  | ind n ih =>
      cases signs with
      | nil => exact h.finish
      | cons s signs =>
          obtain ⟨hs, hothers⟩ := List.forall_mem_cons.mp hshared
          have hnext : ∀ {rest : List Sign}, rest <:+ signs → InStep text parsed program rest →
              Offers text (matchItems text.toArray {} program.body)
                (Search.ends true text parsed.root) ∧ program.flags = {} := by
            intro rest hsuffix hrest
            have hle := hsuffix.length_le
            rw [List.length_cons] at hlength
            exact ih rest.length (by omega) (fun s hs => hothers s (hsuffix.mem hs))
              (fun hmem => hempty (List.mem_cons_of_mem s (hsuffix.mem hmem))) hrest rfl
          rcases s.atom_or_mark_or_structure with hatom | ⟨m, rfl⟩ | rfl | rfl | rfl | rfl
          · obtain ⟨rest, hsuffix, hrest⟩ := h.atom hatom hs hothers valid hline fun heq =>
              hempty (heq ▸ List.mem_cons_self)
            exact hnext hsuffix hrest
          · obtain ⟨p, q, pos, fuel, cursor, -, -, hparse, -⟩ := h
            exact absurd hparse (Pattern.run_mark_ne_ok hs pos p _ parsed)
          · exact hnext List.suffix_rfl h.bar
          · exact hnext List.suffix_rfl (h.openCapture hothers)
          · exact hnext List.suffix_rfl h.openPlain
          · obtain ⟨rest, hsuffix, hrest⟩ := h.close hothers
            exact hnext hsuffix hrest

end Steps

end Host

end RegexTrace
