import RegexTrace.Proofs.Signs

/-!
# What the host reads of a spelling

A pattern in the shared notation has no blanks around it and begins with no slash, so it is no
literal with flags. Respelled for the host and split into tokens, it is a sequence of the tokens of
its signs.
-/

namespace RegexTrace

/-- The tokens of an item of a class. -/
def ClassSign.tokens : ClassSign → List Host.Token
  | .literal c => [.plain c]
  | .range low high => [.plain low, .plain Ascii.hyphen, .plain high]
  | .escape kind => kind.letter.map .escaped
  | .boundary => [.escaped 'b'.toNat]
  | .notBoundary => [.escaped 'B'.toNat]

namespace Sign

/-- The tokens of an anchor: the end of the text is an escape of the host. -/
def anchorTokens : AnchorKind → List Host.Token
  | .start => [.plain Ascii.caret]
  | .finish => [.escaped 'Z'.toNat]
  | .boundary => [.escaped 'b'.toNat]
  | .notBoundary => [.escaped 'B'.toNat]
  | .other _ => []

/-- The tokens of a sign. -/
def tokens : Sign → List Host.Token
  | .literal c => [.plain c]
  | .dot => [.plain Ascii.dot]
  | .anchor kind => anchorTokens kind
  | .escape kind => kind.letter.map .escaped
  | .brackets negative items =>
    .plain Ascii.openBracket :: ((if negative then [.plain Ascii.caret] else []) ++
      (items.flatMap ClassSign.tokens ++ [.plain Ascii.closeBracket]))
  | .bar => [.plain Ascii.bar]
  | .openCapture => [.plain Ascii.openParen]
  | .openPlain => [.plain Ascii.openParen, .plain Ascii.question, .plain Ascii.colon]
  | .close => [.plain Ascii.closeParen]
  | .mark m => m.spell.map .plain

/-- The tokens of signs one after the other. -/
def tokensAll (signs : List Sign) : List Host.Token := signs.flatMap tokens

end Sign

namespace Pattern

/-- Digits up to something else are the longest run of digits. -/
theorem takeWhile_isDecimal {digits : Text} (h : ∀ c ∈ digits, Ascii.isDigit c = true)
    {c : CodePoint} (hc : Unicode.isDecimal c = false) (t : Text) :
    (digits ++ c :: t).takeWhile Unicode.isDecimal = digits := by
  have hdecimal : ∀ d ∈ digits, Unicode.isDecimal d = true := by
    intro d hd
    have hdigit := h d hd
    simp only [Ascii.isDigit, Bool.and_eq_true, decide_eq_true_eq] at hdigit
    simp [Unicode.isDecimal, Unicode.decimalRanges, Unicode.Ranges.contains,
      Unicode.Ranges.find?, hdigit.2, Nat.not_lt.mpr hdigit.1]
  rw [List.takeWhile_append_of_pos hdecimal, List.takeWhile_cons_of_neg (by simp [hc]),
    List.append_nil]

/-- Bounds in braces are read as they are spelled. -/
theorem Braces.read?_spell {low : Text} {high : Option Text} (h : (MarkSign.braces low high).Shared)
    (t : Text) :
    Braces.read? ((MarkSign.braces low high).spell ++ t) =
      some ⟨low, high, (MarkSign.braces low high).spell.length⟩ := by
  obtain ⟨hne, hdigits⟩ := h
  have hlow := hdigits low List.mem_cons_self
  have hclose : Unicode.isDecimal Ascii.closeBrace = false := by decide
  have hcomma : Unicode.isDecimal Ascii.comma = false := by decide
  cases high with
  | none =>
      have hrun := takeWhile_isDecimal hlow hclose t
      simp [MarkSign.spell, Braces.read?, hrun, hne]
  | some high =>
      have hhigh := hdigits high (List.mem_cons_of_mem low List.mem_cons_self)
      have hrun := takeWhile_isDecimal hlow hcomma (high ++ Ascii.closeBrace :: t)
      have hrun' := takeWhile_isDecimal hhigh hclose t
      simp [MarkSign.spell, Braces.read?, hrun, hrun', hne]
      omega

end Pattern

namespace Host

theorem Token.split_cons {c : CodePoint} (h : c ≠ Ascii.backslash) (t : Text) :
    Token.split (c :: t) = .plain c :: Token.split t := by
  cases t with
  | nil => simp [Token.split, h]
  | cons d t => simp [Token.split, h]

section Respelling

variable (inClass : Bool) (t : Text)

/-- The tokens that the host reads of a text that begins inside brackets or outside. -/
def reads : List Token := Token.split (respellFrom false inClass t)

theorem reads_escape (c : CodePoint) :
    reads inClass (Ascii.backslash :: c :: t) = .escaped c :: reads inClass t := by
  rw [reads, respellFrom]
  rfl

theorem reads_inside {c : CodePoint} (hb : c ≠ Ascii.backslash) :
    reads true (c :: t) = .plain c :: reads (c != Ascii.closeBracket) t := by
  rw [reads, respellFrom, Token.split_cons hb]
  · rfl
  · exact fun d rest hc => absurd hc hb

theorem reads_openBracket :
    reads false (Ascii.openBracket :: t) = .plain Ascii.openBracket :: reads true t := by
  rw [reads, respellFrom, Token.split_cons (by decide)]
  rfl

/-- Outside brackets a code point that opens nothing is respelled on its own. -/
theorem respellFrom_outside (multiline : Bool) {c : CodePoint} (hb : c ≠ Ascii.backslash)
    (ho : c ≠ Ascii.openBracket)
    (hp : c = Ascii.openParen → ∀ rest, t ≠ Ascii.question :: Ascii.less :: rest) :
    respellFrom multiline false (c :: t) =
      respellOne multiline c t ++ respellFrom multiline false t := by
  rw [respellFrom]
  · exact fun d rest hc => absurd hc hb
  · exact ho
  · exact fun rest hc heq => hp hc rest heq

theorem respellFrom_cons {c : CodePoint} (hb : c ≠ Ascii.backslash) (ho : c ≠ Ascii.openBracket)
    (hp : c = Ascii.openParen → Ascii.less ∉ t) :
    respellFrom false false (c :: t) = respellOne false c t ++ respellFrom false false t := by
  apply respellFrom_outside t false hb ho
  rintro hc rest rfl
  exact hp hc (List.mem_cons_of_mem _ List.mem_cons_self)

/-- A code point without a meaning to the respelling is one token. -/
theorem reads_plain {c : CodePoint} (h : c ∉ [Ascii.backslash, Ascii.openBracket, Ascii.dollar])
    (hp : c = Ascii.openParen → Ascii.less ∉ t)
    (hbrace : c = Ascii.openBrace → (Pattern.Braces.read? (c :: t)).isSome = true) :
    reads false (c :: t) = .plain c :: reads false t := by
  simp only [List.mem_cons, List.not_mem_nil, or_false, not_or] at h
  obtain ⟨hb, ho, hd⟩ := h
  have hone : respellOne false c t = [c] := by
    unfold respellOne
    rw [if_neg (fun hdollar => hd hdollar.1), if_neg]
    rintro ⟨hopen, hnone⟩
    rw [Option.isNone_iff_eq_none] at hnone
    simp [hnone] at hbrace
    exact hbrace hopen
  rw [reads, respellFrom_cons t hb ho hp, hone, List.singleton_append, Token.split_cons hb]
  rfl

theorem reads_dollar : reads false (Ascii.dollar :: t) = .escaped 'Z'.toNat :: reads false t := by
  rw [reads, respellFrom_cons t (by decide) (by decide) (fun h => absurd h (by decide))]
  rfl

/-- Code points without a meaning to the respelling are tokens one by one. -/
theorem reads_plains {l : Text}
    (h : ∀ c ∈ l, c ∉ [Ascii.backslash, Ascii.openBracket, Ascii.dollar, Ascii.openParen,
      Ascii.openBrace]) :
    reads false (l ++ t) = l.map .plain ++ reads false t := by
  induction l with
  | nil => rfl
  | cons c l ih =>
      obtain ⟨hc, hl⟩ := List.forall_mem_cons.mp h
      simp only [List.mem_cons, List.not_mem_nil, or_false, not_or] at hc
      rw [List.cons_append, reads_plain _ (by simp [hc]) (fun h => absurd h hc.2.2.2.1)
        (fun h => absurd h hc.2.2.2.2), ih hl]
      rfl

end Respelling

/-- Inside brackets a letter or digit is one token. -/
theorem reads_alphanumeric {c : CodePoint} (h : Ascii.isAlphanumeric c = true) (t : Text) :
    reads true (c :: t) = .plain c :: reads true t := by
  have hin := (Ascii.isAlphanumeric_iff c).mp h
  have hb : c ≠ Ascii.backslash := by
    rintro rfl
    exact absurd h (by decide)
  have hclose : (c != Ascii.closeBracket) = true := by
    rw [bne_iff_ne]
    rintro rfl
    exact absurd h (by decide)
  rw [reads_inside t hb, hclose]

/-- An item of a class is read by its tokens. -/
theorem reads_classSign {item : ClassSign} (h : item.Shared) (t : Text) :
    reads true (item.spell ++ t) = item.tokens ++ reads true t := by
  cases item with
  | literal c => exact reads_alphanumeric h t
  | range low high =>
      have hhyphen := reads_inside (high :: t) (c := Ascii.hyphen) (by decide)
      simp only [ClassSign.spell, ClassSign.tokens, List.cons_append, List.nil_append]
      rw [reads_alphanumeric h.1, hhyphen]
      exact congrArg (fun rest => Token.plain low :: .plain Ascii.hyphen :: rest)
        (reads_alphanumeric h.2 t)
  | escape kind =>
      obtain ⟨c, hletter, -⟩ := EscapeKind.letter_cases h
      rw [ClassSign.spell, ClassSign.tokens, hletter]
      exact reads_escape true t c
  | boundary => exact reads_escape true t 'b'.toNat
  | notBoundary => exact reads_escape true t 'B'.toNat

theorem reads_classSigns {items : List ClassSign} (h : ∀ item ∈ items, item.Shared) (t : Text) :
    reads true (items.flatMap ClassSign.spell ++ t) =
      items.flatMap ClassSign.tokens ++ reads true t := by
  induction items with
  | nil => rfl
  | cons item items ih =>
      obtain ⟨hitem, hitems⟩ := List.forall_mem_cons.mp h
      rw [List.flatMap_cons, List.append_assoc, reads_classSign hitem, ih hitems,
        List.flatMap_cons, List.append_assoc]

/-- A class is read by its tokens. -/
theorem reads_brackets (negative : Bool) {items : List ClassSign}
    (h : ∀ item ∈ items, item.Shared) (t : Text) :
    reads false ((Sign.brackets negative items).spell ++ t) =
      (Sign.brackets negative items).tokens ++ reads false t := by
  have hbody : reads true (items.flatMap ClassSign.spell ++ Ascii.closeBracket :: t) =
      items.flatMap ClassSign.tokens ++ .plain Ascii.closeBracket :: reads false t := by
    rw [reads_classSigns h, reads_inside t (by decide)]
    rfl
  simp only [Sign.spell, Sign.tokens, List.cons_append, List.append_assoc, List.nil_append]
  rw [reads_openBracket]
  cases negative with
  | false => exact congrArg _ hbody
  | true =>
      refine congrArg _ ?_
      rw [if_pos rfl, if_pos rfl, List.singleton_append, List.singleton_append,
        reads_inside _ (by decide)]
      exact congrArg _ hbody

/-- A mark is read by its tokens. -/
theorem reads_mark {m : MarkSign} (h : m.Shared) (t : Text) :
    reads false (m.spell ++ t) = m.spell.map .plain ++ reads false t := by
  have hdigit : ∀ digits : Text, (∀ c ∈ digits, Ascii.isDigit c = true) →
      ∀ c ∈ digits, c ∉ [Ascii.backslash, Ascii.openBracket, Ascii.dollar, Ascii.openParen,
        Ascii.openBrace] := by
    intro digits hdigits c hc hmem
    have hall : ∀ d ∈ [Ascii.backslash, Ascii.openBracket, Ascii.dollar, Ascii.openParen,
      Ascii.openBrace], Ascii.isDigit d = false := by decide
    exact absurd ((hall c hmem).symm.trans (hdigits c hc)) Bool.false_ne_true
  cases m with
  | star => exact reads_plains t (by decide)
  | plus => exact reads_plains t (by decide)
  | question => exact reads_plains t (by decide)
  | braces low high =>
      have hbraces := Pattern.Braces.read?_spell h t
      have hlow := hdigit low (h.2 low List.mem_cons_self)
      have hrest : ∃ rest, (MarkSign.braces low high).spell = Ascii.openBrace :: rest ∧
          ∀ c ∈ rest, c ∉ [Ascii.backslash, Ascii.openBracket, Ascii.dollar, Ascii.openParen,
            Ascii.openBrace] := by
        cases high with
        | none =>
            exact ⟨_, rfl, List.forall_mem_append.mpr ⟨hlow, by decide⟩⟩
        | some high =>
            have hhigh := hdigit high (h.2 high (List.mem_cons_of_mem low List.mem_cons_self))
            refine ⟨_, rfl, List.forall_mem_append.mpr ⟨hlow, List.forall_mem_cons.mpr ⟨?_, ?_⟩⟩⟩
            · decide
            · exact List.forall_mem_append.mpr ⟨hhigh, by decide⟩
      obtain ⟨rest, hspell, hrest⟩ := hrest
      rw [hspell, List.cons_append] at hbraces
      rw [hspell, List.cons_append, reads_plain _ (by decide) (fun h => absurd h (by decide))
        (fun _ => by rw [hbraces]; rfl), reads_plains t hrest]
      rfl

/-- A sign is read by its tokens. -/
theorem reads_sign {s : Sign} (h : s.Shared) {t : Text} (ht : Ascii.less ∉ t) :
    reads false (s.spell ++ t) = s.tokens ++ reads false t := by
  cases s with
  | literal c =>
      have hall : ∀ d ∈ [Ascii.backslash, Ascii.openBracket, Ascii.dollar, Ascii.openParen,
        Ascii.openBrace], Ascii.isAlphanumeric d = false := by decide
      refine reads_plains t (List.forall_mem_singleton.mpr fun hc => ?_)
      exact absurd ((hall c hc).symm.trans h) Bool.false_ne_true
  | dot => exact reads_plains t (by decide)
  | anchor kind =>
      cases kind with
      | start => exact reads_plains t (by decide)
      | finish => exact reads_dollar t
      | boundary => exact reads_escape false t 'b'.toNat
      | notBoundary => exact reads_escape false t 'B'.toNat
      | other name => exact h.elim
  | escape kind =>
      obtain ⟨c, hletter, -⟩ := EscapeKind.letter_cases h
      rw [Sign.spell, Sign.tokens, hletter]
      exact reads_escape false t c
  | brackets negative items => exact reads_brackets negative h.2 t
  | bar => exact reads_plains t (by decide)
  | openCapture => exact reads_plain t (by decide) (fun _ => ht) (fun h => absurd h (by decide))
  | openPlain =>
      have hinner := reads_plains (l := [Ascii.question, Ascii.colon]) t (by decide)
      have hless : Ascii.less ∉ [Ascii.question, Ascii.colon] ++ t := by
        simp only [List.mem_append, not_or]
        exact ⟨by decide, ht⟩
      have hopen := reads_plain (c := Ascii.openParen) ([Ascii.question, Ascii.colon] ++ t)
        (by decide) (fun _ => hless) (fun h => absurd h (by decide))
      exact hopen.trans (congrArg _ hinner)
  | close => exact reads_plains t (by decide)
  | mark m => exact reads_mark h t

theorem reads_spellAll {signs : List Sign} (h : ∀ s ∈ signs, s.Shared) :
    reads false (Sign.spellAll signs) = Sign.tokensAll signs := by
  induction signs with
  | nil => rfl
  | cons s signs ih =>
      obtain ⟨hs, hsigns⟩ := List.forall_mem_cons.mp h
      have hless : Ascii.less ∉ Sign.spellAll signs := fun hmem =>
        (Sign.isSpelling_of_mem_spellAll hsigns _ hmem).2.2.2.1 rfl
      exact (reads_sign hs hless).trans (congrArg _ (ih hsigns))

end Host

namespace Pattern

/-- What signs are spelled by is no blank. -/
theorem isBlank_of_isSpelling {c : CodePoint} (h : Ascii.IsSpelling c) :
    Unicode.isBlank c = false := by
  obtain ⟨hlow, hhigh, -, -⟩ := h
  have hbetween : ∀ d : Nat, 0x24 ≤ d → d ≤ 0x7D → Unicode.isBlank d = false := by
    intro d hlow hhigh
    have h1 : ¬ d < 0x9 := by omega
    have h2 : ¬ d ≤ 0xD := by omega
    have h3 : ¬ d < 0x1C := by omega
    have h4 : ¬ d ≤ 0x20 := by omega
    have h5 : d < 0x85 := by omega
    simp [Unicode.isBlank, Unicode.blankRanges, Unicode.Ranges.contains, Unicode.Ranges.find?,
      h1, h2, h3, h4, h5]
  exact hbetween c hlow hhigh

/-- A text that is spelled without blanks has none around it. -/
theorem trim_of_isSpelling {t : Text} (h : ∀ c ∈ t, Ascii.IsSpelling c) : Text.trim t = t := by
  have hblank : ∀ c ∈ t, Unicode.isBlank c = false := fun c hc => isBlank_of_isSpelling (h c hc)
  have hdrop : ∀ l : Text, (∀ c ∈ l, Unicode.isBlank c = false) →
      l.dropWhile Unicode.isBlank = l := by
    intro l hl
    cases l with
    | nil => rfl
    | cons c l => exact List.dropWhile_cons_of_neg (by simp [hl c List.mem_cons_self])
  rw [Text.trim, Text.trimLeft, hdrop t hblank, Text.trimRight,
    hdrop t.reverse fun c hc => hblank c (List.mem_reverse.mp hc), List.reverse_reverse]

/-- A text that is spelled without blanks and slashes is no literal. -/
theorem splitLiteral_of_isSpelling {t : Text} (h : ∀ c ∈ t, Ascii.IsSpelling c) :
    splitLiteral t = (t, []) := by
  unfold splitLiteral
  rw [trim_of_isSpelling h]
  cases t with
  | nil => rfl
  | cons c t =>
      have hslash : c ≠ Ascii.slash := (h c List.mem_cons_self).2.2.1
      dsimp only
      split
      · next hc => exact absurd (List.cons.inj hc).1 hslash
      · rfl

end Pattern

end RegexTrace
