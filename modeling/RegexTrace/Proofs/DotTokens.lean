import RegexTrace.Flow.Dot

/-!
# Tokens of the DOT language

A reader splits a source into its signs, words, quoted identifiers and comments. A quoted identifier
ends at the first double quote that is not escaped, that is, not preceded by an odd number of
backslashes. A text that is written as an identifier is read back as one, with its double quotes
escaped, unless an odd number of backslashes stands at its end: then the closing quote is escaped as
well, and the identifier that is read goes on behind it.

## Implementation notes

The reader goes through the source once and keeps what it has read of a token, in reverse. What the
sources of diagrams do not use is not read: markup, block comments and undirected edges.
-/

namespace RegexTrace.Flow.Dot

/-- The signs of the language. -/
inductive Sign
  | openBrace
  | closeBrace
  | openBracket
  | closeBracket
  | equals
  | arrow
  deriving DecidableEq, Repr

/-- A token. An identifier is the same with and without quotes around it; what stands between the
quotes is kept as it stands there. -/
inductive Token
  | comment (t : Text)
  | sign (s : Sign)
  | keyword (t : Text)
  | id (t : Text)
  deriving DecidableEq, Repr

/-- Where in a token the reader is, with what it has read of the token in reverse. -/
inductive Mode
  | between
  | hyphen
  | slash
  | word (reversed : Text)
  | comment (reversed : Text)
  /-- The flag says whether the number of backslashes that were just read is odd. -/
  | quoted (odd : Bool) (reversed : Text)
  deriving DecidableEq, Repr

/-- What stands between tokens. -/
def isBlank (c : CodePoint) : Bool :=
  c == Ascii.space || c == Ascii.tab || c == Ascii.newline || c == Ascii.carriageReturn

/-- The signs of one code point. -/
def sign? : CodePoint → Option Sign
  | Ascii.openBrace => some .openBrace
  | Ascii.closeBrace => some .closeBrace
  | Ascii.openBracket => some .openBracket
  | Ascii.closeBracket => some .closeBracket
  | Ascii.equals => some .equals
  | _ => none

/-- The code points of names and, after a minus sign, of numerals. -/
def isWordCharacter (c : CodePoint) : Bool := isNameCharacter c || c == Ascii.dot

/-- A word is a name or a numeral, and some names are keywords. -/
def wordToken? (t : Text) : Option Token :=
  if isName t || isNumeral t then
    some (if keywords.contains (Text.asciiLower t) then .keyword t else .id t)
  else none

namespace Mode

/-- A code point between two tokens. -/
def begin? (c : CodePoint) : Option (List Token × Mode) :=
  if isBlank c then some ([], .between)
  else if c = Ascii.doubleQuote then some ([], .quoted false [])
  else if c = Ascii.hyphen then some ([], .hyphen)
  else if c = Ascii.slash then some ([], .slash)
  else if isWordCharacter c then some ([], .word [c])
  else (sign? c).map fun s => ([.sign s], .between)

/-- A code point is read, which may complete tokens. -/
def step? : Mode → CodePoint → Option (List Token × Mode)
  | .between, c => begin? c
  | .hyphen, c =>
    if c = Ascii.greater then some ([.sign .arrow], .between)
    else if isWordCharacter c then some ([], .word [c, Ascii.hyphen])
    else none
  | .slash, c => if c = Ascii.slash then some ([], .comment []) else none
  | .word t, c =>
    if isWordCharacter c then some ([], .word (c :: t))
    else (wordToken? t.reverse).bind fun token =>
      (begin? c).map fun begun => (token :: begun.1, begun.2)
  | .comment t, c =>
    if c = Ascii.newline then some ([.comment t.reverse], .between)
    else some ([], .comment (c :: t))
  | .quoted odd t, c =>
    if c = Ascii.doubleQuote ∧ !odd then some ([.id t.reverse], .between)
    else some ([], .quoted (c == Ascii.backslash && !odd) (c :: t))

/-- The source ends; only a word can be completed by that. -/
def finish? : Mode → Option (List Token)
  | .between => some []
  | .word t => (wordToken? t.reverse).map ([·])
  | _ => none

end Mode

/-- The tokens from here on. -/
def tokensFrom (mode : Mode) : Text → Option (List Token)
  | [] => mode.finish?
  | c :: rest =>
    (mode.step? c).bind fun read => (tokensFrom read.2 rest).map (read.1 ++ ·)

/-- The tokens of a source. -/
def tokens? (t : Text) : Option (List Token) := tokensFrom .between t

/-- The tokens that a part of a source completes, and how the reader goes on. -/
def scan? (mode : Mode) : Text → Option (List Token × Mode)
  | [] => some ([], mode)
  | c :: rest =>
    (mode.step? c).bind fun read =>
      (scan? read.2 rest).map fun later => (read.1 ++ later.1, later.2)

/-- The tokens of a part of a source are followed by those of the rest. -/
theorem tokensFrom_append {mode next : Mode} {t : Text} {read : List Token}
    (h : scan? mode t = some (read, next)) (rest : Text) :
    tokensFrom mode (t ++ rest) = (tokensFrom next rest).map (read ++ ·) := by
  induction t generalizing mode read with
  | nil =>
      obtain ⟨rfl, rfl⟩ := Prod.mk.inj (Option.some.inj h)
      exact Option.map_id'.symm
  | cons c t ih =>
      obtain ⟨begun, hbegun, h⟩ := Option.bind_eq_some_iff.mp h
      obtain ⟨⟨later, last⟩, hlater, h⟩ := Option.map_eq_some_iff.mp h
      obtain ⟨rfl, rfl⟩ := Prod.mk.inj h
      rw [List.cons_append, tokensFrom, hbegun, Option.bind_some, ih hlater, Option.map_map]
      exact congrArg (fun f => (tokensFrom _ rest).map f)
        (funext fun more => (List.append_assoc begun.1 later more).symm)

theorem tokensFrom_of_step {mode next : Mode} {c : CodePoint}
    (h : mode.step? c = some ([], next)) (rest : Text) :
    tokensFrom mode (c :: rest) = tokensFrom next rest := by
  rw [tokensFrom, h]
  exact Option.map_id'

/-- An odd number of backslashes stands at the end. The flag says whether this holds of what stands
before the text. -/
def endsOdd (odd : Bool) : Text → Bool
  | [] => odd
  | c :: rest => endsOdd (c == Ascii.backslash && !odd) rest

section Endings

theorem endsOdd_append (odd : Bool) (t u : Text) :
    endsOdd odd (t ++ u) = endsOdd (endsOdd odd t) u := by
  induction t generalizing odd with
  | nil => rfl
  | cons c rest ih => exact ih _

theorem endsOdd_append_singleton {c : CodePoint} (h : c ≠ Ascii.backslash) (odd : Bool) (t : Text) :
    endsOdd odd (t ++ [c]) = false := by
  rw [endsOdd_append, endsOdd, endsOdd, beq_eq_false_iff_ne.mpr h, Bool.false_and]

theorem endsOdd_eq_false {t : Text} (h : Ascii.backslash ∉ t) : endsOdd false t = false := by
  rcases List.eq_nil_or_concat t with rfl | ⟨u, c, rfl⟩
  · rfl
  · rw [List.concat_eq_append] at h ⊢
    exact endsOdd_append_singleton (fun heq => h (by simp [heq])) false u

theorem escapeQuotes_eq_self {t : Text} (h : Ascii.doubleQuote ∉ t) (odd : Bool) :
    escapeQuotes odd t = t := by
  induction t generalizing odd with
  | nil => rfl
  | cons c rest ih =>
      rw [List.mem_cons, not_or] at h
      obtain ⟨hc, hrest⟩ := h
      have hkept : ¬(c = Ascii.doubleQuote ∧ !odd) := fun hquote => hc hquote.1.symm
      rw [escapeQuotes, if_neg hkept, ih hrest, ih hrest, ite_self]

end Endings

section Quoted

variable {odd : Bool} {t u rest : Text}

/-- The escaped text between two quotes is read to its end. -/
theorem tokensFrom_quoted_append (odd : Bool) (t u rest : Text) :
    tokensFrom (.quoted odd t) (escapeQuotes odd u ++ rest) =
      tokensFrom (.quoted (endsOdd odd u) ((escapeQuotes odd u).reverse ++ t)) rest := by
  have kept {c : CodePoint} {odd : Bool} {t rest : Text} (h : ¬(c = Ascii.doubleQuote ∧ !odd)) :
      tokensFrom (.quoted odd t) (c :: rest) =
        tokensFrom (.quoted (c == Ascii.backslash && !odd) (c :: t)) rest := by
    have hstep : (Mode.quoted odd t).step? c =
        some ([], .quoted (c == Ascii.backslash && !odd) (c :: t)) := if_neg h
    exact tokensFrom_of_step hstep rest
  induction u generalizing odd t with
  | nil => rfl
  | cons c u ih =>
      rw [escapeQuotes, endsOdd]
      split
      · next hbackslash =>
          have hflag : (c == Ascii.backslash && !odd) = !odd := by simp [hbackslash]
          have hunquoted : ¬(c = Ascii.doubleQuote ∧ !odd) := fun h =>
            absurd (hbackslash.symm.trans h.1) (by decide)
          rw [hflag, List.cons_append, kept hunquoted, hflag, ih]
          simp
      · next hother =>
          have hflag : (c == Ascii.backslash && !odd) = false := by simp [hother]
          rw [hflag]
          split
          · next hquote =>
              obtain ⟨rfl, heven⟩ := hquote
              obtain rfl : odd = false := by simpa using heven
              rw [List.cons_append, List.cons_append, kept fun h => absurd h.1 (by decide),
                kept (by simp)]
              exact (ih false _).trans (by simp)
          · next hplain =>
              rw [List.cons_append, kept hplain, hflag, ih]
              simp

/-- The identifier that is read between quotes begins with what was read of it. -/
theorem exists_of_tokensFrom_quoted {read : List Token}
    (h : tokensFrom (.quoted odd t) rest = some read) :
    ∃ u more, read = .id (t.reverse ++ u) :: more := by
  induction rest generalizing odd t read with
  | nil => cases h
  | cons c rest ih =>
      rw [tokensFrom, Mode.step?] at h
      split at h
      · obtain ⟨more, -, rfl⟩ := Option.map_eq_some_iff.mp h
        exact ⟨[], more, by simp⟩
      · obtain ⟨more, hmore, rfl⟩ := Option.map_eq_some_iff.mp h
        obtain ⟨u, later, rfl⟩ := ih hmore
        exact ⟨c :: u, later, by simp⟩

end Quoted

section Words

variable {t : Text} {c : CodePoint}

/-- Names are made of the code points of words. -/
theorem isWordCharacter_of_isName (h : isName t = true) (hc : c ∈ t) :
    isWordCharacter c = true := by
  cases t with
  | nil => cases h
  | cons d rest =>
      rw [isName, Bool.and_eq_true, List.all_eq_true] at h
      rw [isWordCharacter]
      rcases List.mem_cons.mp hc with rfl | hc
      · rw [isNameCharacter]
        rcases Bool.or_eq_true_iff.mp h.1 with h | h <;> simp [h]
      · rw [h.2 c hc, Bool.true_or]

/-- A numeral without a sign is made of the code points of words, and there are some. -/
theorem isWordCharacter_of_isUnsignedNumeral (h : isUnsignedNumeral t = true) :
    t ≠ [] ∧ ∀ c ∈ t, isWordCharacter c = true := by
  refine ⟨(by rintro rfl; cases h), fun c hc => ?_⟩
  have hdigit {d : CodePoint} (h : Ascii.isDigit d = true) : isWordCharacter d = true := by
    simp [isWordCharacter, isNameCharacter, h]
  have hsplit : t.takeWhile Ascii.isDigit ++ t.drop (t.takeWhile Ascii.isDigit).length = t :=
    List.prefix_iff_eq_append.mp (List.takeWhile_prefix _)
  rw [← hsplit] at hc
  rcases List.mem_append.mp hc with hc | hc
  · exact hdigit (List.all_eq_true.mp List.all_takeWhile c hc)
  · simp only [isUnsignedNumeral] at h
    split at h
    · next hnil => simp [hnil] at hc
    · next fraction hfraction =>
        rw [hfraction] at hc
        rw [Bool.and_eq_true, List.all_eq_true] at h
        rcases List.mem_cons.mp hc with rfl | hc
        · rfl
        · exact hdigit (h.1 c hc)
    · cases h

/-- The code points that a name or a numeral is made of. -/
theorem exists_of_isName_or_isNumeral (h : (isName t || isNumeral t) = true) :
    ∃ first rest, t = first :: rest ∧ (∀ c ∈ rest, isWordCharacter c = true) ∧
      (isWordCharacter first = true ∨ first = Ascii.hyphen ∧ rest ≠ []) := by
  have whole {t : Text} (hne : t ≠ []) (hall : ∀ c ∈ t, isWordCharacter c = true) :
      ∃ first rest, t = first :: rest ∧ (∀ c ∈ rest, isWordCharacter c = true) ∧
        (isWordCharacter first = true ∨ first = Ascii.hyphen ∧ rest ≠ []) := by
    obtain ⟨first, rest, rfl⟩ := List.exists_cons_of_ne_nil hne
    obtain ⟨hfirst, hrest⟩ := List.forall_mem_cons.mp hall
    exact ⟨first, rest, rfl, hrest, Or.inl hfirst⟩
  rcases Bool.or_eq_true_iff.mp h with h | h
  · exact whole (by rintro rfl; cases h) fun c hc => isWordCharacter_of_isName h hc
  · unfold isNumeral at h
    split at h
    · obtain ⟨hne, hall⟩ := isWordCharacter_of_isUnsignedNumeral h
      exact ⟨_, _, rfl, hall, Or.inr ⟨rfl, hne⟩⟩
    · obtain ⟨hne, hall⟩ := isWordCharacter_of_isUnsignedNumeral h
      exact whole hne hall

theorem notMem_of_isName_or_isNumeral (h : (isName t || isNumeral t) = true)
    (hword : isWordCharacter c = false) (hhyphen : c ≠ Ascii.hyphen) : c ∉ t := by
  obtain ⟨first, rest, rfl, hrest, hfirst⟩ := exists_of_isName_or_isNumeral h
  intro hc
  rcases List.mem_cons.mp hc with rfl | hc
  · rcases hfirst with hfirst | ⟨rfl, -⟩
    · exact absurd (hword.symm.trans hfirst) Bool.false_ne_true
    · exact hhyphen rfl
  · exact absurd (hword.symm.trans (hrest c hc)) Bool.false_ne_true

variable {rest : Text}

theorem tokensFrom_word_append (h : ∀ c ∈ t, isWordCharacter c = true) (w rest : Text) :
    tokensFrom (.word w) (t ++ rest) = tokensFrom (.word (t.reverse ++ w)) rest := by
  induction t generalizing w with
  | nil => rfl
  | cons c t ih =>
      obtain ⟨hc, ht⟩ := List.forall_mem_cons.mp h
      have hstep : (Mode.word w).step? c = some ([], .word (c :: w)) := if_pos hc
      rw [List.cons_append, tokensFrom_of_step hstep, ih ht, List.reverse_cons,
        List.append_assoc, List.singleton_append]

/-- A word ends before a code point that is not one of words. -/
theorem tokensFrom_word_cons (hc : isWordCharacter c = false) (w : Text) :
    tokensFrom (.word w) (c :: rest) =
      (wordToken? w.reverse).bind fun token =>
        (tokensFrom .between (c :: rest)).map (token :: ·) := by
  have hends : ¬isWordCharacter c = true := Bool.eq_false_iff.mp hc
  rw [tokensFrom, tokensFrom, Mode.step?.eq_def, Mode.step?.eq_def]
  simp only [if_neg hends]
  cases wordToken? w.reverse with
  | none => rfl
  | some token =>
      cases Mode.begin? c with
      | none => rfl
      | some begun =>
          simp only [Option.map_some, Option.bind_some, Option.map_map]
          rfl

/-- A word begins with any of its code points. -/
theorem begin?_of_isWordCharacter (hc : isWordCharacter c = true) :
    Mode.begin? c = some ([], .word [c]) := by
  have hne {d : CodePoint} (hd : isWordCharacter d = false) : c ≠ d := by
    rintro rfl
    exact absurd (hd.symm.trans hc) Bool.false_ne_true
  have hblank : isBlank c = false := by
    simp only [isBlank, Bool.or_eq_false_iff, beq_eq_false_iff_ne]
    exact ⟨⟨⟨hne rfl, hne rfl⟩, hne rfl⟩, hne rfl⟩
  rw [Mode.begin?, hblank, if_neg Bool.false_ne_true, if_neg (hne rfl), if_neg (hne rfl),
    if_neg (hne rfl), if_pos hc]

/-- A name or a numeral is read as a word. -/
theorem tokensFrom_of_isName_or_isNumeral (h : (isName t || isNumeral t) = true)
    (hc : isWordCharacter c = false) :
    tokensFrom .between (t ++ c :: rest) =
      (wordToken? t).bind fun token => (tokensFrom .between (c :: rest)).map (token :: ·) := by
  obtain ⟨first, more, rfl, hmore, hfirst⟩ := exists_of_isName_or_isNumeral h
  have hread : tokensFrom .between (first :: more ++ c :: rest) =
      tokensFrom (.word (first :: more).reverse) (c :: rest) := by
    rw [List.cons_append, List.reverse_cons]
    rcases hfirst with hfirst | ⟨rfl, hne⟩
    · have hstep : Mode.between.step? first = some ([], .word [first]) :=
        begin?_of_isWordCharacter hfirst
      rw [tokensFrom_of_step hstep, tokensFrom_word_append hmore]
    · obtain ⟨second, more, rfl⟩ := List.exists_cons_of_ne_nil hne
      obtain ⟨hsecond, hmore⟩ := List.forall_mem_cons.mp hmore
      have hnoArrow : second ≠ Ascii.greater := by
        rintro rfl
        cases hsecond
      have hstep : Mode.hyphen.step? second = some ([], .word [second, Ascii.hyphen]) := by
        rw [Mode.step?, if_neg hnoArrow, if_pos hsecond]
      rw [List.cons_append, tokensFrom_of_step rfl, tokensFrom_of_step hstep,
        tokensFrom_word_append hmore, List.reverse_cons, List.append_assoc, List.singleton_append]
  rw [hread, tokensFrom_word_cons hc, List.reverse_reverse]

end Words

/-- A text before which a word ends. -/
def EndsWord (t : Text) : Prop := ∃ c rest, t = c :: rest ∧ isWordCharacter c = false

/-- A text that is no markup and no word with a newline behind it: those are written as they are. -/
structure Quotable (t : Text) : Prop where
  markup : isMarkup t = false
  plain : isPlain t = true → (isName t || isNumeral t) = true

namespace Quotable

variable {t : Text}

/-- A text with a first and a last code point that are neither of a markup nor of a line. -/
theorem of_ends {first : CodePoint} {rest : Text} (hfirst : first ≠ Ascii.less)
    (hlast : (first :: rest).getLast? ≠ some Ascii.newline) : Quotable (first :: rest) := by
  have hwhole : Text.dropFinalNewline (first :: rest) = first :: rest := by
    unfold Text.dropFinalNewline
    split
    · next hnewline => exact absurd hnewline hlast
    · rfl
  refine ⟨?_, fun hplain => ?_⟩
  · unfold isMarkup
    split
    · next heq => exact absurd (List.cons.inj heq).1 hfirst
    · rfl
  · rwa [isPlain, hwhole, Bool.or_assoc, Bool.or_self] at hplain

variable (h : Quotable t)

include h

/-- A text is written as a word that is no keyword, or else between quotes. -/
theorem quote_cases :
    (quote t = t ∧ (isName t || isNumeral t) = true ∧ wordToken? t = some (.id t)) ∨
      quote t = Ascii.doubleQuote :: (escapeQuotes false t ++ [Ascii.doubleQuote]) := by
  rw [quote, h.markup, if_neg Bool.false_ne_true]
  split
  · next hword =>
      obtain ⟨hplain, hkeyword⟩ := hword
      have hbare := h.plain hplain
      refine Or.inl ⟨rfl, hbare, ?_⟩
      rw [wordToken?, if_pos hbare, if_neg (by simpa using hkeyword)]
  · exact Or.inr rfl

/-- A text with an even number of backslashes at its end is read back as an identifier. -/
theorem tokensFrom_quote (heven : endsOdd false t = false) {rest : Text} (hrest : EndsWord rest) :
    tokensFrom .between (quote t ++ rest) =
      (tokensFrom .between rest).map (.id (escapeQuotes false t) :: ·) := by
  obtain ⟨c, rest, rfl, hc⟩ := hrest
  rcases h.quote_cases with ⟨hquote, hbare, htoken⟩ | hquote
  · have hnone : Ascii.doubleQuote ∉ t := notMem_of_isName_or_isNumeral hbare rfl (by decide)
    rw [hquote, tokensFrom_of_isName_or_isNumeral hbare hc, htoken, escapeQuotes_eq_self hnone]
    rfl
  · have hopening : Mode.between.step? Ascii.doubleQuote = some ([], .quoted false []) := rfl
    rw [hquote, List.cons_append, tokensFrom_of_step hopening, List.append_assoc,
      tokensFrom_quoted_append, heven, List.append_nil, List.singleton_append, tokensFrom]
    simp [Mode.step?]

/-- Where the number is odd, the identifier goes on behind the closing quote. -/
theorem exists_of_tokensFrom_quote (hodd : endsOdd false t = true) {rest : Text}
    {read : List Token} (hread : tokensFrom .between (quote t ++ rest) = some read) :
    ∃ u more, read = .id (escapeQuotes false t ++ Ascii.doubleQuote :: u) :: more := by
  rcases h.quote_cases with ⟨-, hbare, -⟩ | hquote
  · have hnone : Ascii.backslash ∉ t := notMem_of_isName_or_isNumeral hbare rfl (by decide)
    exact absurd (hodd.symm.trans (endsOdd_eq_false hnone)) Bool.noConfusion
  · have hopening : Mode.between.step? Ascii.doubleQuote = some ([], .quoted false []) := rfl
    have hescaped (w : Text) : (Mode.quoted true w).step? Ascii.doubleQuote =
        some ([], .quoted false (Ascii.doubleQuote :: w)) := rfl
    rw [hquote, List.cons_append, tokensFrom_of_step hopening, List.append_assoc,
      tokensFrom_quoted_append, hodd, List.append_nil, List.singleton_append,
      tokensFrom_of_step (hescaped _)] at hread
    obtain ⟨u, more, rfl⟩ := exists_of_tokensFrom_quoted hread
    exact ⟨u, more, by simp⟩

end Quotable

end RegexTrace.Flow.Dot
