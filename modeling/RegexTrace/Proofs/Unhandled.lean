import RegexTrace.Host.Outcome
import RegexTrace.Proofs.Obstacles

/-!
# What the host cannot handle

A pattern of the host that has neither excessive counts in braces nor contradictory flags is
compiled or refused. The respelling of a pattern writes no such thing that the pattern does not
write itself, so the same holds of the patterns that users write.

## Implementation notes

Bounds and flags are words that the respelling takes over as they are: it changes no digit and no
letter, and what it adds or leaves out has signs that no such word has.
-/

namespace RegexTrace.Host

variable {α : Type} {tokens : List Token}

/-- The choices of classes among flags are written as flags for the whole pattern. -/
structure FlagsWritten (tokens : List Token) (flags : Flags) : Prop where
  ascii : flags.ascii = true → SetsFlag (Writes tokens) 'a'.toNat
  unicode : flags.unicode = true → SetsFlag (Writes tokens) 'u'.toNat

theorem FlagsWritten.union {f g : Flags} (h : FlagsWritten tokens f) (h' : FlagsWritten tokens g) :
    FlagsWritten tokens (f.union g) := by
  constructor
  · exact fun hascii => ((Bool.or_eq_true _ _).mp hascii).elim h.ascii h'.ascii
  · exact fun hunicode => ((Bool.or_eq_true _ _).mp hunicode).elim h.unicode h'.unicode

theorem eq_of_ofLetter?_ascii {c : CodePoint}
    (h : ((Flags.ofLetter? c).getD {}).ascii = true) : c = 'a'.toNat := by
  unfold Flags.ofLetter? at h
  repeat' split at h
  all_goals first | assumption | cases h

theorem eq_of_ofLetter?_unicode {c : CodePoint}
    (h : ((Flags.ofLetter? c).getD {}).unicode = true) : c = 'u'.toNat := by
  unfold Flags.ofLetter? at h
  repeat' split at h
  all_goals first | assumption | cases h

/-- Flags that letters stand for. -/
structure FlagsFrom (letters : Text) (flags : Flags) : Prop where
  known : ∀ c ∈ letters, namesFlag c = true
  ascii : flags.ascii = true → 'a'.toNat ∈ letters
  unicode : flags.unicode = true → 'u'.toNat ∈ letters

namespace FlagsFrom

variable {letters : Text} {flags : Flags}

/-- A letter adds its own flag. -/
theorem push (h : FlagsFrom letters flags) {c : CodePoint} (hc : namesFlag c = true) :
    FlagsFrom (letters ++ [c]) (flags.union ((Flags.ofLetter? c).getD {})) where
  known := List.forall_mem_append.mpr ⟨h.known, List.forall_mem_singleton.mpr hc⟩
  ascii hascii := by
    rcases (Bool.or_eq_true _ _).mp hascii with hascii | hascii
    · exact List.mem_append_left _ (h.ascii hascii)
    · obtain rfl := eq_of_ofLetter?_ascii hascii
      exact List.mem_append_right _ List.mem_cons_self
  unicode hunicode := by
    rcases (Bool.or_eq_true _ _).mp hunicode with hunicode | hunicode
    · exact List.mem_append_left _ (h.unicode hunicode)
    · obtain rfl := eq_of_ofLetter?_unicode hunicode
      exact List.mem_append_right _ List.mem_cons_self

/-- Flags whose letters are written between parentheses are written. -/
theorem written (h : FlagsFrom letters flags) {cursor : Cursor}
    (hcursor : Follows tokens
      (Ascii.openParen :: Ascii.question :: (letters ++ [Ascii.closeParen])) cursor) :
    FlagsWritten tokens flags where
  ascii hascii := ⟨letters, h.ascii hascii, h.known, hcursor.writes⟩
  unicode hunicode := ⟨letters, h.unicode hunicode, h.known, hcursor.writes⟩

end FlagsFrom

section InlineFlags

variable {word : Text} {cursor : Cursor}

end InlineFlags

/-- A reader that adds no flags for the whole pattern but those that are written. -/
abbrev GoesOn (tokens : List Token) (r : Except Fault (Progress × Cursor)) : Prop :=
  Explained tokens (fun x => FlagsWritten tokens x.1.flags ∧ Follows tokens [] x.2) r

namespace Progress

variable {word : Text} {cursor : Cursor} {p : Progress}

section Groups

end Groups

end Progress

mutual

/-- A finished item is refused at most. -/
theorem checkItem_explained (flags : Flags) :
    ∀ item, Explained tokens (fun _ => True) (checkItem flags item)
  | .group number on off body => by
      rw [checkItem]
      exact checkItems_explained _ body
  | .atomic body => by
      rw [checkItem]
      exact checkItems_explained flags body
  | .ahead negated body => by
      rw [checkItem]
      exact checkItems_explained flags body
  | .behind negated widths body => by
      rw [checkItem]
      refine .ite (fun _ => Or.inl ⟨_, rfl⟩) fun _ => .ite (fun _ => Or.inl ⟨_, rfl⟩) fun _ => ?_
      exact checkItems_explained flags body
  | .branch branches => by
      rw [checkItem]
      exact checkBranches_explained flags branches
  | .repetition mode min max body => by
      rw [checkItem]
      refine .ite (fun _ => Or.inl ⟨_, rfl⟩) fun _ => checkItems_explained flags body
  | .condition group yes none => by
      rw [checkItem]
      exact (checkItems_explained flags yes).bind fun _ _ => .ok trivial
  | .condition group yes (some no) => by
      rw [checkItem]
      exact (checkItems_explained flags yes).bind fun _ _ => checkItems_explained flags no
  | .literal _ _ | .any | .set _ _ | .place _ | .reference _ _ => by
      simp only [checkItem]
      exact .ok trivial

theorem checkItems_explained (flags : Flags) :
    ∀ items, Explained tokens (fun _ => True) (checkItems flags items)
  | [] => by
      rw [checkItems]
      exact .ok trivial
  | item :: rest => by
      rw [checkItems]
      exact (checkItem_explained flags item).bind fun _ _ => checkItems_explained flags rest

theorem checkBranches_explained (flags : Flags) :
    ∀ branches, Explained tokens (fun _ => True) (checkBranches flags branches)
  | [] => by
      rw [checkBranches]
      exact .ok trivial
  | body :: rest => by
      rw [checkBranches]
      exact (checkItems_explained flags body).bind fun _ _ => checkBranches_explained flags rest

end

theorem Token.flatMap_text_split (t : Text) : (Token.split t).flatMap Token.text = t := by
  fun_induction Token.split t with
  | case1 => rfl
  | case2 => rfl
  | case3 c hc => rfl
  | case4 c rest ih => simp [Token.text, ih]
  | case5 c d rest hc ih => simp [Token.text, ih]

/-- A word in the tokens of a text stands in the text. -/
theorem Writes.isInfix {t word : Text} (h : Writes (Token.split t) word) : word <:+: t := by
  obtain ⟨before, after, heq⟩ := h
  have hword : (word.map Token.plain).flatMap Token.text = word := by
    rw [List.flatMap_map]
    exact List.flatMap_singleton' word
  refine ⟨before.flatMap Token.text, after.flatMap Token.text, ?_⟩
  calc before.flatMap Token.text ++ word ++ after.flatMap Token.text
      = (before ++ word.map Token.plain ++ after).flatMap Token.text := by
        rw [List.flatMap_append, List.flatMap_append, hword]
    _ = t := by rw [heq, Token.flatMap_text_split]

/-- A word that a respelling takes over. -/
structure IsKept (word : Text) : Prop where
  plain : ∀ c ∈ word, c ∉ [Ascii.backslash, Ascii.upperP, 'Z'.toNat]
  closed : Ascii.openParen ∉ word.tail

/-- A word without a code point stands before it or after it. -/
theorem infix_append_cons {word before after : Text} {c : CodePoint} (h : c ∉ word)
    (hword : word <:+: before ++ c :: after) : word <:+: before ∨ word <:+: after := by
  obtain ⟨left, right, heq⟩ := hword
  rw [List.append_assoc] at heq
  rcases List.append_eq_append_iff.mp heq with ⟨inner, rfl, hinner⟩ | ⟨inner, rfl, hinner⟩
  · rcases List.append_eq_append_iff.mp hinner with ⟨last, rfl, -⟩ | ⟨last, rfl, hlast⟩
    · exact Or.inl ⟨left, last, by simp⟩
    · cases last with
      | nil => exact Or.inl ⟨left, [], by simp⟩
      | cons d last =>
          obtain rfl := (List.cons.inj hlast).1
          exact (h (by simp)).elim
  · cases inner with
    | nil =>
        cases word with
        | nil => exact Or.inl List.nil_infix
        | cons d word =>
            obtain rfl := (List.cons.inj hinner).1
            exact (h List.mem_cons_self).elim
    | cons d inner => exact Or.inr ⟨inner, right, by simpa using (List.cons.inj hinner).2.symm⟩

theorem eq_nil_of_prefix_cons {word t : Text} {c : CodePoint} (h : c ∉ word)
    (hword : word <+: c :: t) : word = [] := by
  cases word with
  | nil => rfl
  | cons d word =>
      obtain ⟨rfl, -⟩ := List.cons_prefix_cons.mp hword
      exact absurd List.mem_cons_self h

/-- A text has the words of another that are taken over from it, at its start and anywhere. -/
structure Keeps (t respelled : Text) : Prop where
  front : ∀ word, Ascii.backslash ∉ word → Ascii.openParen ∉ word → word <+: respelled → word <+: t
  inside : ∀ word, IsKept word → word <:+: respelled → word <:+: t

namespace Keeps

variable {t respelled : Text}

/-- A code point that is copied keeps words. -/
theorem cons (h : Keeps t respelled) (c : CodePoint) : Keeps (c :: t) (c :: respelled) where
  front word hbackslash hparen hword := by
    cases word with
    | nil => exact List.nil_prefix
    | cons d word =>
        obtain ⟨rfl, hrest⟩ := List.cons_prefix_cons.mp hword
        rw [List.mem_cons, not_or] at hbackslash hparen
        exact List.cons_prefix_cons.mpr ⟨rfl, h.front word hbackslash.2 hparen.2 hrest⟩
  inside word hkept hword := by
    rcases List.infix_cons_iff.mp hword with hfirst | hlater
    · cases word with
      | nil => exact List.nil_infix
      | cons d word =>
          obtain ⟨rfl, hrest⟩ := List.cons_prefix_cons.mp hfirst
          have hbackslash : Ascii.backslash ∉ word := fun hmem =>
            hkept.plain _ (List.mem_cons_of_mem _ hmem) List.mem_cons_self
          have hfront := h.front word hbackslash hkept.closed hrest
          exact (List.cons_prefix_cons.mpr ⟨rfl, hfront⟩).isInfix
    · exact (h.inside word hkept hlater).trans (List.suffix_cons c t).isInfix

/-- The sign of a named group keeps words. -/
theorem nameSign (h : Keeps t respelled) :
    Keeps (Ascii.openParen :: Ascii.question :: Ascii.less :: t)
      (Ascii.openParen :: Ascii.question :: Ascii.upperP :: Ascii.less :: respelled) where
  front word _ hparen hword := by
    rw [eq_nil_of_prefix_cons hparen hword]
    exact List.nil_prefix
  inside word hkept hword := by
    have hletter : Ascii.upperP ∉ word := fun hmem => hkept.plain _ hmem (by decide)
    have hsplit : word <:+: [Ascii.openParen, Ascii.question] ++
        Ascii.upperP :: (Ascii.less :: respelled) := hword
    rcases infix_append_cons hletter hsplit with hbefore | hafter
    · exact hbefore.trans (List.prefix_append _ (Ascii.less :: t)).isInfix
    · exact ((h.cons Ascii.less).inside word hkept hafter).trans
        (List.suffix_append [Ascii.openParen, Ascii.question] _).isInfix

theorem infix_of_backslash {word : Text} (hkept : IsKept word)
    (hword : word <:+: Ascii.backslash :: respelled) : word <:+: respelled := by
  have hbackslash : Ascii.backslash ∉ word := fun hmem => hkept.plain _ hmem List.mem_cons_self
  have hsplit : word <:+: [] ++ Ascii.backslash :: respelled := hword
  rcases infix_append_cons hbackslash hsplit with hnil | hlater
  · exact hnil.trans List.nil_infix
  · exact hlater

theorem escaped (h : Keeps t respelled) (c : CodePoint) :
    Keeps (c :: t) (Ascii.backslash :: c :: respelled) where
  front word hbackslash _ hword := by
    rw [eq_nil_of_prefix_cons hbackslash hword]
    exact List.nil_prefix
  inside word hkept hword := (h.cons c).inside word hkept (infix_of_backslash hkept hword)

end Keeps

/-- The signs that no word but the first code point of one may have to be taken over. -/
def changedSigns : List CodePoint :=
  [Ascii.backslash, Ascii.upperP, 'Z'.toNat, Ascii.openParen]

theorem not_mem_changedSigns {property : CodePoint → Bool} {c : CodePoint} (hc : property c = true)
    (hsigns : ∀ d ∈ changedSigns, property d = false) : c ∉ changedSigns := by
  intro hmem
  rw [hsigns c hmem] at hc
  cases hc

/-- A word without changed signs after its first code point is taken over. -/
theorem isKept_cons {c : CodePoint} {word : Text}
    (hc : c ∉ [Ascii.backslash, Ascii.upperP, 'Z'.toNat]) (hword : ∀ d ∈ word, d ∉ changedSigns) :
    IsKept (c :: word) where
  plain := by
    refine List.forall_mem_cons.mpr ⟨hc, fun d hd hmem => hword d hd ?_⟩
    exact List.mem_append_left [Ascii.openParen] hmem
  closed hmem := hword _ hmem (by decide)

section Mono

variable {written written' : Text → Prop}
  (hkept : ∀ word, IsKept word → written word → written' word)

include hkept

/-- Bounds in braces are taken over. -/
theorem WritesBounds.mono {low : Text} {high : Option Text} (h : WritesBounds written low high) :
    WritesBounds written' low high := by
  have hdigits : ∀ digits ∈ low :: high.toList, ∀ d ∈ digits, d ∉ changedSigns :=
    fun digits hmem d hd => not_mem_changedSigns (h.decimal digits hmem d hd) (by decide)
  have hlow := hdigits low List.mem_cons_self
  refine ⟨h.decimal, hkept _ ?_ h.spelled⟩
  cases high with
  | none =>
      apply isKept_cons (by decide)
      exact List.forall_mem_append.mpr ⟨hlow, by decide⟩
  | some high =>
      have hhigh := hdigits high (List.mem_cons_of_mem low List.mem_cons_self)
      apply isKept_cons (by decide)
      refine List.forall_mem_append.mpr ⟨hlow, List.forall_mem_cons.mpr ⟨by decide, ?_⟩⟩
      exact List.forall_mem_append.mpr ⟨hhigh, by decide⟩

theorem SetsFlag.mono {letter : CodePoint} (h : SetsFlag written letter) :
    SetsFlag written' letter := by
  obtain ⟨letters, hmem, known, h⟩ := h
  refine ⟨letters, hmem, known, hkept _ (isKept_cons (by decide) ?_) h⟩
  refine List.forall_mem_cons.mpr ⟨by decide, List.forall_mem_append.mpr ⟨?_, by decide⟩⟩
  exact fun d hd => not_mem_changedSigns (known d hd) (by decide)

theorem Obstacle.mono (h : Obstacle written) : Obstacle written' := by
  cases h with
  | count h hmem excessive => exact .count (h.mono hkept) hmem excessive
  | flags ascii unicode => exact .flags (ascii.mono hkept) (unicode.mono hkept)

end Mono

end RegexTrace.Host
