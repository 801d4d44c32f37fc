import RegexTrace.Proofs.Respelling
import RegexTrace.Proofs.Totality
import RegexTrace.Proofs.Unhandled
import RegexTrace.Session

/-!
# Which commands of a session have a reply

Without a budget every trace that a session is asked for has a reply. The other commands have one
unless the pattern has a bound that is too long to be read, or is one that the host cannot handle.

## Implementation notes

A command without a reply may have changed the session all the same: the text of a pattern is kept
though its reading has failed. So the sessions that can be reached are those after any commands.
-/

namespace RegexTrace

namespace Text

theorem isInfix_trim (t : Text) : trim t <:+: t := by
  have hleft : trimLeft t <:+ t := List.dropWhile_suffix _
  have hright : trim t <+: trimLeft t := by
    rw [trim, trimRight, ← List.reverse_suffix, List.reverse_reverse]
    exact List.dropWhile_suffix _
  exact hright.isInfix.trans hleft.isInfix

end Text

namespace Pattern

/-- The pattern of a text stands in the text. -/
theorem isInfix_splitLiteral (t : Text) : (splitLiteral t).1 <:+: t := by
  have htrim := Text.isInfix_trim t
  unfold splitLiteral
  dsimp only
  split
  · next rest hrest =>
      cases hsplit : splitLastSlash? rest with
      | none => exact htrim
      | some parts =>
          have hparts : parts.1 <+: rest := by
            unfold splitLastSlash? at hsplit
            dsimp only at hsplit
            split at hsplit
            · cases hsplit
              exact List.take_prefix _ rest
            · cases hsplit
          rw [hrest] at htrim
          exact (hparts.isInfix.trans (List.suffix_cons _ rest).isInfix).trans htrim
  · exact htrim

theorem valid_splitLiteral {t : Text} (valid : t.Valid) : (splitLiteral t).1.Valid :=
  fun c hc => valid c ((isInfix_splitLiteral t).subset hc)

/-- The reading of a pattern comes upon a bound with too many digits. -/
def HasLongBound (pattern : Text) : Prop :=
  ∃ digits, HasBound pattern digits ∧ Numeral.digitLimit < digits.length

/-- Bounds of which one has too many digits are not read. -/
theorem Braces.bounds_long {braces : Braces} {digits : Text} (hmem : digits ∈ braces.texts)
    (long : Numeral.digitLimit < digits.length) :
    ∃ fault, braces.bounds = .error (.numeral fault) := by
  obtain ⟨low, high, width⟩ := braces
  rw [bounds]
  by_cases hlow : Numeral.digitLimit < low.length
  · exact ⟨_, by rw [Numeral.ofDigits, if_pos hlow]; rfl⟩
  · rw [Numeral.ofDigits, if_neg hlow]
    cases high with
    | none =>
        obtain rfl : digits = low := List.mem_singleton.mp hmem
        exact absurd long hlow
    | some high =>
        rcases List.mem_cons.mp hmem with rfl | hmem
        · exact absurd long hlow
        · obtain rfl : digits = high := List.mem_singleton.mp hmem
          cases digits with
          | nil => exact absurd long (Nat.not_lt_zero _)
          | cons c rest => exact ⟨_, by dsimp only; rw [Numeral.ofDigits, if_pos long]; rfl⟩

/-- An atom is no term with bounds of which one has too many digits. -/
theorem readTerm_long {after : Text} {braces : Braces} (hbraces : Braces.read? after = some braces)
    {digits : Text} (hmem : digits ∈ braces.texts) (long : Numeral.digitLimit < digits.length)
    (atom : Node) (start next : Nat) :
    ∃ fault, readTerm atom start next after = .error (.numeral fault) := by
  obtain ⟨fault, hbounds⟩ := Braces.bounds_long hmem long
  obtain ⟨rest, rfl⟩ : ∃ rest, after = Ascii.openBrace :: rest := by
    unfold Braces.read? at hbraces
    split at hbraces
    · exact ⟨_, rfl⟩
    · cases hbraces
  have hbare : readBare? (Ascii.openBrace :: rest) = .error (.numeral fault) := by
    rw [readBare?, hbraces]
    · dsimp only
      rw [hbounds]
      rfl
    all_goals exact fun t heq => absurd (List.cons.inj heq).1 (by decide)
  exact ⟨fault, by rw [readTerm, Repetition.read?, hbare]; rfl⟩

/-- No step is made over bounds of which one has too many digits. -/
theorem Progress.step_long {p : Progress} {pos : Nat} {c : CodePoint} {rest after : Text}
    (hafter : p.atomEnd? c rest = some after) {braces : Braces}
    (hbraces : Braces.read? after = some braces) {digits : Text} (hmem : digits ∈ braces.texts)
    (long : Numeral.digitLimit < digits.length) :
    ∃ fault, p.step pos c rest = .error (.numeral fault) := by
  unfold Progress.atomEnd? at hafter
  split at hafter
  · cases hafter
  next hopens =>
  obtain ⟨hbar, hopen⟩ := not_or.mp hopens
  rw [Progress.step, if_neg hbar]
  split at hafter
  · next hclose =>
      rw [if_pos hclose]
      cases hopenings : p.openings with
      | nil =>
          rw [hopenings] at hafter
          cases hafter
      | cons opening openings =>
          rw [hopenings] at hafter
          obtain rfl : rest = after := Option.some.inj hafter
          obtain ⟨fault, hterm⟩ :=
            readTerm_long hbraces hmem long (opening.close p.level) opening.openedAt (pos + 1)
          exact ⟨fault, by dsimp only; rw [hterm]; rfl⟩
  · next hclose =>
      rw [if_neg hclose, if_neg hopen]
      split at hafter
      · next atom width hatom =>
          obtain rfl : rest.drop width = after := Option.some.inj hafter
          obtain ⟨fault, hterm⟩ := readTerm_long hbraces hmem long atom pos (pos + 1 + width)
          exact ⟨fault, by rw [hatom]; dsimp only; rw [hterm]; rfl⟩
      · cases hafter

/-- The reading of a pattern goes on from every state that it passes. -/
theorem Reaches.run_eq {pattern t : Text} {p : Progress} {pos : Nat}
    (h : Reaches pattern p pos t) : Progress.run 0 pos p t = parse pattern := by
  induction h with
  | start => rfl
  | step before step ih =>
      rw [← ih, Progress.run, step]
      exact (Progress.run_skip _ _ _ _).symm

/-- A pattern with a bound that has too many digits is not read. -/
theorem parse_long {pattern : Text} (h : HasLongBound pattern) :
    ∃ fault, parse pattern = .error (.numeral fault) := by
  obtain ⟨digits, ⟨p, pos, c, rest, after, braces, hreaches, hafter, hbraces, hmem⟩, long⟩ := h
  obtain ⟨fault, hstep⟩ := Progress.step_long hafter hbraces hmem long
  exact ⟨fault, by rw [← hreaches.run_eq, Progress.run, hstep]; rfl⟩

/-- A text is read if its pattern has no bound with too many digits. -/
theorem exists_read {t : Text} (valid : t.Valid) (short : ¬ HasLongBound (splitLiteral t).1) :
    ∃ result, read t [] = .ok result := by
  have houtcome := parse_outcome (valid_splitLiteral valid)
  unfold read
  dsimp only
  cases hparse : parse (splitLiteral t).1 with
  | ok parsed => exact ⟨_, rfl⟩
  | error fault =>
      rw [hparse] at houtcome
      cases fault with
      | malformed fault => exact ⟨_, rfl⟩
      | numeral fault => exact absurd houtcome short

/-- A text is not read if its pattern has a bound with too many digits. -/
theorem read_long {t : Text} (h : HasLongBound (splitLiteral t).1) :
    ∃ fault, read t [] = .error fault := by
  obtain ⟨fault, hparse⟩ := parse_long h
  exact ⟨fault, by rw [read]; dsimp only; rw [hparse]⟩

theorem not_hasLongBound_of_length {pattern : Text} (h : pattern.length ≤ Numeral.digitLimit) :
    ¬ HasLongBound pattern := by
  rintro ⟨digits, hbound, long⟩
  exact absurd (hbound.length_le.trans h) (Nat.not_le.mpr long)

theorem not_hasLongBound_of_blank {t : Text} (h : Text.trim t = []) :
    ¬ HasLongBound (splitLiteral t).1 := by
  apply not_hasLongBound_of_length
  rw [splitLiteral, h]
  exact Nat.zero_le _

/-- The tree of a text that was read is missing or the tree of a pattern. -/
theorem root_of_read {t : Text} (valid : t.Valid) {result : Reading.Result}
    (h : read t [] = .ok result) : result.root = .absent ∨ result.root.IsPattern := by
  unfold read at h
  dsimp only at h
  cases hparse : parse (splitLiteral t).1 with
  | ok parsed =>
      rw [hparse] at h
      cases h
      exact Or.inr (isPattern_of_parse (valid_splitLiteral valid) hparse)
  | error fault =>
      rw [hparse] at h
      cases fault with
      | malformed fault =>
          cases h
          exact Or.inl rfl
      | numeral fault => cases h

end Pattern

namespace Session

/-- A command that sets a pattern sets one of code points. -/
def Command.Valid : Command → Prop
  | .setPattern text => text.Valid
  | _ => True

/-- What every session that can be reached is like: it has the options of the beginning, and its
tree is missing or the tree of a pattern. -/
structure Coherent (options : Options) (s : Session) : Prop where
  options : s.options = options
  pattern : s.patternText.Valid
  root : s.root = .absent ∨ s.root.IsPattern

namespace Coherent

variable {options : Options} {s : Session}

/-- Reading the pattern leaves a session coherent. -/
theorem reparse (h : Coherent options s) : Coherent options s.reparse.2 := by
  unfold Session.reparse Session.read
  split
  · next next hread =>
      split at hread
      · cases hread
        exact ⟨h.options, h.pattern, Or.inl rfl⟩
      · cases hresult : Pattern.read s.patternText [] with
        | ok result =>
            rw [hresult] at hread
            cases hread
            exact ⟨h.options, h.pattern, Pattern.root_of_read h.pattern hresult⟩
        | error fault =>
            rw [hresult] at hread
            cases hread
  · exact h

theorem answer {ε α : Type} (h : Coherent options s) (fault : ε → Fault) (reply : α → Reply)
    (result : Except ε α) : Coherent options (s.answer fault reply result).2 := by
  cases result <;> exact h

/-- Every command leaves a session coherent. -/
theorem step [Host.CharacterNames] (h : Coherent options s) {command : Command}
    (valid : command.Valid) : Coherent options (s.step command).2 := by
  cases command with
  | setPattern text =>
      have hset : Coherent options { s with patternText := text } := ⟨h.options, valid, h.root⟩
      exact hset.reparse
  | reparse => exact h.reparse
  | setSafe text => exact ⟨h.options, h.pattern, h.root⟩
  | setDenied text => exact ⟨h.options, h.pattern, h.root⟩
  | setBatch lines => exact ⟨h.options, h.pattern, h.root⟩
  | clearBatch => exact ⟨h.options, h.pattern, h.root⟩
  | select id => exact ⟨h.options, h.pattern, h.root⟩
  | trace text => exact h.answer _ _ _
  | test text => exact h.answer _ _ _
  | testAll text => exact h.answer _ _ _
  | testSafe => exact h.answer _ _ _
  | testDenied => exact h.answer _ _ _
  | testBatch => exact h.answer _ _ _
  | explain => exact h.answer _ _ _

end Coherent

variable {options : Options} {s : Session}

theorem Coherent.exists_trace (h : Coherent options s) (unlimited : options.maxSteps = none)
    {x : Text} (valid : x.Valid) : ∃ found, s.trace x = .ok found := by
  rcases h.root with habsent | hroot
  · rw [Session.trace, habsent]
    exact ⟨{}, rfl⟩
  · have hsteps : (s.options.withFlags s.flags).maxSteps = none := by
      rw [h.options]
      exact unlimited
    exact Pattern.exists_trace hsteps hroot valid

end Session

end RegexTrace
