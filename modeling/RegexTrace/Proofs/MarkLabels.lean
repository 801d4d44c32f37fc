import RegexTrace.Proofs.Spelling
import RegexTrace.Proofs.Totality

/-!
# The label of a repetition is a mark

A repetition is labelled with its shorthand or with its bounds in braces, and a question mark if it
is lazy. For the repetitions of a pattern that label is a mark which a pattern can hold: after a
term it is read as the same bounds, the same shorthand and the same greed.

## Implementation notes

A label writes two equal bounds once, which the spelling of a tree does not; all other bounds it
writes as the spelling does. So the one new case is that of a single number in braces.
-/

namespace RegexTrace

/-- The mark that a repetition is labelled with. -/
def MarkSign.ofLabel (min : Int) (max : Option Int) (shorthand : Option Shorthand) : MarkSign :=
  if shorthand = none ∧ max = some min then .braces (Text.ofInt min) none
  else .ofBounds min max shorthand

variable {min : Int} {max : Option Int} {shorthand : Option Shorthand}

namespace Node

/-- A label in braces is the spelling of its mark. -/
theorem boundsLabel_eq_spell (min : Int) (max : Option Int) :
    boundsLabel min max = (MarkSign.ofLabel min max none).spell := by
  cases max with
  | none => simp [boundsLabel, MarkSign.ofLabel, MarkSign.ofBounds, MarkSign.spell, Text.ofString,
      Ascii.openBrace, Ascii.comma, Ascii.closeBrace]
  | some limit =>
      by_cases hequal : min = limit
      · simp [boundsLabel, MarkSign.ofLabel, MarkSign.spell, Text.ofString, Ascii.openBrace,
          Ascii.closeBrace, hequal]
      · simp [boundsLabel, MarkSign.ofLabel, MarkSign.ofBounds, MarkSign.spell, Text.ofString,
          Ascii.openBrace, Ascii.comma, Ascii.closeBrace, hequal, Ne.symm hequal]

/-- The label of a repetition is the spelling of its mark with what makes it lazy. -/
theorem ShorthandFits.quantifierLabel_eq_spell (h : ShorthandFits min max shorthand)
    (greedy : Bool) :
    quantifierLabel min max greedy shorthand =
      (MarkSign.ofLabel min max shorthand).spell ++ lazySign greedy := by
  have hlazy : Text.ofString (if greedy then "" else "?") = lazySign greedy := by
    cases greedy <;> rfl
  rw [quantifierLabel, hlazy]
  cases shorthand with
  | none => rw [shorthandSpelling?, Option.getD_none, boundsLabel_eq_spell]
  | some s =>
      cases s with
      | other spelling => exact h.elim
      | _ => rfl

end Node

namespace Pattern

/-- The mark of a label is read as the bounds that it was written for. -/
theorem bounds_ofLabel (nonnegative : 0 ≤ min) (ordered : ∀ limit, max = some limit → min ≤ limit)
    (spelling : Node.ShorthandFits min max shorthand)
    (short : ∀ bound ∈ min :: max.toList, (Text.ofInt bound).length ≤ Numeral.digitLimit) :
    (MarkSign.ofLabel min max shorthand).Shared ∧
      (MarkSign.ofLabel min max shorthand).shorthand = shorthand ∧
      ∃ low high, (MarkSign.ofLabel min max shorthand).bounds = .ok (low, high) ∧
        min = (low : Int) ∧ max = high.map Int.ofNat := by
  by_cases hsingle : shorthand = none ∧ max = some min
  · rw [MarkSign.ofLabel, if_pos hsingle]
    obtain ⟨rfl, rfl⟩ := hsingle
    obtain ⟨n, rfl⟩ := Int.eq_ofNat_of_zero_le nonnegative
    have hread : Numeral.ofDigits (Text.ofNat n) = .ok n :=
      Text.ofDigits_ofNat (short n List.mem_cons_self)
    refine ⟨⟨Text.ofNat_ne_nil n, ?_⟩, rfl, n, some n, Braces.bounds_one hread, rfl, rfl⟩
    exact List.forall_mem_singleton.mpr (Text.isDigit_of_mem_ofNat n)
  · rw [MarkSign.ofLabel, if_neg hsingle]
    exact bounds_ofBounds nonnegative ordered spelling short

/-- A letter with a mark behind it is the pattern of a repetition. -/
theorem parse_letter_mark {c : CodePoint} (hc : Ascii.isAlphanumeric c = true) {m : MarkSign}
    (shared : m.Shared) {low : Nat} {high : Option Nat} (hbounds : m.bounds = .ok (low, high))
    (greedy : Bool) :
    parse (c :: (m.spell ++ lazySign greedy)) =
      .ok ⟨.alternative [.quantifier low (high.map Int.ofNat) greedy (.value c) m.shorthand],
        0⟩ := by
  have hne : ∀ d, Ascii.isAlphanumeric d = false → c ≠ d := by
    rintro d hd rfl
    exact Bool.false_ne_true (hd.symm.trans hc)
  have hnothing : greedy = true → ([] : Text).head? ≠ some Ascii.question := fun _ => nofun
  have hterm : readTerm (.value c) 0 1 (m.spell ++ (lazySign greedy ++ [])) =
      .ok (.quantifier low (high.map Int.ofNat) greedy (.value c) m.shorthand,
        (m.spell ++ lazySign greedy).length) :=
    readTerm_spell shared hbounds rfl hnothing 0 1
  rw [List.append_nil] at hterm
  rw [parse, Progress.run, Progress.step, if_neg (hne _ (by decide)), if_neg (hne _ (by decide)),
    if_neg (hne _ (by decide)), readAtom_alphanumeric hc]
  simp only [List.drop_zero, hterm, bind, Except.bind, pure, Except.pure, Nat.zero_add]
  rw [Progress.run_skip, List.drop_length, Progress.run]
  rfl

/-- The mark that labels a repetition of a pattern stands for that repetition: it can be written,
and behind a letter it is read as a repetition of the letter with the same bounds, the same greed
and the same shorthand. -/
theorem parse_label {pattern : Text} (valid : pattern.Valid) {parsed : Parsed}
    (h : parse pattern = .ok parsed) {address : Address} {min : Int} {max : Option Int}
    {greedy : Bool} {body : Node} {shorthand : Option Shorthand}
    (hat : parsed.root.at? address = some (.quantifier min max greedy body shorthand)) :
    (Node.quantifier min max greedy body shorthand).BoundsWritable ∧
      ∃ label, Node.label (.quantifier min max greedy body shorthand) = .ok label ∧
        parse (Text.ofString "x" ++ label) =
          .ok ⟨.alternative [.quantifier min max greedy (.value 'x'.toNat) shorthand], 0⟩ := by
  have hpart : parsed.root.IsPart := Or.inr (isPattern_of_parse valid h)
  have short := (readOff_boundsWritable valid).everywhere valid h address _ hat
  rcases hpart.at? hat with hterm | hpattern
  · cases hterm with
    | quantifier nonnegative ordered term repeatable spelling =>
        obtain ⟨shared, hshorthand, low, high, hbounds, rfl, rfl⟩ :=
          bounds_ofLabel nonnegative ordered spelling short
        refine ⟨short, _, rfl, ?_⟩
        rw [spelling.quantifierLabel_eq_spell]
        have hletter : Ascii.isAlphanumeric 'x'.toNat = true := by decide
        have hparse := parse_letter_mark hletter shared hbounds greedy
        rw [hshorthand] at hparse
        exact hparse
  · cases hpattern

/-- A lazy repetition in a group, with the same bound twice and in digits of another script. -/
theorem parse_label_equal_bounds :
    let pattern : Text := Text.ofString "(a\x7b" ++ [0x0664, Ascii.comma, 0x0664] ++
      Text.ofString "\x7d?)*"
    let repeated : Node := .quantifier 4 (some 4) false (.value 'a'.toNat) none
    pattern.Valid ∧ ∃ parsed, parse pattern = .ok parsed ∧
      parsed.root.at? [.element 0, .repeated, .element 0] = some repeated ∧
      repeated.BoundsWritable ∧
      ∃ label, repeated.label = .ok label ∧ label = Text.ofString "\x7b4\x7d?" ∧
        parse (Text.ofString "x" ++ label) =
          .ok ⟨.alternative [.quantifier 4 (some 4) false (.value 'x'.toNat) none], 0⟩ := by
  intro pattern repeated
  have valid : pattern.Valid := by decide
  have hparse : ∃ parsed, parse pattern = .ok parsed ∧
      parsed.root.at? [.element 0, .repeated, .element 0] = some repeated := ⟨_, rfl, rfl⟩
  obtain ⟨parsed, hparsed, hat⟩ := hparse
  obtain ⟨hwritable, label, hlabel, hread⟩ := parse_label valid hparsed hat
  refine ⟨valid, parsed, hparsed, hat, hwritable, label, hlabel, ?_, hread⟩
  exact Except.ok.inj hlabel.symm

end Pattern

end RegexTrace
