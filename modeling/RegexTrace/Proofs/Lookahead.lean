import RegexTrace.Proofs.Parsing

/-!
# How far the readers of a pattern look

A reader may look at code points beyond those that it takes, but it does not look past a fence: a
bar, a closing parenthesis or a closing bracket. So its answer stays the same when the text goes on
at a fence.

## Implementation notes

The closing brace of a property is sought wherever it stands, so a longer text can turn a fault into
an answer. Such an answer takes code points past the fence. This is why the laws of the readers that
meet properties are about the answers that take no more than what stands before the fence.
-/

namespace RegexTrace.Pattern

/-- The code points that no reader looks past. -/
def IsFence (c : CodePoint) : Prop :=
  c = Ascii.bar ∨ c = Ascii.closeParen ∨ c = Ascii.closeBracket

/-- A text that is empty or starts with a fence. -/
def Fenced (s : Text) : Prop := ∀ c, s.head? = some c → IsFence c

theorem fenced_nil : Fenced [] := nofun

theorem fenced_cons {c : CodePoint} (h : IsFence c) (s : Text) : Fenced (c :: s) :=
  fun _ heq => Option.some.inj heq ▸ h

theorem isFence_bar : IsFence Ascii.bar := Or.inl rfl

theorem isFence_closeParen : IsFence Ascii.closeParen := Or.inr (Or.inl rfl)

theorem isFence_closeBracket : IsFence Ascii.closeBracket := Or.inr (Or.inr rfl)

theorem IsFence.eq_false (property : CodePoint → Bool) {c : CodePoint} (h : IsFence c)
    (hnone : [Ascii.bar, Ascii.closeParen, Ascii.closeBracket].any property = false) :
    property c = false := by
  simp only [List.any_cons, List.any_nil, Bool.or_false, Bool.or_eq_false_iff] at hnone
  rcases h with rfl | rfl | rfl
  · exact hnone.1
  · exact hnone.2.1
  · exact hnone.2.2

theorem IsFence.ne {c d : CodePoint} (h : IsFence c)
    (hd : d ∉ [Ascii.bar, Ascii.closeParen, Ascii.closeBracket]) : c ≠ d := by
  rintro rfl
  rcases h with rfl | rfl | rfl <;> simp at hd

/-- A name is a code point that starts one and the run of those that continue one, before the sign
that closes it. -/
theorem readGroupName?_cons (c : CodePoint) (t : Text) :
    readGroupName? (c :: t) =
      if startsGroupName c = true ∧
          (t.drop (t.takeWhile continuesGroupName).length).head? = some Ascii.greater then
        some (c :: t.takeWhile continuesGroupName, (t.takeWhile continuesGroupName).length + 2)
      else none := by
  simp only [readGroupName?, List.length_cons, List.drop_succ_cons]
  cases startsGroupName c with
  | false => simp
  | true =>
      generalize t.drop (t.takeWhile continuesGroupName).length = left
      simp only [if_true, true_and]
      split
      · simp
      · next hnot =>
          rw [if_neg]
          intro hhead
          cases left with
          | nil => cases hhead
          | cons d left => exact hnot left (by rw [Option.some.inj hhead])

namespace Fenced

variable {s : Text} (hs : Fenced s)

include hs

theorem takeWhile_append {property : CodePoint → Bool}
    (hnone : [Ascii.bar, Ascii.closeParen, Ascii.closeBracket].any property = false) (a : Text) :
    (a ++ s).takeWhile property = a.takeWhile property := by
  induction a with
  | nil =>
      cases s with
      | nil => rfl
      | cons d s => exact List.takeWhile_cons_of_neg (by simp [(hs d rfl).eq_false property hnone])
  | cons c a ih => simp only [List.cons_append, List.takeWhile_cons, ih]

theorem any_head?_append (property : CodePoint → Bool)
    (hnone : [Ascii.bar, Ascii.closeParen, Ascii.closeBracket].any property = false) (a : Text) :
    (a ++ s).head?.any property = a.head?.any property := by
  cases a with
  | cons c a => rfl
  | nil =>
      cases s with
      | nil => rfl
      | cons d s => simp [(hs d rfl).eq_false property hnone]

theorem head?_append_eq_iff {c : CodePoint}
    (hc : c ∉ [Ascii.bar, Ascii.closeParen, Ascii.closeBracket]) (a : Text) :
    (a ++ s).head? = some c ↔ a.head? = some c := by
  cases a with
  | cons d a => rfl
  | nil =>
      refine ⟨fun h => ?_, nofun⟩
      exact absurd rfl ((hs c h).ne hc)

/-- So many hexadecimal digits are read before a fence or not at all. -/
theorem readHex?_append (count : Nat) (a : Text) : readHex? count (a ++ s) = readHex? count a := by
  unfold readHex?
  dsimp only
  rcases Nat.lt_or_ge a.length count with hlt | hle
  · have hshort : ¬ ((a.take count).length = count ∧ (a.take count).all Ascii.isHex = true) := by
      rw [List.take_of_length_le (Nat.le_of_lt hlt)]
      exact fun h => absurd h.1 (Nat.ne_of_lt hlt)
    rw [if_neg hshort]
    refine if_neg fun h => ?_
    cases s with
    | nil =>
        rw [List.append_nil] at h
        exact hshort h
    | cons d s =>
        have hd : d ∈ (a ++ d :: s).take count := by
          obtain ⟨k, hk⟩ : ∃ k, count = a.length + (k + 1) := ⟨count - a.length - 1, by omega⟩
          rw [hk, List.take_length_add_append, List.take_succ_cons]
          exact List.mem_append_right _ List.mem_cons_self
        have hhex := List.all_eq_true.mp h.2 d hd
        rw [(hs d rfl).eq_false Ascii.isHex (by decide)] at hhex
        cases hhex
  · rw [List.take_append_of_le_length hle]

/-- The name of a group is read before a fence or not at all. -/
theorem readGroupName?_append (a : Text) : readGroupName? (a ++ s) = readGroupName? a := by
  cases a with
  | nil =>
      cases s with
      | nil => rfl
      | cons d s =>
          have hd := (hs d rfl).eq_false startsGroupName (by decide)
          simp [readGroupName?, hd]
  | cons c a =>
      have hle : (a.takeWhile continuesGroupName).length ≤ a.length :=
        (a.takeWhile_prefix continuesGroupName).length_le
      rw [List.cons_append, readGroupName?_cons, readGroupName?_cons,
        hs.takeWhile_append (by decide), List.drop_append_of_le_length hle]
      simp only [hs.head?_append_eq_iff (c := Ascii.greater) (by decide)]

end Fenced

/-- What stands before the first closing brace. -/
theorem beforeBrace?_eq_some_iff {t inside : Text} :
    beforeBrace? t = some inside ↔
      Ascii.closeBrace ∉ inside ∧ ∃ rest, t = inside ++ Ascii.closeBrace :: rest := by
  unfold beforeBrace?
  constructor
  · intro h
    dsimp only at h
    split at h
    · next hlt =>
        cases h
        refine ⟨fun hmem => ?_, ?_⟩
        · simpa using List.all_eq_true.mp List.all_takeWhile _ hmem
        · have hsplit := List.takeWhile_append_dropWhile (p := (· != Ascii.closeBrace)) (l := t)
          cases hdrop : t.dropWhile (· != Ascii.closeBrace) with
          | nil =>
              rw [hdrop, List.append_nil] at hsplit
              exact absurd (congrArg List.length hsplit) (Nat.ne_of_lt hlt)
          | cons c rest =>
              have hc := List.head?_dropWhile_not (· != Ascii.closeBrace) t
              rw [hdrop] at hc hsplit
              refine ⟨rest, ?_⟩
              obtain rfl : c = Ascii.closeBrace := by simpa using hc
              exact hsplit.symm
    · cases h
  · rintro ⟨hinside, rest, rfl⟩
    have hrun :
        (inside ++ Ascii.closeBrace :: rest).takeWhile (· != Ascii.closeBrace) = inside := by
      rw [List.takeWhile_append_of_pos, List.takeWhile_cons_of_neg (by simp), List.append_nil]
      intro c hc
      rw [bne_iff_ne]
      rintro rfl
      exact hinside hc
    dsimp only
    rw [hrun, if_pos (by simp)]

theorem beforeBrace?_eq_none {t : Text} (h : Ascii.closeBrace ∉ t) : beforeBrace? t = none := by
  rw [Option.eq_none_iff_forall_ne_some]
  intro inside hinside
  obtain ⟨-, rest, rfl⟩ := beforeBrace?_eq_some_iff.mp hinside
  exact h (List.mem_append_right _ List.mem_cons_self)

theorem beforeBrace?_append {a : Text} (h : Ascii.closeBrace ∈ a) (s : Text) :
    beforeBrace? (a ++ s) = beforeBrace? a := by
  obtain ⟨inside, rest, rfl, hinside⟩ := List.eq_append_cons_of_mem h
  rw [beforeBrace?_eq_some_iff.mpr ⟨hinside, rest, rfl⟩]
  exact beforeBrace?_eq_some_iff.mpr ⟨hinside, rest ++ s, by simp⟩

/-- A closing brace that is only found beyond a fence has the fence before it. -/
theorem Fenced.exists_of_beforeBrace?_append {a s inside : Text} (hs : Fenced s)
    (h : Ascii.closeBrace ∉ a) (hinside : beforeBrace? (a ++ s) = some inside) :
    a.length < inside.length ∧ ∃ c ∈ inside, IsFence c := by
  obtain ⟨hnot, rest, heq⟩ := beforeBrace?_eq_some_iff.mp hinside
  have hfront : ∀ more, a = inside ++ more → Ascii.closeBrace :: rest = more ++ s → False := by
    rintro more rfl hmore
    cases more with
    | nil =>
        have hhead : s.head? = some Ascii.closeBrace := by
          rw [← s.nil_append, ← hmore]
          rfl
        exact absurd rfl ((hs Ascii.closeBrace hhead).ne (by decide))
    | cons c more =>
        obtain rfl := (List.cons.inj hmore).1
        exact h (List.mem_append_right _ List.mem_cons_self)
  rcases List.append_eq_append_iff.mp heq with ⟨more, rfl, hmore⟩ | ⟨more, ha, hmore⟩
  · cases more with
    | nil => exact (hfront [] (by simp) (by simpa using hmore.symm)).elim
    | cons c more =>
        refine ⟨by simp, c, by simp, hs c ?_⟩
        rw [hmore]
        rfl
  · exact (hfront more ha hmore).elim

theorem isHex_of_bracedCodePoint? {digits : Text} {c : CodePoint}
    (h : bracedCodePoint? digits = some c) : ∀ d ∈ digits, Ascii.isHex d = true := by
  unfold bracedCodePoint? at h
  split at h
  · next hdigits =>
      simp only [Bool.and_eq_true] at hdigits
      exact List.all_eq_true.mp hdigits.1.2
  · cases h

/-- The code point in braces after `u`, with the number of code points from brace to brace. -/
def readBraced? (t : Text) : Option (CodePoint × Nat) :=
  match t with
  | Ascii.openBrace :: rest =>
    (beforeBrace? rest).bind fun digits => (bracedCodePoint? digits).map (·, digits.length + 2)
  | _ => none

/-- An escape with `u` is a number in braces, or four digits, or the letter. -/
theorem readUnicode_eq (t : Text) :
    readUnicode t = (readBraced? t).getD
      (match readHex? 4 t with
      | some c => (c, 4)
      | none => ('u'.toNat, 0)) := by
  unfold readUnicode
  extract_lets braced
  have hbraced : readBraced? t = braced := rfl
  rw [hbraced]
  cases braced <;> rfl

namespace Fenced

variable {s : Text} (hs : Fenced s)

include hs

/-- A number in braces is read before a fence or not at all. -/
theorem readBraced?_append (a : Text) : readBraced? (a ++ s) = readBraced? a := by
  cases a with
  | nil =>
      cases s with
      | nil => rfl
      | cons d s =>
          have hd : d ≠ Ascii.openBrace := (hs d rfl).ne (by decide)
          simp [readBraced?, hd]
  | cons c a =>
      by_cases hc : c = Ascii.openBrace
      · subst hc
        simp only [List.cons_append, readBraced?]
        by_cases hbrace : Ascii.closeBrace ∈ a
        · rw [beforeBrace?_append hbrace]
        · rw [beforeBrace?_eq_none hbrace]
          refine Option.bind_eq_none_iff.mpr fun digits hdigits => ?_
          obtain ⟨-, d, hd, hfence⟩ := hs.exists_of_beforeBrace?_append hbrace hdigits
          rw [Option.map_eq_none_iff, Option.eq_none_iff_forall_ne_some]
          intro codePoint hcode
          have hhex := isHex_of_bracedCodePoint? hcode d hd
          rw [hfence.eq_false Ascii.isHex (by decide)] at hhex
          cases hhex
      · simp [readBraced?, hc]

theorem readUnicode_append (a : Text) : readUnicode (a ++ s) = readUnicode a := by
  rw [readUnicode_eq, readUnicode_eq, hs.readBraced?_append, hs.readHex?_append]

end Fenced

/-- The answers of a reading stay answers on a longer text, and no other answer of the longer text
takes at most so many code points. -/
structure Reading.Extends {α : Type} (limit : Nat) (short long : Reading (α × Nat)) : Prop where
  answer : ∀ x n, short = .ok (x, n) → long = .ok (x, n)
  within : ∀ x n, n ≤ limit → long = .ok (x, n) → short = .ok (x, n)

namespace Reading.Extends

variable {α : Type} {limit : Nat} {short long : Reading (α × Nat)}

theorem of_eq (h : long = short) : Extends limit short long :=
  ⟨fun _ _ hx => h.trans hx, fun _ _ _ hx => h.symm.trans hx⟩

/-- Readings after code points that were taken before. -/
theorem later (h : Extends limit short long) (taken : Nat) :
    Extends (limit + taken) (short.map fun (x, n) => (x, n + taken))
      (long.map fun (x, n) => (x, n + taken)) := by
  constructor
  · intro x n hx
    obtain ⟨⟨y, m⟩, hy, heq⟩ := exists_of_map_ok hx
    rw [h.answer y m hy]
    exact congrArg Except.ok heq
  · intro x n hn hx
    obtain ⟨⟨y, m⟩, hy, heq⟩ := exists_of_map_ok hx
    have hm : m + taken = n := (Prod.mk.inj heq).2
    rw [h.within y m (by omega) hy]
    exact congrArg Except.ok heq

end Reading.Extends

theorem unsupportedEscape_append {kind a s : Text} {width : Nat} (h : width ≤ a.length) :
    unsupportedEscape kind (a ++ s) width = unsupportedEscape kind a width := by
  rw [unsupportedEscape, unsupportedEscape, List.take_append_of_le_length h]

namespace Fenced

variable {s : Text} (hs : Fenced s)

include hs

theorem referenceWidth_append (a : Text) : referenceWidth (a ++ s) = referenceWidth a := by
  rw [referenceWidth, referenceWidth, hs.takeWhile_append (by decide)]

/-- A property is read before a fence if it is closed before it. -/
theorem readProperty_append (c : CodePoint) (a : Text) :
    Reading.Extends (a.length + 1) (readProperty c a) (readProperty c (a ++ s)) := by
  unfold readProperty
  by_cases hbrace : Ascii.closeBrace ∈ a
  · rw [beforeBrace?_append hbrace]
    refine .of_eq ?_
    cases hinside : beforeBrace? a with
    | none => rfl
    | some inside =>
        have hlt := beforeBrace?_length_lt hinside
        have hle : inside.length + 2 ≤ (c :: a).length := by
          simp only [List.length_cons]
          omega
        simp only [← List.cons_append, unsupportedEscape_append hle]
  · rw [beforeBrace?_eq_none hbrace]
    refine ⟨nofun, fun x n hn hx => ?_⟩
    cases hinside : beforeBrace? (a ++ s) with
    | none =>
        rw [hinside] at hx
        cases hx
    | some inside =>
        rw [hinside] at hx
        cases hx
        have hlt := (hs.exists_of_beforeBrace?_append hbrace hinside).1
        omega

/-- The escape with a letter is read before a fence, except for a property. -/
theorem readLetter_append (inClass : Bool) (c : CodePoint) (a : Text) :
    Reading.Extends (a.length + 1) (readLetter inClass c a) (readLetter inClass c (a ++ s)) := by
  have same : ∀ {r : Reading (Node × Nat)}, Reading.Extends (a.length + 1) r r := .of_eq rfl
  have halike : StartsLike a (a ++ s) :=
    ⟨hs.any_head?_append Unicode.isDigit (by decide) a,
      hs.head?_append_eq_iff (c := Ascii.less) (by decide) a,
      hs.head?_append_eq_iff (c := Ascii.openBrace) (by decide) a⟩
  obtain ⟨reader, hreader, heq⟩ := readsLetter inClass c a
  rw [heq a (.refl a), heq (a ++ s) halike]
  cases hreader with
  | kind | boundary | codePoint => exact same
  | number =>
      have hdigits := (a.takeWhile_prefix Unicode.isDigit).length_le
      have hwidth : referenceWidth a ≤ (c :: a).length := by
        rw [referenceWidth, List.length_cons]
        omega
      refine .of_eq ?_
      simp only [hs.referenceWidth_append, ← List.cons_append, unsupportedEscape_append hwidth]
  | name _ less =>
      obtain ⟨a, rfl⟩ := List.head?_eq_some_iff.mp less
      refine .of_eq ?_
      simp only [readNameReference, List.cons_append, List.tail_cons, hs.readGroupName?_append]
      cases hname : readGroupName? a with
      | none => rfl
      | some found =>
          have hwidth := readGroupName?_width_le hname
          have hle : found.2 + 2 ≤ (c :: Ascii.less :: a).length := by
            simp only [List.length_cons]
            omega
          simp only [← List.cons_append, unsupportedEscape_append hle]
  | property => exact hs.readProperty_append c a
  | unicode => exact .of_eq (by simp only [hs.readUnicode_append])
  | control =>
      refine .of_eq ?_
      cases a with
      | cons d a => rfl
      | nil =>
          cases s with
          | nil => rfl
          | cons d s =>
              have hd := (hs d rfl).eq_false Unicode.isLetter (by decide)
              simp [readControl, hd]
  | byte => exact .of_eq (by simp only [readByte, hs.readHex?_append])

end Fenced

end RegexTrace.Pattern
