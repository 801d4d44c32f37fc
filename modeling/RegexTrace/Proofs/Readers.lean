import Mathlib.Algebra.Group.Nat.Defs
import RegexTrace.Pattern.Tree
import RegexTrace.Proofs.Escapes

/-!
# What the readers of a pattern answer

Every reader takes code points that are there, places a fault at a distance that lies within the
text or at its end, and answers with nodes of the grammar.
-/

namespace RegexTrace

section Steps

variable {α β ε : Type}

theorem exists_of_bind_ok {x : Except ε α} {f : α → Except ε β} {b : β} (h : x >>= f = .ok b) :
    ∃ a, x = .ok a ∧ f a = .ok b := by
  cases x with
  | error fault => cases h
  | ok a => exact ⟨a, rfl, h⟩

theorem exists_of_map_ok {x : Except ε α} {f : α → β} {b : β} (h : x.map f = .ok b) :
    ∃ a, x = .ok a ∧ f a = b := by
  cases x with
  | error fault => cases h
  | ok a => exact ⟨a, rfl, Except.ok.inj h⟩

end Steps

namespace Text.Valid

theorem drop {t : Text} (h : t.Valid) (n : Nat) : Valid (t.drop n) :=
  fun c hc => h c (List.mem_of_mem_drop hc)

theorem tail {c : CodePoint} {t : Text} (h : Valid (c :: t)) : t.Valid :=
  fun d hd => h d (List.mem_cons_of_mem c hd)

theorem head {c : CodePoint} {t : Text} (h : Valid (c :: t)) : c < codePointLimit :=
  h c List.mem_cons_self

end Text.Valid

theorem isCodePoint_natCast {n : Nat} (h : n < codePointLimit) : IsCodePoint n :=
  ⟨Int.natCast_nonneg n, Int.ofNat_lt.mpr h⟩

namespace Numeral

/-- A numeral is refused only when it is too long. -/
theorem ofDigits_spec (digits : Text) :
    (∃ n, ofDigits digits = .ok n) ∨
      (∃ fault, ofDigits digits = .error fault) ∧
        digitLimit < digits.length := by
  unfold ofDigits
  split
  · next hlong => exact Or.inr ⟨⟨_, rfl⟩, hlong⟩
  · exact Or.inl ⟨_, rfl⟩

end Numeral

namespace Pattern

/-- A reading that takes at most `width` code points and answers with something good, or that
places a fault at most `distance` code points on. -/
def Reading.Fits {α : Type} (width distance : Nat) (good : α → Prop) : Reading (α × Nat) → Prop
  | .ok (answer, taken) => good answer ∧ taken ≤ width
  | .error (_, further) => further ≤ distance

namespace Reading.Fits

variable {α : Type} {width distance : Nat} {good : α → Prop}

theorem ite {condition : Prop} [Decidable condition] {r s : Reading (α × Nat)}
    (h : condition → Fits width distance good r) (h' : ¬ condition → Fits width distance good s) :
    Fits width distance good (if condition then r else s) := by
  split
  · next hyes => exact h hyes
  · next hno => exact h' hno

theorem weaken {width' distance' : Nat} {good' : α → Prop} {r : Reading (α × Nat)}
    (h : Fits width distance good r) (hwidth : width ≤ width') (hdistance : distance ≤ distance')
    (hgood : ∀ answer, good answer → good' answer) : Fits width' distance' good' r := by
  cases r with
  | ok answer => exact ⟨hgood _ h.1, Nat.le_trans h.2 hwidth⟩
  | error fault => exact Nat.le_trans h hdistance

end Reading.Fits

/-- A node that an escape can stand for: inside brackets it is no anchor. -/
def IsEscape (inClass : Bool) : Node → Prop
  | .anchor kind => inClass = false ∧ kind.Known
  | .value c => IsCodePoint c
  | .escape kind => kind.Known
  | .unsupported kind _ => kind ∈ Node.unsupportedKinds
  | _ => False

theorem IsEscape.isItem {node : Node} (h : IsEscape true node) : node.IsItem := by
  cases node <;> first | exact h | exact h.elim | exact nomatch h.1

/-- What a mark can stand after: a term that is an anchor or can be repeated. -/
def IsAtom (atom : Node) : Prop := atom.IsTerm ∧ (isAnchor atom = true ∨ atom.Repeatable)

/-- An atom that is no group. -/
def IsSingle (atom : Node) : Prop := IsAtom atom ∧ atom.captures = []

theorem IsEscape.isSingle {node : Node} (h : IsEscape false node) : IsSingle node := by
  cases node with
  | anchor kind => exact ⟨⟨.anchor h.2, Or.inl rfl⟩, by simp [Node.captures]⟩
  | value c => exact ⟨⟨.value h, Or.inr trivial⟩, by simp [Node.captures]⟩
  | escape kind => exact ⟨⟨.escape h, Or.inr trivial⟩, by simp [Node.captures]⟩
  | unsupported kind raw => exact ⟨⟨.unsupported h, Or.inr trivial⟩, by simp [Node.captures]⟩
  | _ => exact h.elim

/-- The escape with a letter is an escape, and takes the letter and code points after it. -/
theorem readLetter_fits (inClass : Bool) {c : CodePoint} {rest : Text} (hc : c < codePointLimit) :
    (readLetter inClass c rest).Fits (rest.length + 1) (rest.length + 2) (IsEscape inClass) := by
  have hone : 1 ≤ rest.length + 1 := Nat.le_add_left 1 rest.length
  have hvalue {n : CodePoint} (h : n < codePointLimit ∨ n = c) : IsEscape inClass (.value n) :=
    isCodePoint_natCast (h.elim id fun heq => heq ▸ hc)
  obtain ⟨reader, hreader, heq⟩ := exists_letterReader inClass c rest
  rw [heq]
  cases hreader with
  | kind known => exact ⟨known, hone⟩
  | boundary known outside => exact ⟨⟨outside, known⟩, hone⟩
  | codePoint h => exact ⟨hvalue h, hone⟩
  | number =>
      have hdigits := (rest.takeWhile_prefix Unicode.isDigit).length_le
      refine ⟨List.mem_cons_self, ?_⟩
      rw [referenceWidth]
      omega
  | name _ less =>
      have hrest := length_tail_of_head? less
      unfold readNameReference
      split
      · next name width hname =>
          have hwidth := readGroupName?_width_le hname
          exact ⟨List.mem_cons_self, by omega⟩
      · exact Nat.succ_le_succ (by omega)
  | property =>
      unfold readProperty
      split
      · next inside hinside =>
          have hlt := beforeBrace?_length_lt hinside
          exact ⟨List.mem_cons_of_mem _ List.mem_cons_self, by omega⟩
      · exact Nat.zero_le _
  | unicode =>
      obtain ⟨hlt, hwidth⟩ := readUnicode_spec rest
      exact ⟨isCodePoint_natCast hlt, Nat.succ_le_succ hwidth⟩
  | control =>
      obtain ⟨n, tail, more, rfl, hread, -, hn⟩ := readControl_spec c rest
      simp only [hread]
      exact ⟨hvalue hn, by simp⟩
  | byte =>
      obtain ⟨n, tail, more, rfl, hread, -, hn⟩ := readByte_spec c rest
      simp only [hread]
      exact ⟨hvalue hn, by simp⟩

theorem readEscape_fits (inClass : Bool) {t : Text} (ht : t.Valid) :
    (readEscape inClass t).Fits t.length (t.length + 1) (IsEscape inClass) := by
  cases t with
  | nil => exact Nat.zero_le _
  | cons c rest => exact readLetter_fits inClass (Text.Valid.head ht)

/-- A class atom is an item. -/
theorem readClassAtom_fits {t : Text} (ht : t.Valid) :
    (readClassAtom t).Fits t.length t.length Node.IsItem := by
  unfold readClassAtom
  split
  · next rest =>
      have hescape := readEscape_fits true (Text.Valid.tail ht)
      cases h : readEscape true rest with
      | error fault =>
          rw [h] at hescape
          exact hescape
      | ok answer =>
          rw [h] at hescape
          exact ⟨hescape.1.isItem, Nat.succ_le_succ hescape.2⟩
  · next c rest _ => exact ⟨isCodePoint_natCast (Text.Valid.head ht), Nat.le_add_left 1 _⟩
  · exact Nat.zero_le _

theorem two_le_length_of_rangeFollows {t : Text} (h : rangeFollows t = true) : 2 ≤ t.length := by
  unfold rangeFollows at h
  split at h
  · exact Nat.le_add_left 2 _
  · cases h

/-- The items between two ends are items. -/
theorem rangeItems_fits {lower upper : Node} (hlower : lower.IsItem) (hupper : upper.IsItem)
    (width : Nat) :
    (rangeItems lower upper width).Fits width width fun items => ∀ item ∈ items, item.IsItem := by
  unfold rangeItems
  split
  · next low high =>
      refine .ite (fun _ => Nat.le_refl width) fun hordered => ⟨?_, Nat.le_refl width⟩
      exact List.forall_mem_singleton.mpr ⟨hlower, hupper, Int.not_lt.mp hordered⟩
  · have hhyphen : (Node.value Ascii.hyphen).IsItem := isCodePoint_natCast (by decide)
    refine ⟨List.forall_mem_cons.mpr ⟨hlower, ?_⟩, Nat.le_refl width⟩
    exact List.forall_mem_cons.mpr ⟨hhyphen, List.forall_mem_singleton.mpr hupper⟩

/-- The items at the start of a text are items of code points that are there. -/
theorem readClassItems_fits {t : Text} (ht : t.Valid) :
    (readClassItems t).Fits t.length t.length fun items => ∀ item ∈ items, item.IsItem := by
  have hlower := readClassAtom_fits ht
  unfold readClassItems
  cases hatom : readClassAtom t with
  | error fault =>
      rw [hatom] at hlower
      exact hlower
  | ok answer =>
      obtain ⟨lower, width⟩ := answer
      rw [hatom] at hlower
      simp only [bind, Except.bind]
      split
      · next hrange =>
          have htwo := two_le_length_of_rangeFollows hrange
          have hupper := readClassAtom_fits (t := (t.drop width).tail) fun c hc =>
            ht c (List.mem_of_mem_drop (List.mem_of_mem_tail hc))
          simp only [List.length_tail, List.length_drop] at htwo hupper
          split
          · next cause further herror =>
              rw [herror] at hupper
              have hfurther : further ≤ t.length - width - 1 := hupper
              have hwidth := hlower.2
              exact (by omega : width + 1 + further ≤ t.length)
          · next upper upperWidth hok =>
              rw [hok] at hupper
              have hwidth := hlower.2
              have hmore := hupper.2
              have hall : width + 1 + upperWidth ≤ t.length := by omega
              exact (rangeItems_fits hlower.1 hupper.1 _).weaken hall hall fun _ h => h
      · exact ⟨List.forall_mem_singleton.mpr hlower.1, hlower.2⟩

/-- The items up to the closing bracket are items. -/
theorem readClassBody_fits {t : Text} (ht : t.Valid) :
    ∀ (skip distance : Nat) (items : List Node), (∀ item ∈ items, item.IsItem) →
      (readClassBody skip distance items t).Fits (distance + t.length) (distance + t.length)
        fun items => ∀ item ∈ items, item.IsItem := by
  induction t with
  | nil =>
      intro skip distance items _
      rw [readClassBody]
      exact Nat.zero_le _
  | cons c rest ih =>
      intro skip distance items hitems
      have hlength : distance + 1 + rest.length = distance + (c :: rest).length := by
        rw [List.length_cons]
        omega
      have hrest := ih (Text.Valid.tail ht)
      rw [← hlength]
      cases skip with
      | succ skip => exact hrest skip (distance + 1) items hitems
      | zero =>
          rw [readClassBody]
          refine .ite (fun _ => ⟨?_, Nat.le_add_right _ _⟩) fun _ => ?_
          · exact fun item hitem => hitems item (List.mem_reverse.mp hitem)
          · have hfound := readClassItems_fits ht
            split
            · next cause further herror =>
                rw [herror] at hfound
                exact hlength ▸ Nat.add_le_add_left hfound distance
            · next found width hok =>
                rw [hok] at hfound
                refine hrest (width - 1) (distance + 1) _ fun item hitem => ?_
                rcases List.mem_append.mp hitem with hitem | hitem
                · exact hfound.1 item (List.mem_reverse.mp hitem)
                · exact hitems item hitem

/-- A class is an atom of code points that are there. -/
theorem readClass_fits {t : Text} (ht : t.Valid) :
    (readClass t).Fits t.length (t.length + 1) IsSingle := by
  have hbody : ∀ (negative : Bool) (lead : Nat) (rest : Text), rest.Valid →
      lead + rest.length = t.length + 1 →
        Reading.Fits t.length (t.length + 1) IsSingle
          ((readClassBody 0 lead [] rest).map fun answer =>
            (.charClass negative answer.1, answer.2 - 1)) := by
    intro negative lead rest hrest hlength
    have hitems := readClassBody_fits hrest 0 lead [] (List.forall_mem_nil _)
    cases h : readClassBody 0 lead [] rest with
    | error fault =>
        rw [h] at hitems
        exact hlength ▸ hitems
    | ok answer =>
        rw [h] at hitems
        have hwidth := hitems.2
        have hsingle : IsSingle (.charClass negative answer.1) :=
          ⟨⟨.charClass hitems.1, Or.inr trivial⟩, by simp [Node.captures]⟩
        exact ⟨hsingle, (by omega : answer.2 - 1 ≤ t.length)⟩
  unfold readClass
  split
  · next rest =>
      refine hbody true 2 rest (Text.Valid.tail ht) ?_
      rw [List.length_cons]
      omega
  · exact hbody false 1 t ht (Nat.add_comm 1 _)

/-- An atom is an atom of code points that are there. -/
theorem readAtom_fits {c : CodePoint} {rest : Text} (ht : Text.Valid (c :: rest)) :
    (readAtom c rest).Fits rest.length (rest.length + 1) IsSingle := by
  have hrest := Text.Valid.tail ht
  have hzero := Nat.zero_le rest.length
  unfold readAtom
  refine .ite (fun _ => readClass_fits hrest) fun _ => ?_
  refine .ite (fun _ => ⟨⟨⟨.dot, Or.inr trivial⟩, by simp [Node.captures]⟩, hzero⟩) fun _ => ?_
  have hanchor : ∀ kind : AnchorKind, kind.Known → IsSingle (.anchor kind) :=
    fun kind hkind => ⟨⟨.anchor hkind, Or.inl rfl⟩, by simp [Node.captures]⟩
  refine .ite (fun _ => ⟨hanchor .start trivial, hzero⟩) fun _ => ?_
  refine .ite (fun _ => ⟨hanchor .finish trivial, hzero⟩) fun _ => ?_
  refine .ite (fun _ => ?_) fun _ => .ite (fun _ => Nat.zero_le _) fun _ => ?_
  · refine (readEscape_fits false hrest).weaken (Nat.le_refl _) (Nat.le_refl _) ?_
    exact fun _ h => h.isSingle
  · have hvalue := Node.IsTerm.value (isCodePoint_natCast (Text.Valid.head ht))
    exact ⟨⟨⟨hvalue, Or.inr trivial⟩, by simp [Node.captures]⟩, hzero⟩

/-- What an opening says about its group: a known behaviour, and a name for a capturing group
only. -/
def OpeningFits (behaviour : Behaviour) (name : Option Text) : Prop :=
  behaviour.Known ∧ (name ≠ none → behaviour = .capturing)

theorem readNamed_spec {t : Text} {width : Nat} (hwidth : width ≤ t.length) :
    (∃ name taken, readNamed t width = .ok (.capturing, some name, taken) ∧ taken ≤ t.length) ∨
      readNamed t width = .error (.invalidGroupName, width + 1) := by
  unfold readNamed
  split
  · next name nameWidth hname =>
      have hle := readGroupName?_width_le hname
      rw [List.length_drop] at hle
      exact Or.inl ⟨name, _, rfl, by omega⟩
  · exact Or.inr rfl

/-- An opening takes code points that are there and says what a group can be, or places a fault in
the text or at its end. -/
theorem readOpening_spec (t : Text) :
    (∃ behaviour name width, readOpening t = .ok (behaviour, name, width) ∧
        OpeningFits behaviour name ∧ width ≤ t.length) ∨
      ∃ cause distance, readOpening t = .error (cause, distance) ∧ distance ≤ t.length + 1 := by
  have hnamed : ∀ width, width ≤ t.length → readOpening t = readNamed t width →
      (∃ behaviour name width, readOpening t = .ok (behaviour, name, width) ∧
          OpeningFits behaviour name ∧ width ≤ t.length) ∨
        ∃ cause distance, readOpening t = .error (cause, distance) ∧ distance ≤ t.length + 1 := by
    intro width hwidth heq
    rw [heq]
    rcases readNamed_spec hwidth with ⟨name, taken, hname, htaken⟩ | hfault
    · exact Or.inl ⟨_, _, taken, hname, ⟨trivial, fun _ => rfl⟩, htaken⟩
    · exact Or.inr ⟨_, _, hfault, Nat.succ_le_succ hwidth⟩
  unfold readOpening at hnamed ⊢
  split
  · next sign behaviour hfind =>
      have hknown : ∀ entry ∈ groupSigns, entry.2.Known := by
        simp [groupSigns, Behaviour.Known]
      have hsign := List.find?_some hfind
      refine Or.inl ⟨behaviour, none, _, rfl, ⟨?_, fun h => absurd rfl h⟩, ?_⟩
      · exact hknown _ (List.mem_of_find?_eq_some hfind)
      · obtain ⟨rest, hrest⟩ := Option.isSome_iff_exists.mp hsign
        rw [Text.dropLeading?_eq_some_iff.mp hrest, List.length_append]
        exact Nat.le_add_right _ _
  · next hnone =>
      rw [hnone] at hnamed
      split
      · exact hnamed 2 (Nat.le_add_left 2 _) rfl
      · exact hnamed 3 (Nat.le_add_left 3 _) rfl
      · exact Or.inr ⟨_, _, rfl, Nat.le_add_left 1 _⟩
      · exact Or.inl ⟨_, _, _, rfl, ⟨trivial, fun h => absurd rfl h⟩, Nat.zero_le _⟩

/-- A parenthesis that no question mark follows opens a capturing group. -/
theorem readOpening_capture {t : Text} (h : t.head? ≠ some Ascii.question) :
    readOpening t = .ok (.capturing, none, 0) := by
  cases t with
  | nil => rfl
  | cons c t =>
      have hc : ¬ Ascii.question = c := fun heq => h (by rw [← heq]; rfl)
      have hfind : (groupSigns.find? fun sign => Text.startsWith sign.1 (c :: t)) = none := by
        simp [groupSigns, Text.startsWith, Text.dropLeading?, Text.ofString, hc]
      unfold readOpening
      rw [hfind]
      dsimp only
      split
      · next heq => exact absurd (List.cons.inj heq).1.symm hc
      · next heq => exact absurd (List.cons.inj heq).1.symm hc
      · next heq => exact absurd (List.cons.inj heq).1.symm hc
      · rfl

/-- The bounds in braces as they are written, one or two runs of digits. -/
def Braces.texts (braces : Braces) : List Text := braces.low :: braces.high.toList

/-- Braces with bounds are there to be taken, and the bounds are shorter. -/
theorem Braces.read?_spec {t : Text} {braces : Braces} (h : Braces.read? t = some braces) :
    braces.width ≤ t.length ∧ ∀ digits ∈ braces.texts, digits.length ≤ braces.width := by
  unfold Braces.read? at h
  split at h
  · next t =>
      simp only at h
      split at h
      · cases h
      · split at h
        · next hdrop =>
            have hlow := congrArg List.length hdrop
            cases h
            simp only [List.length_drop, List.length_cons] at hlow ⊢
            exact ⟨by omega, List.forall_mem_singleton.mpr (Nat.le_add_right _ 2)⟩
        · next rest hdrop =>
            have hlow := congrArg List.length hdrop
            split at h
            · next hdrop =>
                have hhigh := congrArg List.length hdrop
                cases h
                simp only [List.length_drop, List.length_cons] at hlow hhigh ⊢
                refine ⟨by omega, List.forall_mem_cons.mpr ⟨?_, ?_⟩⟩
                · simp only
                  omega
                · refine List.forall_mem_singleton.mpr ?_
                  omega
            · cases h
        · cases h
  · cases h

section Bounds

variable {low high : Text} {width min max : Nat}

theorem Braces.bounds_one (hlow : Numeral.ofDigits low = .ok min) :
    Braces.bounds ⟨low, none, width⟩ = .ok (min, some min) := by
  rw [Braces.bounds, hlow]
  exact if_neg (Nat.lt_irrefl min)

theorem Braces.bounds_open (hlow : Numeral.ofDigits low = .ok min) :
    Braces.bounds ⟨low, some [], width⟩ = .ok (min, none) := by
  rw [Braces.bounds, hlow]
  rfl

/-- Two numbers in braces bound a repetition if they are in order. -/
theorem Braces.bounds_two (hne : high ≠ []) (hlow : Numeral.ofDigits low = .ok min)
    (hhigh : Numeral.ofDigits high = .ok max) :
    Braces.bounds ⟨low, some high, width⟩ =
      if max < min then .error .outOfOrder else .ok (min, some max) := by
  cases high with
  | nil => exact absurd rfl hne
  | cons c rest =>
      rw [Braces.bounds, hlow]
      dsimp only
      rw [hhigh]
      rfl

/-- Bounds are read in order, or they are out of order, or one of them is too long. -/
theorem Braces.bounds_spec (braces : Braces) :
    (∃ min max, braces.bounds = .ok (min, max) ∧ ∀ limit, max = some limit → min ≤ limit) ∨
      braces.bounds = .error .outOfOrder ∨
      ∃ fault, braces.bounds = .error (.numeral fault) ∧
        ∃ digits ∈ braces.texts, Numeral.digitLimit < digits.length := by
  obtain ⟨low, high, width⟩ := braces
  rcases Numeral.ofDigits_spec low with ⟨min, hmin⟩ | ⟨⟨fault, hfault⟩, hlong⟩
  · cases high with
    | none => exact Or.inl ⟨min, some min, bounds_one hmin, by simp⟩
    | some high =>
        cases high with
        | nil => exact Or.inl ⟨min, none, bounds_open hmin, by simp⟩
        | cons c rest =>
            rcases Numeral.ofDigits_spec (c :: rest) with ⟨max, hmax⟩ | ⟨⟨fault, hfault⟩, hlong⟩
            · rw [bounds_two (List.cons_ne_nil c rest) hmin hmax]
              split
              · exact Or.inr (Or.inl rfl)
              · next hordered =>
                  refine Or.inl ⟨min, some max, rfl, fun limit hlimit => ?_⟩
                  exact Option.some.inj hlimit ▸ Nat.not_lt.mp hordered
            · refine Or.inr (Or.inr ⟨fault, ?_, c :: rest, by simp [Braces.texts], hlong⟩)
              rw [Braces.bounds, hmin]
              dsimp only
              rw [hfault]
              rfl
  · refine Or.inr (Or.inr ⟨fault, ?_, low, List.mem_cons_self, hlong⟩)
    rw [Braces.bounds, hfault]
    rfl

end Bounds

/-- What a repetition mark has to be to make a term of an atom. -/
structure Repetition.WellFormed (repetition : Repetition) : Prop where
  ordered : ∀ limit, repetition.max = some limit → repetition.min ≤ limit
  spelling : Node.ShorthandFits repetition.min (repetition.max.map Int.ofNat) repetition.shorthand

/-- A bare mark that is read takes code points that are there and makes a term of an atom, greedy or
not. -/
theorem readBare?_spec {t : Text} {min : Nat} {max : Option Nat} {shorthand : Option Shorthand}
    {width : Nat} (h : readBare? t = .ok (some (min, max, shorthand, width))) :
    width ≤ t.length ∧
      ∀ greedy width, Repetition.WellFormed ⟨min, max, shorthand, greedy, width⟩ := by
  unfold readBare? at h
  split at h
  · cases h
    exact ⟨Nat.le_add_left 1 _, fun greedy width => ⟨by simp, ⟨rfl, rfl⟩⟩⟩
  · cases h
    exact ⟨Nat.le_add_left 1 _, fun greedy width => ⟨by simp, ⟨rfl, rfl⟩⟩⟩
  · cases h
    exact ⟨Nat.le_add_left 1 _, fun greedy width => ⟨by simp, ⟨rfl, rfl⟩⟩⟩
  · split at h
    · cases h
    · next braces hbraces =>
        have hwidth := (Braces.read?_spec hbraces).1
        rcases braces.bounds_spec with ⟨low, high, hbounds, hordered⟩ | hbounds | ⟨_, hbounds, -⟩
        · rw [hbounds] at h
          cases h
          exact ⟨hwidth, fun greedy width => ⟨hordered, trivial⟩⟩
        · rw [hbounds] at h
          cases h
        · rw [hbounds] at h
          cases h

/-- A bare mark is refused for bounds out of order, or for a bound that is too long. -/
theorem readBare?_error {t : Text} {fault : BoundsFault} (h : readBare? t = .error fault) :
    fault = .outOfOrder ∨ ∃ braces, Braces.read? t = some braces ∧
      ∃ digits ∈ braces.texts, Numeral.digitLimit < digits.length := by
  unfold readBare? at h
  split at h
  · cases h
  · cases h
  · cases h
  · split at h
    · cases h
    · next braces hbraces =>
        rcases braces.bounds_spec with ⟨low, high, hbounds, -⟩ | hbounds | ⟨_, hbounds, hlong⟩
        · rw [hbounds] at h
          cases h
        · rw [hbounds] at h
          cases h
          exact Or.inl rfl
        · exact Or.inr ⟨braces, hbraces, hlong⟩

/-- A mark that is read takes code points that are there and makes a term of an atom. -/
theorem Repetition.read?_spec {t : Text} {repetition : Repetition}
    (h : Repetition.read? t = .ok (some repetition)) :
    repetition.width ≤ t.length ∧ repetition.WellFormed := by
  unfold Repetition.read? at h
  cases hbare : readBare? t with
  | error fault =>
      rw [hbare] at h
      cases h
  | ok answer =>
      rw [hbare] at h
      cases answer with
      | none => cases h
      | some mark =>
          obtain ⟨min, max, shorthand, width⟩ := mark
          obtain ⟨hwidth, hformed⟩ := readBare?_spec hbare
          simp only [bind, Except.bind] at h
          split at h
          · next rest hdrop =>
              have hlength := congrArg List.length hdrop
              rw [List.length_drop, List.length_cons] at hlength
              cases h
              exact ⟨by simp only; omega, hformed false _⟩
          · cases h
            exact ⟨hwidth, hformed true _⟩

/-- A mark is refused for bounds out of order, or for a bound that is too long. -/
theorem Repetition.read?_error {t : Text} {fault : BoundsFault}
    (h : Repetition.read? t = .error fault) :
    fault = .outOfOrder ∨ ∃ braces, Braces.read? t = some braces ∧
      ∃ digits ∈ braces.texts, Numeral.digitLimit < digits.length := by
  unfold Repetition.read? at h
  cases hbare : readBare? t with
  | error other =>
      rw [hbare] at h
      exact readBare?_error (hbare.trans (congrArg Except.error (Except.error.inj h)))
  | ok answer =>
      rw [hbare] at h
      cases answer with
      | none => cases h
      | some mark =>
          simp only [bind, Except.bind] at h
          split at h <;> cases h

theorem Repetition.WellFormed.apply_isTerm {repetition : Repetition} (h : repetition.WellFormed)
    {atom : Node} (hterm : atom.IsTerm) (hrepeatable : atom.Repeatable) :
    (repetition.apply atom).IsTerm := by
  refine .quantifier (Int.natCast_nonneg _) (fun limit hlimit => ?_) hterm hrepeatable h.spelling
  obtain ⟨max, hmax, rfl⟩ := Option.map_eq_some_iff.mp hlimit
  exact Int.ofNat_le.mpr (h.ordered max hmax)

end Pattern

end RegexTrace
