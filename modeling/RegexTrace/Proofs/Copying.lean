import RegexTrace.Host.Spelling
import RegexTrace.Proofs.Delimiting
import RegexTrace.Proofs.Spelling

/-!
# What the respelling copies

The respelling goes through a pattern from left to right and knows of the code points before it only
whether it is inside brackets. What the reader of patterns takes at once, such as an escape, a class
in brackets or a mark, is copied as a whole, and after it the respelling is outside brackets again.

## Implementation notes

Constructs that never match are left out: what stands between the braces of a property may hold
signs that lead the respelling astray.
-/

namespace RegexTrace

/-- A node that is not a construct without a meaning. -/
def Node.Supported : Node → Prop
  | .unsupported _ _ => False
  | _ => True

instance (node : Node) : Decidable node.Supported :=
  match node with
  | .unsupported _ _ => .isFalse id
  | .anchor _ | .value _ | .dot | .escape _ | .charClass _ _ | .alternative _ | .disjunction _
  | .group _ _ _ _ | .quantifier _ _ _ _ _ | .range _ _ | .alien | .absent => .isTrue trivial

namespace Host

open Pattern

/-- The code points that the respelling copies wherever they stand, and that change nothing. -/
def Inert (c : CodePoint) : Prop :=
  c ∉ [Ascii.backslash, Ascii.openBracket, Ascii.closeBracket, Ascii.dollar, Ascii.openParen,
    Ascii.openBrace]

instance (c : CodePoint) : Decidable (Inert c) := inferInstanceAs (Decidable (¬ _))

theorem Inert.of_property (property : CodePoint → Bool) {c : CodePoint} (h : property c = true)
    (hnone : [Ascii.backslash, Ascii.openBracket, Ascii.closeBracket, Ascii.dollar, Ascii.openParen,
      Ascii.openBrace].any property = false) : Inert c := by
  intro hc
  have hproperty := List.any_eq_false.mp hnone c hc
  exact hproperty h

/-- A piece of a text is copied, and the respelling goes on after it, inside brackets or outside as
told by two flags. -/
def Copies (multiline before after : Bool) (piece t : Text) : Prop :=
  respellFrom multiline before (piece ++ t) = piece ++ respellFrom multiline after t

namespace Copies

variable {multiline before between after inClass : Bool} {piece more t : Text} {c : CodePoint}

theorem nil : Copies multiline inClass inClass [] t := rfl

theorem append (h : Copies multiline before between piece (more ++ t))
    (h' : Copies multiline between after more t) :
    Copies multiline before after (piece ++ more) t := by
  rw [Copies, List.append_assoc, h, h', List.append_assoc]

theorem escape : Copies multiline inClass inClass [Ascii.backslash, c] t := by
  rw [Copies, List.cons_append, List.singleton_append, respellFrom]
  rfl

theorem inside (h : c ≠ Ascii.backslash) :
    Copies multiline true (c != Ascii.closeBracket) [c] t := by
  rw [Copies, List.singleton_append, respellFrom]
  · rfl
  · exact fun d rest hc => absurd hc h

theorem outside (hbackslash : c ≠ Ascii.backslash) (hbracket : c ≠ Ascii.openBracket)
    (hparen : c = Ascii.openParen → ∀ rest, t ≠ Ascii.question :: Ascii.less :: rest)
    (hone : respellOne multiline c t = [c]) : Copies multiline false false [c] t := by
  rw [Copies, List.singleton_append, respellFrom_outside t multiline hbackslash hbracket hparen,
    hone]

/-- An inert code point is copied. -/
theorem of_inert (h : Inert c) : Copies multiline inClass inClass [c] t := by
  simp only [Inert, List.mem_cons, List.not_mem_nil, or_false, not_or] at h
  obtain ⟨hbackslash, hbracket, hclose, hdollar, hparen, hbrace⟩ := h
  cases inClass with
  | true =>
      have hinside : Copies multiline true (c != Ascii.closeBracket) [c] t := inside hbackslash
      rwa [bne_iff_ne.mpr hclose] at hinside
  | false =>
      apply outside hbackslash hbracket (fun heq => absurd heq hparen)
      rw [respellOne, if_neg (fun heq => hdollar heq.1), if_neg (fun heq => hbrace heq.1)]

theorem of_forall_inert (h : ∀ c ∈ piece, Inert c) : Copies multiline inClass inClass piece t := by
  induction piece with
  | nil => exact nil
  | cons c piece ih =>
      obtain ⟨hc, hpiece⟩ := List.forall_mem_cons.mp h
      exact (of_inert (t := piece ++ t) hc).append (ih hpiece)

/-- Inside brackets what is no backslash and no closing bracket is copied. -/
theorem of_forall_inside (h : ∀ c ∈ piece, c ≠ Ascii.backslash ∧ c ≠ Ascii.closeBracket) :
    Copies multiline true true piece t := by
  induction piece with
  | nil => exact nil
  | cons c piece ih =>
      obtain ⟨hc, hpiece⟩ := List.forall_mem_cons.mp h
      have hinside : Copies multiline true (c != Ascii.closeBracket) [c] (piece ++ t) :=
        inside hc.1
      rw [bne_iff_ne.mpr hc.2] at hinside
      exact hinside.append (ih hpiece)

end Copies

/-- What an escape takes after its letter: inert code points, or a number in braces. -/
def EscapeTail (c : CodePoint) (tail : Text) : Prop :=
  (∀ d ∈ tail, Inert d) ∨
    c = 'u'.toNat ∧ ∃ digits, tail = Ascii.openBrace :: (digits ++ [Ascii.closeBrace]) ∧
      ∀ d ∈ digits, Ascii.isHex d = true

theorem inert_of_isHex {c : CodePoint} (h : Ascii.isHex c = true) : Inert c :=
  .of_property Ascii.isHex h (by decide)

theorem escapeTail_of_forall_isHex {c : CodePoint} {tail : Text}
    (h : ∀ d ∈ tail, Ascii.isHex d = true) : EscapeTail c tail :=
  Or.inl fun d hd => inert_of_isHex (h d hd)

/-- A number in braces, or four digits, or nothing is taken after `u`. -/
theorem readUnicode_tail (rest : Text) :
    ∃ tail more, rest = tail ++ more ∧ (readUnicode rest).2 = tail.length ∧
      EscapeTail 'u'.toNat tail := by
  rw [readUnicode_eq]
  cases hbraced : readBraced? rest with
  | none =>
      cases hhex : readHex? 4 rest with
      | none => exact ⟨[], rest, rfl, rfl, Or.inl nofun⟩
      | some codePoint =>
          obtain ⟨hlength, hdigits⟩ := isHex_of_readHex? hhex
          exact ⟨rest.take 4, rest.drop 4, (List.take_append_drop 4 rest).symm, hlength.symm,
            escapeTail_of_forall_isHex hdigits⟩
  | some found =>
      unfold readBraced? at hbraced
      split at hbraced
      · next rest =>
          obtain ⟨digits, hdigits, hfound⟩ := Option.bind_eq_some_iff.mp hbraced
          obtain ⟨codePoint, hcode, rfl⟩ := Option.map_eq_some_iff.mp hfound
          obtain ⟨-, more, rfl⟩ := beforeBrace?_eq_some_iff.mp hdigits
          exact ⟨Ascii.openBrace :: (digits ++ [Ascii.closeBrace]), more, by simp, by simp,
            Or.inr ⟨rfl, digits, rfl, isHex_of_bracedCodePoint? hcode⟩⟩
      · cases hbraced

/-- What an escape with a meaning takes after its letter. -/
theorem readLetter_tail (inClass : Bool) (c : CodePoint) (rest : Text) :
    (readLetter inClass c rest).Answers fun node width => node.Supported →
      ∃ tail more, rest = tail ++ more ∧ width = tail.length + 1 ∧ EscapeTail c tail := by
  have taken : ∀ {node : Node} {tail more : Text}, rest = tail ++ more → EscapeTail c tail →
      Reading.Answers (.ok (node, tail.length + 1)) fun node width => node.Supported →
        ∃ tail more, rest = tail ++ more ∧ width = tail.length + 1 ∧ EscapeTail c tail :=
    fun hrest htail => .ok fun _ => ⟨_, _, hrest, rfl, htail⟩
  have unsupported : ∀ {kind t : Text} {width : Nat},
      Reading.Answers (.ok (unsupportedEscape kind t width)) fun node width => node.Supported →
        ∃ tail more, rest = tail ++ more ∧ width = tail.length + 1 ∧ EscapeTail c tail :=
    .ok fun h => h.elim
  obtain ⟨reader, hreader, heq⟩ := exists_letterReader inClass c rest
  rw [heq]
  cases hreader with
  | kind | boundary | codePoint => exact taken rfl (Or.inl nofun : EscapeTail c [])
  | number => exact unsupported
  | name =>
      unfold readNameReference
      split
      · exact unsupported
      · exact .error
  | property =>
      unfold readProperty
      split
      · exact unsupported
      · exact .error
  | unicode hc =>
      obtain ⟨tail, more, hrest, hwidth, htail⟩ := readUnicode_tail rest
      simp only [hwidth]
      exact taken hrest (hc ▸ htail)
  | control =>
      obtain ⟨n, tail, more, hrest, hread, hletters, -⟩ := readControl_spec c rest
      simp only [hread]
      have hinert : ∀ d ∈ tail, Inert d := fun d hd =>
        .of_property Unicode.isLetter (hletters d hd) (by decide)
      exact taken hrest (Or.inl hinert)
  | byte =>
      obtain ⟨n, tail, more, hrest, hread, hdigits, -⟩ := readByte_spec c rest
      simp only [hread]
      exact taken hrest (escapeTail_of_forall_isHex hdigits)

section Brackets

variable (multiline : Bool)

/-- Inside brackets an escape with a meaning is copied. -/
theorem copies_escape_inside {c : CodePoint} {tail : Text} (h : EscapeTail c tail) (more : Text) :
    Copies multiline true true (Ascii.backslash :: c :: tail) more := by
  have htail : ∀ d ∈ tail, d ≠ Ascii.backslash ∧ d ≠ Ascii.closeBracket := by
    have hinert : ∀ d, Inert d → d ≠ Ascii.backslash ∧ d ≠ Ascii.closeBracket := by
      intro d hd
      simp only [Inert, List.mem_cons, List.not_mem_nil, or_false, not_or] at hd
      exact ⟨hd.1, hd.2.2.1⟩
    rcases h with htail | ⟨-, digits, rfl, hdigits⟩
    · exact fun d hd => hinert d (htail d hd)
    · have hbraces : ∀ d ∈ digits ++ [Ascii.closeBrace],
          d ≠ Ascii.backslash ∧ d ≠ Ascii.closeBracket :=
        List.forall_mem_append.mpr
          ⟨fun d hd => hinert d (inert_of_isHex (hdigits d hd)), by decide⟩
      exact List.forall_mem_cons.mpr ⟨by decide, hbraces⟩
  exact Copies.escape.append (Copies.of_forall_inside htail)

/-- One atom of a class is copied. -/
theorem copies_classAtom {t : Text} {node : Node} {width : Nat}
    (h : readClassAtom t = .ok (node, width)) (supported : node.Supported)
    (hclose : t.head? ≠ some Ascii.closeBracket) :
    ∃ piece more, t = piece ++ more ∧ width = piece.length ∧ piece ≠ [] ∧
      Copies multiline true true piece more := by
  unfold readClassAtom at h
  split at h
  · next rest =>
      obtain ⟨⟨node', n⟩, hescape, heq⟩ := exists_of_map_ok h
      cases heq
      cases rest with
      | nil => cases hescape
      | cons c rest =>
          obtain ⟨tail, more, rfl, rfl, htail⟩ := readLetter_tail true c rest _ _ hescape supported
          exact ⟨Ascii.backslash :: c :: tail, more, rfl, rfl, nofun,
            copies_escape_inside multiline htail more⟩
  · next c rest hbackslash =>
      cases h
      have hinside : Copies multiline true (c != Ascii.closeBracket) [c] rest :=
        .inside hbackslash
      rw [bne_iff_ne.mpr fun hc => hclose (congrArg some hc)] at hinside
      exact ⟨[c], rest, rfl, rfl, nofun, hinside⟩
  · cases h

/-- The items of a class that are read at once are copied. -/
theorem copies_classItems {t : Text} {found : List Node} {width : Nat}
    (h : readClassItems t = .ok (found, width)) (supported : ∀ item ∈ found, item.Supported)
    (hclose : t.head? ≠ some Ascii.closeBracket) :
    ∃ piece more, t = piece ++ more ∧ width = piece.length ∧ piece ≠ [] ∧
      Copies multiline true true piece more := by
  unfold readClassItems at h
  obtain ⟨⟨lower, n⟩, hlower, h⟩ := exists_of_bind_ok h
  dsimp only at h
  split at h
  · next hrange =>
      split at h
      · cases h
      · next upper m hupper =>
          have hends : lower.Supported ∧ upper.Supported ∧ width = n + 1 + m := by
            unfold rangeItems at h
            split at h
            · split at h
              · cases h
              · cases h
                exact ⟨trivial, trivial, rfl⟩
            · cases h
              exact ⟨supported lower (by simp), supported upper (by simp), rfl⟩
          obtain ⟨hlowerSupported, hupperSupported, rfl⟩ := hends
          obtain ⟨first, more, rfl, rfl, hne, hfirst⟩ :=
            copies_classAtom multiline hlower hlowerSupported hclose
          rw [List.drop_left] at hrange hupper
          -- a range sign counts only before something that does not close the class
          obtain ⟨c, rest, rfl, hc⟩ : ∃ c rest, more = Ascii.hyphen :: c :: rest ∧
              c ≠ Ascii.closeBracket := by
            unfold rangeFollows at hrange
            split at hrange
            · next c rest => exact ⟨c, rest, rfl, bne_iff_ne.mp hrange⟩
            · cases hrange
          obtain ⟨second, more, hsplit, rfl, -, hsecond⟩ :=
            copies_classAtom multiline hupper hupperSupported fun hhead =>
              hc (Option.some.inj hhead)
          rw [List.tail_cons] at hsplit
          rw [hsplit] at hfirst ⊢
          have hhyphen : Copies multiline true true [Ascii.hyphen] (second ++ more) :=
            .of_inert (by decide)
          refine ⟨first ++ Ascii.hyphen :: second, more, by simp, ?_, by simp, ?_⟩
          · simp only [List.length_append, List.length_cons]
            omega
          · exact hfirst.append (hhyphen.append hsecond)
  · cases h
    exact copies_classAtom multiline hlower (supported lower List.mem_cons_self) hclose

/-- The items that were read already are among those of the class. -/
theorem subset_of_readClassBody {t : Text} {skip distance : Nat} {items found : List Node}
    {last : Nat} (h : readClassBody skip distance items t = .ok (found, last)) :
    ∀ item ∈ items, item ∈ found := by
  induction t generalizing skip distance items with
  | nil =>
      rw [readClassBody] at h
      cases h
  | cons c rest ih =>
      cases skip with
      | succ skip => exact ih h
      | zero =>
          rw [readClassBody] at h
          split at h
          · cases h
            exact fun item hitem => List.mem_reverse.mpr hitem
          · split at h
            · cases h
            · exact fun item hitem => ih h item (List.mem_append_right _ hitem)

/-- The items of a class are copied up to its closing bracket. -/
theorem copies_classBody {t : Text} {distance : Nat} {items found : List Node} {last : Nat}
    (h : readClassBody 0 distance items t = .ok (found, last))
    (supported : ∀ item ∈ found, item.Supported) :
    ∃ piece more, t = piece ++ more ∧ last = distance + piece.length ∧
      Copies multiline true false piece more := by
  induction hlength : t.length using Nat.strongRecOn generalizing t distance items with
  | ind n ih =>
      subst hlength
      cases t with
      | nil =>
          rw [readClassBody] at h
          cases h
      | cons c rest =>
          rw [readClassBody] at h
          split at h
          · next hc =>
              subst hc
              cases h
              exact ⟨[Ascii.closeBracket], rest, rfl, rfl, Copies.inside (by decide)⟩
          · next hc =>
              split at h
              · cases h
              · next inner width hinner =>
                  have hsupported : ∀ item ∈ inner, item.Supported := fun item hitem =>
                    supported item (subset_of_readClassBody h item
                      (List.mem_append_left _ (List.mem_reverse.mpr hitem)))
                  obtain ⟨piece, more, hsplit, rfl, hne, hpiece⟩ :=
                    copies_classItems multiline hinner hsupported
                      fun hhead => hc (Option.some.inj hhead)
                  obtain ⟨d, piece, rfl⟩ := List.exists_cons_of_ne_nil hne
                  rw [List.cons_append] at hsplit
                  obtain ⟨rfl, rfl⟩ := List.cons.inj hsplit
                  rw [List.length_cons, Nat.add_sub_cancel, readClassBody_skip] at h
                  have hshorter : more.length < (c :: (piece ++ more)).length := by
                    rw [List.length_cons, List.length_append]
                    omega
                  obtain ⟨others, left, rfl, rfl, hothers⟩ := ih _ hshorter h rfl
                  refine ⟨c :: piece ++ others, left, by simp, ?_, hpiece.append hothers⟩
                  simp only [List.length_append, List.length_cons]
                  omega

/-- A class in brackets is copied after its opening bracket. -/
theorem copies_class {t : Text} {atom : Node} {width : Nat} (h : readClass t = .ok (atom, width))
    (supported : ∀ node ∈ atom.subnodes, node.Supported) :
    ∃ piece more, t = piece ++ more ∧ width = piece.length ∧
      Copies multiline true false piece more := by
  have hitems : ∀ {negative : Bool} {items : List Node}, atom = .charClass negative items →
      ∀ item ∈ items, item.Supported := by
    rintro negative items rfl item hitem
    apply supported
    rw [Node.subnodes]
    exact List.mem_cons_of_mem _ (Node.mem_subnodesAll.mpr ⟨item, hitem, item.mem_subnodes_self⟩)
  unfold readClass at h
  split at h
  · next rest =>
      obtain ⟨⟨items, last⟩, hbody, heq⟩ := exists_of_map_ok h
      cases heq
      obtain ⟨piece, more, rfl, rfl, hpiece⟩ := copies_classBody multiline hbody (hitems rfl)
      have hcaret : Copies multiline true true [Ascii.caret] (piece ++ more) :=
        .of_inert (by decide)
      exact ⟨Ascii.caret :: piece, more, rfl, by simp [Nat.add_comm], hcaret.append hpiece⟩
  · obtain ⟨⟨items, last⟩, hbody, heq⟩ := exists_of_map_ok h
    cases heq
    obtain ⟨piece, more, rfl, rfl, hpiece⟩ := copies_classBody multiline hbody (hitems rfl)
    exact ⟨piece, more, rfl, by simp, hpiece⟩

end Brackets

section Marks

variable (multiline : Bool)

/-- Bounds in braces are an opening brace and inert code points. -/
theorem exists_of_bracesRead? {t : Text} {braces : Braces} (h : Braces.read? t = some braces) :
    ∃ inner more, t = Ascii.openBrace :: (inner ++ more) ∧ braces.width = inner.length + 1 ∧
      ∀ c ∈ inner, Inert c := by
  have hdigits : ∀ t : Text, ∀ c ∈ t.takeWhile Unicode.isDecimal, Inert c := fun t c hc =>
    .of_property Unicode.isDecimal (List.all_eq_true.mp List.all_takeWhile c hc) (by decide)
  have hsplit : ∀ t : Text, t.takeWhile Unicode.isDecimal ++
      t.drop (t.takeWhile Unicode.isDecimal).length = t := fun t =>
    List.prefix_iff_eq_append.mp (List.takeWhile_prefix _)
  unfold Braces.read? at h
  split at h
  · next t =>
      dsimp only at h
      split at h
      · cases h
      have hlow := hsplit t
      split at h
      · next more hdrop =>
          cases h
          rw [hdrop] at hlow
          refine ⟨t.takeWhile Unicode.isDecimal ++ [Ascii.closeBrace], more, ?_, by simp, ?_⟩
          · rw [List.append_assoc, List.singleton_append, hlow]
          · exact List.forall_mem_append.mpr ⟨hdigits t, by decide⟩
      · next rest hdrop =>
          have hhigh := hsplit rest
          split at h
          · next more hdrop' =>
              cases h
              rw [hdrop'] at hhigh
              rw [hdrop, ← hhigh] at hlow
              have hinert : ∀ c ∈ rest.takeWhile Unicode.isDecimal ++ [Ascii.closeBrace],
                  Inert c := List.forall_mem_append.mpr ⟨hdigits rest, by decide⟩
              refine ⟨t.takeWhile Unicode.isDecimal ++ Ascii.comma ::
                (rest.takeWhile Unicode.isDecimal ++ [Ascii.closeBrace]), more, ?_, ?_, ?_⟩
              · rw [List.append_assoc, List.cons_append, List.append_assoc,
                  List.singleton_append, hlow]
              · simp only [List.length_append, List.length_cons, List.length_nil]
                omega
              · refine List.forall_mem_append.mpr ⟨hdigits t, ?_⟩
                exact List.forall_mem_cons.mpr ⟨by decide, hinert⟩
          · cases h
      · cases h
  · cases h

theorem respellOne_of_bounds {t : Text} {braces : Braces}
    (h : Braces.read? (Ascii.openBrace :: t) = some braces) :
    respellOne multiline Ascii.openBrace t = [Ascii.openBrace] := by
  rw [respellOne, if_neg (fun heq => absurd heq.1 (by decide)), if_neg]
  rw [h]
  exact fun hnone => absurd hnone.2 (by simp)

theorem respellOne_of_no_bounds {t : Text} (h : Braces.read? (Ascii.openBrace :: t) = none) :
    respellOne multiline Ascii.openBrace t = "\\\x7b" := by
  rw [respellOne, if_neg (fun heq => absurd heq.1 (by decide)), if_pos]
  exact ⟨rfl, by rw [h]; rfl⟩

/-- A mark without what makes it lazy is copied. -/
theorem copies_bare {t : Text} {min : Nat} {max : Option Nat} {shorthand : Option Shorthand}
    {width : Nat} (h : readBare? t = .ok (some (min, max, shorthand, width))) :
    ∃ piece more, t = piece ++ more ∧ width = piece.length ∧
      Copies multiline false false piece more := by
  unfold readBare? at h
  split at h
  · next rest =>
      cases h
      exact ⟨[Ascii.star], rest, rfl, rfl, .of_inert (by decide)⟩
  · next rest =>
      cases h
      exact ⟨[Ascii.plus], rest, rfl, rfl, .of_inert (by decide)⟩
  · next rest =>
      cases h
      exact ⟨[Ascii.question], rest, rfl, rfl, .of_inert (by decide)⟩
  · split at h
    · cases h
    · next braces hbraces =>
        obtain ⟨⟨low, high⟩, -, heq⟩ := exists_of_bind_ok h
        cases heq
        obtain ⟨inner, more, rfl, hwidth, hinner⟩ := exists_of_bracesRead? hbraces
        have hopen : Copies multiline false false [Ascii.openBrace] (inner ++ more) :=
          .outside (by decide) (by decide) (fun heq => absurd heq (by decide))
            (respellOne_of_bounds multiline hbraces)
        exact ⟨Ascii.openBrace :: inner, more, rfl, by rw [hwidth, List.length_cons],
          hopen.append (.of_forall_inert hinner)⟩

/-- The mark after an atom is copied, if there is one. -/
theorem copies_mark {atom term : Node} {start next : Nat} {t : Text} {taken : Nat}
    (h : readTerm atom start next t = .ok (term, taken)) :
    ∃ piece more, t = piece ++ more ∧ taken = piece.length ∧
      Copies multiline false false piece more := by
  have hread : Repetition.read? t = .ok none ∧ taken = 0 ∨
      ∃ repetition, Repetition.read? t = .ok (some repetition) ∧ taken = repetition.width := by
    unfold readTerm at h
    split at h
    · cases h
    · cases h
    · next hnone =>
        cases h
        exact Or.inl ⟨hnone, rfl⟩
    · next repetition hsome =>
        split at h
        · cases h
        · cases h
          exact Or.inr ⟨repetition, hsome, rfl⟩
  rcases hread with ⟨-, rfl⟩ | ⟨repetition, hread, rfl⟩
  · exact ⟨[], t, rfl, rfl, .nil⟩
  · unfold Repetition.read? at hread
    obtain ⟨found, hbare, hread⟩ := exists_of_bind_ok hread
    cases found with
    | none => cases hread
    | some mark =>
        obtain ⟨min, max, shorthand, width⟩ := mark
        obtain ⟨piece, more, rfl, rfl, hpiece⟩ := copies_bare multiline hbare
        dsimp only at hread
        rw [List.drop_left] at hread
        split at hread
        · next rest _ =>
            cases hread
            have hlazy : Copies multiline false false [Ascii.question] rest :=
              .of_inert (by decide)
            exact ⟨piece ++ [Ascii.question], rest, by simp, by simp, hpiece.append hlazy⟩
        · cases hread
          exact ⟨piece, more, rfl, rfl, hpiece⟩

end Marks

section Openings

variable (multiline : Bool)

/-- The name of a group stands before the sign that closes it and consists of code points that
continue a name. -/
theorem exists_of_readGroupName? {t name : Text} {width : Nat}
    (h : readGroupName? t = some (name, width)) :
    ∃ more, t = name ++ Ascii.greater :: more ∧ width = name.length + 1 ∧ name ≠ [] ∧
      ∀ c ∈ name, continuesGroupName c = true := by
  cases t with
  | nil => cases h
  | cons c t =>
      rw [readGroupName?_cons] at h
      split at h
      · next hname =>
          cases h
          obtain ⟨hstarts, hcloses⟩ := hname
          obtain ⟨more, hmore⟩ := List.head?_eq_some_iff.mp hcloses
          have hsplit : t.takeWhile continuesGroupName ++
              t.drop (t.takeWhile continuesGroupName).length = t :=
            List.prefix_iff_eq_append.mp (List.takeWhile_prefix _)
          rw [hmore] at hsplit
          have hfirst : continuesGroupName c = true := by
            simp only [startsGroupName, Bool.or_eq_true, beq_iff_eq] at hstarts
            rw [continuesGroupName, Bool.or_eq_true]
            rcases hstarts with (hletter | rfl) | rfl
            · exact Or.inl (isWord_of_isAlphanumeric (by rw [Ascii.isAlphanumeric, hletter]; rfl))
            · exact Or.inl (by decide +kernel)
            · exact Or.inr rfl
          refine ⟨more, by rw [List.cons_append, hsplit], by rw [List.length_cons],
            List.cons_ne_nil _ _, ?_⟩
          exact List.forall_mem_cons.mpr ⟨hfirst, List.all_eq_true.mp List.all_takeWhile⟩
      · cases h

/-- What a group is named after: the sign before its name and what follows the name. -/
theorem exists_of_readOpening_named {t : Text} {behaviour : Behaviour} {name : Text} {width : Nat}
    (h : readOpening t = .ok (behaviour, some name, width)) :
    ∃ sign more, sign ∈ [[Ascii.question, Ascii.less],
        [Ascii.question, Ascii.upperP, Ascii.less]] ∧
      t = sign ++ (name ++ Ascii.greater :: more) ∧ width = sign.length + (name.length + 1) ∧
      name ≠ [] ∧ ∀ c ∈ name, continuesGroupName c = true := by
  have hnamed : ∀ (sign : Text) {rest : Text}, sign ∈ [[Ascii.question, Ascii.less],
        [Ascii.question, Ascii.upperP, Ascii.less]] →
      readNamed (sign ++ rest) sign.length = .ok (behaviour, some name, width) →
      ∃ sign' more, sign' ∈ [[Ascii.question, Ascii.less],
          [Ascii.question, Ascii.upperP, Ascii.less]] ∧
        sign ++ rest = sign' ++ (name ++ Ascii.greater :: more) ∧
        width = sign'.length + (name.length + 1) ∧ name ≠ [] ∧
        ∀ c ∈ name, continuesGroupName c = true := by
    intro sign rest hsign hread
    unfold readNamed at hread
    rw [List.drop_left] at hread
    split at hread
    · next hname =>
        cases hread
        obtain ⟨more, rfl, rfl, hne, hcontinues⟩ := exists_of_readGroupName? hname
        exact ⟨sign, more, hsign, rfl, rfl, hne, hcontinues⟩
    · cases hread
  unfold readOpening at h
  split at h
  · cases h
  · split at h
    · next rest _ _ => exact hnamed [Ascii.question, Ascii.less] (by simp) h
    · next rest _ _ => exact hnamed [Ascii.question, Ascii.upperP, Ascii.less] (by simp) h
    · cases h
    · cases h

/-- What opens a group without a name is copied. -/
theorem copies_opening {t : Text} {behaviour : Behaviour} {width : Nat}
    (h : readOpening t = .ok (behaviour, none, width)) :
    ∃ piece more, t = piece ++ more ∧ width = piece.length ∧
      Copies multiline false false (Ascii.openParen :: piece) more := by
  have hplain : ∀ rest : Text, (∀ more, rest ≠ Ascii.question :: Ascii.less :: more) →
      Copies multiline false false [Ascii.openParen] rest := by
    intro rest hrest
    refine .outside (by decide) (by decide) (fun _ => hrest) ?_
    rw [respellOne, if_neg (fun heq => absurd heq.1 (by decide)),
      if_neg (fun heq => absurd heq.1 (by decide))]
  have hlook : ∀ (c : CodePoint) (more : Text), c = Ascii.equals ∨ c = Ascii.bang →
      Copies multiline false false [Ascii.openParen, Ascii.question, Ascii.less, c] more := by
    intro c more hc
    have hmarks : marksLookbehind (c :: more) = true := by rcases hc with rfl | rfl <;> rfl
    have hinert : Copies multiline false false [c] more := by
      apply Copies.of_inert
      rcases hc with rfl | rfl <;> decide
    have hsign : Copies multiline false false [Ascii.openParen, Ascii.question, Ascii.less]
        ([c] ++ more) := by
      simp only [Copies, List.cons_append, List.nil_append]
      rw [respellFrom, if_pos hmarks]
      rfl
    exact hsign.append hinert
  unfold readOpening at h
  split at h
  · next sign behaviour hfind =>
      cases h
      have hstarts := List.find?_some hfind
      obtain ⟨more, hmore⟩ := Option.isSome_iff_exists.mp hstarts
      have hsplit := Text.dropLeading?_eq_some_iff.mp hmore
      refine ⟨sign, more, hsplit, rfl, ?_⟩
      have hmem := List.mem_of_find?_eq_some hfind
      simp only [groupSigns, List.mem_cons, Prod.mk.injEq, List.not_mem_nil, or_false] at hmem
      have hshort : ∀ c, Inert c → c ≠ Ascii.less →
          Copies multiline false false [Ascii.openParen, Ascii.question, c] more := by
        intro c hc hless
        have htail : Copies multiline false false [Ascii.question, c] more :=
          .of_forall_inert (List.forall_mem_cons.mpr
            ⟨by decide, List.forall_mem_singleton.mpr hc⟩)
        exact (hplain _ fun rest heq => hless (List.cons.inj (List.cons.inj heq).2).1).append htail
      rcases hmem with ⟨rfl, -⟩ | ⟨rfl, -⟩ | ⟨rfl, -⟩ | ⟨rfl, -⟩ | ⟨rfl, -⟩
      · exact hshort Ascii.colon (by decide) (by decide)
      · exact hshort Ascii.equals (by decide) (by decide)
      · exact hshort Ascii.bang (by decide) (by decide)
      · exact hlook Ascii.equals more (Or.inl rfl)
      · exact hlook Ascii.bang more (Or.inr rfl)
  · split at h
    · next rest _ _ =>
        unfold readNamed at h
        split at h <;> cases h
    · next rest _ _ =>
        unfold readNamed at h
        split at h <;> cases h
    · cases h
    · next hquestion =>
        cases h
        refine ⟨[], t, rfl, rfl, hplain t fun more heq => ?_⟩
        exact hquestion (Ascii.less :: more) heq

end Openings

end Host

end RegexTrace
