import Mathlib.Data.List.Nodup
import RegexTrace.Proofs.Digits
import RegexTrace.Proofs.Listing

/-!
# Identifiers address the tree

The identifier of a node is a text: the root sign and a suffix for each move to the node. It can be
taken apart again in one way only, so the explanations of a tree have different identifiers, and
looking for a text among them is following the moves that the text spells.

## Implementation notes

A suffix is read by trying the longer signs first, since all of them begin with a hyphen. An index
is read as the longest run of digits, and only as numbers are written: a leading zero is refused.
-/

namespace RegexTrace

namespace Move

/-- The index at the start of a text, in the digits that numbers are written in, and what follows
it. -/
def readIndex? (t : Text) : Option (Nat × Text) :=
  let digits := t.takeWhile Ascii.isDigit
  let index := Numeral.value digits
  if Text.ofNat index = digits then some (index, t.dropWhile Ascii.isDigit) else none

/-- The move whose suffix starts a text, and what follows the suffix. -/
def read? (t : Text) : Option (Move × Text) :=
  match Text.dropLeading? "-child-0" t with
  | some rest => some (.repeated, rest)
  | none =>
    match Text.dropLeading? "-branch-" t with
    | some rest => (readIndex? rest).map fun found => (.branch found.1, found.2)
    | none =>
      match Text.dropLeading? "-" t with
      | some rest => (readIndex? rest).map fun found => (.element found.1, found.2)
      | none => none

end Move

namespace Address

/-- The moves whose suffixes make up a text, at most as many as the first number says. -/
def readMoves? : Nat → Text → Option Address
  | _, [] => some []
  | 0, _ :: _ => none
  | most + 1, c :: t =>
    (Move.read? (c :: t)).bind fun found => (readMoves? most found.2).map (found.1 :: ·)

/-- The address that an identifier spells. -/
def ofId? (id : Text) : Option Address :=
  (Text.dropLeading? "root" id).bind fun suffixes => readMoves? suffixes.length suffixes

end Address

namespace Move

/-- What is left of a text after some suffixes is empty or starts with a hyphen. -/
def Broken (t : Text) : Prop := ∀ c, t.head? = some c → c = Ascii.hyphen

theorem suffix_cons (move : Move) : ∃ rest, move.suffix = Ascii.hyphen :: rest := by
  cases move with
  | element index => exact ⟨Text.ofNat index, rfl⟩
  | repeated => exact ⟨_, rfl⟩
  | branch index => exact ⟨Text.ofString "branch-" ++ Text.ofNat index, rfl⟩

theorem broken_flatMap (address : Address) : Broken (address.flatMap suffix) := by
  cases address with
  | nil => exact nofun
  | cons move rest =>
      obtain ⟨tail, htail⟩ := move.suffix_cons
      intro c hc
      rw [List.flatMap_cons, htail] at hc
      exact (Option.some.inj hc).symm

theorem eq_of_readIndex? {t rest : Text} {index : Nat} (h : readIndex? t = some (index, rest)) :
    t = Text.ofNat index ++ rest := by
  simp only [readIndex?] at h
  split at h
  · next hdigits =>
      cases h
      rw [hdigits, List.takeWhile_append_dropWhile]
  · cases h

/-- An index is read where the text breaks off after it. -/
theorem readIndex?_ofNat (index : Nat) {rest : Text} (hrest : Broken rest) :
    readIndex? (Text.ofNat index ++ rest) = some (index, rest) := by
  have hdigits := Text.isDigit_of_mem_ofNat index
  have hstop : ∀ c, rest.head? = some c → Ascii.isDigit c = false := by
    intro c hc
    rw [hrest c hc]
    decide
  have htake : rest.takeWhile Ascii.isDigit = [] := by
    cases rest with
    | nil => rfl
    | cons c t => exact List.takeWhile_cons_of_neg (by simp [hstop c rfl])
  have hdrop : rest.dropWhile Ascii.isDigit = rest := by
    cases rest with
    | nil => rfl
    | cons c t => exact List.dropWhile_cons_of_neg (by simp [hstop c rfl])
  simp only [readIndex?, List.takeWhile_append_of_pos hdigits, List.dropWhile_append_of_pos hdigits,
    htake, hdrop, List.append_nil, Text.value_ofNat, if_true]

/-- A move that is read has its suffix at the start of the text. -/
theorem eq_of_read? {t rest : Text} {move : Move} (h : read? t = some (move, rest)) :
    t = move.suffix ++ rest := by
  unfold read? at h
  split at h
  · next hchild =>
      cases h
      exact Text.dropLeading?_eq_some_iff.mp hchild
  · split at h
    · next inner hbranch =>
        obtain ⟨⟨index, left⟩, hindex, heq⟩ := Option.map_eq_some_iff.mp h
        cases heq
        rw [Text.dropLeading?_eq_some_iff.mp hbranch, eq_of_readIndex? hindex]
        exact (List.append_assoc _ _ _).symm
    · split at h
      · next inner hhyphen =>
          obtain ⟨⟨index, left⟩, hindex, heq⟩ := Option.map_eq_some_iff.mp h
          cases heq
          rw [Text.dropLeading?_eq_some_iff.mp hhyphen, eq_of_readIndex? hindex]
          exact (List.append_assoc _ _ _).symm
      · cases h

/-- A move is read from its suffix where the text breaks off after it. -/
theorem read?_suffix (move : Move) {rest : Text} (hrest : Broken rest) :
    read? (move.suffix ++ rest) = some (move, rest) := by
  cases move with
  | repeated => rfl
  | branch index =>
      have hread : read? ((Move.branch index).suffix ++ rest) =
          (readIndex? (Text.ofNat index ++ rest)).map
            fun found => (Move.branch found.1, found.2) := rfl
      rw [hread, readIndex?_ofNat index hrest]
      rfl
  | element index =>
      -- an index starts with a digit, so neither of the longer signs is there
      obtain ⟨d, digits, hofNat⟩ := List.exists_cons_of_ne_nil (Text.ofNat_ne_nil index)
      have hd : Ascii.isDigit d = true :=
        Text.isDigit_of_mem_ofNat index d (hofNat ▸ List.mem_cons_self)
      have hc : ¬ 'c'.toNat = d := fun heq => by
        rw [← heq] at hd
        exact absurd hd (by decide)
      have hb : ¬ 'b'.toNat = d := fun heq => by
        rw [← heq] at hd
        exact absurd hd (by decide)
      have hchild : Text.dropLeading? "-child-0" ((Move.element index).suffix ++ rest) = none := by
        rw [suffix, hofNat]
        exact if_neg hc
      have hbranch : Text.dropLeading? "-branch-" ((Move.element index).suffix ++ rest) = none := by
        rw [suffix, hofNat]
        exact if_neg hb
      have hhyphen : Text.dropLeading? "-" ((Move.element index).suffix ++ rest) =
          some (Text.ofNat index ++ rest) := rfl
      simp only [read?, hchild, hbranch, hhyphen, readIndex?_ofNat index hrest, Option.map_some]

end Move

namespace Address

/-- Moves that are read make up the text. -/
theorem eq_of_readMoves? {most : Nat} {t : Text} {address : Address}
    (h : readMoves? most t = some address) : t = address.flatMap Move.suffix := by
  induction most generalizing t address with
  | zero =>
      cases t with
      | nil =>
          cases h
          rfl
      | cons c t => cases h
  | succ most ih =>
      cases t with
      | nil =>
          cases h
          rfl
      | cons c t =>
          rw [readMoves?] at h
          obtain ⟨⟨move, rest⟩, hmove, hrest⟩ := Option.bind_eq_some_iff.mp h
          obtain ⟨moves, hmoves, rfl⟩ := Option.map_eq_some_iff.mp hrest
          have hrest : rest = moves.flatMap Move.suffix := ih hmoves
          rw [Move.eq_of_read? hmove, List.flatMap_cons, hrest]

/-- Suffixes are read as their moves. -/
theorem readMoves?_suffixes (address : Address) {most : Nat} (h : address.length ≤ most) :
    readMoves? most (address.flatMap Move.suffix) = some address := by
  induction address generalizing most with
  | nil => cases most <;> rfl
  | cons move rest ih =>
      obtain ⟨most, rfl⟩ : ∃ less, most = less + 1 := ⟨most - 1, by simp at h; omega⟩
      have hread := move.read?_suffix (Move.broken_flatMap rest)
      obtain ⟨tail, htail⟩ := move.suffix_cons
      rw [List.flatMap_cons]
      rw [htail, List.cons_append] at hread ⊢
      rw [readMoves?, hread, Option.bind_some, ih (Nat.le_of_succ_le_succ h), Option.map_some]

theorem length_le_length_flatMap (address : Address) :
    address.length ≤ (address.flatMap Move.suffix).length := by
  induction address with
  | nil => exact Nat.le_refl 0
  | cons move rest ih =>
      obtain ⟨tail, htail⟩ := move.suffix_cons
      rw [List.flatMap_cons, htail, List.length_append, List.length_cons, List.length_cons]
      omega

/-- A text spells an address when it is the identifier of the address. -/
theorem ofId?_eq_some_iff {id : Text} {address : Address} :
    ofId? id = some address ↔ address.id = id := by
  constructor
  · intro h
    obtain ⟨suffixes, hroot, hmoves⟩ := Option.bind_eq_some_iff.mp h
    rw [Address.id, ← eq_of_readMoves? hmoves]
    exact (Text.dropLeading?_eq_some_iff.mp hroot).symm
  · rintro rfl
    have hroot : Text.dropLeading? "root" address.id = some (address.flatMap Move.suffix) :=
      Text.dropLeading?_eq_some_iff.mpr rfl
    rw [ofId?, hroot, Option.bind_some]
    exact readMoves?_suffixes address address.length_le_length_flatMap

theorem id_inj {address other : Address} : address.id = other.id ↔ address = other := by
  constructor
  · intro h
    exact Option.some.inj ((ofId?_eq_some_iff.mpr h).symm.trans (ofId?_eq_some_iff.mpr rfl))
  · exact congrArg Address.id

end Address

namespace Explanation

section Found

variable {root : Node} {explanations : List Explanation}

/-- The explanations of the occurrences of a tree have different identifiers. -/
theorem nodup_ids (h : explanations.map occurrence = root.occurrences []) :
    (explanations.map Explanation.id).Nodup := by
  have haddresses : explanations.Pairwise fun e e' =>
      e.occurrence.address ≠ e'.occurrence.address := by
    rw [← List.pairwise_map (R := fun o o' : Occurrence => o.address ≠ o'.address), h]
    exact Node.pairwise_occurrences [] root
  apply List.pairwise_map.mpr
  exact haddresses.imp fun hne heq => hne (Address.id_inj.mp heq)

/-- Among explanations with different identifiers each is found by its own. -/
theorem find?_id (h : (explanations.map Explanation.id).Nodup) {e : Explanation}
    (he : e ∈ explanations) : (explanations.find? fun other => other.id = e.id) = some e := by
  cases hfind : explanations.find? fun other => other.id = e.id with
  | none =>
      have hnot := List.find?_eq_none.mp hfind e he
      exact absurd (decide_eq_true rfl) hnot
  | some found =>
      have hsome := List.find?_some hfind
      have hid : found.id = e.id := of_decide_eq_true hsome
      rw [List.inj_on_of_nodup_map h (List.mem_of_find?_eq_some hfind) he hid]

end Found

end Explanation

namespace Pattern

/-- Identifiers address the tree of a pattern. Its explanations have different identifiers; each of
them is found by its identifier, which spells the moves to the very node that is explained; and a
text that spells no moves, or moves that lead nowhere, finds none. -/
theorem explanations_addressed {pattern : Text} (valid : pattern.Valid) {parsed : Parsed}
    (h : parse pattern = .ok parsed) :
    ∃ explanations, Explanation.ofTree parsed.root = .ok explanations ∧
      (explanations.map Explanation.id).Nodup ∧
      (∀ e ∈ explanations, Explanation.find? parsed.root e.id = .ok (some e) ∧
        (Address.ofId? e.id).bind parsed.root.at? = some e.occurrence.node) ∧
      ∀ id, (Address.ofId? id).bind parsed.root.at? = none →
        Explanation.find? parsed.root id = .ok none := by
  obtain ⟨explanations, hlisted, hoccurrences⟩ :=
    Explanation.ofTree_spec (Or.inr (isPattern_of_parse valid h))
  have hfind : ∀ id, Explanation.find? parsed.root id =
      .ok (explanations.find? fun e => e.id = id) := by
    intro id
    rw [Explanation.find?, hlisted]
    rfl
  have hids := Explanation.nodup_ids hoccurrences
  have hleads : ∀ e ∈ explanations,
      (Address.ofId? e.id).bind parsed.root.at? = some e.occurrence.node := by
    intro e he
    have hmem : e.occurrence ∈ parsed.root.occurrences [] :=
      hoccurrences ▸ List.mem_map_of_mem he
    have hspelt : Address.ofId? e.id = some e.occurrence.address :=
      Address.ofId?_eq_some_iff.mpr rfl
    rw [hspelt, Option.bind_some]
    exact Node.mem_occurrences_root_iff.mp hmem
  refine ⟨explanations, hlisted, hids, fun e he => ⟨?_, hleads e he⟩, fun id hid => ?_⟩
  · rw [hfind, Explanation.find?_id hids he]
  · have hnone : (explanations.find? fun e => e.id = id) = none := by
      apply List.find?_eq_none.mpr
      intro e he heq
      rw [← of_decide_eq_true heq, hleads e he] at hid
      cases hid
    rw [hfind, hnone]

/-- A repeated group with a choice: an identifier of every kind of move, an index with a leading
zero, and moves that lead nowhere. -/
theorem explanations_addressed_branches :
    let pattern : Text := "x(?:a|bc)+"
    let root : Node := .alternative [.value 'x'.toNat, .quantifier 1 none true
      (.group .plain [.disjunction
        [.alternative [.value 'a'.toNat], .alternative [.value 'b'.toNat, .value 'c'.toNat]]]
        none none) (some .plus)]
    pattern.Valid ∧ parse pattern = .ok ⟨root, 0⟩ ∧
      (Address.ofId? "root-1-child-0-0-branch-1-1").bind root.at? = some (.value 'c'.toNat) ∧
      (Address.ofId? "root-01").bind root.at? = none ∧
      (Address.ofId? "root-child-0").bind root.at? = none ∧
      ∃ explanations, Explanation.ofTree root = .ok explanations ∧
        (explanations.map Explanation.id).Nodup ∧
        (∀ e ∈ explanations, Explanation.find? root e.id = .ok (some e) ∧
          (Address.ofId? e.id).bind root.at? = some e.occurrence.node) ∧
        ∀ id, (Address.ofId? id).bind root.at? = none → Explanation.find? root id = .ok none := by
  intro pattern root
  have valid : pattern.Valid := by decide
  have hparse : parse pattern = .ok ⟨root, 0⟩ := rfl
  have hspelt : Address.ofId? "root-1-child-0-0-branch-1-1" =
      some [.element 1, .repeated, .element 0, .branch 1, .element 1] := by decide +kernel
  have hzero : Address.ofId? "root-01" = none := by decide +kernel
  have hchild : Address.ofId? "root-child-0" = some [.repeated] := by decide +kernel
  have haddressed := explanations_addressed valid hparse
  refine ⟨valid, hparse, ?_, ?_, ?_, haddressed⟩
  · rw [hspelt]
    rfl
  · rw [hzero]
    rfl
  · rw [hchild]
    rfl

end Pattern

end RegexTrace
