import RegexTrace.Host.Outcome
import RegexTrace.Proofs.Boundaries
import RegexTrace.Proofs.Offers

/-!
# The matches of the host in order

The matcher of the host goes forward, so a match is a span inside the text. A scan for all matches
goes on where a match ends and takes no second empty match at one place; hence its matches do not
overlap and no two have the same span. What is reported of one match and of all matches agrees, and
the reported spans in units hold the units of the matched texts.

## Implementation notes

That the matcher goes forward cannot be read off its result alone, since the result is what the
continuation gives. It is stated as a place where the continuation was asked.
-/

namespace RegexTrace

namespace Utf16

theorem size_encode_take {t : Text} {i : Nat} (hi : i ≤ t.length) :
    (encode (t.take i)).size = offset t i := by
  rw [size_encode, List.length_take_of_le hi, offset, offset, List.take_take, Nat.min_self]

theorem encode_append (t u : Text) : encode (t ++ u) = encode t ++ encode u := by
  simp [encode]

/-- The units between the offsets of two indices are those of the code points between them. -/
theorem extract_encode {t : Text} {i j : Nat} (hij : i ≤ j) (hj : j ≤ t.length) :
    (encode t).extract (offset t i) (offset t j) = encode ((t.take j).drop i) := by
  have hfront : encode (t.take j) = encode (t.take i) ++ encode ((t.take j).drop i) := by
    have hparts : (t.take j).take i ++ (t.take j).drop i = t.take j := List.take_append_drop i _
    rw [List.take_take, Nat.min_eq_left hij] at hparts
    rw [← encode_append, hparts]
  have hwhole : encode t = encode (t.take j) ++ encode (t.drop j) := by
    rw [← encode_append, List.take_append_drop]
  rw [← size_encode_take hj, ← size_encode_take (Nat.le_trans hij hj), hwhole, hfront,
    Array.append_assoc, Array.size_append, Array.extract_append_right, Array.extract_append_left,
    Array.extract_size]

end Utf16

namespace Host

/-- A continuation was asked inside the text, at a position or later, and has found something. -/
def FoundFrom (text : Array CodePoint) (k : Continuation) (found : Finish) (pos : Nat) : Prop :=
  ∃ stop later, pos ≤ stop ∧ stop ≤ text.size ∧ k stop later = some found

/-- A matcher goes forward: what it finds, the continuation has found at a later position. -/
def GoesForward (text : Array CodePoint) (m : Matcher) : Prop :=
  ∀ pos ≤ text.size, ∀ captures k found, m pos captures k = some found →
    FoundFrom text k found pos

section GoesForward

variable {text : Array CodePoint} {round : Matcher} {k : Continuation} {found : Finish} {pos : Nat}

theorem foundFrom_here (hpos : pos ≤ text.size) {captures : Captures}
    (h : k pos captures = some found) : FoundFrom text k found pos :=
  ⟨pos, captures, Nat.le_refl pos, hpos, h⟩

theorem FoundFrom.mono {mid : Nat} (h : FoundFrom text k found mid) (hle : pos ≤ mid) :
    FoundFrom text k found pos := by
  obtain ⟨stop, later, hlow, hhigh, hstop⟩ := h
  exact ⟨stop, later, Nat.le_trans hle hlow, hhigh, hstop⟩

theorem GoesForward.of_accept (h : GoesForward text round) (hpos : pos ≤ text.size)
    {captures later : Captures} {stop : Nat}
    (hfound : round pos captures accept = some (stop, later)) : pos ≤ stop ∧ stop ≤ text.size := by
  obtain ⟨mid, between, hlow, hhigh, hmid⟩ := h pos hpos captures accept _ hfound
  obtain rfl : mid = stop := congrArg Prod.fst (Option.some.inj hmid)
  exact ⟨hlow, hhigh⟩

/-- What is found by going on after a matcher that goes forward is found from where it began. -/
theorem GoesForward.andThen (h : GoesForward text round) (hpos : pos ≤ text.size)
    {captures : Captures} {next : Continuation}
    (hnext : ∀ mid between, mid ≤ text.size → next mid between = some found →
      FoundFrom text k found mid)
    (hfound : round pos captures next = some found) : FoundFrom text k found pos := by
  obtain ⟨mid, between, hlow, hhigh, hmid⟩ := h pos hpos captures next found hfound
  exact (hnext mid between hhigh hmid).mono hlow

/-- A code point that is there is passed over. -/
theorem goesForward_character (property : CodePoint → Bool) :
    GoesForward text (matchCharacter text property) := by
  intro pos hpos captures k found h
  unfold matchCharacter at h
  split at h
  · next c hc =>
      have hlt : pos < text.size := (Array.getElem?_eq_some_iff.mp hc).1
      split at h
      · exact ⟨pos + 1, captures, Nat.le_succ pos, hlt, h⟩
      · cases h
  · cases h

/-- A text that is repeated at a position ends inside the text. -/
theorem add_le_of_repeatsAt {f : Flags} {length first : Nat} (hpos : pos ≤ text.size)
    (h : repeatsAt f text first pos length = true) : pos + length ≤ text.size := by
  induction length generalizing first pos with
  | zero => exact hpos
  | succ length ih =>
      unfold repeatsAt at h
      split at h
      · next c d _ hd =>
          have hlt : pos < text.size := (Array.getElem?_eq_some_iff.mp hd).1
          have hrest := ih hlt (Bool.and_eq_true_iff.mp h).2
          omega
      · cases h

/-- Greedy rounds of a matcher that goes forward go forward. -/
theorem matchGreedy_goesForward (h : GoesForward text round) (min : Nat) (max : Option Nat)
    (fuel count : Nat) (last : Option Nat) (captures : Captures) (hpos : pos ≤ text.size)
    (hfound : matchGreedy round min max k fuel count last pos captures = some found) :
    FoundFrom text k found pos := by
  induction fuel generalizing count last pos captures with
  | zero => cases hfound
  | succ fuel ih =>
      unfold matchGreedy at hfound
      split at hfound
      · exact h.andThen hpos (fun mid between hmid => ih _ _ between hmid) hfound
      · split at hfound
        · exact foundFrom_here hpos hfound
        · split at hfound
          · next hround =>
              cases hfound
              exact h.andThen hpos (fun mid between hmid => ih _ _ between hmid) hround
          · exact foundFrom_here hpos hfound

/-- Reluctant rounds of a matcher that goes forward go forward. -/
theorem matchReluctant_goesForward (h : GoesForward text round) (min : Nat) (max : Option Nat)
    (fuel count : Nat) (last : Option Nat) (captures : Captures) (hpos : pos ≤ text.size)
    (hfound : matchReluctant round min max k fuel count last pos captures = some found) :
    FoundFrom text k found pos := by
  induction fuel generalizing count last pos captures with
  | zero => cases hfound
  | succ fuel ih =>
      unfold matchReluctant at hfound
      split at hfound
      · exact h.andThen hpos (fun mid between hmid => ih _ _ between hmid) hfound
      · split at hfound
        · next hhere =>
            cases hfound
            exact foundFrom_here hpos hhere
        · split at hfound
          · cases hfound
          · exact h.andThen hpos (fun mid between hmid => ih _ _ between hmid) hfound

/-- Possessive rounds of a matcher that goes forward go forward. -/
theorem matchPossessive_goesForward (h : GoesForward text round) (min : Nat) (max : Option Nat)
    (fuel count : Nat) (last : Option Nat) (captures : Captures) (hpos : pos ≤ text.size)
    {stop : Nat} {later : Captures}
    (hfound : matchPossessive round min max fuel count last pos captures = some (stop, later)) :
    pos ≤ stop ∧ stop ≤ text.size := by
  induction fuel generalizing count last pos captures with
  | zero => cases hfound
  | succ fuel ih =>
      have hon : ∀ {mid between count last}, round pos captures accept = some (mid, between) →
          matchPossessive round min max fuel count last mid between = some (stop, later) →
          pos ≤ stop ∧ stop ≤ text.size := by
        intro mid between count last hround hrest
        obtain ⟨hlow, hhigh⟩ := h.of_accept hpos hround
        obtain ⟨hfrom, hto⟩ := ih count last between hhigh hrest
        exact ⟨Nat.le_trans hlow hfrom, hto⟩
      unfold matchPossessive at hfound
      split at hfound
      · split at hfound
        · next hround => exact hon hround hfound
        · cases hfound
      · split at hfound
        · cases hfound
          exact ⟨Nat.le_refl _, hpos⟩
        · split at hfound
          · next hround => exact hon hround hfound
          · cases hfound
            exact ⟨Nat.le_refl _, hpos⟩

/-- An assertion goes on where it stands. -/
theorem matchAssertion_goesForward {negated : Bool} {finding : Option Finish}
    (hpos : pos ≤ text.size) {captures : Captures}
    (h : matchAssertion negated finding pos captures k = some found) :
    FoundFrom text k found pos := by
  unfold matchAssertion at h
  split at h
  · split at h
    · cases h
    · exact foundFrom_here hpos h
  · split at h
    · exact foundFrom_here hpos h
    · cases h

mutual

/-- An item goes forward. -/
theorem matchItem_goesForward (f : Flags) : ∀ item : Item, GoesForward text (matchItem text f item)
  | .literal _ _ => goesForward_character _
  | .any => goesForward_character _
  | .set _ _ => goesForward_character _
  | .place place => by
      intro pos hpos captures k found h
      rw [matchItem_place] at h
      split at h
      · exact foundFrom_here hpos h
      · cases h
  | .reference group _ => by
      intro pos hpos captures k found h
      rw [matchItem_reference] at h
      obtain ⟨span, -, h⟩ := Option.bind_eq_some_iff.mp h
      split at h
      · next hrepeats =>
          exact ⟨_, captures, Nat.le_add_right pos _, add_le_of_repeatsAt hpos hrepeats, h⟩
      · cases h
  | .group none on off body => matchItems_goesForward (f.inside on off) body
  | .group (some number) on off body => by
      intro pos hpos captures k found h
      rw [matchItem_captureGroup] at h
      exact (matchItems_goesForward (f.inside on off) body).andThen hpos
        (fun mid between hmid hnext => foundFrom_here hmid hnext) h
  | .atomic body => by
      intro pos hpos captures k found h
      unfold matchItem at h
      split at h
      · next hbody =>
          obtain ⟨hlow, hhigh⟩ := (matchItems_goesForward f body).of_accept hpos hbody
          exact ⟨_, _, hlow, hhigh, h⟩
      · cases h
  | .ahead negated body => fun _ hpos _ _ _ h => matchAssertion_goesForward hpos h
  | .behind negated widths body => fun _ hpos _ _ _ h => matchAssertion_goesForward hpos h
  | .branch branches => matchBranches_goesForward f branches
  | .repetition mode min max body => by
      intro pos hpos captures k found h
      have hround := matchItems_goesForward f body
      unfold matchItem at h
      cases mode with
      | greedy => exact matchGreedy_goesForward hround min max _ 0 none captures hpos h
      | reluctant =>
          exact matchReluctant_goesForward hround min max _ 0 none captures hpos h
      | possessive =>
          dsimp only at h
          split at h
          · next hrounds =>
              obtain ⟨hlow, hhigh⟩ :=
                matchPossessive_goesForward hround min max _ 0 none captures hpos hrounds
              exact ⟨_, _, hlow, hhigh, h⟩
          · cases h
  | .condition group yes none => by
      intro pos hpos captures k found h
      unfold matchItem at h
      split at h
      · exact matchItems_goesForward f yes pos hpos captures k found h
      · exact foundFrom_here hpos h
  | .condition group yes (some no) => by
      intro pos hpos captures k found h
      unfold matchItem at h
      split at h
      · exact matchItems_goesForward f yes pos hpos captures k found h
      · exact matchItems_goesForward f no pos hpos captures k found h

theorem matchItems_goesForward (f : Flags) : ∀ items : List Item,
    GoesForward text (matchItems text f items)
  | [] => fun _ hpos _ _ _ h => foundFrom_here hpos h
  | item :: rest => fun _ hpos _ _ _ h =>
      (matchItem_goesForward f item).andThen hpos
        (fun mid between hmid => matchItems_goesForward f rest mid hmid between _ _) h

theorem matchBranches_goesForward (f : Flags) : ∀ branches : List (List Item),
    GoesForward text (matchBranches text f branches)
  | [] => nofun
  | body :: rest => by
      intro pos hpos captures k found h
      rw [matchBranches_cons] at h
      rcases Option.or_eq_some_iff.mp h with h | ⟨-, h⟩
      · exact matchItems_goesForward f body pos hpos captures k found h
      · exact matchBranches_goesForward f rest pos hpos captures k found h

end

end GoesForward

/-- A match that a scan may come to from a position on: a span inside the text that does not begin
earlier, and that is not empty at that position where a match must advance. -/
structure Match.ReachedFrom (text : Array CodePoint) (mustAdvance : Bool) (pos : Nat) (m : Match) :
    Prop where
  le_start : pos ≤ m.start
  start_le : m.start ≤ m.finish
  finish_le : m.finish ≤ text.size
  advances : mustAdvance = true → m.start = pos → m.start < m.finish

/-- Matches in the order of a scan: they do not overlap, and their spans differ. -/
def Match.Before (m n : Match) : Prop :=
  m.finish ≤ n.start ∧ (m.start, m.finish) ≠ (n.start, n.finish)

namespace Program

variable {program : Program} {text : Array CodePoint} {mustAdvance : Bool} {pos : Nat}
  {found m : Match}

/-- A match at a position is a span from there on, and not empty where it must advance. -/
theorem reachedFrom_of_matchAt? (hpos : pos ≤ text.size)
    (h : program.matchAt? text mustAdvance pos = some found) :
    found.start = pos ∧ found.ReachedFrom text mustAdvance pos := by
  unfold matchAt? at h
  obtain ⟨⟨finish, captures⟩, hmatch, rfl⟩ := Option.map_eq_some_iff.mp h
  obtain ⟨stop, later, hlow, hhigh, hstop⟩ :=
    matchItems_goesForward program.flags program.body pos hpos {} _ _ hmatch
  dsimp only at hstop
  split at hstop
  · cases hstop
  · next hempty =>
      obtain rfl : stop = finish := congrArg Prod.fst (Option.some.inj hstop)
      refine ⟨rfl, Nat.le_refl pos, hlow, hhigh, fun hadvance _ => ?_⟩
      rw [hadvance, Bool.true_and, beq_iff_eq] at hempty
      exact Nat.lt_of_le_of_ne hlow (Ne.symm hempty)

/-- The first match from a position on is a span from there on. -/
theorem reachedFrom_of_searchFrom? (count : Nat) (hcount : pos + count = text.size + 1)
    (h : program.searchFrom? text mustAdvance (List.range' pos count) = some found) :
    found.ReachedFrom text mustAdvance pos := by
  induction count generalizing pos mustAdvance with
  | zero => cases h
  | succ count ih =>
      rw [List.range'_succ, searchFrom?] at h
      split at h
      · next hfound =>
          obtain rfl := Option.some.inj h
          exact (reachedFrom_of_matchAt? (by omega) hfound).2
      · have hlater := ih (by omega) h
        have hstart : pos < found.start := hlater.le_start
        exact ⟨Nat.le_of_lt hstart, hlater.start_le, hlater.finish_le, fun _ hsame => by omega⟩

/-- A scan goes on where a match ends; what it comes to from there, it comes to from where the match
was looked for. -/
theorem reachedFrom_of_next (hfound : found.ReachedFrom text mustAdvance pos)
    (h : m.ReachedFrom text (found.finish == found.start) found.finish) :
    m.ReachedFrom text mustAdvance pos := by
  have hlow := hfound.le_start
  have hspan := hfound.start_le
  have hnext := h.le_start
  refine ⟨by omega, h.start_le, h.finish_le, fun hadvance hsame => ?_⟩
  have hmoved := hfound.advances hadvance (by omega)
  omega

theorem before_of_next (hfound : found.ReachedFrom text mustAdvance pos)
    (h : m.ReachedFrom text (found.finish == found.start) found.finish) : found.Before m := by
  have hspan := hfound.start_le
  have hnext := h.le_start
  refine ⟨hnext, fun hsame => ?_⟩
  obtain ⟨hstart, hfinish⟩ := Prod.mk.inj hsame
  have hempty : found.finish = found.start := by omega
  have hmoved := h.advances (beq_iff_eq.mpr hempty) (by omega)
  omega

/-- All matches that a scan finds from a position on are spans from there on. -/
theorem reachedFrom_of_mem_findFrom (fuel : Nat) (hpos : pos ≤ text.size)
    (h : m ∈ program.findFrom text fuel mustAdvance pos) : m.ReachedFrom text mustAdvance pos := by
  induction fuel generalizing pos mustAdvance with
  | zero => cases h
  | succ fuel ih =>
      rw [findFrom] at h
      split at h
      · cases h
      · next found hsearch =>
          have hfound : found.ReachedFrom text mustAdvance pos :=
            reachedFrom_of_searchFrom? _ (by omega) hsearch
          rcases List.mem_cons.mp h with rfl | h
          · exact hfound
          · exact reachedFrom_of_next hfound (ih hfound.finish_le h)

/-- The matches that a scan finds are in order. -/
theorem pairwise_findFrom (fuel : Nat) (hpos : pos ≤ text.size) :
    (program.findFrom text fuel mustAdvance pos).Pairwise Match.Before := by
  induction fuel generalizing pos mustAdvance with
  | zero => exact List.Pairwise.nil
  | succ fuel ih =>
      rw [findFrom]
      split
      · exact List.Pairwise.nil
      · next found hsearch =>
          have hfound : found.ReachedFrom text mustAdvance pos :=
            reachedFrom_of_searchFrom? _ (by omega) hsearch
          refine List.pairwise_cons.mpr ⟨fun m hm => ?_, ih hfound.finish_le⟩
          exact before_of_next hfound (reachedFrom_of_mem_findFrom fuel hfound.finish_le hm)

/-- The greatest number of matches that are left from a position on: one empty and one other match
for every position, and no empty one where a match must advance. -/
def matchesLeft (text : Array CodePoint) (mustAdvance : Bool) (pos : Nat) : Nat :=
  2 * (text.size - pos) + if mustAdvance then 1 else 2

/-- Every match leaves fewer matches. -/
theorem matchesLeft_lt (h : found.ReachedFrom text mustAdvance pos) :
    matchesLeft text (found.finish == found.start) found.finish <
      matchesLeft text mustAdvance pos := by
  have hlow := h.le_start
  have hspan := h.start_le
  have hinside := h.finish_le
  have hadvances := h.advances
  unfold matchesLeft
  by_cases hempty : found.finish = found.start
  · rw [if_pos (beq_iff_eq.mpr hempty)]
    split
    · next hadvance =>
        have hmoved := hadvances hadvance
        omega
    · omega
  · rw [if_neg (mt beq_iff_eq.mp hempty)]
    split <;> omega

/-- A scan with enough fuel finds nothing more with further fuel. -/
theorem findFrom_succ (fuel : Nat) (hpos : pos ≤ text.size)
    (hfuel : matchesLeft text mustAdvance pos ≤ fuel) :
    program.findFrom text (fuel + 1) mustAdvance pos =
      program.findFrom text fuel mustAdvance pos := by
  induction fuel generalizing pos mustAdvance with
  | zero =>
      unfold matchesLeft at hfuel
      split at hfuel <;> omega
  | succ fuel ih =>
      rw [findFrom, findFrom]
      split
      · rfl
      · next found hsearch =>
          have hfound : found.ReachedFrom text mustAdvance pos :=
            reachedFrom_of_searchFrom? _ (by omega) hsearch
          have hless := matchesLeft_lt hfound
          rw [ih hfound.finish_le (by omega)]

theorem findFrom_eq_findAll (program : Program) (text : Array CodePoint) {fuel : Nat}
    (hfuel : 2 * text.size + 2 ≤ fuel) :
    program.findFrom text fuel false 0 = program.findAll text := by
  induction fuel, hfuel using Nat.le_induction with
  | base => rfl
  | succ fuel hle ih =>
      have hleft : matchesLeft text false 0 ≤ fuel := hle
      exact (findFrom_succ fuel (Nat.zero_le _) hleft).trans ih

/-- The first of all matches is the match that a search finds. -/
theorem head?_findAll (program : Program) (text : Array CodePoint) :
    (program.findAll text).head? = program.search? text := by
  rw [findAll, findFrom, search?]
  cases program.searchFrom? text false (positionsFrom text 0) <;> rfl

end Program

namespace Outcome

/-- What a listed match tells of itself alone. -/
def Listed.hit (item : Listed) : Hit := ⟨item.start, item.finish, item.groups⟩

/-- A list of the matches in a text: they are numbered in order, their spans lie inside the text and
do not overlap, no two spans are equal, and each span holds the units of the matched text. -/
structure Lists (text : Text) (items : List Listed) : Prop where
  index_eq : items.map Listed.index = List.range items.length
  start_le : ∀ item ∈ items, item.start ≤ item.finish
  finish_le : ∀ item ∈ items, item.finish ≤ Utf16.length text
  ordered : items.Pairwise fun a b => a.finish ≤ b.start
  distinct : items.Pairwise fun a b => (a.start, a.finish) ≠ (b.start, b.finish)
  units : ∀ item ∈ items,
    (Utf16.encode text).extract item.start item.finish = Utf16.encode item.text

/-- The answers to the questions for one match and for all matches in a text agree: they fail alike,
they report the same problem, or one match is reported exactly if some are listed, and it is the
first of them. -/
inductive Agree (text : Text) :
    Except Fault (Outcome (Option Hit)) → Except Fault (Outcome (List Listed)) → Prop
  | fault (fault : Fault) : Agree text (.error fault) (.error fault)
  | problem (problem : Problem) : Agree text (.ok (.error problem)) (.ok (.error problem))
  | found {hit : Option Hit} {items : List Listed} (matched : hit.isSome = !items.isEmpty)
      (first : ∀ item, items.head? = some item → hit = some item.hit) (lists : Lists text items) :
      Agree text (.ok (.ok hit)) (.ok (.ok items))

end Outcome

section Listing

variable {program : Program} {text : Text}

/-- What is reported of one of the matches in a text. -/
def Match.listed (m : Match) (text : Text) (index : Nat) : Outcome.Listed :=
  ⟨index, Utf16.offset text m.start, Utf16.offset text m.finish, slice text m.start m.finish,
    m.captured text⟩

/-- All matches are reported with their numbers. -/
def Program.listing (program : Program) (text : Text) : List Outcome.Listed :=
  (program.findAll text.toArray).zipIdx.map fun (m, index) => m.listed text index

theorem exists_of_mem_listing {item : Outcome.Listed} (h : item ∈ program.listing text) :
    ∃ m ∈ program.findAll text.toArray, ∃ index, item = m.listed text index := by
  obtain ⟨⟨m, index⟩, hm, rfl⟩ := List.mem_map.mp h
  exact ⟨m, List.fst_mem_of_mem_zipIdx hm, index, rfl⟩

theorem pairwise_listing {r : Outcome.Listed → Outcome.Listed → Prop}
    (h : ∀ m n : Match, m.Before n → ∀ i j, r (m.listed text i) (n.listed text j)) :
    (program.listing text).Pairwise r := by
  have hmatches : (program.findAll text.toArray).Pairwise Match.Before :=
    Program.pairwise_findFrom _ (Nat.zero_le _)
  rw [← List.zipIdx_map_fst 0 (program.findAll text.toArray), List.pairwise_map] at hmatches
  exact List.pairwise_map.mpr (hmatches.imp fun hbefore => h _ _ hbefore _ _)

theorem head?_listing (program : Program) (text : Text) :
    (program.listing text).head? = (program.search? text.toArray).map fun m => m.listed text 0 := by
  rw [Program.listing, List.head?_map, List.head?_zipIdx, Program.head?_findAll, Option.map_map]
  rfl

/-- The report of all matches in a text lists them. -/
theorem lists_listing (program : Program) (text : Text) :
    Outcome.Lists text (program.listing text) := by
  have hreached : ∀ {m}, m ∈ program.findAll text.toArray → m.start ≤ m.finish ∧
      m.finish ≤ text.length := fun hm =>
    let h := Program.reachedFrom_of_mem_findFrom _ (Nat.zero_le _) hm
    ⟨h.start_le, h.finish_le⟩
  constructor
  case index_eq =>
      rw [Program.listing, List.map_map, List.length_map, List.length_zipIdx, List.range_eq_range',
        ← List.zipIdx_map_snd]
      rfl
  case start_le =>
      intro item hitem
      obtain ⟨m, hm, index, rfl⟩ := exists_of_mem_listing hitem
      exact Utf16.offset_le_iff.mpr (hreached hm).1
  case finish_le =>
      intro item hitem
      obtain ⟨m, hm, index, rfl⟩ := exists_of_mem_listing hitem
      exact Utf16.offset_le_iff.mpr (hreached hm).2
  case ordered =>
      exact pairwise_listing fun m n hbefore _ _ => Utf16.offset_le_iff.mpr hbefore.1
  case distinct =>
      refine pairwise_listing fun m n hbefore _ _ hsame => hbefore.2 ?_
      obtain ⟨hstart, hfinish⟩ := Prod.mk.inj hsame
      exact Prod.ext (Utf16.offset_inj.mp hstart) (Utf16.offset_inj.mp hfinish)
  case units =>
      intro item hitem
      obtain ⟨m, hm, index, rfl⟩ := exists_of_mem_listing hitem
      exact Utf16.extract_encode (hreached hm).1 (hreached hm).2

/-- The report of one match agrees with that of all matches. -/
theorem agree_listing (program : Program) (text : Text) :
    Outcome.Agree text
      (.ok (.ok ((program.search? text.toArray).map fun m => (m.listed text 0).hit)))
      (.ok (.ok (program.listing text))) := by
  have hhead := head?_listing program text
  refine .found ?_ ?_ (lists_listing program text)
  · rw [Option.isSome_map, ← Option.isSome_map (f := fun m : Match => m.listed text 0), ← hhead]
    cases program.listing text <;> rfl
  · intro item hitem
    rw [hhead] at hitem
    obtain ⟨m, hm, rfl⟩ := Option.map_eq_some_iff.mp hitem
    rw [hm]
    rfl

end Listing

/-- For every pattern, text and flags, the answers to the questions for one match and for all
matches agree, and all matches are listed. -/
theorem testMatch_agrees_testMatchAll [CharacterNames] (patternText text flags : Text) :
    Outcome.Agree text (testMatch patternText text flags)
      (testMatchAll patternText text flags) := by
  unfold testMatch testMatchAll
  cases prepare patternText flags with
  | error fault => exact .fault fault
  | ok outcome =>
      cases outcome with
      | error problem => exact .problem problem
      | ok program =>
          exact agree_listing program text

end Host

end RegexTrace
