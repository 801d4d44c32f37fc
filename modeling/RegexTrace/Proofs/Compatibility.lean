import RegexTrace.Proofs.Adequacy
import RegexTrace.Proofs.Lockstep

/-!
# The search and the host

For a pattern in the shared notation that both readers accept, the search and the host find the same
match, up to three things that are due to their texts and their repetitions. The search goes through
UTF-16 units, so it may find a match between the units of a code point. The host knows no place
apart from a word boundary in an empty text. And a greedy repetition of the host ends after an empty
round, which the search passes over, so its end may be another one where an empty round is offered
ahead of a longer one.

## Implementation notes

Both sides are compared with the ends of the tree: the host offers them with empty rounds kept, and
the ways of the search end at them without. Both kinds of ends have the same members, so the two
find a match from the same indices.
-/

namespace RegexTrace

namespace Node

/-- The tree of a pattern can be tested where case is regarded. -/
theorem IsPattern.testable {root : Node} (h : root.IsPattern) : root.Testable false :=
  h.testableIn false

end Node

namespace Search

/-- The best trace ends where the first way from its start does. -/
theorem head?_stops_of_bestTrace {ctx : Context} {root : Node} {starts : List Nat}
    {found : Trace Nat Occurrence} (h : bestTrace ctx root starts = .ok found) {start stop : Nat}
    (hspan : found.span? = some (start, stop)) :
    (rootWays ctx root start).stops.head? = some stop := by
  induction starts with
  | nil =>
      obtain rfl := Except.ok.inj h
      cases hspan
  | cons first rest ih =>
      rw [bestTrace] at h
      cases hways : rootWays ctx root first with
      | none =>
          rw [hways] at h
          exact ih h
      | fault cause =>
          rw [hways] at h
          cases h
      | more way later =>
          rw [hways] at h
          obtain rfl := Except.ok.inj h
          rw [Way.span?_trace] at hspan
          cases hspan
          rw [hways]
          rfl

/-- The answer of a search ends where the first way from its start does. -/
theorem head?_stops_of_span? {options : Options} (hsteps : options.maxSteps = none) {root : Node}
    {text : Text} {start stop : Nat} (h : span? options root text = .ok (some (start, stop))) :
    (rootWays ⟨Utf16.encode text, options⟩ root start).stops.head? = some stop := by
  rw [span?_eq_map_backtrack hsteps, backtrack] at h
  split at h
  · cases h
  · cases hbest : bestTrace ⟨Utf16.encode text, options⟩ root
        (List.range ((Utf16.encode text).size + 1)) with
    | error failure =>
        simp only [hbest] at h
        cases h
    | ok best =>
        simp only [hbest] at h
        exact head?_stops_of_bestTrace hbest (Except.ok.inj h)

section Indices

variable {text : Text} (valid : text.Valid) (unsplit : Utf16.Unsplit text) {root : Node}
  (htestable : root.Testable false) {i : Nat} (hi : i ≤ text.length)

include valid unsplit htestable hi

/-- From the offset of an index the tree leads to the offsets of its ends. -/
theorem relates_offset_iff (stop : Nat) :
    Relates ⟨Utf16.encode text, lazyOptions⟩ root (Utf16.offset text i) stop ↔
      ∃ j ∈ ends false text root i, stop = Utf16.offset text j := by
  let ctx : Context := ⟨Utf16.encode text, lazyOptions⟩
  have hends := rootWays_endsAt valid unsplit htestable hi
  have hstart : Utf16.offset text i ≤ ctx.units.size := by
    rw [Utf16.size_encode, Utf16.offset_le_iff]
    exact hi
  have hadequate : (rootWays ctx root (Utf16.offset text i)).Adequate
      (Relates ctx root (Utf16.offset text i)) :=
    rootWays_adequate (Utf16.closed_encode text) root (Utf16.offset text i) hstart
  have hmem : stop ∈ (rootWays ctx root (Utf16.offset text i)).stops ↔
      ∃ j ∈ ends false text root i, stop = Utf16.offset text j := by
    rw [hends.stops_eq, List.mem_map]
    exact exists_congr fun j => and_congr_right fun _ => eq_comm
  rw [← hmem]
  constructor
  · intro h
    exact hadequate.complete hends.faultless stop h
  · intro h
    exact hadequate.sound stop h

end Indices

end Search

namespace Host

/-- The first answer among consecutive numbers comes from the least one that has any. -/
theorem findSome?_range'_cases {α : Type} (f : Nat → Option α) (count first : Nat) :
    ((List.range' first count).findSome? f = none ∧
        ∀ i, first ≤ i → i < first + count → f i = none) ∨
      ∃ i b, (List.range' first count).findSome? f = some b ∧ i < first + count ∧ f i = some b ∧
        ∀ j, first ≤ j → j < i → f j = none := by
  induction count generalizing first with
  | zero => exact Or.inl ⟨rfl, fun i hi hlt => absurd hlt (Nat.not_lt.mpr hi)⟩
  | succ count ih =>
      rw [List.range'_succ, List.findSome?_cons]
      cases hfirst : f first with
      | some b =>
          exact Or.inr ⟨first, b, rfl, by omega, hfirst, fun j hj hlt =>
            absurd hlt (Nat.not_lt.mpr hj)⟩
      | none =>
          have hhead : ∀ {j : Nat}, first ≤ j → (first + 1 ≤ j → f j = none) → f j = none := by
            intro j hj hlater
            rcases Nat.eq_or_lt_of_le hj with rfl | hlt
            · exact hfirst
            · exact hlater hlt
          rcases ih (first + 1) with ⟨hnone, hall⟩ | ⟨i, b, hsome, hlt, hi, hbefore⟩
          · exact Or.inl ⟨hnone, fun i hi hlt => hhead hi fun hi => hall i hi (by omega)⟩
          · exact Or.inr ⟨i, b, hsome, by omega, hi, fun j hj hlt =>
              hhead hj fun hj => hbefore j hj hlt⟩

/-- A search for a match that need not advance asks the positions in order. -/
theorem searchFrom?_eq_findSome? (program : Program) (text : Array CodePoint)
    (positions : List Nat) :
    program.searchFrom? text false positions =
      positions.findSome? (program.matchAt? text false) := by
  induction positions with
  | nil => rfl
  | cons pos rest ih =>
      rw [Program.searchFrom?, List.findSome?_cons, ih]
      cases program.matchAt? text false pos <;> rfl

section Programs

variable {text : Text} {program : Program} {e : Nat → List Nat}
  (h : Offers text (matchItems text.toArray {} program.body) e) (hflags : program.flags = {})

include h hflags

/-- A program that offers ends has a match at a position up to the first of them. -/
theorem matchAt?_finish {i : Nat} (hi : i ≤ text.length) :
    (program.matchAt? text.toArray false i).map Match.finish = (e i).head? := by
  have hanswers : Answers text i
      (fun finish captures => if false && finish == i then none else accept finish captures)
      some := fun j _ _ captures => rfl
  have hfound := h i hi {} _ some hanswers
  have hhead : (e i).findSome? some = (e i).head? := by cases e i <;> rfl
  rw [← hhead, ← hfound, Program.matchAt?, hflags]
  simp only [Option.map_map]
  rfl

/-- The search of the host finds the first position that has ends, and the first of them. -/
theorem search?_cases :
    (program.search? text.toArray = none ∧ ∀ i ≤ text.length, e i = []) ∨
      ∃ found, program.search? text.toArray = some found ∧ found.start ≤ text.length ∧
        (e found.start).head? = some found.finish ∧ ∀ j < found.start, e j = [] := by
  have hnil : ∀ {i : Nat}, i ≤ text.length → program.matchAt? text.toArray false i = none →
      e i = [] := by
    intro i hi hnone
    have hfinish := matchAt?_finish h hflags hi
    rw [hnone] at hfinish
    exact List.head?_eq_none_iff.mp hfinish.symm
  rw [Program.search?, searchFrom?_eq_findSome?, Program.positionsFrom, List.size_toArray]
  rcases findSome?_range'_cases (program.matchAt? text.toArray false) (text.length + 1 - 0) 0 with
    ⟨hnone, hall⟩ | ⟨i, found, hsome, hlt, hi, hbefore⟩
  · exact Or.inl ⟨hnone, fun i hi => hnil hi (hall i (Nat.zero_le i) (by omega))⟩
  · have hile : i ≤ text.length := by omega
    have hfinish := matchAt?_finish h hflags hile
    have hstart : found.start = i := by
      rw [Program.matchAt?] at hi
      obtain ⟨⟨finish, captures⟩, -, rfl⟩ := Option.map_eq_some_iff.mp hi
      rfl
    rw [hi] at hfinish
    subst hstart
    exact Or.inr ⟨found, hsome, hile, hfinish.symm, fun j hj =>
      hnil (by omega) (hbefore j (Nat.zero_le j) hj)⟩

end Programs

variable [CharacterNames]

/-- The program of a pattern as users write it is that of the respelled pattern. -/
theorem compile_of_compileText {patternText flags : Text} {program : Program}
    (h : compileText patternText flags = .ok (.ok program)) :
    let literal := Pattern.splitLiteral patternText
    let letters := Pattern.effectiveFlags literal.2 flags
    compile (Flags.ofText letters) (respell (letters.contains 'm'.toNat) literal.1) =
      .ok program := by
  intro literal letters
  rw [compileText] at h
  dsimp only at h
  split at h
  · next found hfound =>
      cases h
      exact hfound
  · cases h
  · cases h

/-- A pattern in the shared notation is compiled as it is spelled. -/
theorem exists_inStep {signs : List Sign} (hshared : ∀ s ∈ signs, s.Shared)
    {parsed : Pattern.Parsed} (hparse : Pattern.parse (Sign.spellAll signs) = .ok parsed)
    {program : Program} (hcompile : compileText (Sign.spellAll signs) [] = .ok (.ok program))
    (text : Text) : InStep text parsed program signs := by
  have hliteral := Pattern.splitLiteral_of_isSpelling (Sign.isSpelling_of_mem_spellAll hshared)
  have hprogram : compile {} (respell false (Sign.spellAll signs)) = .ok program := by
    have hcompiled := compile_of_compileText hcompile
    rwa [hliteral] at hcompiled
  obtain ⟨cursor, hstart, hprogram⟩ := exists_of_bind_ok hprogram
  obtain ⟨found, hrun, hprogram⟩ := exists_of_bind_ok hprogram
  obtain ⟨-, -, hprogram⟩ := exists_of_bind_ok hprogram
  cases hprogram
  have hrest : cursor.rest = Sign.tokensAll signs := by
    rw [Cursor.eq_of_check hstart]
    exact reads_spellAll hshared
  exact ⟨{}, _, 0, _, cursor, ProgressFits.start text, hrest, hparse, hrun⟩

end Host

/-- How the answers of the search and of the host agree. -/
structure Agreeing (text : Text) (root : Node) (found : Option (Nat × Nat))
    (outcome : Option Host.Outcome.Hit) : Prop where
  /-- Where the search finds nothing, so does the host. -/
  none_of_none : found = none → outcome = none
  /-- A match of the search that starts at a code point is one of the host with the same start. -/
  start_eq : ∀ i ≤ text.length, ∀ stop, found = some (Utf16.offset text i, stop) →
    ∃ hit, outcome = some hit ∧ hit.start = Utf16.offset text i
  /-- Matches with the same start have the same end where empty rounds are offered last. -/
  finish_eq : Search.Settled text root → ∀ start stop hit, found = some (start, stop) →
    outcome = some hit → hit.start = start → hit.finish = stop
  /-- A match of the host is a match of the tree, and the search finds none that starts later. -/
  of_some : ∀ hit, outcome = some hit →
    Search.Relates ⟨Utf16.encode text, Search.lazyOptions⟩ root hit.start hit.finish ∧
      ∃ start stop, found = some (start, stop) ∧ start ≤ hit.start
  /-- From a code point the search goes to the first end that the tree has without empty rounds. -/
  search_first : ∀ i ≤ text.length, ∀ stop, found = some (Utf16.offset text i, stop) →
    (Search.ends false text root i).head?.map (Utf16.offset text) = some stop
  /-- The host goes to the first end of the tree, and an empty round ends a repetition there. -/
  host_first : ∀ hit, outcome = some hit → ∃ i ≤ text.length, hit.start = Utf16.offset text i ∧
    (Search.ends true text root i).head?.map (Utf16.offset text) = some hit.finish

section Agreement

open Search

variable {text : Text} (valid : text.Valid) (unsplit : Utf16.Unsplit text) {root : Node}
  (htestable : root.Testable false)

include valid unsplit htestable

theorem relates_of_mem_ends {i j : Nat} (hi : i ≤ text.length) (hj : j ∈ ends true text root i) :
    Relates ⟨Utf16.encode text, lazyOptions⟩ root (Utf16.offset text i) (Utf16.offset text j) :=
  (relates_offset_iff valid unsplit htestable hi _).mpr
    ⟨j, (mem_ends_iff text root i j).mp hj, rfl⟩

theorem ends_ne_nil_of_relates {i stop : Nat} (hi : i ≤ text.length)
    (h : Relates ⟨Utf16.encode text, lazyOptions⟩ root (Utf16.offset text i) stop) :
    ends true text root i ≠ [] := by
  obtain ⟨j, hj, -⟩ := (relates_offset_iff valid unsplit htestable hi stop).mp h
  exact List.ne_nil_of_mem ((mem_ends_iff text root i j).mpr hj)

theorem map_head?_ends {i stop : Nat} (hi : i ≤ text.length)
    (hspan : span? lazyOptions root text = .ok (some (Utf16.offset text i, stop))) :
    (ends false text root i).head?.map (Utf16.offset text) = some stop := by
  have hstop := head?_stops_of_span? rfl hspan
  rwa [(rootWays_endsAt valid unsplit htestable hi).stops_eq, List.head?_map] at hstop

omit valid unsplit htestable in
theorem head?_ends_of_settled (settled : Settled text root) {i : Nat} (hi : i ≤ text.length) :
    (ends true text root i).head? = (ends false text root i).head? := by
  have hhead : ∀ l : List Nat, l.findSome? some = l.head? := fun l => by cases l <;> rfl
  have hagree := ends_agree text root settled i hi some
  rwa [hhead, hhead] at hagree

/-- Where the tree has no end at any index, finding no match agrees with the search. -/
theorem agreeing_none (hnone : ∀ i ≤ text.length, ends true text root i = [])
    {found : Option (Nat × Nat)} (hspan : span? lazyOptions root text = .ok found) :
    Agreeing text root found none := by
  have hleft := isLeftmost_of_span? rfl hspan
  constructor
  case none_of_none =>
      intro _
      rfl
  case start_eq =>
      rintro i hi stop rfl
      exact absurd (hnone i hi) (ends_ne_nil_of_relates valid unsplit htestable hi hleft.2.1)
  case search_first =>
      rintro i hi stop rfl
      exact map_head?_ends valid unsplit htestable hi hspan
  all_goals exact nofun

/-- The first end at the first index that has any agrees with the search. -/
theorem agreeing_some {m : Nat} (hm : m ≤ text.length) {finish : Nat}
    (hfinish : (ends true text root m).head? = some finish)
    (hbefore : ∀ j < m, ends true text root j = []) (groups : List Text)
    {found : Option (Nat × Nat)} (hspan : span? lazyOptions root text = .ok found) :
    Agreeing text root found
      (some ⟨Utf16.offset text m, Utf16.offset text finish, groups⟩) := by
  have hleft := isLeftmost_of_span? rfl hspan
  have hrelates := relates_of_mem_ends valid unsplit htestable hm (List.mem_of_mem_head? hfinish)
  have hoffset : Utf16.offset text m ≤ (Utf16.encode text).size := by
    rw [Utf16.size_encode, Utf16.offset_le_iff]
    exact hm
  constructor
  case none_of_none =>
      rintro rfl
      exact absurd hrelates (hleft _ hoffset _)
  case start_eq =>
      rintro i hi stop rfl
      refine ⟨_, rfl, ?_⟩
      have hlater : m ≤ i := by
        apply Nat.le_of_not_lt
        intro hlt
        exact ends_ne_nil_of_relates valid unsplit htestable hi hleft.2.1 (hbefore i hlt)
      have hearlier : ¬ Utf16.offset text m < Utf16.offset text i := by
        intro hlt
        exact hleft.2.2 _ hlt _ hrelates
      rw [Utf16.offset_lt_iff] at hearlier
      exact congrArg (Utf16.offset text) (Nat.le_antisymm hlater (Nat.not_lt.mp hearlier))
  case finish_eq =>
      rintro settled start stop hit rfl hhit rfl
      obtain rfl := Option.some.inj hhit
      have hfirst := map_head?_ends valid unsplit htestable hm hspan
      rw [← head?_ends_of_settled settled hm, hfinish] at hfirst
      exact Option.some.inj hfirst
  case of_some =>
      intro hit hhit
      obtain rfl := Option.some.inj hhit
      refine ⟨hrelates, ?_⟩
      cases found with
      | none => exact absurd hrelates (hleft _ hoffset _)
      | some span =>
          refine ⟨span.1, span.2, rfl, ?_⟩
          apply Nat.le_of_not_lt
          intro hlt
          exact hleft.2.2 _ hlt _ hrelates
  case search_first =>
      rintro i hi stop rfl
      exact map_head?_ends valid unsplit htestable hi hspan
  case host_first =>
      intro hit hhit
      obtain rfl := Option.some.inj hhit
      refine ⟨m, hm, rfl, ?_⟩
      rw [hfinish]
      rfl

/-- A program that offers the ends of a tree finds what the search for the tree finds. -/
theorem agreeing_of_offers {program : Host.Program}
    (hoffers : Host.Offers text (Host.matchItems text.toArray {} program.body)
      (ends true text root))
    (hflags : program.flags = {}) {found : Option (Nat × Nat)}
    (hspan : span? lazyOptions root text = .ok found) :
    Agreeing text root found ((program.search? text.toArray).map fun m =>
      ⟨Utf16.offset text m.start, Utf16.offset text m.finish, m.captured text⟩) := by
  rcases Host.search?_cases hoffers hflags with ⟨hnone, hall⟩ | ⟨m, hsome, hm, hfinish, hbefore⟩
  · rw [hnone]
    exact agreeing_none valid unsplit htestable hall hspan
  · rw [hsome]
    exact agreeing_some valid unsplit htestable hm hfinish hbefore _ hspan

end Agreement

namespace Sign

/-- A sign of the shared notation is spelled by some code points. -/
theorem Shared.spell_ne_nil {s : Sign} (h : s.Shared) : s.spell ≠ [] := by
  rcases s.atom_or_mark_or_structure with hatom | ⟨m, rfl⟩ | rfl | rfl | rfl | rfl
  · obtain ⟨c, l, -, -, hspell, -⟩ := hatom.first h
    rw [hspell]
    exact List.cons_ne_nil c l
  · obtain ⟨c, l, hspell, -⟩ := first_mark m
    rw [spell, hspell]
    exact List.cons_ne_nil c l
  · exact List.cons_ne_nil _ _
  · exact List.cons_ne_nil _ _
  · exact List.cons_ne_nil _ _
  · exact List.cons_ne_nil _ _

theorem spellAll_ne_nil {signs : List Sign} (nonempty : signs ≠ []) (h : ∀ s ∈ signs, s.Shared) :
    spellAll signs ≠ [] := by
  cases signs with
  | nil => exact absurd rfl nonempty
  | cons s rest =>
      rw [spellAll, List.flatMap_cons]
      exact List.append_ne_nil_of_left_ne_nil (h s List.mem_cons_self).spell_ne_nil _

end Sign

open Search in
/-- For a pattern in the shared notation that both readers accept, the search and the host both have
an answer in a text without newlines and without surrogate pairs, and the answers agree. An empty
text must not be asked for a place apart from a word boundary. -/
theorem span?_agreeing_testMatch [Host.CharacterNames] {signs : List Sign} (nonempty : signs ≠ [])
    (shared : ∀ s ∈ signs, s.Shared) {parsed : Pattern.Parsed}
    (parses : Pattern.parse (Sign.spellAll signs) = .ok parsed) {program : Host.Program}
    (compiles : Host.compileText (Sign.spellAll signs) [] = .ok (.ok program)) {text : Text}
    (valid : text.Valid) (unsplit : Utf16.Unsplit text) (line : Ascii.newline ∉ text)
    (place : .anchor .notBoundary ∈ signs → text ≠ []) :
    ∃ found outcome, span? lazyOptions parsed.root text = .ok found ∧
      Host.testMatch (Sign.spellAll signs) text [] = .ok (.ok outcome) ∧
      Agreeing text parsed.root found outcome := by
  have hvalid : Text.Valid (Sign.spellAll signs) := fun c hc =>
    have hle : c ≤ 0x7D := (Sign.isSpelling_of_mem_spellAll shared c hc).2.1
    Nat.lt_of_le_of_lt hle (by decide)
  have houtcome := Pattern.run_outcome .start Pattern.Progress.sound_start hvalid (Nat.zero_add _)
  rw [← Pattern.parse, parses] at houtcome
  have htestable := houtcome.2.1.testable
  obtain ⟨found, hspan⟩ : ∃ found, span? lazyOptions parsed.root text = .ok found :=
    exists_span? rfl htestable valid
  obtain ⟨hoffers, hflags⟩ :=
    (Host.exists_inStep shared parses compiles text).offers valid line shared place
  refine ⟨found, _, hspan, ?_, agreeing_of_offers valid unsplit htestable hoffers hflags hspan⟩
  rw [Host.testMatch, Host.prepare, if_neg (by simpa using Sign.spellAll_ne_nil nonempty shared),
    compiles]
  rfl

/-- What the search answers for a pattern, if the pattern is read. -/
def searched? (pattern text : Text) : Option (Option (Nat × Nat)) :=
  (Pattern.parse pattern).toOption.bind fun parsed =>
    (Search.span? Search.lazyOptions parsed.root text).toOption

/-- What the host answers for a pattern, if it has a program. -/
def matched? [Host.CharacterNames] (pattern text : Text) : Option (Option (Nat × Nat)) :=
  (Host.testMatch pattern text []).toOption.bind fun outcome =>
    outcome.toOption.map fun answer => answer.map fun hit => (hit.start, hit.finish)

theorem exists_of_searched? {pattern text : Text} {found : Option (Nat × Nat)}
    (h : searched? pattern text = some found) : ∃ parsed, Pattern.parse pattern = .ok parsed := by
  cases hparse : Pattern.parse pattern with
  | ok parsed => exact ⟨parsed, rfl⟩
  | error failure =>
      rw [searched?, hparse] at h
      cases h

/-- An answer of the host is one of the program of the pattern. -/
theorem exists_of_matched? [Host.CharacterNames] {pattern text : Text} {found : Option (Nat × Nat)}
    (h : matched? pattern text = some found) (nonempty : pattern ≠ []) :
    ∃ program, Host.compileText pattern [] = .ok (.ok program) := by
  rw [matched?, Host.testMatch, Host.prepare, if_neg (by simpa using nonempty)] at h
  cases hcompile : Host.compileText pattern [] with
  | error fault =>
      rw [hcompile] at h
      cases h
  | ok outcome =>
      cases outcome with
      | error problem =>
          rw [hcompile] at h
          cases h
      | ok program => exact ⟨program, rfl⟩

open Search in
/-- A greedy choice of two letters, asked for in a text that begins with neither. -/
theorem agreeing_abc :
    let signs : List Sign := [.openCapture, .literal 'a'.toNat, .bar, .literal 'b'.toNat, .close,
      .mark .star, .literal 'c'.toNat]
    ∃ parsed program found outcome, Pattern.parse (Sign.spellAll signs) = .ok parsed ∧
      Host.compileText (Sign.spellAll signs) [] = .ok (.ok program) ∧
      span? lazyOptions parsed.root "xabc" = .ok found ∧
      Host.testMatch (Sign.spellAll signs) "xabc" [] = .ok (.ok outcome) ∧
      Agreeing "xabc" parsed.root found outcome := by
  intro signs
  have hsearched : searched? (Sign.spellAll signs) "xabc" = some (some (1, 4)) := by decide +kernel
  have hmatched : matched? (Sign.spellAll signs) "xabc" = some (some (1, 4)) := by decide +kernel
  obtain ⟨parsed, parses⟩ := exists_of_searched? hsearched
  obtain ⟨program, compiles⟩ := exists_of_matched? hmatched (List.cons_ne_nil _ _)
  have valid : Text.Valid "xabc" := by decide
  obtain ⟨found, outcome, hspan, hmatch, hagreeing⟩ := span?_agreeing_testMatch
    (List.cons_ne_nil _ _) (by decide) parses compiles valid
    (Utf16.Unsplit.of_not_high (by decide)) (by decide) (fun _ => by decide)
  exact ⟨parsed, program, found, outcome, parses, compiles, hspan, hmatch, hagreeing⟩

/-- The answers to a pattern in the shared notation, in a text without newlines. -/
structure Answered [Host.CharacterNames] (signs : List Sign) (text : Text)
    (search host : Option (Nat × Nat)) : Prop where
  shared : ∀ s ∈ signs, s.Shared
  line : Ascii.newline ∉ text
  searched : searched? (Sign.spellAll signs) text = some search
  matched : matched? (Sign.spellAll signs) text = some host

/-- The answers differ after an empty round, in an empty text, between the units of a code point and
at two surrogates that read as one code point. -/
theorem answers_differ :
    Answered [.openCapture, .bar, .literal 'a'.toNat, .close, .mark .star] "a"
        (some (0, 1)) (some (0, 0)) ∧
      Answered [.anchor .notBoundary] [] (some (0, 0)) none ∧
      Answered [.escape .notWord] [0x1D400] (some (1, 2)) none ∧
      Answered [.dot] [0xD83D, 0xDE00] (some (0, 2)) (some (0, 1)) :=
  ⟨⟨by decide, by decide, by decide +kernel, by decide +kernel⟩,
    ⟨by decide, by decide, by decide +kernel, by decide +kernel⟩,
    ⟨by decide, by decide, by decide +kernel, by decide +kernel⟩,
    ⟨by decide, by decide, by decide +kernel, by decide +kernel⟩⟩

end RegexTrace
