import RegexTrace.Proofs.Freshness
import RegexTrace.Proofs.Parsing

/-!
# When a session has no pattern

Whether there is a pattern at all is asked twice. The reading of a session has none when its text is
blank; the production matches have none when the text is empty. So a text of blanks alone is no
pattern for the tree and the traces of a session, and is the empty pattern for its matches.
-/

namespace RegexTrace

namespace Pattern

/-- The tree of a pattern is never missing. -/
theorem root_ne_absent {pattern : Text} {parsed : Parsed} (h : parse pattern = .ok parsed) :
    parsed.root ≠ .absent := by
  refine @Progress.run_induction parsed (fun _ _ _ _ => parsed.root ≠ .absent)
    (fun pos p hrun => ?done) (fun _ _ _ _ _ _ _ _ _ ih => ih) 0 {} pattern h
  case done =>
    rw [Progress.run, Progress.finish] at hrun
    split at hrun
    · cases hrun
      intro habsent
      rcases p.level.root_cases with ⟨body, -, hroot, -⟩ | ⟨-, hroot, -⟩
      · cases habsent.symm.trans hroot
      · cases habsent.symm.trans hroot
    · cases hrun

/-- A text that was read has a tree or an error. -/
theorem error?_ne_none_of_root {t flags : Text} {result : Reading.Result}
    (h : read t flags = .ok result) (habsent : result.root = .absent) : result.error? ≠ none := by
  unfold read at h
  dsimp only at h
  split at h
  · next parsed hparse =>
      cases h
      exact absurd habsent (root_ne_absent hparse)
  · cases h
    nofun
  · cases h

end Pattern

namespace Host

/-- A text begins with a small letter, or with what comes after the letters of ASCII. -/
def BeginsSmall (t : Text) : Prop := ∃ c rest, t = c :: rest ∧ 'a'.toNat ≤ c

-- A literal is given by its characters, which are not computed from its bytes then.
theorem beginsSmall_ofList {c : Char} {rest : List Char} (h : 'a'.toNat ≤ c.toNat) :
    BeginsSmall (Text.ofString (String.ofList (c :: rest))) :=
  ⟨c.toNat, rest.map Char.toNat, by rw [Text.ofString, String.toList_ofList, List.map_cons], h⟩

theorem BeginsSmall.append {t : Text} (h : BeginsSmall t) (u : Text) : BeginsSmall (t ++ u) := by
  obtain ⟨c, rest, rfl, hsmall⟩ := h
  exact ⟨c, rest ++ u, rfl, hsmall⟩

theorem Cause.beginsSmall_message (cause : Cause) : BeginsSmall cause.message := by
  cases cause <;> unfold Cause.message <;> (repeat with_reducible apply BeginsSmall.append) <;>
    exact beginsSmall_ofList (by decide)

theorem Refusal.beginsSmall_message (pattern : Text) (refusal : Refusal) :
    BeginsSmall (refusal.message pattern) := by
  have hcause := refusal.cause.beginsSmall_message
  unfold Refusal.message
  cases refusal.position with
  | none => exact hcause
  | some position => exact ((hcause.append _).append _).append _

theorem Outcome.Problem.message_eq_iff (problem : Outcome.Problem) :
    problem.message = "No regex pattern provided" ↔ problem = .noPattern := by
  cases problem with
  | noPattern => exact ⟨fun _ => rfl, fun _ => rfl⟩
  | refused respelled refusal =>
      refine ⟨fun h => ?_, nofun⟩
      obtain ⟨c, rest, hmessage, hsmall⟩ := refusal.beginsSmall_message respelled
      obtain rfl : 'N'.toNat = c := (List.cons.inj (h.symm.trans hmessage)).1
      exact absurd hsmall (by decide)

/-- The program of the empty pattern. -/
def emptyProgram : Program := ⟨[], Flags.ofText [], 0⟩

/-- The match of the empty text at a position. -/
def emptyMatch (pos : Nat) : Match := ⟨pos, pos, []⟩

theorem compileText_of_blank [CharacterNames] {t : Text} (h : Text.trim t = []) :
    compileText t [] = .ok (.ok emptyProgram) := by
  rw [compileText, Pattern.splitLiteral, h]
  rfl

/-- No pattern is reported for the empty text only. -/
theorem prepare_eq_noPattern_iff [CharacterNames] {t : Text} :
    prepare t [] = .ok (.error .noPattern) ↔ t = [] := by
  unfold prepare
  split
  · next hempty => exact ⟨fun _ => List.isEmpty_iff.mp hempty, fun _ => rfl⟩
  · next hempty =>
      refine ⟨fun h => ?_, fun h => absurd (List.isEmpty_iff.mpr h) hempty⟩
      unfold compileText at h
      dsimp only at h
      split at h <;> cases h

namespace Program

variable (text : Array CodePoint)

theorem matchAt?_empty (mustAdvance : Bool) (pos : Nat) :
    emptyProgram.matchAt? text mustAdvance pos =
      if mustAdvance then none else some (emptyMatch pos) := by
  cases mustAdvance with
  | false => rfl
  | true =>
      unfold matchAt? emptyProgram
      dsimp only
      rw [matchItems, beq_self_eq_true]
      rfl

theorem search?_empty : emptyProgram.search? text = some (emptyMatch 0) := by
  rw [search?, positionsFrom, Nat.sub_zero, List.range'_succ, searchFrom?, matchAt?_empty]
  rfl

/-- After a match of the empty text, the empty pattern is matched at every later position. -/
theorem findFrom_empty (count fuel pos : Nat) (hpos : pos + count = text.size)
    (hfuel : count < fuel) :
    emptyProgram.findFrom text fuel true pos = (List.range' (pos + 1) count).map emptyMatch := by
  induction count generalizing fuel pos with
  | zero =>
      obtain ⟨fuel, rfl⟩ := Nat.exists_eq_add_one.mpr hfuel
      have hlast : positionsFrom text pos = [pos] := by
        rw [positionsFrom, ← hpos, Nat.add_zero, Nat.add_sub_cancel_left]
        rfl
      rw [findFrom, hlast, searchFrom?, matchAt?_empty]
      rfl
  | succ count ih =>
      obtain ⟨fuel, rfl⟩ := Nat.exists_eq_add_one.mpr (Nat.zero_lt_of_lt hfuel)
      have hnext : positionsFrom text pos = pos :: (pos + 1) :: List.range' (pos + 2) count := by
        rw [positionsFrom, show text.size + 1 - pos = count + 1 + 1 by omega]
        rfl
      have hfound : emptyProgram.searchFrom? text true (positionsFrom text pos) =
          some (emptyMatch (pos + 1)) := by
        rw [hnext, searchFrom?, matchAt?_empty, searchFrom?, matchAt?_empty]
        rfl
      rw [findFrom, hfound, List.range'_succ, List.map_cons]
      dsimp only [emptyMatch]
      rw [beq_self_eq_true, ih fuel (pos + 1) (by omega) (by omega)]

theorem findAll_empty :
    emptyProgram.findAll text = (List.range (text.size + 1)).map emptyMatch := by
  have hfirst : emptyProgram.searchFrom? text false (positionsFrom text 0) = some (emptyMatch 0) :=
    search?_empty text
  rw [findAll, findFrom, hfirst, List.range_eq_range', List.range'_succ, List.map_cons]
  dsimp only [emptyMatch]
  rw [beq_self_eq_true, findFrom_empty text text.size _ 0 (Nat.zero_add _) (by omega)]

end Program

/-- What is reported of a match of the empty text at a position. -/
def emptyListed (text : Text) (pos : Nat) : Outcome.Listed :=
  ⟨pos, Utf16.offset text pos, Utf16.offset text pos, [], []⟩

namespace Outcome

/-- Nothing is matched, and the report says that there is no pattern. -/
def SaysNoPattern {α : Type} (outcome : Outcome α) : Prop :=
  ∃ problem : Problem, outcome = .error problem ∧ problem.message = "No regex pattern provided"

/-- What is asked of a program says that there is no pattern where the program is missing for that
reason. -/
theorem saysNoPattern_map_iff {α β : Type} (prepared : Except Fault (Outcome α)) (f : α → β) :
    (∃ outcome, (prepared.map fun outcome => outcome.map f) = .ok outcome ∧
      SaysNoPattern outcome) ↔ prepared = .ok (.error .noPattern) := by
  constructor
  · rintro ⟨-, hmap, problem, rfl, hmessage⟩
    obtain rfl := problem.message_eq_iff.mp hmessage
    cases prepared with
    | error fault => cases hmap
    | ok outcome =>
        cases outcome with
        | error problem =>
            cases hmap
            rfl
        | ok program => cases hmap
  · rintro rfl
    exact ⟨_, rfl, _, rfl, rfl⟩

end Outcome

variable [CharacterNames] {t : Text}

/-- Only the empty text is said to be no pattern when a match is asked for. -/
theorem saysNoPattern_testMatch_iff (x : Text) :
    (∃ outcome, testMatch t x [] = .ok outcome ∧ outcome.SaysNoPattern) ↔ t = [] :=
  (Outcome.saysNoPattern_map_iff _ _).trans prepare_eq_noPattern_iff

/-- Only the empty text is said to be no pattern when all matches are asked for. -/
theorem saysNoPattern_testMatchAll_iff (x : Text) :
    (∃ outcome, testMatchAll t x [] = .ok outcome ∧ outcome.SaysNoPattern) ↔ t = [] :=
  (Outcome.saysNoPattern_map_iff _ _).trans prepare_eq_noPattern_iff

theorem prepare_of_blank (h : Text.trim t = []) (hne : t ≠ []) :
    prepare t [] = .ok (.ok emptyProgram) := by
  rw [prepare, if_neg (mt List.isEmpty_iff.mp hne), compileText_of_blank h]

/-- A text of some blanks is matched by the empty text at the beginning. -/
theorem testMatch_of_blank (h : Text.trim t = []) (hne : t ≠ []) (x : Text) :
    testMatch t x [] = .ok (.ok (some ⟨0, 0, []⟩)) := by
  rw [testMatch, prepare_of_blank h hne, Except.map, Except.map, Program.search?_empty]
  rfl

/-- A text of some blanks is matched by the empty text at every position. -/
theorem testMatchAll_of_blank (h : Text.trim t = []) (hne : t ≠ []) (x : Text) :
    testMatchAll t x [] = .ok (.ok ((List.range (x.length + 1)).map (emptyListed x))) := by
  rw [testMatchAll, prepare_of_blank h hne, Except.map, Except.map, Program.findAll_empty,
    List.size_toArray]
  refine congrArg (Except.ok ∘ Except.ok) (List.ext_getElem ?_ fun i _ _ => ?_)
  · simp
  · simp [emptyListed, emptyMatch, slice, Match.captured]

end Host

namespace Session

/-- A session has neither a tree nor an error. -/
def IsTreeless (s : Session) : Prop := s.root = .absent ∧ s.error? = none

/-- A session answers every question for matches that there is no pattern. -/
def IsPatternless [Host.CharacterNames] (s : Session) : Prop :=
  ∀ x,
    (∃ outcome, s.step (.test x) = (.ok (.matched outcome), s) ∧ outcome.SaysNoPattern) ∧
      ∃ outcome, s.step (.testAll x) = (.ok (.listed outcome), s) ∧ outcome.SaysNoPattern

variable {options : Options} {commands : List Command} {s : Session}

/-- A session has neither a tree nor an error exactly if its pattern is blank. -/
theorem Current.isTreeless_iff (h : Current options commands s) :
    s.IsTreeless ↔ Text.trim s.patternText = [] := by
  have hreading := h.reading
  unfold Reads at hreading
  unfold IsTreeless root error?
  rw [← List.isEmpty_iff]
  split at hreading
  · next hblank =>
      rw [hreading]
      exact ⟨fun _ => hblank, fun _ => ⟨rfl, rfl⟩⟩
  · next hblank =>
      obtain ⟨result, hread, hreading⟩ := hreading
      rw [hreading]
      exact ⟨fun ⟨hroot, herror⟩ => absurd herror (Pattern.error?_ne_none_of_root hread hroot),
        fun hempty => absurd hempty hblank⟩

/-- The answer of a session to a question. -/
theorem answer_eq_ok_iff {ε α : Type} {fault : ε → Fault} {reply : α → Reply}
    (hreply : Function.Injective reply) {result : Except ε α} {value : α} :
    s.answer fault reply result = (.ok (reply value), s) ↔ result = .ok value := by
  cases result with
  | error e => exact ⟨nofun, nofun⟩
  | ok found =>
      constructor
      · intro h
        exact congrArg _ (hreply (Except.ok.inj (Prod.mk.inj h).1))
      · rintro h
        cases h
        rfl

/-- A session answers every question for matches that there is no pattern exactly if its text is
empty. -/
theorem Current.isPatternless_iff [Host.CharacterNames] (h : Current options commands s) :
    s.IsPatternless ↔ s.patternText = [] := by
  have htest : ∀ x,
      (∃ outcome, s.step (.test x) = (.ok (.matched outcome), s) ∧ outcome.SaysNoPattern) ↔
        s.patternText = [] := by
    intro x
    rw [← Host.saysNoPattern_testMatch_iff x, ← (h.test_eq x).1]
    exact exists_congr fun _ => and_congr_left' (answer_eq_ok_iff fun _ _ => Reply.matched.inj)
  have htestAll : ∀ x,
      (∃ outcome, s.step (.testAll x) = (.ok (.listed outcome), s) ∧ outcome.SaysNoPattern) ↔
        s.patternText = [] := by
    intro x
    rw [← Host.saysNoPattern_testMatchAll_iff x, ← (h.test_eq x).2]
    exact exists_congr fun _ => and_congr_left' (answer_eq_ok_iff fun _ _ => Reply.listed.inj)
  exact ⟨fun hall => (htest []).mp (hall []).1,
    fun hempty x => ⟨(htest x).mpr hempty, (htestAll x).mpr hempty⟩⟩

/-- After commands that all have a reply, a session has neither a tree nor an error exactly if its
pattern is blank, and then its traces are empty. It answers that there is no pattern exactly if the
text is empty. Between the two, with a text of some blanks, it reports a match of the empty text at
every position. -/
theorem blankness_of_run [Host.CharacterNames] (ran : run { options } commands = .ok s) :
    (s.IsTreeless ↔ Text.trim s.patternText = []) ∧
      (s.IsPatternless ↔ s.patternText = []) ∧
      (s.IsTreeless → ∀ x, s.step (.trace x) = (.ok (.traced {}), s)) ∧
      (s.IsTreeless → ¬ s.IsPatternless → ∀ x,
        s.step (.test x) = (.ok (.matched (.ok (some ⟨0, 0, []⟩))), s) ∧
          s.step (.testAll x) =
            (.ok (.listed (.ok ((List.range (x.length + 1)).map (Host.emptyListed x)))), s)) := by
  have h : Current options commands s := (current_start options).run ran
  refine ⟨h.isTreeless_iff, h.isPatternless_iff, ?_, ?_⟩
  · rintro ⟨hroot, -⟩ x
    rw [step, trace, hroot]
    rfl
  · intro htreeless hpattern x
    have hblank := h.isTreeless_iff.mp htreeless
    have hne := mt h.isPatternless_iff.mpr hpattern
    rw [step, (h.test_eq x).1, Host.testMatch_of_blank hblank hne, step, (h.test_eq x).2,
      Host.testMatchAll_of_blank hblank hne]
    exact ⟨rfl, rfl⟩

/-- A session with a pattern that was refused and then one of blanks: its traces are empty, and it
reports a match in every text. -/
theorem blankness_of_spaces :
    ∃ s, run {} [.setPattern "a(", .setPattern " \t"] = .ok s ∧ s.IsTreeless ∧
      ¬ s.IsPatternless ∧
      ∀ x, s.step (.trace x) = (.ok (.traced {}), s) ∧
        s.step (.test x) = (.ok (.matched (.ok (some ⟨0, 0, []⟩))), s) := by
  obtain ⟨htreeless, hpattern, htrace, hmatch⟩ :=
    @blankness_of_run {} [.setPattern "a(", .setPattern " \t"] _ _ rfl
  have hblank := htreeless.mpr (by decide)
  have hne := mt hpattern.mp (by decide)
  exact ⟨_, rfl, hblank, hne, fun x => ⟨htrace hblank x, (hmatch hblank hne x).1⟩⟩

/-- A session without a tree and without an error that does not answer that there is no pattern: it
reports a match while its trace is empty. -/
theorem treeless_matched :
    ∃ s, run {} [.setPattern " "] = .ok s ∧ s.IsTreeless ∧ ¬ s.IsPatternless ∧
      s.step (.trace "a") = (.ok (.traced {}), s) ∧
      s.step (.test "a") = (.ok (.matched (.ok (some ⟨0, 0, []⟩))), s) := by
  refine ⟨_, rfl, ⟨rfl, rfl⟩, fun h => ?_, rfl, rfl⟩
  obtain ⟨⟨outcome, hstep, problem, rfl, -⟩, -⟩ := h "a"
  cases hstep

end Session

end RegexTrace
