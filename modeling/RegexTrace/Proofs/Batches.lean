import RegexTrace.CommandLine.Run
import RegexTrace.Proofs.Freshness
import RegexTrace.Proofs.Replies

/-!
# What the batch command reports

The batch command does not ask whether its pattern is refused. It tests every line of the file with
it and looks at the first result. All lines have the same problem or none has one, so this tells the
truth about the pattern whenever there is a line; a file without lines is reported as zero of zero
lines, whatever the pattern is.

## Implementation notes

The command reads its pattern for the session as well, though it needs no tree. So a bound that is
too long for the reader keeps it from a report even where the host takes the braces as they stand.
-/

namespace RegexTrace

namespace Host

/-- The host finds a match of a pattern in a line. -/
def Matches [CharacterNames] (patternText line : Text) : Prop :=
  ∃ hit, testMatch patternText line [] = .ok (.ok (some hit))

variable {patternText : Text}

theorem testMatch_of_problem [CharacterNames] {problem : Outcome.Problem}
    (h : prepare patternText [] = .ok (.error problem)) (line : Text) :
    testMatch patternText line [] = .ok (.error problem) := by
  rw [testMatch, h]
  rfl

/-- A pattern with a program has an answer in every line. -/
theorem exists_testMatch [CharacterNames] {program : Program}
    (h : prepare patternText [] = .ok (.ok program)) :
    ∃ find : Text → Option Outcome.Hit, ∀ line,
      testMatch patternText line [] = .ok (.ok (find line)) := by
  refine ⟨fun line => (program.search? line.toArray).map fun m =>
    ⟨Utf16.offset line m.start, Utf16.offset line m.finish, m.captured line⟩, fun line => ?_⟩
  rw [testMatch, h]
  rfl

end Host

namespace CommandLine

/-- A line is counted as matched if the host finds a match in it. -/
theorem isMatched_iff [Host.CharacterNames] {patternText line : Text}
    {outcome : Host.Outcome (Option Host.Outcome.Hit)}
    (h : Host.testMatch patternText line [] = .ok outcome) :
    isMatched outcome = true ↔ Host.Matches patternText line := by
  unfold Host.Matches
  rw [h]
  match outcome with
  | .ok (some hit) => exact ⟨fun _ => ⟨hit, rfl⟩, fun _ => rfl⟩
  | .ok none => exact ⟨nofun, nofun⟩
  | .error problem => exact ⟨nofun, nofun⟩

/-- Whether the host finds a match can be told by asking it. -/
instance [Host.CharacterNames] (patternText line : Text) :
    Decidable (Host.Matches patternText line) :=
  match h : Host.testMatch patternText line [] with
  | .ok _ => decidable_of_iff _ (isMatched_iff h)
  | .error _ => .isFalse fun ⟨_, hmatch⟩ => nomatch h.symm.trans hmatch

/-- The last line of a batch. -/
def summaryLine (matched total : Nat) : Text :=
  Text.ofNat matched ++ Text.ofString "/" ++ Text.ofNat total ++ Text.ofString " lines matched"

/-- A report that a pattern is refused: nothing is printed, and what is wrong is told last. -/
structure Report.Refuses (r : Report) (message : Text) : Prop where
  result : r.result = .ok .badPattern
  lines : r.lines = []
  told : r.remarks.getLast? = some (.error message)

/-- A report on the lines of a file: each of them is printed with a mark that says whether the host
finds a match in it, and then those with a match are counted. -/
structure Report.Lists [Host.CharacterNames] (r : Report) (patternText : Text)
    (file : List Text) : Prop where
  result : r.result = .ok .ok
  lines : r.lines =
    (file.map fun line => batchLine line (decide (Host.Matches patternText line))) ++
      [summaryLine (file.countP fun line => decide (Host.Matches patternText line)) file.length]

section Reports

variable {patternText : Text} {remarks : List Remark} {file : List Text}

theorem reportBatch_refuses {problem : Host.Outcome.Problem} (hne : file ≠ []) :
    (reportBatch patternText remarks (file.map fun line => (line, .error problem))).Refuses
      problem.message := by
  obtain ⟨line, rest, rfl⟩ := List.exists_cons_of_ne_nil hne
  exact ⟨rfl, rfl, List.getLast?_concat⟩

/-- The results of a batch without a problem are listed. -/
theorem reportBatch_lists [Host.CharacterNames] {find : Text → Option Host.Outcome.Hit}
    (h : ∀ line, Host.testMatch patternText line [] = .ok (.ok (find line))) :
    (reportBatch patternText remarks (file.map fun line => (line, .ok (find line)))).Lists
      patternText file := by
  have hmatched : ∀ line, isMatched (.ok (find line)) = decide (Host.Matches patternText line) :=
    fun line => Bool.eq_iff_iff.mpr ((isMatched_iff (h line)).trans decide_eq_true_iff.symm)
  have hlines : batchLines (file.map fun line => (line, .ok (find line))) =
      (file.map fun line => batchLine line (decide (Host.Matches patternText line))) ++
        [summaryLine (file.countP fun line => decide (Host.Matches patternText line))
          file.length] := by
    rw [batchLines, List.map_map, List.countP_map, List.length_map]
    simp only [Function.comp_def, hmatched]
    rfl
  cases file with
  | nil => exact ⟨rfl, hlines⟩
  | cons line rest => exact ⟨rfl, hlines⟩

end Reports

section Runs

variable [Host.CharacterNames] {settings : Settings} {files : Files} {a : BatchArguments}
  {options : Options} {contents : Text}

/-- The batch command stops at a pattern whose bounds have too many digits. -/
theorem runBatch_long (accepted : Options.ofRequest settings.request = .ok options)
    (long : Pattern.HasLongBound (Pattern.splitLiteral a.pattern).1) :
    ∃ fault, (runBatch settings files a).result = .error (.numeral fault) := by
  have hblank : ¬ (Text.trim a.pattern).isEmpty = true :=
    fun h => Pattern.not_hasLongBound_of_blank (List.isEmpty_iff.mp h) long
  obtain ⟨fault, hread⟩ := Pattern.read_long long
  refine ⟨fault, ?_⟩
  rw [runBatch, accepted]
  dsimp only
  rw [Session.read, if_neg hblank, hread]
  rfl

/-- The batch command reports the results of a session that is told its pattern and the lines of its
file. -/
theorem exists_runBatch (accepted : Options.ofRequest settings.request = .ok options)
    (readable : files.read a.file = .ok contents) (valid : a.pattern.Valid)
    (short : ¬ Pattern.HasLongBound (Pattern.splitLiteral a.pattern).1)
    {results : List (Text × Host.Outcome (Option Host.Outcome.Hit))}
    (h : ((Text.lines (Text.unifyNewlines contents)).mapM fun line =>
      (Host.testMatch a.pattern line []).map fun outcome => (line, outcome)) = .ok results) :
    ∃ remarks, runBatch settings files a = reportBatch a.pattern remarks results := by
  obtain ⟨session, hread⟩ :
      ∃ session, Session.read { options, patternText := a.pattern } = .ok session := by
    unfold Session.read
    split
    · exact ⟨_, rfl⟩
    · obtain ⟨result, hresult⟩ := Pattern.exists_read valid short
      exact ⟨_, by rw [hresult]; rfl⟩
  have hset : Session.step { options } (.setPattern a.pattern) = (.ok .done, session) := by
    rw [Session.step, Session.reparse, hread]
  have hbatch := ((Session.current_start options).step hset).step
    (show session.step (.setBatch (Text.lines (Text.unifyNewlines contents))) = (.ok .done, _)
      from rfl)
  have hpattern : session.patternText = a.pattern := hbatch.pattern
  have htests :
      Session.testBatch { session with batch := Text.lines (Text.unifyNewlines contents) } =
        .ok results := by
    rw [← h, ← hpattern]
    exact hbatch.testBatch_eq
  exact ⟨sessionRemarks session, by simp only [runBatch, accepted, hread, readable, htests]⟩

/-- Where the host has an answer in every line, the batch command reports on these answers. -/
theorem exists_runBatch_of_answers (accepted : Options.ofRequest settings.request = .ok options)
    (readable : files.read a.file = .ok contents) (valid : a.pattern.Valid)
    (short : ¬ Pattern.HasLongBound (Pattern.splitLiteral a.pattern).1)
    {outcome : Text → Host.Outcome (Option Host.Outcome.Hit)}
    (h : ∀ line, Host.testMatch a.pattern line [] = .ok (outcome line)) :
    ∃ remarks, runBatch settings files a = reportBatch a.pattern remarks
      ((Text.lines (Text.unifyNewlines contents)).map fun line => (line, outcome line)) := by
  have hanswers : (fun line => (Host.testMatch a.pattern line []).map fun outcome =>
      (line, outcome)) = fun line => pure (line, outcome line) :=
    funext fun line => by rw [h line]; rfl
  apply exists_runBatch accepted readable valid short
  rw [hanswers]
  exact List.mapM_pure

/-- The batch command with a file that can be read. A pattern of which a bound has too many digits
keeps it from a report. Of any other pattern, a refusal by the host is reported if the file has a
line; without a line the report is a success. If the host has a program for the pattern, the lines
are listed. -/
theorem runBatch_reports (accepted : Options.ofRequest settings.request = .ok options)
    (readable : files.read a.file = .ok contents) (valid : a.pattern.Valid) :
    let report := (Command.batch a).run settings files
    let file := Text.lines (Text.unifyNewlines contents)
    (Pattern.HasLongBound (Pattern.splitLiteral a.pattern).1 →
        ∃ fault, report.result = .error (.numeral fault)) ∧
      (¬ Pattern.HasLongBound (Pattern.splitLiteral a.pattern).1 →
        (∀ problem, Host.prepare a.pattern [] = .ok (.error problem) →
          (file ≠ [] → report.Refuses problem.message) ∧
            (file = [] → report.result = .ok .ok ∧ report.lines = [summaryLine 0 0])) ∧
        ∀ program, Host.prepare a.pattern [] = .ok (.ok program) →
          report.Lists a.pattern file) := by
  intro report file
  refine ⟨runBatch_long accepted, fun short =>
    ⟨fun problem hproblem => ?_, fun program hprogram => ?_⟩⟩
  · obtain ⟨remarks, hreport⟩ := exists_runBatch_of_answers accepted readable valid short
      (Host.testMatch_of_problem hproblem)
    change report = reportBatch a.pattern remarks (file.map _) at hreport
    rw [hreport]
    refine ⟨reportBatch_refuses, fun hempty => ?_⟩
    rw [hempty]
    exact ⟨rfl, rfl⟩
  · obtain ⟨find, hfind⟩ := Host.exists_testMatch hprogram
    obtain ⟨remarks, hreport⟩ := exists_runBatch_of_answers accepted readable valid short hfind
    change report = reportBatch a.pattern remarks (file.map _) at hreport
    rw [hreport]
    exact reportBatch_lists hfind

end Runs

/-- The batch command with the settings of an empty environment and a file of two lines, once for a
pattern that has a program and once for one that the host refuses. -/
theorem runBatch_reports_two_lines :
    let files : Files := { read := fun _ => .ok "cat\ndog\n" }
    Report.Lists ((Command.batch ⟨"^cat", "lines.txt"⟩).run {} files) "^cat" ["cat", "dog"] ∧
      ∃ problem, Host.prepare "(" [] = .ok (.error problem) ∧
        Report.Refuses ((Command.batch ⟨"(", "lines.txt"⟩).run {} files) problem.message := by
  intro files
  have hshort : ∀ pattern : Text, pattern.length ≤ 4 → ¬ Pattern.HasLongBound pattern :=
    fun pattern h => Pattern.not_hasLongBound_of_length (h.trans (by decide))
  have hlisted := @runBatch_reports _ {} files ⟨"^cat", "lines.txt"⟩ _ _ rfl rfl (by decide)
  have hrefused := @runBatch_reports _ {} files ⟨"(", "lines.txt"⟩ _ _ rfl rfl (by decide)
  exact ⟨(hlisted.2 (hshort _ (by decide))).2 _ rfl, _, rfl,
    ((hrefused.2 (hshort _ (by decide))).1 _ rfl).1 (by decide)⟩

/-- A pattern that the host refuses is no bad pattern for the batch command if the file has no
line. -/
theorem refused_pattern_batched :
    ∃ problem, Host.prepare "(" [] = .ok (.error problem) ∧
      let report := (Command.batch ⟨"(", "empty.txt"⟩).run {} { read := fun _ => .ok [] }
      report.result = .ok .ok ∧ report.lines = [summaryLine 0 0] ∧
        ¬ report.Refuses problem.message :=
  ⟨_, rfl, rfl, rfl, fun h => nomatch h.result⟩

end CommandLine

end RegexTrace
