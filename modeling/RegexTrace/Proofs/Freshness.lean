import RegexTrace.Session

/-!
# A session answers from what it was told last

After any commands that all had a reply, a session holds what the last command of each kind said:
the reading of the last pattern, with the options of the beginning and the flags of that pattern
alone. So every answer is that of the stateless functions on these last inputs, and nothing of an
earlier pattern is left in it.

## Implementation notes

A pattern with a bound of too many digits leaves the earlier reading in place. Its command has no
reply, so it is no part of the runs that are spoken of here.
-/

namespace RegexTrace

namespace Pattern

theorem effectiveFlags_effectiveFlags (literalFlags flags : Text) :
    effectiveFlags literalFlags (effectiveFlags literalFlags flags) =
      effectiveFlags literalFlags flags := by
  unfold effectiveFlags
  split <;> rfl

/-- The flags of a text that was read are those of its literal, or else the given ones. -/
theorem flags_of_read {t flags : Text} {result : Reading.Result}
    (h : read t flags = .ok result) :
    result.flags = effectiveFlags (splitLiteral t).2 flags := by
  unfold read at h
  dsimp only at h
  split at h
  · cases h
    rfl
  · cases h
    rfl
  · cases h

end Pattern

namespace Host

variable [CharacterNames] {t flags : Text} {result : Pattern.Reading.Result}

theorem prepare_flags_of_read (h : Pattern.read t flags = .ok result) :
    prepare t result.flags = prepare t flags := by
  rw [prepare, prepare, compileText, compileText, Pattern.flags_of_read h]
  dsimp only
  rw [Pattern.effectiveFlags_effectiveFlags]

theorem testMatch_flags_of_read (h : Pattern.read t flags = .ok result) (x : Text) :
    testMatch t x result.flags = testMatch t x flags := by
  rw [testMatch, testMatch, prepare_flags_of_read h]

theorem testMatchAll_flags_of_read (h : Pattern.read t flags = .ok result) (x : Text) :
    testMatchAll t x result.flags = testMatchAll t x flags := by
  rw [testMatchAll, testMatchAll, prepare_flags_of_read h]

end Host

namespace Session

/-- The session after commands that all have a reply; the fault of the first one that has none. -/
def run [Host.CharacterNames] (s : Session) : List Command → Except Fault Session
  | [] => .ok s
  | command :: rest =>
    match s.step command with
    | (.ok _, next) => next.run rest
    | (.error fault, _) => .error fault

namespace Command

/-- The pattern that a command sets. -/
def pattern? : Command → Option Text
  | .setPattern text => some text
  | _ => none

/-- The text that a command says should match. -/
def safe? : Command → Option Text
  | .setSafe text => some text
  | _ => none

/-- The text that a command says should not match. -/
def denied? : Command → Option Text
  | .setDenied text => some text
  | _ => none

/-- The lines that a command leaves in the batch. -/
def batch? : Command → Option (List Text)
  | .setBatch lines => some lines
  | .clearBatch => some []
  | _ => none

/-- The node that a command selects, or that it selects none. -/
def selection? : Command → Option (Option Text)
  | .select id => some id
  | _ => none

end Command

/-- What the last of the commands that say something of a kind says. -/
def lastSaid {α : Type} (told : Command → Option α) (commands : List Command) (default : α) : α :=
  (commands.reverse.findSome? told).getD default

/-- A command that says something of a kind is the last one to do so. -/
theorem lastSaid_append {α : Type} (told : Command → Option α) (commands : List Command)
    (command : Command) (default : α) :
    lastSaid told (commands ++ [command]) default =
      (told command).getD (lastSaid told commands default) := by
  cases h : told command <;> simp [lastSaid, h]

/-- A session holds the reading of a text: none for a blank one. -/
def Reads (s : Session) (text : Text) : Prop :=
  if (Text.trim text).isEmpty then s.reading = none
  else ∃ result, Pattern.read text [] = .ok result ∧ s.reading = some result

/-- A session that was begun with options holds what the commands said last. -/
structure Current (options : Options) (commands : List Command) (s : Session) : Prop where
  options : s.options = options
  pattern : s.patternText = lastSaid Command.pattern? commands []
  safe : s.safeText = lastSaid Command.safe? commands []
  denied : s.deniedText = lastSaid Command.denied? commands []
  batch : s.batch = lastSaid Command.batch? commands []
  selected : s.selected = lastSaid Command.selection? commands none
  reading : s.Reads s.patternText

theorem current_start (options : Options) : Current options [] { options } where
  options := rfl
  pattern := rfl
  safe := rfl
  denied := rfl
  batch := rfl
  selected := rfl
  reading := rfl

/-- Reading the pattern again changes the reading only, and makes it that of the pattern. -/
theorem reparse_spec {s next : Session} {reply : Reply} (h : s.reparse = (.ok reply, next)) :
    next = { s with reading := next.reading } ∧ next.Reads s.patternText := by
  unfold reparse Session.read at h
  unfold Reads
  split at h
  · next read hread =>
      split at hread
      · next hblank =>
          cases hread
          cases h
          exact ⟨rfl, by rw [if_pos hblank]⟩
      · next hblank =>
          cases hresult : Pattern.read s.patternText [] with
          | error fault =>
              rw [hresult] at hread
              cases hread
          | ok result =>
              rw [hresult] at hread
              cases hread
              cases h
              exact ⟨rfl, by rw [if_neg hblank]; exact ⟨result, rfl, rfl⟩⟩
  · cases h

theorem eq_of_answer {ε α : Type} {s next : Session} {fault : ε → Fault} {reply : α → Reply}
    {result : Except ε α} {r : Reply} (h : s.answer fault reply result = (.ok r, next)) :
    next = s := by
  cases result with
  | ok value => exact (Prod.mk.inj h).2.symm
  | error e => cases h

/-- What a command that has a reply changes of a session: what it says itself, and the reading where
it has the pattern read. -/
structure Heard (command : Command) (s next : Session) : Prop where
  options : next.options = s.options
  pattern : next.patternText = command.pattern?.getD s.patternText
  safe : next.safeText = command.safe?.getD s.safeText
  denied : next.deniedText = command.denied?.getD s.deniedText
  batch : next.batch = command.batch?.getD s.batch
  selected : next.selected = command.selection?.getD s.selected
  reading : next.Reads next.patternText ∨
    next.reading = s.reading ∧ next.patternText = s.patternText

/-- A command that has a reply changes nothing else. -/
theorem heard_of_step [Host.CharacterNames] {s next : Session} {command : Command} {reply : Reply}
    (h : s.step command = (.ok reply, next)) : Heard command s next := by
  have asked : next = s → command.pattern? = none → command.safe? = none →
      command.denied? = none → command.batch? = none → command.selection? = none →
      Heard command s next := by
    rintro rfl hpattern hsafe hdenied hbatch hselected
    exact ⟨rfl, by rw [hpattern]; rfl, by rw [hsafe]; rfl, by rw [hdenied]; rfl,
      by rw [hbatch]; rfl, by rw [hselected]; rfl, Or.inr ⟨rfl, rfl⟩⟩
  cases command with
  | setPattern text =>
      obtain ⟨hnext, hread⟩ := reparse_spec h
      rw [hnext]
      exact ⟨rfl, rfl, rfl, rfl, rfl, rfl, Or.inl hread⟩
  | reparse =>
      obtain ⟨hnext, hread⟩ := reparse_spec h
      rw [hnext]
      exact ⟨rfl, rfl, rfl, rfl, rfl, rfl, Or.inl hread⟩
  | setSafe text =>
      cases h
      exact ⟨rfl, rfl, rfl, rfl, rfl, rfl, Or.inr ⟨rfl, rfl⟩⟩
  | setDenied text =>
      cases h
      exact ⟨rfl, rfl, rfl, rfl, rfl, rfl, Or.inr ⟨rfl, rfl⟩⟩
  | setBatch lines =>
      cases h
      exact ⟨rfl, rfl, rfl, rfl, rfl, rfl, Or.inr ⟨rfl, rfl⟩⟩
  | clearBatch =>
      cases h
      exact ⟨rfl, rfl, rfl, rfl, rfl, rfl, Or.inr ⟨rfl, rfl⟩⟩
  | select id =>
      cases h
      exact ⟨rfl, rfl, rfl, rfl, rfl, rfl, Or.inr ⟨rfl, rfl⟩⟩
  | _ => exact asked (eq_of_answer h) rfl rfl rfl rfl rfl

/-- A command that has a reply keeps a session current. -/
theorem Current.step [Host.CharacterNames] {options : Options} {commands : List Command}
    {s next : Session} (h : Current options commands s) {command : Command} {reply : Reply}
    (hstep : s.step command = (.ok reply, next)) :
    Current options (commands ++ [command]) next :=
  have heard := heard_of_step hstep
  { options := heard.options.trans h.options
    pattern := by rw [lastSaid_append, ← h.pattern, heard.pattern]
    safe := by rw [lastSaid_append, ← h.safe, heard.safe]
    denied := by rw [lastSaid_append, ← h.denied, heard.denied]
    batch := by rw [lastSaid_append, ← h.batch, heard.batch]
    selected := by rw [lastSaid_append, ← h.selected, heard.selected]
    reading := by
      rcases heard.reading with hread | ⟨hreading, hpattern⟩
      · exact hread
      · have hread := h.reading
        unfold Reads at hread ⊢
        rwa [hpattern, hreading] }

/-- Commands that all have a reply keep a session current. -/
theorem Current.run [Host.CharacterNames] {options : Options} {earlier commands : List Command}
    {s last : Session} (h : Current options earlier s) (hrun : s.run commands = .ok last) :
    Current options (earlier ++ commands) last := by
  induction commands generalizing earlier s with
  | nil =>
      cases hrun
      rwa [List.append_nil]
  | cons command commands ih =>
      rw [Session.run] at hrun
      split at hrun
      · next reply next hstep =>
          rw [List.append_cons]
          exact ih (h.step hstep) hrun
      · cases hrun

namespace Current

variable {options : Options} {commands : List Command} {s : Session}

/-- The production matches of a current session are those of its pattern without given flags. -/
theorem test_eq [Host.CharacterNames] (h : Current options commands s) (x : Text) :
    s.test x = Host.testMatch s.patternText x [] ∧
      s.testAll x = Host.testMatchAll s.patternText x [] := by
  have hreading := h.reading
  unfold Reads at hreading
  unfold test testAll flags
  split at hreading
  · rw [hreading]
    exact ⟨rfl, rfl⟩
  · obtain ⟨result, hread, hreading⟩ := hreading
    rw [hreading]
    exact ⟨Host.testMatch_flags_of_read hread x, Host.testMatchAll_flags_of_read hread x⟩

theorem testBatch_eq [Host.CharacterNames] (h : Current options commands s) :
    s.testBatch = s.batch.mapM fun line =>
      (Host.testMatch s.patternText line []).map fun outcome => (line, outcome) := by
  unfold testBatch
  exact congrArg (s.batch.mapM ·) (funext fun line => by rw [(h.test_eq line).1])

end Current

/-- A session that was begun with options answers from the last inputs of commands alone: its tree,
its error and its flags are those of reading the last pattern, which a blank one has none of; its
traces are searched with the options of the beginning and these flags, and are empty without a tree;
and its other answers are those of the stateless functions on what was said last. -/
structure Fresh [Host.CharacterNames] (options : Options) (commands : List Command)
    (s : Session) : Prop where
  reading :
    if (Text.trim (lastSaid Command.pattern? commands [])).isEmpty then
      s.root = .absent ∧ s.error? = none ∧ s.flags = []
    else
      ∃ result, Pattern.read (lastSaid Command.pattern? commands []) [] = .ok result ∧
        s.root = result.root ∧ s.error? = result.error? ∧ s.flags = result.flags
  trace : ∀ x, s.step (.trace x) = s.answer .search .traced
    (if s.root.isAbsent then .ok {} else Search.trace (options.withFlags s.flags) s.root x)
  test : ∀ x, s.step (.test x) = s.answer .host .matched
    (Host.testMatch (lastSaid Command.pattern? commands []) x [])
  testAll : ∀ x, s.step (.testAll x) = s.answer .host .listed
    (Host.testMatchAll (lastSaid Command.pattern? commands []) x [])
  testSafe : s.step .testSafe = s.answer .host .matched
    (Host.testMatch (lastSaid Command.pattern? commands []) (lastSaid Command.safe? commands []) [])
  testDenied : s.step .testDenied = s.answer .host .matched
    (Host.testMatch (lastSaid Command.pattern? commands [])
      (lastSaid Command.denied? commands []) [])
  testBatch : s.step .testBatch = s.answer .host .batched
    ((lastSaid Command.batch? commands []).mapM fun line =>
      (Host.testMatch (lastSaid Command.pattern? commands []) line []).map fun outcome =>
        (line, outcome))
  explain : s.step .explain = s.answer .explanation .explained
    (match lastSaid Command.selection? commands none with
    | none => .ok none
    | some id => Explanation.find? s.root id)

/-- After commands that all have a reply, a session answers from what they said last. -/
theorem fresh_of_run [Host.CharacterNames] {options : Options} {commands : List Command}
    {s : Session} (ran : run { options } commands = .ok s) : Fresh options commands s := by
  have h : Current options commands s := (current_start options).run ran
  constructor
  case reading =>
    have hreading := h.reading
    rw [← h.pattern]
    unfold Reads at hreading
    unfold root error? flags
    split at hreading
    · next hblank =>
        rw [if_pos hblank, hreading]
        exact ⟨rfl, rfl, rfl⟩
    · next hblank =>
        obtain ⟨result, hread, hreading⟩ := hreading
        rw [if_neg hblank, hreading]
        exact ⟨result, hread, rfl, rfl, rfl⟩
  case trace =>
    intro x
    rw [← h.options]
    refine congrArg (s.answer .search .traced) ?_
    split
    · next habsent =>
        unfold Session.trace Search.trace Search.run
        rw [if_pos habsent]
    · rfl
  case test =>
    intro x
    rw [← h.pattern]
    exact congrArg (s.answer .host .matched) (h.test_eq x).1
  case testAll =>
    intro x
    rw [← h.pattern]
    exact congrArg (s.answer .host .listed) (h.test_eq x).2
  case testSafe =>
    rw [← h.pattern, ← h.safe]
    exact congrArg (s.answer .host .matched) (h.test_eq s.safeText).1
  case testDenied =>
    rw [← h.pattern, ← h.denied]
    exact congrArg (s.answer .host .matched) (h.test_eq s.deniedText).1
  case testBatch =>
    rw [← h.pattern, ← h.batch]
    exact congrArg (s.answer .host .batched) h.testBatch_eq
  case explain =>
    rw [← h.selected]
    rfl

/-- A session that was given a literal with flags, was asked, and was then given a refused pattern
and another pattern without flags. -/
theorem fresh_after_literal :
    ∃ s, run { options := { dotAll := false } } [.setPattern "/A./is", .trace "xab",
        .setBatch ["ab", "b"], .setPattern "a(", .select (some "root-0"), .setPattern "a."] =
          .ok s ∧
      Fresh { dotAll := false } [.setPattern "/A./is", .trace "xab", .setBatch ["ab", "b"],
        .setPattern "a(", .select (some "root-0"), .setPattern "a."] s :=
  ⟨_, rfl, fresh_of_run rfl⟩

end Session

end RegexTrace
