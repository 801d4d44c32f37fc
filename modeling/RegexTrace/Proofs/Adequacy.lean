import RegexTrace.Proofs.Backtracking
import RegexTrace.Proofs.Relation
import RegexTrace.Proofs.Stops

/-!
# Adequacy of the search

The ways of a pattern end exactly where its relation says, so the search finds the leftmost match of
the relation. A test without an answer cuts a list of ways short: what is listed before it is still
related, and a list without a fault leaves out nothing.
-/

namespace RegexTrace.Search

/-- Ways end only where a relation says and, without a fault, everywhere there. -/
structure Ways.Adequate (ws : Ways) (ends : Nat → Prop) : Prop where
  sound : ∀ stop ∈ ws.stops, ends stop
  complete : ws.Faultless → ∀ stop, ends stop → stop ∈ ws.stops

namespace Ways.Adequate

variable {ws later : Ways} {ends others : Nat → Prop}

theorem fault (cause : Node.Fault) (ends : Nat → Prop) : (Ways.fault cause).Adequate ends :=
  ⟨nofun, False.elim⟩

theorem none (h : ∀ stop, ¬ ends stop) : Ways.none.Adequate ends :=
  ⟨nofun, fun _ stop hstop => (h stop hstop).elim⟩

theorem only (way : Way) (h : ends way.stop) (hunique : ∀ stop, ends stop → stop = way.stop) :
    (Ways.more way .none).Adequate ends :=
  ⟨fun _ hstop => List.mem_singleton.mp hstop ▸ h,
    fun _ stop hstop => List.mem_singleton.mpr (hunique stop hstop)⟩

theorem of_iff (h : ws.Adequate ends) (hiff : ∀ stop, ends stop ↔ others stop) :
    ws.Adequate others :=
  ⟨fun stop hstop => (hiff stop).mp (h.sound stop hstop),
    fun hfault stop hstop => h.complete hfault stop ((hiff stop).mpr hstop)⟩

theorem singleIf (condition : Bool) (stop : Nat) :
    (Ways.singleIf condition stop).Adequate fun other => condition = true ∧ other = stop := by
  constructor
  · intro other hother
    rw [stops_singleIf] at hother
    cases condition <;> simp_all
  · rintro - other ⟨rfl, rfl⟩
    exact List.mem_singleton.mpr rfl

theorem after (h : ws.Adequate ends) (steps : List (Step Nat Occurrence)) :
    (ws.after steps).Adequate ends := by
  constructor
  · rw [stops_after]
    exact h.sound
  · rw [stops_after, faultless_after_iff]
    exact h.complete

theorem append (h : ws.Adequate ends) (hlater : later.Adequate others) :
    (ws.append later).Adequate fun stop => ends stop ∨ others stop := by
  constructor
  · intro stop hstop
    exact (mem_of_mem_stops_append hstop).imp (h.sound stop) (hlater.sound stop)
  · intro hfault stop hstop
    obtain ⟨hws, hrest⟩ := faultless_append_iff.mp hfault
    rw [stops_append hws, List.mem_append]
    exact hstop.imp (h.complete hws stop) (hlater.complete hrest stop)

theorem ordered (h : ws.Adequate ends) (hlater : later.Adequate others) (firstFirst : Bool) :
    (ws.ordered firstFirst later).Adequate fun stop => ends stop ∨ others stop := by
  cases firstFirst with
  | true => exact h.append hlater
  | false => exact (hlater.append h).of_iff fun _ => or_comm

/-- Going on is adequate for a composition. -/
theorem andThen {next : Nat → Ways} {onward : Nat → Nat → Prop} (h : ws.Adequate ends)
    (hnext : ∀ mid ∈ ws.stops, (next mid).Adequate (onward mid)) :
    (ws.andThen next).Adequate fun stop => ∃ mid, ends mid ∧ onward mid stop := by
  constructor
  · intro stop hstop
    obtain ⟨mid, hmid, hrest⟩ := mem_of_mem_stops_andThen hstop
    exact ⟨mid, h.sound mid hmid, (hnext mid hmid).sound stop hrest⟩
  · rintro hfault stop ⟨mid, hends, honward⟩
    obtain ⟨hws, hrest⟩ := faultless_andThen_iff.mp hfault
    have hmid := h.complete hws mid hends
    rw [stops_andThen hws hrest]
    exact List.mem_flatMap.mpr ⟨mid, hmid, (hnext mid hmid).complete (hrest mid hmid) stop honward⟩

theorem exists_of_first? {accept : Nat → Bool} {way : Way} (h : ws.Adequate ends)
    (hfirst : ws.first? accept = .ok (some way)) : ∃ stop, ends stop ∧ accept stop = true := by
  obtain ⟨hway, haccept⟩ := mem_of_first? hfirst
  exact ⟨way.stop, h.sound _ (mem_stops_iff.mpr ⟨way, hway, rfl⟩), haccept⟩

theorem not_of_first? {accept : Nat → Bool} (h : ws.Adequate ends)
    (hfirst : ws.first? accept = .ok Option.none) {stop : Nat} (hstop : ends stop) :
    accept stop = false := by
  obtain ⟨hfault, hnone⟩ := first?_eq_none_iff.mp hfirst
  exact hnone stop (h.complete hfault stop hstop)

end Ways.Adequate

section Assertion

variable {body : Nat → Ways} {r : Nat → Nat → Prop} {pos : Nat} {starts : List Nat}

theorem exists_of_firstBehind? {way : Way}
    (hbody : ∀ start ∈ starts, (body start).Adequate (r start))
    (h : firstBehind? body pos starts = .ok (some way)) : ∃ start ∈ starts, r start pos := by
  obtain ⟨start, hstart, hfirst⟩ := exists_start_of_firstBehind? h
  obtain ⟨stop, hstop, haccept⟩ := (hbody start hstart).exists_of_first? hfirst
  exact ⟨start, hstart, beq_iff_eq.mp haccept ▸ hstop⟩

/-- Where no start is found behind a position the body matches from none. -/
theorem not_of_firstBehind? (hbody : ∀ start ∈ starts, (body start).Adequate (r start))
    (h : firstBehind? body pos starts = .ok none) : ∀ start ∈ starts, ¬ r start pos := by
  induction starts with
  | nil => exact nofun
  | cons start rest ih =>
      rw [firstBehind?] at h
      split at h
      · next hfirst =>
          have hrest := ih (fun other hother => hbody other (List.mem_cons_of_mem _ hother)) h
          refine List.forall_mem_cons.mpr ⟨fun hpos => ?_, hrest⟩
          simpa using (hbody start List.mem_cons_self).not_of_first? hfirst hpos
      · next hother => exact absurd h hother

/-- An assertion is adequate for the identity where its body matches or does not. -/
theorem assertion_adequate (behind negative : Bool)
    (hbody : ∀ start ≤ pos, (body start).Adequate (r start)) :
    (assertion behind negative body pos).Adequate fun stop =>
      stop = pos ∧ if negative then ¬ LooksTo behind r pos else LooksTo behind r pos := by
  have hrange : ∀ start ∈ List.range (pos + 1), (body start).Adequate (r start) :=
    fun start hstart => hbody start (Nat.le_of_lt_succ (List.mem_range.mp hstart))
  unfold assertion
  simp only
  split
  · exact .fault _ _
  · next way hfound =>
      have hlooks : LooksTo behind r pos := by
        unfold LooksTo
        cases behind with
        | true =>
            obtain ⟨start, hstart, hpos⟩ := exists_of_firstBehind? hrange hfound
            exact ⟨start, Nat.le_of_lt_succ (List.mem_range.mp hstart), hpos⟩
        | false =>
            obtain ⟨stop, hstop, -⟩ := (hbody pos (Nat.le_refl pos)).exists_of_first? hfound
            exact ⟨stop, hstop⟩
      cases negative with
      | true => exact .none fun stop hstop => hstop.2 hlooks
      | false => exact .only ⟨pos, way.steps⟩ ⟨rfl, hlooks⟩ fun stop hstop => hstop.1
  · next hfound =>
      have hlooks : ¬ LooksTo behind r pos := by
        unfold LooksTo
        cases behind with
        | true =>
            rintro ⟨start, hstart, hpos⟩
            have hmem := List.mem_range.mpr (Nat.lt_succ_of_le hstart)
            exact not_of_firstBehind? hrange hfound start hmem hpos
        | false =>
            rintro ⟨stop, hstop⟩
            simpa using (hbody pos (Nat.le_refl pos)).not_of_first? hfound hstop
      refine (Ways.Adequate.singleIf negative pos).of_iff fun stop => ?_
      cases negative <;> simp [hlooks]

/-- A group is adequate if its body is. -/
theorem groupWays_adequate (mode : LookaroundMode) (behaviour : Behaviour)
    (hbody : ∀ start ≤ pos, (body start).Adequate (r start)) :
    (groupWays mode behaviour body pos).Adequate (GroupRelates mode behaviour r pos) := by
  have hplain := hbody pos (Nat.le_refl pos)
  cases behaviour with
  | look behind negative =>
      cases mode with
      | assert => exact assertion_adequate behind negative hbody
      | consume => exact hplain
  | capturing => exact hplain
  | plain => exact hplain
  | other name => exact hplain

end Assertion

section Rounds

variable {bounds : Bounds} {size : Nat} {body : Nat → Ways} {r : Nat → Nat → Prop}

/-- One more round is adequate if the body is and what follows that round. -/
theorem nextRound_adequate {next : Nat → Ways} {count here : Nat}
    (hbody : (body here).Adequate (r here))
    (hnext : ∀ mid ∈ (body here).stops, bounds.reached count = false →
      ¬ (bounds.min ≤ count ∧ mid = here) →
        (next mid).Adequate (RoundsRelate bounds r (count + 1) mid)) :
    (if bounds.reached count then Ways.none
      else (body here).andThen fun stop =>
        if bounds.min ≤ count ∧ stop = here then .none else next stop).Adequate fun stop =>
      bounds.reached count = false ∧ ∃ mid, r here mid ∧ ¬ (bounds.min ≤ count ∧ mid = here) ∧
        RoundsRelate bounds r (count + 1) mid stop := by
  split
  · next hreached => exact .none fun stop hstop => by simp [hreached] at hstop
  · next hopen =>
      have hopen := Bool.eq_false_iff.mpr hopen
      have honward : ∀ mid ∈ (body here).stops,
          (if bounds.min ≤ count ∧ mid = here then Ways.none else next mid).Adequate fun stop =>
            ¬ (bounds.min ≤ count ∧ mid = here) ∧ RoundsRelate bounds r (count + 1) mid stop := by
        intro mid hmid
        split
        · next hdrop => exact .none fun stop hstop => hstop.1 hdrop
        · next hkeep => exact (hnext mid hmid hopen hkeep).of_iff fun stop => by simp [hkeep]
      exact (hbody.andThen honward).of_iff fun stop => by simp [hopen]

/-- The rounds of a repetition are adequate if those of its body are: dropping an empty round beyond
the minimum leaves no end out. -/
theorem rounds_adequate (few : Bool) (bounds : Bounds)
    (hbody : ∀ pos ≤ size, (body pos).Adequate (r pos))
    (hwithin : ∀ pos ≤ size, (body pos).Within pos size) (count here : Nat) (hhere : here ≤ size)
    (hcount : ∀ limit, bounds.max = some limit → count ≤ limit) :
    (rounds few bounds size body count here).Adequate (RoundsRelate bounds r count here) := by
  induction count, here using rounds.induct bounds size with
  | case1 count here ih =>
      have hnext : ∀ mid ∈ (body here).stops, bounds.reached count = false →
          ¬ (bounds.min ≤ count ∧ mid = here) →
            (rounds few bounds size body (count + 1) mid).Adequate
              (RoundsRelate bounds r (count + 1) mid) := by
        intro mid hmid hopen hkeep
        obtain ⟨hfrom, hto⟩ := (hwithin here hhere).of_mem_stops hmid
        refine ih mid (by omega) hto fun limit hlimit => Nat.not_le.mp fun hle => ?_
        rw [Bounds.reached_eq_true hlimit hle] at hopen
        cases hopen
      rw [rounds_eq (hwithin here hhere)]
      have hround := nextRound_adequate (hbody here hhere) hnext
      refine ((Ways.Adequate.singleIf _ here).ordered hround few).of_iff fun stop => ?_
      rw [roundsRelate_iff hcount, decide_eq_true_eq]

end Rounds

variable {ctx : Context}

/-- A leaf is adequate for its own test. -/
theorem leafWays_adequate (node : Node) (pos : Nat) :
    (leafWays ctx node pos).Adequate (LeafRelates ctx node pos) := by
  unfold leafWays LeafRelates
  cases hc : Utf16.codePointAt? ctx.units pos with
  | none => exact .none fun stop ⟨c, h, _⟩ => by cases h
  | some c =>
      cases haccepts : Leaf.accepts ctx.options.rules node c with
      | error cause =>
          simp only [haccepts]
          exact .fault cause _
      | ok accepted =>
          simp only [haccepts]
          exact (Ways.Adequate.singleIf accepted _).of_iff fun stop => by simp [haccepts]

mutual

/-- The ways of a node are adequate for the relation of the node. -/
theorem ways_adequate (closed : Utf16.Closed ctx.units) (address : Address) :
    ∀ (node : Node) (pos : Nat), pos ≤ ctx.units.size →
      (ways ctx address node pos).Adequate (Relates ctx node pos)
  | .anchor kind, pos, _ => by
      rw [ways]
      refine ((Ways.Adequate.singleIf _ pos).after _).of_iff fun stop => ?_
      rw [Relates]
  | .value c, pos, _ => by
      rw [ways]
      exact ((leafWays_adequate (.value c) pos).after _).of_iff fun stop => by rw [Relates]
  | .dot, pos, _ => by
      rw [ways]
      exact ((leafWays_adequate .dot pos).after _).of_iff fun stop => by rw [Relates]
  | .escape kind, pos, _ => by
      rw [ways]
      exact ((leafWays_adequate (.escape kind) pos).after _).of_iff fun stop => by rw [Relates]
  | .charClass negative items, pos, _ => by
      rw [ways]
      refine ((leafWays_adequate (.charClass negative items) pos).after _).of_iff fun stop => ?_
      rw [Relates]
  | .unsupported kind raw, pos, _ => by
      rw [ways]
      exact .none fun stop hstop => by simp only [Relates] at hstop
  | .alternative body, pos, hpos => by
      rw [ways]
      have hbody := sequenceWays_adequate closed address 0 body pos hpos
      exact (hbody.after _).of_iff fun stop => by rw [Relates]
  | .disjunction branches, pos, hpos => by
      rw [ways]
      have hbranches := choiceWays_adequate closed address 0 branches pos hpos
      exact (hbranches.after _).of_iff fun stop => by rw [Relates]
  | .group behaviour body name number, pos, hpos => by
      rw [ways]
      have hbody : ∀ start ≤ pos,
          (sequenceWays ctx address 0 body start).Adequate (RelatesAll ctx body start) :=
        fun start hstart =>
          sequenceWays_adequate closed address 0 body start (Nat.le_trans hstart hpos)
      have hgroup := groupWays_adequate ctx.options.lookaround behaviour hbody
      exact (hgroup.after _).of_iff fun stop => by rw [Relates]
  | .quantifier min max greedy body shorthand, pos, hpos => by
      rw [ways]
      split
      · next hbounds =>
          have hnot := Bounds.ofInts?_eq_none_iff.mp hbounds
          exact .none fun stop hstop => by
            rw [Relates] at hstop
            exact hnot hstop.1
      · next bounds hbounds =>
          have hrounds := rounds_adequate (ctx.options.honorLazy && !greedy) bounds
            (ways_adequate closed (address ++ [.repeated]) body)
            (ways_within closed (address ++ [.repeated]) body) 0 pos hpos
            (fun limit _ => Nat.zero_le limit)
          exact (hrounds.after _).of_iff fun stop => (relates_quantifier_iff hbounds).symm
  | .range min max, pos, _ => by
      rw [ways]
      exact .fault _ _
  | .alien, pos, _ => by
      rw [ways]
      exact .fault _ _
  | .absent, pos, _ => by
      rw [ways]
      exact .fault _ _

theorem sequenceWays_adequate (closed : Utf16.Closed ctx.units) (address : Address)
    (index : Nat) : ∀ (body : List Node) (pos : Nat), pos ≤ ctx.units.size →
      (sequenceWays ctx address index body pos).Adequate (RelatesAll ctx body pos)
  | [], pos, _ => by
      rw [sequenceWays]
      exact .only ⟨pos, []⟩ (by rw [RelatesAll]) fun stop hstop => by
        rw [RelatesAll] at hstop
        exact hstop.symm
  | node :: rest, pos, hpos => by
      rw [sequenceWays]
      have hwithin := ways_within closed (address ++ [.element index]) node pos hpos
      refine ((ways_adequate closed _ node pos hpos).andThen fun mid hmid =>
        sequenceWays_adequate closed address (index + 1) rest mid
          (hwithin.of_mem_stops hmid).2).of_iff fun stop => ?_
      rw [RelatesAll]

theorem choiceWays_adequate (closed : Utf16.Closed ctx.units) (address : Address)
    (index : Nat) : ∀ (branches : List Node) (pos : Nat), pos ≤ ctx.units.size →
      (choiceWays ctx address index branches pos).Adequate (RelatesSome ctx branches pos)
  | [], pos, _ => by
      rw [choiceWays]
      exact .none fun stop hstop => by simp only [RelatesSome] at hstop
  | node :: rest, pos, hpos => by
      rw [choiceWays]
      have hrest := choiceWays_adequate closed address (index + 1) rest pos hpos
      refine ((ways_adequate closed _ node pos hpos).append hrest).of_iff fun stop => ?_
      rw [RelatesSome]

end

/-- The ways of a whole pattern are adequate for its relation. -/
theorem rootWays_adequate (closed : Utf16.Closed ctx.units) (root : Node) (start : Nat)
    (hstart : start ≤ ctx.units.size) :
    (rootWays ctx root start).Adequate (Relates ctx root start) := by
  cases root with
  | alternative body =>
      have hbody := sequenceWays_adequate closed [] 0 body start hstart
      exact hbody.of_iff fun stop => by rw [Relates]
  | disjunction branches =>
      have hbranches := choiceWays_adequate closed [] 0 branches start hstart
      exact hbranches.of_iff fun stop => by rw [Relates]
  | _ => exact ways_adequate closed [] _ start hstart

/-- From a start without a way, the pattern leads nowhere. -/
theorem not_relates_of_none (closed : Utf16.Closed ctx.units) {root : Node} {start : Nat}
    (hstart : start ≤ ctx.units.size) (h : rootWays ctx root start = .none) (stop : Nat) :
    ¬ Relates ctx root start stop := by
  intro hstop
  have hadequate := rootWays_adequate closed root start hstart
  rw [h] at hadequate
  exact absurd (hadequate.complete trivial stop hstop) List.not_mem_nil

/-- The pattern leads to where its first way ends. -/
theorem relates_of_more (closed : Utf16.Closed ctx.units) {root : Node} {start : Nat}
    (hstart : start ≤ ctx.units.size) {way : Way} {rest : Ways}
    (h : rootWays ctx root start = .more way rest) : Relates ctx root start way.stop := by
  have hadequate := rootWays_adequate closed root start hstart
  rw [h] at hadequate
  exact hadequate.sound way.stop List.mem_cons_self

/-- The span of the trace of a way. -/
theorem Way.span?_trace (start : Nat) (way : Way) :
    (way.trace start).span? = some (start, way.stop) := by
  have hstart : (way.trace start).start? = some start := by
    simp [Way.trace, Trace.start?]
  have hfinish : (way.trace start).finish? = some way.stop := by
    have hlast : (⟨start, .start⟩ :: (way.steps ++ [⟨way.stop, .finish⟩])).getLast? =
        some (⟨way.stop, .finish⟩ : Step Nat Occurrence) := by
      rw [← List.cons_append]
      exact List.getLast?_concat
    simp only [Way.trace, Trace.finish?, List.back?_toArray, hlast]
  rw [Trace.span?, hstart, hfinish]

/-- The best trace over some starts has the leftmost match among them. -/
theorem bestTrace_span? (closed : Utf16.Closed ctx.units) (root : Node) {starts : List Nat}
    (hstarts : ∀ start ∈ starts, start ≤ ctx.units.size) (hsorted : starts.Pairwise (· < ·))
    {found : Trace Nat Occurrence} (h : bestTrace ctx root starts = .ok found) :
    (found.span? = none ∧ ∀ start ∈ starts, ∀ stop, ¬ Relates ctx root start stop) ∨
      ∃ start ∈ starts, ∃ stop, found.span? = some (start, stop) ∧ Relates ctx root start stop ∧
        ∀ earlier ∈ starts, earlier < start → ∀ stop, ¬ Relates ctx root earlier stop := by
  rcases bestTrace_cases hsorted h with ⟨rfl, hnone⟩ | ⟨start, hstart, way, rest, hway, rfl, hnone⟩
  · refine Or.inl ⟨rfl, fun start hstart => ?_⟩
    exact not_relates_of_none closed (hstarts start hstart) (hnone start hstart)
  · have hends := relates_of_more closed (hstarts start hstart) hway
    refine Or.inr ⟨start, hstart, way.stop, Way.span?_trace start way, hends, ?_⟩
    intro earlier hearlier hlt
    exact not_relates_of_none closed (hstarts earlier hearlier) (hnone earlier hearlier hlt)

/-- Without a fault at any start there is a best trace. -/
theorem exists_bestTrace {root : Node} (h : ∀ start, (rootWays ctx root start).Faultless)
    (starts : List Nat) : ∃ found, bestTrace ctx root starts = .ok found := by
  induction starts with
  | nil => exact ⟨_, rfl⟩
  | cons start rest ih =>
      have hstart := h start
      rw [bestTrace]
      generalize rootWays ctx root start = ws at hstart
      cases ws with
      | none => exact ih
      | fault cause => exact hstart.elim
      | more way later => exact ⟨_, rfl⟩

/-- Without a budget, a search has the trace by backtracking. -/
theorem span?_eq_map_backtrack {options : Options} (hsteps : options.maxSteps = none) (root : Node)
    (text : Text) : span? options root text = (backtrack options root text).map Trace.span? := by
  rcases trace_eq_or_cut options root text with h | ⟨n, hn, -⟩
  · rw [span?, h]
  · rw [hsteps] at hn
    cases hn

/-- The answer of a search without a budget is the leftmost match. -/
theorem isLeftmost_of_span? {options : Options} (hsteps : options.maxSteps = none) {root : Node}
    {text : Text} {found : Option (Nat × Nat)} (h : span? options root text = .ok found) :
    IsLeftmost (Relates ⟨Utf16.encode text, options⟩ root) (Utf16.encode text).size found := by
  rw [span?_eq_map_backtrack hsteps, backtrack] at h
  split at h
  · next habsent =>
      obtain rfl := Except.ok.inj h
      cases root with
      | absent => exact fun start _ stop hstop => by simp only [Relates] at hstop
      | _ => cases habsent
  · simp only at h
    cases hbest : bestTrace ⟨Utf16.encode text, options⟩ root
        (List.range ((Utf16.encode text).size + 1)) with
    | error failure =>
        rw [hbest] at h
        cases h
    | ok best =>
        rw [hbest] at h
        obtain rfl := Except.ok.inj h
        have closed : Utf16.Closed (Context.mk (Utf16.encode text) options).units :=
          Utf16.closed_encode text
        have hrange : ∀ start, start ∈ List.range ((Utf16.encode text).size + 1) ↔
            start ≤ (Utf16.encode text).size := fun start => by
          rw [List.mem_range, Nat.lt_succ_iff]
        rcases bestTrace_span? closed root (fun start hstart => (hrange start).mp hstart)
          List.pairwise_lt_range hbest with
          ⟨hnone, hnot⟩ | ⟨start, hstart, stop, hspan, hends, hleft⟩
        · rw [hnone]
          exact fun start hstart => hnot start ((hrange start).mpr hstart)
        · rw [hspan]
          have hle := (hrange start).mp hstart
          exact ⟨hle, hends, fun earlier hlt =>
            hleft earlier ((hrange earlier).mpr (Nat.le_of_lt (Nat.lt_of_lt_of_le hlt hle))) hlt⟩

/-- A tree of the ten kinds has a trace by backtracking in every text. -/
theorem exists_backtrack {options : Options} {root : Node} {text : Text}
    (h : root.Testable options.ignoreCase) (valid : text.Valid) :
    ∃ found, backtrack options root text = .ok found := by
  have readable := Context.readable_encode valid options
  rw [backtrack]
  split
  · exact ⟨_, rfl⟩
  · exact exists_bestTrace (rootWays_faultless readable h) _

/-- A search for a tree of the ten kinds in a text has an answer. -/
theorem exists_span? {options : Options} (hsteps : options.maxSteps = none) {root : Node}
    {text : Text} (h : root.Testable options.ignoreCase) (valid : text.Valid) :
    ∃ found, span? options root text = .ok found := by
  obtain ⟨best, hbest⟩ := exists_backtrack h valid
  rw [span?_eq_map_backtrack hsteps, hbest]
  exact ⟨best.span?, rfl⟩

/-- Without a budget, a search for a tree of the ten kinds has an answer, and every answer is the
leftmost match of the relation of the tree. Where it starts depends neither on the preference of
lazy repetitions nor on which repetitions are greedy. -/
theorem span?_isLeftmost (options : Options) (root : Node) (text : Text) :
    (root.Testable options.ignoreCase → text.Valid →
      ∃ found, span? { options with maxSteps := none } root text = .ok found) ∧
    ∀ found, span? { options with maxSteps := none } root text = .ok found →
      IsLeftmost (Relates ⟨Utf16.encode text, options⟩ root) (Utf16.encode text).size found ∧
      ∀ lazyOn other found', other.eager = root.eager →
        span? { options with maxSteps := none, honorLazy := lazyOn } other text = .ok found' →
          found'.map Prod.fst = found.map Prod.fst := by
  constructor
  · intro h valid
    exact exists_span? rfl h valid
  intro found hfound
  have hpreferring := relates_preferring_iff ⟨Utf16.encode text, options⟩
  have hleft := (isLeftmost_of_span? rfl hfound).congr (hpreferring options.honorLazy none root)
  refine ⟨hleft, ?_⟩
  intro lazyOn other found' hother hfound'
  have hleft' := (isLeftmost_of_span? rfl hfound').congr (hpreferring lazyOn none other)
  exact IsLeftmost.start_unique (relates_iff_of_eager_eq _ hother) hleft' hleft

end RegexTrace.Search
