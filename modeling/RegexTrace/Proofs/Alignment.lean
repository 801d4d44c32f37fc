import RegexTrace.Pattern.Tree
import RegexTrace.Proofs.Division

/-!
# Traces keep to the boundaries of code points

A search counts positions in units and tries to match at each of them, also between the two units of
a wide code point, and so does a lookbehind with the start of its body. But the first position wins,
and from inside of a code point a pattern matches only where it matches from the start of the code
point too, unless it divides the code point. So the steps of a trace lie at the boundaries of code
points and inside of those that the pattern divides.
-/

namespace RegexTrace

open Utf16

/-- A position is a boundary unless the code point around it is a divided one. -/
def Utf16.BoundaryUnless (t : Text) (divided : CodePoint → Prop) (pos : Nat) : Prop :=
  IsBoundary t pos ∨ ∃ c start, WideAt t c start ∧ pos = start + 1 ∧ divided c

namespace Search

/-- From an allowed position a way stops at one and records its steps at such. -/
def Way.Stays (allowed : Nat → Prop) (here : Nat) (way : Way) : Prop :=
  allowed here → allowed way.stop ∧ ∀ step ∈ way.steps, allowed step.position

section Stays

variable {allowed : Nat → Prop}

theorem stays_composes : Ways.Composes (Way.Stays allowed) where
  here := fun pos hpos => ⟨hpos, fun _ hstep => absurd hstep List.not_mem_nil⟩
  onward := by
    intro start first second hfirst hsecond hstart
    obtain ⟨hmid, hsteps⟩ := hfirst hstart
    obtain ⟨hstop, hlater⟩ := hsecond hmid
    refine ⟨hstop, fun step hstep => ?_⟩
    exact (List.mem_append.mp hstep).elim (hsteps step) (hlater step)

theorem stays_after {ws : Ways} {here : Nat} (h : ws.All (Way.Stays allowed here))
    (address : Address) (node : Node) :
    (ws.after [entry address node here]).All (Way.Stays allowed here) := by
  apply Ways.All.after
  intro way hway hhere
  obtain ⟨hstop, hsteps⟩ := h way hway hhere
  exact ⟨hstop, List.forall_mem_cons.mpr ⟨hhere, hsteps⟩⟩

end Stays

/-- A start that is found behind a position is the least one from which the body matches there. -/
theorem exists_least_of_firstBehind? {body : Nat → Ways} {pos : Nat} {starts : List Nat} {way : Way}
    (hsorted : starts.Pairwise (· < ·)) (h : firstBehind? body pos starts = .ok (some way)) :
    ∃ start ∈ starts, (body start).first? (· == pos) = .ok (some way) ∧
      ∀ earlier ∈ starts, earlier < start → (body earlier).first? (· == pos) = .ok none := by
  induction starts with
  | nil => cases h
  | cons head rest ih =>
      obtain ⟨hhead, hrest⟩ := List.pairwise_cons.mp hsorted
      rw [firstBehind?] at h
      split at h
      · next hnone =>
          obtain ⟨start, hstart, hfirst, hleast⟩ := ih hrest h
          refine ⟨start, List.mem_cons_of_mem _ hstart, hfirst, ?_⟩
          exact List.forall_mem_cons.mpr ⟨fun _ => hnone, hleast⟩
      · refine ⟨head, List.mem_cons_self, h, ?_⟩
        refine List.forall_mem_cons.mpr ⟨fun hlt => absurd hlt (Nat.lt_irrefl head), ?_⟩
        exact fun earlier hearlier hlt => absurd hlt (Nat.lt_asymm (hhead earlier hearlier))

section Trace

variable {text : Text} {options : Options} {divided : CodePoint → Prop}

theorem BoundaryUnless.le_size {pos : Nat} (valid : text.Valid)
    (h : BoundaryUnless text divided pos) : pos ≤ (encode text).size := by
  rcases h with hboundary | ⟨c, start, hwide, rfl, -⟩
  · exact hboundary.le_size
  · exact Nat.le_of_lt (hwide.lt_size valid)

/-- The start of a body that is found behind a position is allowed: from inside of a code point that
the body does not divide, it would match from the start of the code point too. -/
theorem boundaryUnless_of_firstBehind? (valid : text.Valid) (unsplit : Unsplit text)
    {address : Address} {body : List Node}
    (hdivided : ∀ c, Node.dividesSome options c .part body = true → divided c) {pos : Nat}
    (hpos : BoundaryUnless text divided pos) {way : Way}
    (h : firstBehind? (sequenceWays ⟨encode text, options⟩ address 0 body) pos
      (List.range (pos + 1)) = .ok (some way)) :
    ∃ start, BoundaryUnless text divided start ∧
      way ∈ (sequenceWays ⟨encode text, options⟩ address 0 body start).toList := by
  have hadequate : ∀ start ≤ pos,
      (sequenceWays ⟨encode text, options⟩ address 0 body start).Adequate
        (RelatesAll ⟨encode text, options⟩ body start) := fun start hstart =>
    sequenceWays_adequate (closed_encode text) address 0 body start
      (Nat.le_trans hstart (BoundaryUnless.le_size valid hpos))
  obtain ⟨start, hstart, hfirst, hleast⟩ := exists_least_of_firstBehind? List.pairwise_lt_range h
  have hle : start ≤ pos := Nat.le_of_lt_succ (List.mem_range.mp hstart)
  refine ⟨start, ?_, (Ways.mem_of_first? hfirst).1⟩
  rcases isBoundary_or_inside (Nat.le_trans hle (BoundaryUnless.le_size valid hpos)) with
    hboundary | ⟨c, wide, hwide, rfl⟩
  · exact Or.inl hboundary
  cases hdivides : Node.dividesSome options c .part body with
  | true => exact Or.inr ⟨c, wide, hwide, rfl, hdivided c hdivides⟩
  | false =>
      obtain ⟨stop, hstop, haccept⟩ := (hadequate (wide + 1) hle).exists_of_first? hfirst
      obtain rfl := beq_iff_eq.mp haccept
      have hcarries : Carries (RelatesAll ⟨encode text, options⟩ body) (wide + 1) wide :=
        relatesAll_carries hwide valid unsplit body .part hdivides
      rcases hcarries stop hstop with ⟨rfl, -⟩ | ⟨-, -, hback⟩
      · exact hpos
      · have hnone := hleast wide (List.mem_range.mpr (by omega)) (Nat.lt_succ_self wide)
        have hnot := (hadequate wide (by omega)).not_of_first? hnone hback
        rw [beq_self_eq_true] at hnot
        cases hnot

/-- The body of a positive assertion stays at allowed positions, ahead and behind. -/
theorem assertion_stays (valid : text.Valid) (unsplit : Unsplit text) (behind : Bool)
    {address : Address} {body : List Node}
    (hdivided : ∀ c, Node.dividesSome options c .part body = true → divided c)
    (hbody : ∀ pos, (sequenceWays ⟨encode text, options⟩ address 0 body pos).All
      (Way.Stays (BoundaryUnless text divided) pos)) (pos : Nat) :
    (assertion behind false (sequenceWays ⟨encode text, options⟩ address 0 body) pos).All
      (Way.Stays (BoundaryUnless text divided) pos) := by
  unfold assertion
  simp only
  split
  · exact .fault _
  · next way hfound =>
      intro other hother hpos
      obtain rfl := List.mem_singleton.mp hother
      cases behind with
      | true =>
          obtain ⟨start, hstart, hmem⟩ :=
            boundaryUnless_of_firstBehind? valid unsplit hdivided hpos hfound
          exact ⟨hpos, (hbody start way hmem hstart).2⟩
      | false => exact ⟨hpos, (hbody pos way (Ways.mem_of_first? hfound).1 hpos).2⟩
  · exact .none

/-- A group stays at allowed positions if its body does. A negative assertion records nothing. -/
theorem group_stays (valid : text.Valid) (unsplit : Unsplit text) {address : Address}
    {behaviour : Behaviour} {body : List Node} {name : Option Text} {number : Option Int}
    (hdivided : ∀ c, (Node.group behaviour body name number).divides options c .part = true →
      divided c)
    (hbody : (∀ c, Node.dividesSome options c .part body = true → divided c) →
      ∀ pos, (sequenceWays ⟨encode text, options⟩ address 0 body pos).All
        (Way.Stays (BoundaryUnless text divided) pos)) (pos : Nat) :
    (groupWays options.lookaround behaviour (sequenceWays ⟨encode text, options⟩ address 0 body)
      pos).All (Way.Stays (BoundaryUnless text divided) pos) := by
  unfold Node.divides at hdivided
  generalize options.lookaround = mode at hdivided
  cases behaviour with
  | look behind negative =>
      cases mode with
      | consume => cases behind <;> exact hbody hdivided pos
      | assert =>
          cases negative with
          | true =>
              unfold groupWays assertion
              simp only
              split
              · exact .fault _
              · exact .none
              · exact .singleIf _ (stays_composes.here pos)
          | false =>
              have hinner : ∀ c, Node.dividesSome options c .part body = true → divided c := by
                cases behind <;> exact hdivided
              exact assertion_stays valid unsplit behind hinner (hbody hinner) pos
  | _ => exact hbody hdivided pos

theorem leaf_stays (valid : text.Valid) (unsplit : Unsplit text) (address : Address) (node : Node)
    (pos : Nat) :
    ((leafWays ⟨encode text, options⟩ node pos).after [entry address node pos]).All
      (Way.Stays (BoundaryUnless text divided) pos) := by
  apply stays_after
  unfold leafWays
  split
  · exact .none
  · next c hc =>
      have hstop := isBoundary_of_codePointAt? valid unsplit hc
      split
      · exact .singleIf _ fun _ => ⟨Or.inl hstop, nofun⟩
      · exact .fault _

mutual

/-- The ways of a node stay at boundaries and inside of the code points that it divides. -/
theorem ways_stay (valid : text.Valid) (unsplit : Unsplit text) (address : Address) :
    ∀ (node : Node), (∀ c, node.divides options c .part = true → divided c) →
      ∀ pos, (ways ⟨encode text, options⟩ address node pos).All
        (Way.Stays (BoundaryUnless text divided) pos)
  | .anchor kind, hdivided, pos => by
      rw [ways]
      exact stays_after (.singleIf _ (stays_composes.here pos)) address _
  | .value n, hdivided, pos => by
      rw [ways]
      exact leaf_stays valid unsplit address _ pos
  | .dot, hdivided, pos => by
      rw [ways]
      exact leaf_stays valid unsplit address _ pos
  | .escape kind, hdivided, pos => by
      rw [ways]
      exact leaf_stays valid unsplit address _ pos
  | .charClass negative items, hdivided, pos => by
      rw [ways]
      exact leaf_stays valid unsplit address _ pos
  | .unsupported kind raw, hdivided, pos => by
      rw [ways]
      exact .none
  | .alternative body, hdivided, pos => by
      rw [ways]
      exact stays_after (sequenceWays_stay valid unsplit address 0 body hdivided pos) address _
  | .disjunction branches, hdivided, pos => by
      rw [ways]
      exact stays_after (choiceWays_stay valid unsplit address 0 branches hdivided pos) address _
  | .group behaviour body name number, hdivided, pos => by
      rw [ways]
      have hbody := sequenceWays_stay valid unsplit address 0 body
      exact stays_after (group_stays valid unsplit hdivided hbody pos) address _
  | .quantifier min max greedy body shorthand, hdivided, pos => by
      rw [ways]
      split
      · exact .none
      · have hbody := ways_stay valid unsplit (address ++ [.repeated]) body hdivided
        exact stays_after (stays_composes.rounds hbody 0 pos) address _
  | .range min max, hdivided, pos => by
      rw [ways]
      exact .fault _
  | .alien, hdivided, pos => by
      rw [ways]
      exact .fault _
  | .absent, hdivided, pos => by
      rw [ways]
      exact .fault _

theorem sequenceWays_stay (valid : text.Valid) (unsplit : Unsplit text) (address : Address)
    (index : Nat) : ∀ (body : List Node),
      (∀ c, Node.dividesSome options c .part body = true → divided c) →
        ∀ pos, (sequenceWays ⟨encode text, options⟩ address index body pos).All
          (Way.Stays (BoundaryUnless text divided) pos)
  | [], hdivided, pos => by
      rw [sequenceWays]
      exact .singleIf true (stays_composes.here pos)
  | node :: rest, hdivided, pos => by
      rw [sequenceWays]
      have hnode : ∀ c, node.divides options c .part = true → divided c :=
        fun c hc => hdivided c (Bool.or_eq_true_iff.mpr (Or.inl hc))
      have hrest : ∀ c, Node.dividesSome options c .part rest = true → divided c :=
        fun c hc => hdivided c (Bool.or_eq_true_iff.mpr (Or.inr hc))
      exact stays_composes.andThen (ways_stay valid unsplit _ node hnode pos)
        (sequenceWays_stay valid unsplit address (index + 1) rest hrest)

theorem choiceWays_stay (valid : text.Valid) (unsplit : Unsplit text) (address : Address)
    (index : Nat) : ∀ (branches : List Node),
      (∀ c, Node.dividesSome options c .part branches = true → divided c) →
        ∀ pos, (choiceWays ⟨encode text, options⟩ address index branches pos).All
          (Way.Stays (BoundaryUnless text divided) pos)
  | [], hdivided, pos => by
      rw [choiceWays]
      exact .none
  | node :: rest, hdivided, pos => by
      rw [choiceWays]
      have hnode : ∀ c, node.divides options c .part = true → divided c :=
        fun c hc => hdivided c (Bool.or_eq_true_iff.mpr (Or.inl hc))
      have hrest : ∀ c, Node.dividesSome options c .part rest = true → divided c :=
        fun c hc => hdivided c (Bool.or_eq_true_iff.mpr (Or.inr hc))
      exact (ways_stay valid unsplit _ node hnode pos).append
        (choiceWays_stay valid unsplit address (index + 1) rest hrest pos)

end

theorem rootWays_stay (valid : text.Valid) (unsplit : Unsplit text) (root : Node)
    (hdivided : ∀ c, root.divides options c .part = true → divided c) (start : Nat) :
    (rootWays ⟨encode text, options⟩ root start).All
      (Way.Stays (BoundaryUnless text divided) start) := by
  cases root with
  | alternative body => exact sequenceWays_stay valid unsplit [] 0 body hdivided start
  | disjunction branches => exact choiceWays_stay valid unsplit [] 0 branches hdivided start
  | _ => exact ways_stay valid unsplit [] _ hdivided start

/-- The first start that has a way is a boundary or lies inside of a code point that the pattern
divides: otherwise the start of the code point would have a way too. -/
theorem boundaryUnless_of_first (valid : text.Valid) (unsplit : Unsplit text) {root : Node}
    {start : Nat} (hstart : start ≤ (encode text).size) {way : Way} {rest : Ways}
    (hway : rootWays ⟨encode text, options⟩ root start = .more way rest)
    (hnone : ∀ earlier < start, rootWays ⟨encode text, options⟩ root earlier = .none) :
    BoundaryUnless text (fun c => root.divides options c .part = true) start := by
  have closed : Closed (Context.mk (encode text) options).units := closed_encode text
  rcases isBoundary_or_inside hstart with hboundary | ⟨c, wide, hwide, rfl⟩
  · exact Or.inl hboundary
  cases hdivides : root.divides options c .part with
  | true => exact Or.inr ⟨c, wide, hwide, rfl, hdivides⟩
  | false =>
      have hcarries := relates_carries hwide valid unsplit root .part hdivides
      obtain ⟨stop, hback⟩ := hcarries.exists_stop ⟨way.stop, relates_of_more closed hstart hway⟩
      have hnot := not_relates_of_none closed (Nat.le_of_succ_le hstart)
        (hnone wide (Nat.lt_succ_self wide))
      exact absurd hback (hnot stop)

/-- The steps of the trace of a way lie where the way starts, stops and records. -/
theorem Way.position_of_mem_trace {allowed : Nat → Prop} {start : Nat} {way : Way}
    (hstart : allowed start)
    (hway : allowed way.stop ∧ ∀ step ∈ way.steps, allowed step.position) :
    ∀ step ∈ (way.trace start).toList, allowed step.position := by
  intro step hstep
  rcases List.mem_cons.mp hstep with rfl | hstep
  · exact hstart
  · rcases List.mem_append.mp hstep with hstep | hstep
    · exact hway.2 step hstep
    · obtain rfl := List.mem_singleton.mp hstep
      exact hway.1

/-- Every step of the trace of a search, the steps of lookbehind bodies included, lies at the
boundary of a code point or inside of one that the pattern divides. So does the start of the span,
and its end is a boundary unless the match is empty. -/
theorem trace_boundaries {root : Node} (valid : text.Valid) (unsplit : Unsplit text)
    {found : Trace Nat Occurrence} (h : trace options root text = .ok found) :
    (∀ step ∈ found.toList,
      BoundaryUnless text (fun c => root.divides options c .part = true) step.position) ∧
    ∀ start stop, found.span? = some (start, stop) →
      BoundaryUnless text (fun c => root.divides options c .part = true) start ∧
        (IsBoundary text stop ∨ stop = start) := by
  cases hfound : found.isEmpty with
  | true =>
      obtain rfl := Trace.eq_empty_of_isEmpty hfound
      exact ⟨nofun, nofun⟩
  | false =>
      obtain ⟨start, hstart, way, rest, hway, rfl, hnone⟩ := exists_way_of_trace h hfound
      have hallowed := boundaryUnless_of_first valid unsplit hstart hway hnone
      have hmem : way ∈ (rootWays ⟨encode text, options⟩ root start).toList := by
        rw [hway]
        exact List.mem_cons_self
      have hstays := rootWays_stay valid unsplit root (fun _ hc => hc) start way hmem hallowed
      refine ⟨Way.position_of_mem_trace hallowed hstays, ?_⟩
      intro first last hspan
      rw [Way.span?_trace] at hspan
      obtain ⟨rfl, rfl⟩ := Prod.mk.inj (Option.some.inj hspan)
      have hrelates := relates_of_more (closed_encode text) hstart hway
      have htravels := relates_travels root start way.stop hrelates
      exact ⟨hallowed, (htravels.eq_or_isBoundary valid unsplit).symm⟩

end Trace

/-- A lookbehind over any code point, in a text with two of two units. -/
theorem trace_boundaries_lookbehind :
    let text : Text := [0x1F600, 0x1D400, 'b'.toNat]
    let options : Options := { lookaround := .assert }
    let root : Node := .alternative [.group (.look true false) [.dot] none none, .value 'b'.toNat]
    text.Valid ∧ Unsplit text ∧ ∃ found, trace options root text = .ok found ∧
      (∀ step ∈ found.toList,
        BoundaryUnless text (fun c => root.divides options c .part = true) step.position) ∧
      ∀ start stop, found.span? = some (start, stop) →
        BoundaryUnless text (fun c => root.divides options c .part = true) start ∧
          (IsBoundary text stop ∨ stop = start) := by
  intro text options root
  have valid : text.Valid := by decide
  have unsplit : Unsplit text := Unsplit.of_not_high (by decide)
  refine ⟨valid, unsplit, ?_⟩
  have hsome : (trace options root text).isOk = true := by decide +kernel
  cases htrace : trace options root text with
  | error failure =>
      rw [htrace] at hsome
      cases hsome
  | ok found => exact ⟨found, rfl, trace_boundaries valid unsplit htrace⟩

/-- What a search answers for a pattern, if the pattern is read: the span and the positions of all
steps. -/
def answer? (options : Options) (pattern text : Text) : Option (Option (Nat × Nat) × List Nat) :=
  (Pattern.parse pattern).toOption.bind fun parsed =>
    (trace options parsed.root text).toOption.map fun found =>
      (found.span?, found.toList.map Step.position)

/-- A search in a text without surrogates has a match with a step at a position inside of a code
point. -/
structure FoundInside (options : Options) (pattern text : Text) (span : Nat × Nat)
    (positions : List Nat) (inside : Nat) : Prop where
  plain : ∀ c ∈ text, isHigh c = false ∧ isLow c = false
  answered : answer? options pattern text = some (some span, positions)
  recorded : inside ∈ positions
  not_isBoundary : ¬ IsBoundary text inside

/-- Patterns are found inside of a code point that they divide by a leaf, by an anchor, by a
negative assertion ahead or behind, and by a leaf in the body of a lookbehind. -/
theorem found_inside :
    FoundInside {} "\\W" [0x1D400] (1, 2) [1, 1, 2] 1 ∧
      FoundInside {} "\\B" [0x1D400] (1, 1) [1, 1, 1] 1 ∧
      FoundInside { lookaround := .assert } "(?!\\w)" [0x1D400] (1, 1) [1, 1, 1] 1 ∧
      FoundInside { lookaround := .assert } "(?<!^)" [0x1D400] (1, 1) [1, 1, 1] 1 ∧
      FoundInside { lookaround := .assert } "(?<=\\W)b" [0x1D400, 'b'.toNat] (2, 3)
        [2, 2, 1, 2, 3] 1 :=
  ⟨⟨by decide, by decide +kernel, by decide, by decide⟩,
    ⟨by decide, by decide +kernel, by decide, by decide⟩,
    ⟨by decide, by decide +kernel, by decide, by decide⟩,
    ⟨by decide, by decide +kernel, by decide, by decide⟩,
    ⟨by decide, by decide +kernel, by decide, by decide⟩⟩

end Search

end RegexTrace
