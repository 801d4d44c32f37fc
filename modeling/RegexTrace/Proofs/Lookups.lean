import RegexTrace.Proofs.Congruence
import RegexTrace.Proofs.Positions

/-!
# No unit is missed

In multiline mode an anchor looks at a unit of the subject beside its position. A search never comes
to a position where that unit is not there: whatever were done where a unit is missed, the search
would be the same.

## Implementation notes

A consumer may resume a stream in any state, so the positions that a stream offers are bounded
however it is resumed. The search in which misses are told apart is the search as it is but for the
anchors, and the two are compared stream by stream.
-/

namespace RegexTrace.Search

namespace Candidates

/-- However a stream is resumed, it offers positions up to a last one. -/
inductive UpTo (last : Nat) : Candidates → Prop
  | exhausted (s : State) : UpTo last (.exhausted s)
  | offer {stop : Nat} {s : State} {resume : Stream} (h : stop ≤ last)
      (hresume : ∀ s', UpTo last (resume s')) : UpTo last (.offer stop s resume)
  | aborted (failure : Failure) (s : State) : UpTo last (.aborted failure s)

namespace UpTo

variable {last : Nat} {cs : Candidates} {next next' : Nat → Stream}

theorem orElse {later : Stream} (h : cs.UpTo last) (hlater : ∀ s, (later s).UpTo last) :
    (cs.orElse later).UpTo last := by
  induction h with
  | exhausted s => exact hlater s
  | offer hstop _ ih => exact .offer hstop ih
  | aborted failure s => exact .aborted failure s

theorem andThen (h : cs.UpTo last) (hnext : ∀ stop ≤ last, ∀ s, (next stop s).UpTo last) :
    (cs.andThen next).UpTo last := by
  induction h with
  | exhausted s => exact .exhausted s
  | offer hstop _ ih => exact (hnext _ hstop _).orElse ih
  | aborted failure s => exact .aborted failure s

theorem andThen_congr (h : cs.UpTo last) (hnext : ∀ stop ≤ last, next stop = next' stop) :
    cs.andThen next = cs.andThen next' := by
  induction h with
  | exhausted s => rfl
  | @offer stop s resume hstop _ ih =>
      rw [Candidates.andThen, Candidates.andThen, hnext stop hstop]
      exact congrArg _ (funext ih)
  | aborted failure s => rfl

theorem offerOnce {stop : Nat} (h : stop ≤ last) (s : State) : (offerOnce stop s).UpTo last :=
  .offer h .exhausted

theorem offerIf (condition : Bool) {stop : Nat} (h : stop ≤ last) (s : State) :
    (offerIf condition stop s).UpTo last := by
  cases condition with
  | true => exact offerOnce h s
  | false => exact .exhausted s

theorem leave (checkpoint : Nat) (s : State) : (leave checkpoint s).UpTo last := by
  unfold Search.leave
  split
  · exact .exhausted _
  · exact .aborted _ s

theorem visit (ctx : Context) (o : Occurrence) (pos : Nat) (s : State) {inside : Stream}
    (h : ∀ entered, (inside entered).UpTo last) : (visit ctx o pos s inside).UpTo last := by
  unfold Search.visit
  split
  · exact .aborted _ _
  · exact (h _).orElse (leave _)

/-- Rounds of a body that stays inside stay inside, many first. -/
theorem repeatMany {bounds : Bounds} {round : Nat → Stream}
    (hround : ∀ pos ≤ last, ∀ s, (round pos s).UpTo last) (fuel : Nat) (earlier : List Nat)
    {here : Nat} (hhere : here ≤ last) (s : State) :
    (repeatMany bounds round fuel earlier here s).UpTo last := by
  induction fuel generalizing earlier here s with
  | zero => exact .exhausted s
  | succ fuel ih =>
      rw [Search.repeatMany]
      split
      · exact offerOnce hhere s
      · apply ((hround here hhere s).andThen _).orElse
        · exact fun s' => offerIf _ hhere s'
        · intro stop hstop s'
          split
          · exact .exhausted s'
          · exact ih (here :: earlier) hstop s'

/-- Rounds of a body that stays inside stay inside, few first. -/
theorem repeatFew {bounds : Bounds} {round : Nat → Stream}
    (hround : ∀ pos ≤ last, ∀ s, (round pos s).UpTo last) (fuel : Nat) (earlier : List Nat)
    {here : Nat} (hhere : here ≤ last) (s : State) :
    (repeatFew bounds round fuel earlier here s).UpTo last := by
  induction fuel generalizing earlier here s with
  | zero => exact .exhausted s
  | succ fuel ih =>
      rw [Search.repeatFew]
      apply (offerIf _ hhere s).orElse
      intro s'
      split
      · exact .exhausted s'
      · apply (hround here hhere s').andThen
        intro stop hstop s''
        split
        · exact .exhausted s''
        · exact ih (here :: earlier) hstop s''

theorem assertInside {behind negative : Bool} {body : Nat → Stream} {pos : Nat} (hpos : pos ≤ last)
    (s : State) : (assertInside behind negative body pos s).UpTo last := by
  unfold Search.assertInside
  simp only
  split
  · exact offerIf _ hpos _
  · exact offerIf _ hpos _
  · exact .aborted _ _

end UpTo

end Candidates

variable {ctx : Context}

theorem leafInside_upTo (closed : Utf16.Closed ctx.units) (node : Node) (pos : Nat) (s : State) :
    (leafInside ctx node pos s).UpTo ctx.units.size := by
  unfold leafInside
  split
  · exact .exhausted s
  · next c hc =>
      split
      · exact .offerIf _ (Utf16.width_le_of_codePointAt? closed hc) s
      · exact .aborted _ s

mutual

/-- The candidates of a node are positions of the subject. -/
theorem candidates_upTo (closed : Utf16.Closed ctx.units) (address : Address) :
    ∀ (node : Node) (pos : Nat), pos ≤ ctx.units.size → ∀ s : State,
      (candidates ctx address node pos s).UpTo ctx.units.size
  | .anchor kind, pos, hpos, s => by
      rw [candidates]
      exact .visit ctx _ pos s fun entered => .offerIf _ hpos entered
  | .value _, pos, _, s | .dot, pos, _, s | .escape _, pos, _, s | .charClass _ _, pos, _, s => by
      rw [candidates]
      exact .visit ctx _ pos s (leafInside_upTo closed _ pos)
  | .unsupported kind raw, pos, hpos, s => by
      rw [candidates]
      exact .visit ctx _ pos s .exhausted
  | .alternative body, pos, hpos, s => by
      rw [candidates]
      exact .visit ctx _ pos s (sequence_upTo closed address 0 body pos hpos)
  | .disjunction branches, pos, hpos, s => by
      rw [candidates]
      exact .visit ctx _ pos s (choice_upTo closed address 0 branches pos hpos)
  | .group behaviour body name number, pos, hpos, s => by
      have hbody := sequence_upTo closed address 0 body pos hpos
      unfold candidates
      apply Candidates.UpTo.visit
      intro entered
      generalize ctx.options.lookaround = mode
      cases mode with
      | consume => cases behaviour <;> exact hbody entered
      | assert =>
          cases behaviour with
          | look behind negative => exact .assertInside hpos entered
          | _ => exact hbody entered
  | .quantifier min max greedy body shorthand, pos, hpos, s => by
      have hround := candidates_upTo closed (address ++ [.repeated]) body
      rw [candidates]
      split
      · exact .exhausted _
      · apply Candidates.UpTo.visit
        split
        · exact Candidates.UpTo.repeatFew hround _ [] hpos
        · exact Candidates.UpTo.repeatMany hround _ [] hpos
  | .range _ _, pos, _, s | .alien, pos, _, s | .absent, pos, _, s => by
      rw [candidates]
      exact .aborted _ s

theorem sequence_upTo (closed : Utf16.Closed ctx.units) (address : Address) (index : Nat) :
    ∀ (body : List Node) (pos : Nat), pos ≤ ctx.units.size → ∀ s : State,
      (sequence ctx address index body pos s).UpTo ctx.units.size
  | [], pos, hpos, s => by
      rw [sequence]
      exact .offerOnce hpos s
  | node :: rest, pos, hpos, s => by
      rw [sequence]
      exact (candidates_upTo closed _ node pos hpos s).andThen
        (sequence_upTo closed address (index + 1) rest)

theorem choice_upTo (closed : Utf16.Closed ctx.units) (address : Address) (index : Nat) :
    ∀ (branches : List Node) (pos : Nat), pos ≤ ctx.units.size → ∀ s : State,
      (choice ctx address index branches pos s).UpTo ctx.units.size
  | [], pos, hpos, s => by
      rw [choice]
      exact .exhausted s
  | node :: rest, pos, hpos, s => by
      rw [choice]
      exact (candidates_upTo closed _ node pos hpos s).orElse
        (choice_upTo closed address (index + 1) rest pos hpos)

end

/-- The unit that an anchor looks at. At an edge of the subject and without multiline mode there is
none, and the word anchors ask for code points, which may be absent. -/
def unitBeside? (ctx : Context) (kind : AnchorKind) (pos : Nat) : Option Nat :=
  match kind with
  | .start => if pos == 0 || !ctx.options.multiline then none else some (pos - 1)
  | .finish => if pos == ctx.units.size || !ctx.options.multiline then none else some pos
  | _ => none

/-- An anchor that goes on with `missed` where it looks at a unit that is not there. -/
def anchorOr (missed : Stream) (ctx : Context) (kind : AnchorKind) (pos : Nat) : Stream :=
  if (unitBeside? ctx kind pos).all (· < ctx.units.size) then offerIf (anchorHolds ctx kind pos) pos
  else missed

mutual

/-- The candidates of a node, and `missed` wherever an anchor looks at a unit that is not there. -/
def candidatesOr (missed : Stream) (ctx : Context) (address : Address) :
    Node → Nat → State → Candidates
  | .anchor kind, pos, s =>
    visit ctx ⟨address, .anchor kind⟩ pos s (anchorOr missed ctx kind pos)
  | .alternative body, pos, s =>
    visit ctx ⟨address, .alternative body⟩ pos s (sequenceOr missed ctx address 0 body pos)
  | .disjunction branches, pos, s =>
    visit ctx ⟨address, .disjunction branches⟩ pos s (choiceOr missed ctx address 0 branches pos)
  | .group behaviour body name number, pos, s =>
    visit ctx ⟨address, .group behaviour body name number⟩ pos s
      (match behaviour, ctx.options.lookaround with
        | .look behind negative, .assert =>
          assertInside behind negative (sequenceOr missed ctx address 0 body) pos
        | _, _ => sequenceOr missed ctx address 0 body pos)
  | .quantifier min max greedy body shorthand, pos, s =>
    match Bounds.ofInts? min max with
    | none => .exhausted { s with notices := s.notices.push (.malformedQuantifier min max) }
    | some bounds =>
      visit ctx ⟨address, .quantifier min max greedy body shorthand⟩ pos s
        ((if ctx.options.honorLazy && !greedy then repeatFew else repeatMany) bounds
          (candidatesOr missed ctx (address ++ [.repeated]) body) (roundLimit ctx bounds pos) []
          pos)
  | node, pos, s => candidates ctx address node pos s

/-- The candidates of elements one after the other, where misses are told apart. -/
def sequenceOr (missed : Stream) (ctx : Context) (address : Address) (index : Nat) :
    List Node → Nat → State → Candidates
  | [], pos, s => offerOnce pos s
  | node :: rest, pos, s =>
    (candidatesOr missed ctx (address ++ [.element index]) node pos s).andThen
      (sequenceOr missed ctx address (index + 1) rest)

/-- The candidates of branches one after the other, where misses are told apart. -/
def choiceOr (missed : Stream) (ctx : Context) (address : Address) (index : Nat) :
    List Node → Nat → State → Candidates
  | [], _, s => .exhausted s
  | node :: rest, pos, s =>
    (candidatesOr missed ctx (address ++ [.branch index]) node pos s).orElse
      (choiceOr missed ctx address (index + 1) rest pos)

end

/-- The candidates of a whole pattern, where misses are told apart. -/
def rootCandidatesOr (missed : Stream) (ctx : Context) : Node → Nat → State → Candidates
  | .alternative body => sequenceOr missed ctx [] 0 body
  | .disjunction branches => choiceOr missed ctx [] 0 branches
  | node => candidatesOr missed ctx [] node

/-- The trial of start positions, where misses are told apart. -/
def scanFromOr (missed : Stream) (ctx : Context) (root : Node) : List Nat → State → Report
  | [], s => ⟨.ok {}, s.entries, s.notices.push (.notFound s.entries)⟩
  | start :: rest, s =>
    let fresh := { s with trace := Trace.append {} start .start }
    match rootCandidatesOr missed ctx root start fresh with
    | .offer finish s' _ => Report.found start finish s'
    | .exhausted s' => scanFromOr missed ctx root rest s'
    | .aborted failure s' => ⟨.error failure, s'.entries, s'.notices⟩

/-- The search in which `missed` happens wherever an anchor looks at a unit that is not there. -/
def runOr (missed : Stream) (options : Options) (root : Node) (text : Text) : Report :=
  if root.isAbsent then ⟨.ok {}, 0, #[]⟩
  else
    let units := Utf16.encode text
    scanFromOr missed ⟨units, options⟩ root (List.range (units.size + 1)) {}

section Alike

variable {missed : Stream} {last : Nat}

/-- Up to the end of the subject, an anchor finds the unit that it looks at. -/
theorem anchorOr_eq (kind : AnchorKind) {pos : Nat} (hpos : pos ≤ ctx.units.size) :
    anchorOr missed ctx kind pos = offerIf (anchorHolds ctx kind pos) pos := by
  have hthere : (unitBeside? ctx kind pos).all (· < ctx.units.size) = true := by
    unfold unitBeside?
    split
    · split
      · rfl
      · next hinner =>
          simp only [Bool.or_eq_true, beq_iff_eq, not_or] at hinner
          simp only [Option.all_some, decide_eq_true_eq]
          omega
    · split
      · rfl
      · next hinner =>
          simp only [Bool.or_eq_true, beq_iff_eq, not_or] at hinner
          simp only [Option.all_some, decide_eq_true_eq]
          omega
    · rfl
  rw [anchorOr, if_pos hthere]

variable {round round' : Nat → Stream} {bounds : Bounds}

/-- One more round that is alike inside of the subject goes on alike. -/
theorem again_congr {next next' : Nat → Stream}
    (hround : ∀ pos ≤ last, ∀ s, (round pos s).UpTo last) (count : Nat) {here : Nat}
    (hhere : here ≤ last) (hnext : ∀ stop ≤ last, next' stop = next stop) (s : State) :
    ((round here s).andThen fun stop s' =>
        if bounds.min ≤ count ∧ stop = here then .exhausted s' else next' stop s') =
      (round here s).andThen fun stop s' =>
        if bounds.min ≤ count ∧ stop = here then .exhausted s' else next stop s' := by
  apply (hround here hhere s).andThen_congr
  intro stop hstop
  rw [hnext stop hstop]

/-- Rounds that are alike inside of the subject repeat alike, many first. -/
theorem repeatMany_congr (hround : ∀ pos ≤ last, ∀ s, (round pos s).UpTo last)
    (halike : ∀ pos ≤ last, round' pos = round pos) (fuel : Nat) (earlier : List Nat) {here : Nat}
    (hhere : here ≤ last) :
    repeatMany bounds round' fuel earlier here = repeatMany bounds round fuel earlier here := by
  induction fuel generalizing earlier here with
  | zero => rfl
  | succ fuel ih =>
      have hnext : ∀ stop ≤ last, repeatMany bounds round' fuel (here :: earlier) stop =
          repeatMany bounds round fuel (here :: earlier) stop :=
        fun stop hstop => ih (here :: earlier) hstop
      funext s
      rw [repeatMany, repeatMany, halike here hhere,
        again_congr hround earlier.length hhere hnext s]

/-- Rounds that are alike inside of the subject repeat alike, few first. -/
theorem repeatFew_congr (hround : ∀ pos ≤ last, ∀ s, (round pos s).UpTo last)
    (halike : ∀ pos ≤ last, round' pos = round pos) (fuel : Nat) (earlier : List Nat) {here : Nat}
    (hhere : here ≤ last) :
    repeatFew bounds round' fuel earlier here = repeatFew bounds round fuel earlier here := by
  induction fuel generalizing earlier here with
  | zero => rfl
  | succ fuel ih =>
      have hnext : ∀ stop ≤ last, repeatFew bounds round' fuel (here :: earlier) stop =
          repeatFew bounds round fuel (here :: earlier) stop :=
        fun stop hstop => ih (here :: earlier) hstop
      funext s
      simp only [repeatFew, halike here hhere, again_congr hround earlier.length hhere hnext]

theorem firstBehind_congr {body body' : Nat → Stream} (pos : Nat) {starts : List Nat}
    (halike : ∀ start ∈ starts, body' start = body start) (s : State) :
    firstBehind body' pos starts s = firstBehind body pos starts s := by
  induction starts generalizing s with
  | nil => rfl
  | cons start rest ih =>
      have hrest := ih fun other hother => halike other (List.mem_cons_of_mem _ hother)
      rw [firstBehind, firstBehind, halike start List.mem_cons_self]
      simp only [hrest]

theorem assertInside_congr {body body' : Nat → Stream} {behind negative : Bool} {pos : Nat}
    (hpos : pos ≤ last) (halike : ∀ start ≤ last, body' start = body start) :
    assertInside behind negative body' pos = assertInside behind negative body pos := by
  have hbehind : ∀ start ∈ List.range (pos + 1), body' start = body start := fun start hstart =>
    halike start (Nat.le_trans (Nat.le_of_lt_succ (List.mem_range.mp hstart)) hpos)
  funext s
  unfold assertInside
  rw [firstBehind_congr pos hbehind s, halike pos hpos]

end Alike

mutual

/-- Inside of the subject no stream of a node depends on what a miss does. -/
theorem candidatesOr_eq (missed : Stream) (closed : Utf16.Closed ctx.units) (address : Address) :
    ∀ (node : Node) (pos : Nat), pos ≤ ctx.units.size →
      candidatesOr missed ctx address node pos = candidates ctx address node pos
  | .anchor kind, pos, hpos => by
      funext s
      rw [candidatesOr, candidates, anchorOr_eq kind hpos]
  | .alternative body, pos, hpos => by
      funext s
      rw [candidatesOr, candidates, sequenceOr_eq missed closed address 0 body pos hpos]
  | .disjunction branches, pos, hpos => by
      funext s
      rw [candidatesOr, candidates, choiceOr_eq missed closed address 0 branches pos hpos]
  | .group behaviour body name number, pos, hpos => by
      have halike := sequenceOr_eq missed closed address 0 body
      funext s
      unfold candidatesOr candidates
      refine congrArg (visit ctx _ pos s) ?_
      generalize ctx.options.lookaround = mode
      cases mode with
      | consume => cases behaviour <;> exact halike pos hpos
      | assert =>
          cases behaviour with
          | look behind negative => exact assertInside_congr hpos halike
          | _ => exact halike pos hpos
  | .quantifier min max greedy body shorthand, pos, hpos => by
      have hround := candidates_upTo closed (address ++ [.repeated]) body
      have halike := candidatesOr_eq missed closed (address ++ [.repeated]) body
      funext s
      rw [candidatesOr, candidates]
      cases Bounds.ofInts? min max with
      | none => rfl
      | some bounds =>
          refine congrArg (visit ctx _ pos s) ?_
          split
          · exact repeatFew_congr hround halike _ [] hpos
          · exact repeatMany_congr hround halike _ [] hpos
  | .value _, pos, _ | .dot, pos, _ | .escape _, pos, _ | .charClass _ _, pos, _
  | .unsupported _ _, pos, _ | .range _ _, pos, _ | .alien, pos, _ | .absent, pos, _ => by
      funext s
      simp only [candidatesOr]

theorem sequenceOr_eq (missed : Stream) (closed : Utf16.Closed ctx.units) (address : Address)
    (index : Nat) : ∀ (body : List Node) (pos : Nat), pos ≤ ctx.units.size →
      sequenceOr missed ctx address index body pos = sequence ctx address index body pos
  | [], pos, hpos => by
      funext s
      rw [sequenceOr, sequence]
  | node :: rest, pos, hpos => by
      funext s
      rw [sequenceOr, sequence, candidatesOr_eq missed closed _ node pos hpos]
      exact (candidates_upTo closed _ node pos hpos s).andThen_congr
        (sequenceOr_eq missed closed address (index + 1) rest)

theorem choiceOr_eq (missed : Stream) (closed : Utf16.Closed ctx.units) (address : Address)
    (index : Nat) : ∀ (branches : List Node) (pos : Nat), pos ≤ ctx.units.size →
      choiceOr missed ctx address index branches pos = choice ctx address index branches pos
  | [], pos, hpos => by
      funext s
      rw [choiceOr, choice]
  | node :: rest, pos, hpos => by
      funext s
      rw [choiceOr, choice, candidatesOr_eq missed closed _ node pos hpos,
        choiceOr_eq missed closed address (index + 1) rest pos hpos]

end

theorem rootCandidatesOr_eq (missed : Stream) (closed : Utf16.Closed ctx.units) (root : Node)
    {pos : Nat} (hpos : pos ≤ ctx.units.size) :
    rootCandidatesOr missed ctx root pos = rootCandidates ctx root pos := by
  cases root with
  | alternative body => exact sequenceOr_eq missed closed [] 0 body pos hpos
  | disjunction branches => exact choiceOr_eq missed closed [] 0 branches pos hpos
  | _ => exact candidatesOr_eq missed closed [] _ pos hpos

/-- The trial of starts inside of the subject does not depend on what a miss does. -/
theorem scanFromOr_eq (missed : Stream) (closed : Utf16.Closed ctx.units) (root : Node)
    {starts : List Nat} (hstarts : ∀ start ∈ starts, start ≤ ctx.units.size) (s : State) :
    scanFromOr missed ctx root starts s = scanFrom ctx root starts s := by
  induction starts generalizing s with
  | nil => rfl
  | cons start rest ih =>
      have hrest := ih fun other hother => hstarts other (List.mem_cons_of_mem _ hother)
      rw [scanFromOr, scanFrom,
        rootCandidatesOr_eq missed closed root (hstarts start List.mem_cons_self)]
      cases rootCandidates ctx root start _ with
      | exhausted s' => exact hrest s'
      | _ => rfl

/-- A search never looks at a unit that is not there: whatever a miss did, it would be the same. -/
theorem runOr_eq (missed : Stream) (options : Options) (root : Node) (text : Text) :
    runOr missed options root text = run options root text := by
  unfold runOr run
  split
  · rfl
  · have closed : Utf16.Closed (Context.mk (Utf16.encode text) options).units :=
      Utf16.closed_encode text
    apply scanFromOr_eq missed closed root
    exact fun start hstart => Nat.le_of_lt_succ (List.mem_range.mp hstart)

end RegexTrace.Search
