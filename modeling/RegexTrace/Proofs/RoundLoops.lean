import RegexTrace.Proofs.Loops

/-!
# The loops of repetitions

A repetition can be run by a loop that keeps the streams of its rounds suspended on a stack, and the
position after each round in a list beside it. The loop is over after finitely many turns and offers
the candidates of the repetition.

## Implementation notes

The list of positions is cut only where the loop is about to add to it or to offer from it, so it
may hold more than the rounds that are complete. What is known of it is what it begins with.
-/

namespace RegexTrace.Search

/-- What the loop of a repetition does next. -/
inductive Phase
  /-- A round is complete, or there is none yet. -/
  | arrived
  /-- One more round may be begun. -/
  | extending
  /-- The last round that was begun is to be asked for its next candidate. -/
  | asking
  deriving DecidableEq, Repr

/-- What the loop of a repetition keeps. -/
structure RoundsFrame where
  phase : Phase
  /-- The suspended streams of the rounds, the latest first. -/
  stack : List Stream
  /-- The position after `i` rounds at index `i`. -/
  ends : List Nat

namespace RoundsFrame

/-- A repetition that was just entered. -/
def entered (pos : Nat) : RoundsFrame := ⟨.arrived, [], [pos]⟩

/-- The position after so many rounds. -/
def endAfter (f : RoundsFrame) (count : Nat) : Nat := f.ends.getD count 0

/-- The number of rounds that are complete. A round that is to be asked for its next candidate is
not: its last candidate has been given up. -/
def completed (f : RoundsFrame) : Nat :=
  match f.phase with
  | .asking => f.stack.length - 1
  | _ => f.stack.length

end RoundsFrame

/-- A turn of the loop of a repetition. With few rounds first, a position is offered before one more
round is begun; with many rounds first, when the round after it has run dry or may not be begun.
Beyond the minimum, a candidate that ends where its round began is dropped. -/
def roundsTurn (few : Bool) (bounds : Bounds) (round : Nat → Stream) (f : RoundsFrame)
    (s : State) : Turn RoundsFrame :=
  match f.phase with
  | .arrived =>
    if few then
      if bounds.min ≤ f.stack.length then
        .offers (f.endAfter f.stack.length) { f with phase := .extending } s
      else .again { f with phase := .extending } s
    else if bounds.reached f.stack.length then
      .offers (f.endAfter f.stack.length) { f with phase := .asking } s
    else .again { f with phase := .extending } s
  | .extending =>
    if bounds.reached f.stack.length then .again { f with phase := .asking } s
    else .again ⟨.asking, round (f.endAfter f.stack.length) :: f.stack, f.ends⟩ s
  | .asking =>
    match f.stack with
    | [] => .over s
    | top :: rest =>
      match top s with
      | .exhausted s' =>
        if few then .again ⟨.asking, rest, f.ends⟩ s'
        else if bounds.min ≤ rest.length then
          .offers (f.endAfter rest.length) ⟨.asking, rest, f.ends.take (rest.length + 1)⟩ s'
        else .again ⟨.asking, rest, f.ends.take (rest.length + 1)⟩ s'
      | .offer stop s' resume =>
        if bounds.min ≤ rest.length ∧ stop = f.endAfter rest.length then
          .again ⟨.asking, resume :: rest, f.ends⟩ s'
        else .again ⟨.arrived, resume :: rest, f.ends.take (rest.length + 1) ++ [stop]⟩ s'
      | .aborted failure s' => .aborts failure s'

namespace RoundsFrame

variable {ends earlier : List Nat} {here : Nat}

theorem getElem?_of_begins (h : (here :: earlier).reverse <+: ends) :
    ends[earlier.length]? = some here := by
  obtain ⟨left, hleft⟩ := h
  simp [← hleft]

theorem endAfter_of_getElem? {f : RoundsFrame} {count : Nat} (h : f.ends[count]? = some here) :
    f.endAfter count = here := by
  rw [endAfter, List.getD_eq_getElem?_getD, h, Option.getD_some]

theorem endAfter_of_begins {f : RoundsFrame} (h : (here :: earlier).reverse <+: f.ends) :
    f.endAfter earlier.length = here :=
  endAfter_of_getElem? (getElem?_of_begins h)

theorem take_of_begins (h : (here :: earlier).reverse <+: ends) :
    ends.take (earlier.length + 1) = (here :: earlier).reverse := by
  have hlength : earlier.length + 1 = (here :: earlier).reverse.length := by simp
  rw [hlength]
  exact (List.prefix_iff_eq_take.mp h).symm

end RoundsFrame

section Turns

/-- A loop that goes back to its stack offers the candidates of a stream, and it does not matter
what its list holds behind some positions. -/
def GoesBack (few : Bool) (bounds : Bounds) (round : Nat → Stream) (stack : List Stream)
    (positions : List Nat) (later : Stream) : Prop :=
  ∀ ends s, positions.reverse <+: ends →
    Runs (roundsTurn few bounds round) ⟨.asking, stack, ends⟩ s (later s)

/-- A loop that has completed one more round offers what follows from the end of the round, and then
it goes back to the stack. -/
def GoesOn (few : Bool) (bounds : Bounds) (round : Nat → Stream) (size : Nat) (stack : List Stream)
    (here : Nat) (earlier : List Nat) (next : Nat → Stream) : Prop :=
  ∀ stop s top later, here ≤ stop → stop ≤ size → ¬(bounds.min ≤ earlier.length ∧ stop = here) →
    GoesBack few bounds round (top :: stack) (stop :: here :: earlier) later →
    Runs (roundsTurn few bounds round) ⟨.arrived, top :: stack, (stop :: here :: earlier).reverse⟩ s
      ((next stop s).orElse later)

variable {few : Bool} {bounds : Bounds} {round : Nat → Stream} {size : Nat}

/-- A loop that asks a round goes on from each of its candidates but those that are dropped. When
the round has run dry, the position before it is offered where many rounds come first, and the loop
goes on with the rest of the stack. -/
theorem goesBack_round {here : Nat} {earlier : List Nat} {rest : List Stream}
    (hlength : rest.length = earlier.length) {next : Nat → Stream} {later : Stream}
    (hnext : GoesOn few bounds round size rest here earlier next)
    (hlater : GoesBack few bounds round rest (here :: earlier) later)
    {top : Stream} (htop : ∀ s, (top s).Within here size) :
    GoesBack few bounds round (top :: rest) (here :: earlier) fun s =>
      (((top s).andThen fun stop s' =>
          if bounds.min ≤ earlier.length ∧ stop = here then .exhausted s' else next stop s').orElse
        (offerIf (!few && decide (bounds.min ≤ earlier.length)) here)).orElse later := by
  intro ends s hends
  dsimp only
  generalize hcs : top s = cs
  induction cs generalizing top ends s with
  | aborted failure s' => exact .aborts (by simp only [roundsTurn, hcs])
  | exhausted s' =>
      have hcut := RoundsFrame.take_of_begins hends
      have hhere : (RoundsFrame.mk .asking (top :: rest) ends).endAfter earlier.length = here :=
        RoundsFrame.endAfter_of_begins hends
      rw [Candidates.andThen, Candidates.orElse]
      cases few with
      | true =>
          refine .again ?_ (hlater ends s' hends)
          simp only [roundsTurn, hcs, if_true]
      | false =>
          by_cases hmin : bounds.min ≤ earlier.length
          · have hturn : roundsTurn false bounds round ⟨.asking, top :: rest, ends⟩ s =
                .offers here ⟨.asking, rest, (here :: earlier).reverse⟩ s' := by
              simp only [roundsTurn, hcs, hlength, Bool.false_eq_true, if_false, if_pos hmin, hcut,
                hhere]
            rw [decide_eq_true hmin]
            exact .offers hturn fun s'' => hlater _ s'' List.prefix_rfl
          · have hturn : roundsTurn false bounds round ⟨.asking, top :: rest, ends⟩ s =
                .again ⟨.asking, rest, (here :: earlier).reverse⟩ s' := by
              simp only [roundsTurn, hcs, hlength, Bool.false_eq_true, if_false, if_neg hmin, hcut]
            rw [decide_eq_false hmin]
            exact .again hturn (hlater _ s' List.prefix_rfl)
  | offer stop s' resume ih =>
      have hwithin := htop s
      rw [hcs] at hwithin
      cases hwithin with
      | offer hlow hhigh hresume =>
          have hhere : (RoundsFrame.mk .asking (top :: rest) ends).endAfter earlier.length = here :=
            RoundsFrame.endAfter_of_begins hends
          have hafter : ∀ ends s'', (here :: earlier).reverse <+: ends →
              Runs (roundsTurn few bounds round) ⟨.asking, resume :: rest, ends⟩ s'' _ :=
            fun ends s'' hends => ih s'' hresume ends s'' hends rfl
          rw [Candidates.andThen]
          by_cases hdrop : bounds.min ≤ earlier.length ∧ stop = here
          · rw [if_pos hdrop, Candidates.orElse]
            refine .again ?_ (hafter ends s' hends)
            simp only [roundsTurn, hcs, hlength, hhere, if_pos hdrop]
          · have hcut := RoundsFrame.take_of_begins hends
            have hturn : roundsTurn few bounds round ⟨.asking, top :: rest, ends⟩ s =
                .again ⟨.arrived, resume :: rest, (stop :: here :: earlier).reverse⟩ s' := by
              simp only [roundsTurn, hcs, hlength, hhere, if_neg hdrop, hcut]
              rw [List.reverse_cons (a := stop)]
            rw [if_neg hdrop, Candidates.orElse_assoc, Candidates.orElse_assoc]
            refine .again hturn (hnext stop s' resume _ hlow hhigh hdrop fun ends s'' hends => ?_)
            rw [← Candidates.orElse_assoc]
            apply hafter ends s''
            rw [List.reverse_cons (a := stop)] at hends
            exact (List.prefix_append _ _).trans hends

section Arrived

variable (hround : ∀ pos ≤ size, ∀ s, (round pos s).Within pos size) {here : Nat}
  {earlier : List Nat} {stack : List Stream} (hlength : stack.length = earlier.length)
  {later : Stream}

include hround hlength

/-- With room for one more round, the loop begins it. -/
theorem runs_extending (hhere : here ≤ size)
    (hlater : GoesBack few bounds round stack (here :: earlier) later)
    (hreached : ¬ bounds.reached earlier.length = true) {next : Nat → Stream}
    (hnext : GoesOn few bounds round size stack here earlier next)
    (s : State) :
    Runs (roundsTurn few bounds round) ⟨.extending, stack, (here :: earlier).reverse⟩ s
      ((((round here s).andThen fun stop s' =>
          if bounds.min ≤ earlier.length ∧ stop = here then .exhausted s' else next stop s').orElse
        (offerIf (!few && decide (bounds.min ≤ earlier.length)) here)).orElse later) := by
  have hend : (RoundsFrame.mk .extending stack (here :: earlier).reverse).endAfter
      earlier.length = here := RoundsFrame.endAfter_of_begins List.prefix_rfl
  have hturn : roundsTurn few bounds round ⟨.extending, stack, (here :: earlier).reverse⟩ s =
      .again ⟨.asking, round here :: stack, (here :: earlier).reverse⟩ s := by
    simp only [roundsTurn, hlength, if_neg hreached, hend]
  have hback := goesBack_round hlength hnext hlater (hround here hhere)
  exact .again hturn (hback _ s List.prefix_rfl)

/-- After some rounds, the loop with many rounds first offers the candidates of the rounds that may
follow, and then those that the stack has left. -/
theorem runs_repeatMany {fuel : Nat} (hhere : here ≤ size)
    (hfuel : (bounds.min - earlier.length) + (size - here) < fuel)
    (hlater : GoesBack false bounds round stack (here :: earlier) later) (s : State) :
    Runs (roundsTurn false bounds round) ⟨.arrived, stack, (here :: earlier).reverse⟩ s
      ((repeatMany bounds round fuel earlier here s).orElse later) := by
  induction fuel generalizing here earlier stack later s with
  | zero => exact absurd hfuel (Nat.not_lt_zero _)
  | succ fuel ih =>
      have hend : (RoundsFrame.mk .arrived stack (here :: earlier).reverse).endAfter
          earlier.length = here := RoundsFrame.endAfter_of_begins List.prefix_rfl
      rw [repeatMany]
      by_cases hreached : bounds.reached earlier.length = true
      · have hturn : roundsTurn false bounds round ⟨.arrived, stack, (here :: earlier).reverse⟩ s =
            .offers here ⟨.asking, stack, (here :: earlier).reverse⟩ s := by
          simp only [roundsTurn, hlength, Bool.false_eq_true, if_false, if_pos hreached, hend]
        rw [if_pos hreached]
        exact .offers hturn fun s' => hlater _ s' List.prefix_rfl
      · have hturn : roundsTurn false bounds round ⟨.arrived, stack, (here :: earlier).reverse⟩ s =
            .again ⟨.extending, stack, (here :: earlier).reverse⟩ s := by
          simp only [roundsTurn, hlength, Bool.false_eq_true, if_false, if_neg hreached]
        rw [if_neg hreached]
        refine .again hturn (runs_extending hround hlength hhere hlater hreached ?_ s)
        intro stop s' top later hlow hhigh hdrop hlater
        refine ih ?_ hhigh ?_ hlater s'
        · rw [List.length_cons, List.length_cons, hlength]
        · rw [List.length_cons]
          omega

/-- After some rounds, the loop with few rounds first offers the candidates of the rounds that may
follow, and then those that the stack has left. -/
theorem runs_repeatFew {fuel : Nat} (hhere : here ≤ size)
    (hfuel : (bounds.min - earlier.length) + (size - here) < fuel)
    (hlater : GoesBack true bounds round stack (here :: earlier) later) (s : State) :
    Runs (roundsTurn true bounds round) ⟨.arrived, stack, (here :: earlier).reverse⟩ s
      ((repeatFew bounds round fuel earlier here s).orElse later) := by
  induction fuel generalizing here earlier stack later s with
  | zero => exact absurd hfuel (Nat.not_lt_zero _)
  | succ fuel ih =>
      have hend : (RoundsFrame.mk .arrived stack (here :: earlier).reverse).endAfter
          earlier.length = here := RoundsFrame.endAfter_of_begins List.prefix_rfl
      have hextending : ∀ s', Runs (roundsTurn true bounds round)
          ⟨.extending, stack, (here :: earlier).reverse⟩ s'
          ((if bounds.reached earlier.length then .exhausted s'
            else (round here s').andThen fun stop s'' =>
              if bounds.min ≤ earlier.length ∧ stop = here then .exhausted s''
              else repeatFew bounds round fuel (here :: earlier) stop s'').orElse later) := by
        intro s'
        by_cases hreached : bounds.reached earlier.length = true
        · rw [if_pos hreached]
          refine .again ?_ (hlater _ s' List.prefix_rfl)
          simp only [roundsTurn, hlength, if_pos hreached]
        · have hnext : GoesOn true bounds round size stack here earlier
              (repeatFew bounds round fuel (here :: earlier)) := by
            intro stop s top later hlow hhigh hdrop hlater
            refine ih ?_ hhigh ?_ hlater s
            · rw [List.length_cons, List.length_cons, hlength]
            · rw [List.length_cons]
              omega
          have hruns := runs_extending hround hlength hhere hlater hreached hnext s'
          have hnothing : offerIf (!true && decide (bounds.min ≤ earlier.length)) here =
              Candidates.exhausted := rfl
          rw [if_neg hreached]
          rwa [hnothing, Candidates.orElse_exhausted] at hruns
      rw [repeatFew]
      by_cases hmin : bounds.min ≤ earlier.length
      · have hturn : roundsTurn true bounds round ⟨.arrived, stack, (here :: earlier).reverse⟩ s =
            .offers here ⟨.extending, stack, (here :: earlier).reverse⟩ s := by
          simp only [roundsTurn, hlength, if_true, if_pos hmin, hend]
        rw [decide_eq_true hmin]
        exact .offers hturn hextending
      · have hturn : roundsTurn true bounds round ⟨.arrived, stack, (here :: earlier).reverse⟩ s =
            .again ⟨.extending, stack, (here :: earlier).reverse⟩ s := by
          simp only [roundsTurn, hlength, if_true, if_neg hmin]
        rw [decide_eq_false hmin]
        exact .again hturn (hextending s)

end Arrived

/-- The loop of a repetition is over after finitely many turns and offers the candidates of the
rounds, as soon as the bound on the recursion over rounds is large enough. -/
theorem runs_entered (few : Bool) (hround : ∀ pos ≤ size, ∀ s, (round pos s).Within pos size)
    {pos fuel : Nat} (hpos : pos ≤ size) (hfuel : bounds.min + (size - pos) < fuel) (s : State) :
    Runs (roundsTurn few bounds round) (.entered pos) s
      ((if few then repeatFew else repeatMany) bounds round fuel [] pos s) := by
  have hdry : GoesBack few bounds round [] [pos] .exhausted := fun ends s' _ => .over rfl
  cases few with
  | true =>
      have hruns := runs_repeatFew hround rfl hpos hfuel hdry s
      rwa [Candidates.orElse_exhausted] at hruns
  | false =>
      have hruns := runs_repeatMany hround rfl hpos hfuel hdry s
      rwa [Candidates.orElse_exhausted] at hruns

end Turns

end RegexTrace.Search
