import RegexTrace.Proofs.RoundLoops

/-!
# The stack of a repetition

Whatever the loop of a repetition comes to hold, its stack and its list of positions are in step: of
each round that is complete the list holds the position where it began and where it ended, the
positions never go back, and beyond the minimum each round moves on. So the stack is no higher than
the minimum, the units that are left and one more.

## Implementation notes

The rounds that are complete are followed from the entry of the repetition on, the latest first, as
the stack is. Only the outcome is said by indices into the list, which also holds positions of
rounds that were given up.
-/

namespace RegexTrace.Search

section Stack

variable (bounds : Bounds) (round : Nat → Stream) (pos : Nat)

/-- The rounds that are complete after a repetition was entered, the latest first: what is left of
the stream of each, and the positions where they ended. -/
inductive RoundsDone : List Stream → List Nat → Prop
  | entered : RoundsDone [] [pos]
  | round {stack : List Stream} {earlier : List Nat} {here stop : Nat} {left : Stream}
      (h : RoundsDone stack (here :: earlier)) (hroom : ¬ bounds.reached stack.length = true)
      (hleft : Resumed (round here) (some stop) left)
      (hmoves : ¬(bounds.min ≤ stack.length ∧ stop = here)) :
      RoundsDone (left :: stack) (stop :: here :: earlier)

/-- The loop holds rounds that are complete, with their positions at the beginning of its list, and
at most one round under trial. -/
inductive RoundsFrame.InOrder : RoundsFrame → Prop
  | done {phase : Phase} {stack : List Stream} {positions ends : List Nat}
      (hphase : phase ≠ .asking) (h : RoundsDone bounds round pos stack positions)
      (hends : positions.reverse <+: ends) : InOrder ⟨phase, stack, ends⟩
  | dry {ends : List Nat} (hends : [pos] <+: ends) : InOrder ⟨.asking, [], ends⟩
  | trial {top : Stream} {stack : List Stream} {here : Nat} {earlier ends : List Nat}
      {last : Option Nat} (h : RoundsDone bounds round pos stack (here :: earlier))
      (hroom : ¬ bounds.reached stack.length = true) (htop : Resumed (round here) last top)
      (hends : (here :: earlier).reverse <+: ends) : InOrder ⟨.asking, top :: stack, ends⟩

/-- The loop offers the end of its last round, and all rounds on its stack are complete. -/
def RoundsFrame.Offered (stop : Nat) (f : RoundsFrame) : Prop :=
  ∃ earlier, RoundsDone bounds round pos f.stack (stop :: earlier) ∧
    (stop :: earlier).reverse <+: f.ends

variable {bounds round pos}

namespace RoundsDone

variable {stack : List Stream} {positions : List Nat}

theorem length_eq (h : RoundsDone bounds round pos stack positions) :
    positions.length = stack.length + 1 := by
  induction h with
  | entered => rfl
  | round _ _ _ _ ih => rw [List.length_cons, ih, List.length_cons]

theorem exists_eq_cons (h : RoundsDone bounds round pos stack positions) :
    ∃ here earlier, positions = here :: earlier := by
  cases h with
  | entered => exact ⟨pos, [], rfl⟩
  | @round stack earlier here stop _ _ _ _ _ => exact ⟨stop, here :: earlier, rfl⟩

theorem getElem?_eq {here : Nat} {earlier ends : List Nat}
    (h : RoundsDone bounds round pos stack (here :: earlier))
    (hends : (here :: earlier).reverse <+: ends) : ends[stack.length]? = some here := by
  have hlength : earlier.length = stack.length := Nat.succ.inj h.length_eq
  exact hlength ▸ RoundsFrame.getElem?_of_begins hends

theorem inOrder_asking (h : RoundsDone bounds round pos stack positions) {ends : List Nat}
    (hends : positions.reverse <+: ends) :
    RoundsFrame.InOrder bounds round pos ⟨.asking, stack, ends⟩ := by
  cases h with
  | entered => exact .dry hends
  | @round stack earlier here stop left h hroom hleft hmoves =>
      rw [List.reverse_cons (a := stop)] at hends
      exact .trial h hroom hleft ((List.prefix_append _ _).trans hends)

end RoundsDone

/-- Every turn keeps a loop in order, and it offers the end of its last round. -/
theorem roundsTurn_leaves (few : Bool) (f : RoundsFrame) (s : State)
    (h : f.InOrder bounds round pos) :
    (roundsTurn few bounds round f s).Leaves (RoundsFrame.InOrder bounds round pos)
      (RoundsFrame.Offered bounds round pos) := by
  cases h with
  | dry hends => trivial
  | @done phase stack positions ends hphase h hends =>
      obtain ⟨here, earlier, rfl⟩ := h.exists_eq_cons
      have hend : (RoundsFrame.mk phase stack ends).endAfter stack.length = here :=
        RoundsFrame.endAfter_of_getElem? (h.getElem?_eq hends)
      cases phase with
      | asking => exact absurd rfl hphase
      | arrived =>
          have hextending : RoundsFrame.InOrder bounds round pos ⟨.extending, stack, ends⟩ :=
            .done (by decide) h hends
          simp only [roundsTurn, hend]
          split
          · split
            · exact ⟨hextending, earlier, h, hends⟩
            · exact hextending
          · split
            · exact ⟨h.inOrder_asking hends, earlier, h, hends⟩
            · exact hextending
      | extending =>
          simp only [roundsTurn, hend]
          split
          · exact h.inOrder_asking hends
          · next hroom => exact .trial h hroom .fresh hends
  | @trial top stack here earlier ends last h hroom htop hends =>
      have hend : (RoundsFrame.mk .asking (top :: stack) ends).endAfter stack.length = here :=
        RoundsFrame.endAfter_of_getElem? (h.getElem?_eq hends)
      have hlength : earlier.length = stack.length := Nat.succ.inj h.length_eq
      have hcut : ends.take (stack.length + 1) = (here :: earlier).reverse :=
        hlength ▸ RoundsFrame.take_of_begins hends
      simp only [roundsTurn, hend, hcut]
      cases hnext : top s with
      | aborted failure s' => trivial
      | exhausted s' =>
          have hcutBack : RoundsFrame.InOrder bounds round pos
              ⟨.asking, stack, (here :: earlier).reverse⟩ := h.inOrder_asking List.prefix_rfl
          dsimp only
          split
          · exact h.inOrder_asking hends
          · split
            · exact ⟨hcutBack, earlier, h, List.prefix_rfl⟩
            · exact hcutBack
      | offer stop s' resume =>
          dsimp only
          split
          · exact .trial h hroom (htop.offered hnext) hends
          · next hmoves =>
              have hreverse : (stop :: here :: earlier).reverse =
                  (here :: earlier).reverse ++ [stop] := List.reverse_cons
              exact .done (by decide) (.round h hroom (htop.offered hnext) hmoves)
                (hreverse ▸ List.prefix_rfl)

/-- Whatever the loop of a repetition comes to hold is in order. -/
theorem inOrder_of_mayHold {few : Bool} {f : RoundsFrame}
    (h : MayHold (roundsTurn few bounds round) (.entered pos) f) : f.InOrder bounds round pos :=
  h.kept (.done (by decide) .entered List.prefix_rfl) (roundsTurn_leaves few)

end Stack

/-- The list of positions is in step with the stack as far as so many rounds: it begins where the
repetition was entered, each round began at one position and offered the next one last, and no round
goes back; from the minimum on each moves forward. -/
structure InStep (bounds : Bounds) (round : Nat → Stream) (pos size : Nat) (stack : List Stream)
    (ends : List Nat) (count : Nat) : Prop where
  entered : ends[0]? = some pos
  round : ∀ i < count, ∃ here stop left, ends[i]? = some here ∧ ends[i + 1]? = some stop ∧
    stack.reverse[i]? = some left ∧ Resumed (round here) (some stop) left ∧
    here ≤ stop ∧ (bounds.min ≤ i → here < stop)
  within : ∀ i ≤ count, ∃ here, ends[i]? = some here ∧ pos ≤ here ∧ here ≤ size

/-- What is known of the loop of a repetition that is entered at a position of a subject, with many
or with few rounds first, in whatever states its turns are made. -/
structure BoundedLoop (few : Bool) (bounds : Bounds) (round : Nat → Stream) (pos size : Nat) :
    Prop where
  stack_le : ∀ f, MayHold (roundsTurn few bounds round) (.entered pos) f →
    f.stack.length ≤ bounds.min + (size - pos) + 1
  stack_le_max : ∀ f, MayHold (roundsTurn few bounds round) (.entered pos) f →
    ∀ max, bounds.max = some max → f.stack.length ≤ max
  inStep : ∀ f, MayHold (roundsTurn few bounds round) (.entered pos) f →
    InStep bounds round pos size f.stack f.ends f.completed
  offers : ∀ f s stop next s', MayHold (roundsTurn few bounds round) (.entered pos) f →
    roundsTurn few bounds round f s = .offers stop next s' →
      InStep bounds round pos size next.stack next.ends next.stack.length ∧
        next.ends[next.stack.length]? = some stop

section Heights

variable {bounds : Bounds} {round : Nat → Stream} {pos size : Nat} {stack : List Stream}
  {here : Nat} {earlier positions ends : List Nat}

theorem Bounds.lt_of_not_reached {count max : Nat} (hmax : bounds.max = some max)
    (hroom : ¬ bounds.reached count = true) : count < max := by
  simpa [Bounds.reached, hmax] using hroom

theorem InStep.push {count : Nat} (h : InStep bounds round pos size stack ends count)
    (hcount : count ≤ stack.length) (top : Stream) :
    InStep bounds round pos size (top :: stack) ends count := by
  refine ⟨h.entered, fun i hi => ?_, h.within⟩
  have hbelow : (top :: stack).reverse[i]? = stack.reverse[i]? := by
    rw [List.reverse_cons, List.getElem?_append_left]
    rw [List.length_reverse]
    exact Nat.lt_of_lt_of_le hi hcount
  rw [hbelow]
  exact h.round i hi

namespace RoundsDone

theorem length_le_max (h : RoundsDone bounds round pos stack positions) {max : Nat}
    (hmax : bounds.max = some max) : stack.length ≤ max := by
  cases h with
  | entered => exact Nat.zero_le max
  | round _ hroom _ _ => exact Bounds.lt_of_not_reached hmax hroom

variable (hround : ∀ pos ≤ size, ∀ s, (round pos s).Within pos size) (hpos : pos ≤ size)

include hround hpos

/-- The last round ended within the subject. -/
theorem within (h : RoundsDone bounds round pos stack (here :: earlier)) :
    pos ≤ here ∧ here ≤ size := by
  generalize hpositions : here :: earlier = positions at h
  induction h generalizing here earlier with
  | entered =>
      obtain ⟨rfl, -⟩ := List.cons.inj hpositions
      exact ⟨Nat.le_refl here, hpos⟩
  | @round stack before begun stop left _ _ hleft _ ih =>
      obtain ⟨rfl, -⟩ := List.cons.inj hpositions
      obtain ⟨hlow, hhigh⟩ := ih rfl
      obtain ⟨hle, hstop⟩ := hleft.le_and_le (hround begun hhigh)
      exact ⟨Nat.le_trans hlow hle, hstop⟩

/-- Rounds beyond the minimum move forward, so there are no more of them than units were passed. -/
theorem length_le (h : RoundsDone bounds round pos stack (here :: earlier)) :
    stack.length ≤ bounds.min + (here - pos) := by
  generalize hpositions : here :: earlier = positions at h
  induction h generalizing here earlier with
  | entered => exact Nat.zero_le _
  | @round stack before begun stop left h _ hleft hmoves ih =>
      obtain ⟨rfl, -⟩ := List.cons.inj hpositions
      have hbefore := ih rfl
      obtain ⟨hlow, hhigh⟩ := h.within hround hpos
      obtain ⟨hle, -⟩ := hleft.le_and_le (hround begun hhigh)
      rw [List.length_cons]
      omega

/-- Where the list begins with the positions of the rounds, it is in step with them. -/
theorem inStep (h : RoundsDone bounds round pos stack positions)
    (hends : positions.reverse <+: ends) :
    InStep bounds round pos size stack ends stack.length := by
  induction h with
  | entered =>
      have hentered : ends[0]? = some pos := RoundsFrame.getElem?_of_begins hends
      refine ⟨hentered, nofun, fun i hi => ?_⟩
      obtain rfl := Nat.le_zero.mp hi
      exact ⟨pos, hentered, Nat.le_refl pos, hpos⟩
  | @round stack earlier here stop left h hroom hleft hmoves ih =>
      have hearlier : (here :: earlier).reverse <+: ends := by
        rw [List.reverse_cons (a := stop)] at hends
        exact (List.prefix_append _ _).trans hends
      have hbelow := (ih hearlier).push (Nat.le_refl _) left
      have hhere : ends[stack.length]? = some here := h.getElem?_eq hearlier
      have hdone := RoundsDone.round h hroom hleft hmoves
      have hstop : ends[stack.length + 1]? = some stop := hdone.getElem?_eq hends
      have hwithin := hdone.within hround hpos
      obtain ⟨hle, -⟩ := hleft.le_and_le (hround here (h.within hround hpos).2)
      refine ⟨hbelow.entered, fun i hi => ?_, fun i hi => ?_⟩
      · rcases Nat.lt_or_eq_of_le (Nat.le_of_lt_succ hi) with hlt | rfl
        · exact hbelow.round i hlt
        · refine ⟨here, stop, left, hhere, hstop, ?_, hleft, hle, fun hmin => ?_⟩
          · rw [List.reverse_cons, List.getElem?_append_right] <;> simp
          · exact Nat.lt_of_le_of_ne hle fun heq => hmoves ⟨hmin, heq.symm⟩
      · rcases Nat.lt_or_eq_of_le hi with hlt | rfl
        · exact hbelow.within i (Nat.le_of_lt_succ hlt)
        · exact ⟨stop, hstop, hwithin⟩

end RoundsDone

section Loop

variable (hround : ∀ pos ≤ size, ∀ s, (round pos s).Within pos size) (hpos : pos ≤ size)
  {f : RoundsFrame}

include hround hpos

theorem RoundsFrame.InOrder.length_le (h : f.InOrder bounds round pos) :
    f.stack.length ≤ bounds.min + (size - pos) + 1 := by
  cases h with
  | dry _ => exact Nat.zero_le _
  | @done phase stack positions ends _ h _ =>
      obtain ⟨here, earlier, rfl⟩ := h.exists_eq_cons
      have hle := h.length_le hround hpos
      obtain ⟨-, hhigh⟩ := h.within hround hpos
      dsimp only
      omega
  | @trial top stack here earlier ends last h _ _ _ =>
      have hle := h.length_le hround hpos
      obtain ⟨-, hhigh⟩ := h.within hround hpos
      rw [List.length_cons]
      omega

theorem RoundsFrame.InOrder.inStep (h : f.InOrder bounds round pos) :
    InStep bounds round pos size f.stack f.ends f.completed := by
  cases h with
  | dry hends => exact RoundsDone.entered.inStep hround hpos hends
  | @done phase stack positions ends hphase h hends =>
      have hcompleted : (RoundsFrame.mk phase stack ends).completed = stack.length := by
        cases phase with
        | asking => exact absurd rfl hphase
        | _ => rfl
      rw [hcompleted]
      exact h.inStep hround hpos hends
  | @trial top stack here earlier ends last h _ _ hends =>
      exact (h.inStep hround hpos hends).push (Nat.le_refl _) top

/-- The loop of a repetition is bounded wherever its rounds stay between their positions and the end
of the subject. -/
theorem boundedLoop (few : Bool) : BoundedLoop few bounds round pos size where
  stack_le f hf := (inOrder_of_mayHold hf).length_le hround hpos
  stack_le_max f hf max hmax := by
    cases inOrder_of_mayHold hf with
    | dry _ => exact Nat.zero_le max
    | done _ h _ => exact h.length_le_max hmax
    | trial _ hroom _ _ => exact Bounds.lt_of_not_reached hmax hroom
  inStep f hf := (inOrder_of_mayHold hf).inStep hround hpos
  offers f s stop next s' hf hoffers := by
    have hleaves := roundsTurn_leaves few f s (inOrder_of_mayHold hf)
    rw [hoffers] at hleaves
    obtain ⟨-, earlier, hdone, hends⟩ := hleaves
    exact ⟨hdone.inStep hround hpos hends, hdone.getElem?_eq hends⟩

end Loop

end Heights

end RegexTrace.Search
