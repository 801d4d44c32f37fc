import RegexTrace.Proofs.Effort

/-!
# Loops over suspended streams

A search needs no recursion over positions: a sequence can keep the streams of its elements
suspended on a stack, and a repetition those of its rounds, with the position after each round. Such
a loop goes on turn by turn and nothing bounds its turns. Here it is shown that every loop is over
after finitely many turns, in whatever states it is resumed, and that it offers what the streams of
sequences and repetitions offer.

## Implementation notes

A stream is suspended as the function that resumes it. What a loop keeps does not depend on the
state of the search, which is handed over at each turn. That a loop ends is said by a relation to
the stream that it offers: the relation is inductive, so a loop that goes on forever is related to
no stream.
-/

namespace RegexTrace.Search

@[simp] theorem Candidates.orElse_exhausted (cs : Candidates) : cs.orElse .exhausted = cs := by
  induction cs with
  | exhausted s => rfl
  | offer stop s resume ih => simp only [orElse, ih]
  | aborted failure s => rfl

/-- What a turn of a loop comes to. -/
inductive Turn (σ : Type)
  | again (next : σ) (s : State)
  | offers (stop : Nat) (next : σ) (s : State)
  | over (s : State)
  | aborts (failure : Failure) (s : State)

/-- A loop that is run turn by turn offers the candidates of a stream and is then over, in whatever
states it is resumed after its offers. -/
inductive Runs {σ : Type} (turn : σ → State → Turn σ) : σ → State → Candidates → Prop
  | again {f next : σ} {s s' : State} {cs : Candidates} (h : turn f s = .again next s')
      (later : Runs turn next s' cs) : Runs turn f s cs
  | offers {f next : σ} {s s' : State} {stop : Nat} {resume : Stream}
      (h : turn f s = .offers stop next s') (later : ∀ s'', Runs turn next s'' (resume s'')) :
      Runs turn f s (.offer stop s' resume)
  | over {f : σ} {s s' : State} (h : turn f s = .over s') : Runs turn f s (.exhausted s')
  | aborts {f : σ} {s s' : State} {failure : Failure} (h : turn f s = .aborts failure s') :
      Runs turn f s (.aborted failure s')

/-- What a loop may come to hold, in whatever states its turns are made. -/
inductive MayHold {σ : Type} (turn : σ → State → Turn σ) (start : σ) : σ → Prop
  | start : MayHold turn start start
  | again {f next : σ} {s s' : State} (h : MayHold turn start f)
      (hturn : turn f s = .again next s') : MayHold turn start next
  | offers {f next : σ} {s s' : State} {stop : Nat} (h : MayHold turn start f)
      (hturn : turn f s = .offers stop next s') : MayHold turn start next

/-- A turn leaves a loop in a frame of one kind and offers what goes with it. -/
def Turn.Leaves {σ : Type} (Kept : σ → Prop) (Offered : Nat → σ → Prop) : Turn σ → Prop
  | .again next _ => Kept next
  | .offers stop next _ => Kept next ∧ Offered stop next
  | .over _ | .aborts _ _ => True

/-- What every turn leaves is all that a loop may come to hold. -/
theorem MayHold.kept {σ : Type} {turn : σ → State → Turn σ} {start f : σ} {Kept : σ → Prop}
    {Offered : Nat → σ → Prop} (h : MayHold turn start f) (hstart : Kept start)
    (hturn : ∀ f s, Kept f → (turn f s).Leaves Kept Offered) : Kept f := by
  induction h with
  | start => exact hstart
  | @again f next s s' _ hagain ih =>
      have hleaves := hturn f s ih
      rw [hagain] at hleaves
      exact hleaves
  | @offers f next s s' stop _ hoffers ih =>
      have hleaves := hturn f s ih
      rw [hoffers] at hleaves
      exact hleaves.1

/-- What may be left of a stream that was resumed in whatever states, with the candidate that it
offered last, if there was one. -/
inductive Resumed (f : Stream) : Option Nat → Stream → Prop
  | fresh : Resumed f none f
  | offered {last : Option Nat} {left resume : Stream} {s s' : State} {stop : Nat}
      (h : Resumed f last left) (hoffer : left s = .offer stop s' resume) :
      Resumed f (some stop) resume

namespace Resumed

variable {f left : Stream} {last : Option Nat} {low high : Nat}

theorem within (h : Resumed f last left) (hf : ∀ s, (f s).Within low high) (s : State) :
    (left s).Within low high := by
  induction h generalizing s with
  | fresh => exact hf s
  | @offered last left resume s₀ s' stop _ hoffer ih =>
      have hleft := ih s₀
      rw [hoffer] at hleft
      cases hleft with
      | offer _ _ hresume => exact hresume s

theorem le_and_le {stop : Nat} (h : Resumed f (some stop) left) (hf : ∀ s, (f s).Within low high) :
    low ≤ stop ∧ stop ≤ high := by
  cases h with
  | @offered last left resume s s' stop h hoffer =>
      have hleft := h.within hf s
      rw [hoffer] at hleft
      cases hleft with
      | offer hlow hhigh _ => exact ⟨hlow, hhigh⟩

end Resumed

section Sequence

/-- What the loop of a sequence holds: the suspended streams of its first elements, the latest
first. Either the last of them has just offered a position, or it is to be asked for one. -/
inductive SequenceFrame
  | arrived (here : Nat) (stack : List Stream)
  | asking (stack : List Stream)

/-- A turn of the loop of a sequence: from a position the next element is begun, or after the last
one the position is offered; a stream that runs dry is taken from the stack. -/
def sequenceTurn (elements : List (Nat → Stream)) :
    SequenceFrame → State → Turn SequenceFrame
  | .arrived here stack, s =>
    match elements[stack.length]? with
    | none => .offers here (.asking stack) s
    | some element => .again (.asking (element here :: stack)) s
  | .asking [], s => .over s
  | .asking (top :: rest), s =>
    match top s with
    | .exhausted s' => .again (.asking rest) s'
    | .offer stop s' resume => .again (.arrived stop (resume :: rest)) s'
    | .aborted failure s' => .aborts failure s'

/-- Streams of elements one after the other. -/
def chain : List (Nat → Stream) → Nat → Stream
  | [], pos, s => offerOnce pos s
  | element :: rest, pos, s => (element pos s).andThen (chain rest)

variable {elements : List (Nat → Stream)}

/-- A loop that asks a stream goes on from each of its candidates, and with the rest of the stack
when there is no further one. -/
theorem runs_asking {next : Nat → Stream} {later : Stream} {rest : List Stream}
    (hnext : ∀ stop s top after,
      (∀ s', Runs (sequenceTurn elements) (.asking (top :: rest)) s' (after s')) →
      Runs (sequenceTurn elements) (.arrived stop (top :: rest)) s ((next stop s).orElse after))
    (hlater : ∀ s, Runs (sequenceTurn elements) (.asking rest) s (later s)) (top : Stream)
    (s : State) :
    Runs (sequenceTurn elements) (.asking (top :: rest)) s
      (((top s).andThen next).orElse later) := by
  generalize hcs : top s = cs
  induction cs generalizing top s with
  | exhausted s' => exact .again (by rw [sequenceTurn, hcs]) (hlater s')
  | aborted failure s' => exact .aborts (by rw [sequenceTurn, hcs])
  | offer stop s' resume ih =>
      refine .again (by rw [sequenceTurn, hcs]) ?_
      rw [Candidates.andThen, Candidates.orElse_assoc]
      exact hnext stop s' resume _ fun s'' => ih s'' resume s'' rfl

/-- The loop of a sequence offers the candidates of the elements that are left, and then those that
the stack has left. -/
theorem runs_arrived {rest : List (Nat → Stream)} {stack : List Stream}
    (hrest : elements.drop stack.length = rest) {later : Stream}
    (hlater : ∀ s, Runs (sequenceTurn elements) (.asking stack) s (later s)) (here : Nat)
    (s : State) :
    Runs (sequenceTurn elements) (.arrived here stack) s ((chain rest here s).orElse later) := by
  induction rest generalizing stack later here s with
  | nil =>
      have hnone : elements[stack.length]? = none :=
        List.getElem?_eq_none (List.drop_eq_nil_iff.mp hrest)
      exact .offers (by rw [sequenceTurn, hnone]) hlater
  | cons element rest ih =>
      have hsome : elements[stack.length]? = some element := by
        have hhead : (elements.drop stack.length)[0]? = some element := hrest ▸ rfl
        rwa [List.getElem?_drop, Nat.add_zero] at hhead
      refine .again (by rw [sequenceTurn, hsome]) ?_
      refine runs_asking (fun stop s' top after hafter => ?_) hlater (element here) s
      apply ih _ hafter
      rw [List.length_cons, ← List.drop_drop, hrest]
      rfl

/-- The streams of the elements of a sequence, the first of them numbered `index`. -/
def elementStreams (ctx : Context) (address : Address) (index : Nat) :
    List Node → List (Nat → Stream)
  | [] => []
  | node :: rest =>
    candidates ctx (address ++ [.element index]) node ::
      elementStreams ctx address (index + 1) rest

/-- The stream of a sequence is that of its elements one after the other. -/
theorem sequence_eq_chain (ctx : Context) (address : Address) (index : Nat) (body : List Node)
    (pos : Nat) (s : State) :
    sequence ctx address index body pos s =
      chain (elementStreams ctx address index body) pos s := by
  induction body generalizing index pos s with
  | nil => rfl
  | cons node rest ih =>
      have hrest : sequence ctx address (index + 1) rest =
          chain (elementStreams ctx address (index + 1) rest) := by
        funext pos s
        exact ih (index + 1) pos s
      rw [sequence, elementStreams, chain, hrest]

/-- The loop of a sequence is over after finitely many turns and offers the candidates of the
sequence. -/
theorem runs_sequence (ctx : Context) (address : Address) (body : List Node) (pos : Nat)
    (s : State) :
    Runs (sequenceTurn (elementStreams ctx address 0 body)) (.arrived pos []) s
      (sequence ctx address 0 body pos s) := by
  have hempty : ∀ s, Runs (sequenceTurn (elementStreams ctx address 0 body)) (.asking []) s
      (.exhausted s) := fun s => .over rfl
  have hall : (elementStreams ctx address 0 body).drop ([] : List Stream).length =
      elementStreams ctx address 0 body := rfl
  have hruns := runs_arrived hall hempty pos s
  rwa [Candidates.orElse_exhausted, ← sequence_eq_chain] at hruns

end Sequence

end RegexTrace.Search
