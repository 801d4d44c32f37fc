import RegexTrace.Search.Scan

/-!
# What holds of every stream of a tree

The streams of a tree are built from a few operations. A relation between the streams of two
searches that each of these operations keeps therefore holds of the streams of every node, and it is
enough to look at the operations one by one. The two searches have the same subject and the same
options, but each has a budget of its own.

## Implementation notes

An assertion leaves the steps of its body behind, and only the visit of its group takes them back.
So there are two relations, one for streams that stand alone and a weaker one for what stands inside
of a visit. A property of the streams of one search is a relation that looks at the first stream
only.
-/

namespace RegexTrace.Search

/-- A stream that has not begun: the candidates from each state in which it may be begun. -/
abbrev Stream := State → Candidates

namespace Candidates

/-- What follows from the first acceptable candidate of a stream, or from there being none. -/
def probe (accept : Nat → Bool) (found missing : Stream) (cs : Candidates) : Candidates :=
  match cs.first accept with
  | .accepted _ s => found s
  | .none s => missing s
  | .aborted failure s => .aborted failure s

/-- An acceptable candidate ends the search for one, any other one is given back. -/
theorem probe_offer (accept : Nat → Bool) (found missing : Stream) (stop : Nat) (s : State)
    (resume : Stream) :
    probe accept found missing (.offer stop s resume) =
      if accept stop then found s else (resume s).probe accept found missing := by
  rw [probe, first]
  cases accept stop <;> rfl

end Candidates

/-- The starts of a lookbehind, each of them probed for a candidate that ends at `pos`. -/
def probeBehind (body : Nat → Stream) (pos : Nat) (found missing : Stream) : List Nat → Stream
  | [], s => missing s
  | start :: rest, s =>
    (body start s).probe (· == pos) found (probeBehind body pos found missing rest)

/-- What follows from the first start behind a position follows from probing the starts. -/
theorem probeBehind_eq (body : Nat → Stream) (pos : Nat) (found missing : Stream)
    (starts : List Nat) (s : State) :
    probeBehind body pos found missing starts s =
      match firstBehind body pos starts s with
      | .accepted _ s' => found s'
      | .none s' => missing s'
      | .aborted failure s' => .aborted failure s' := by
  induction starts generalizing s with
  | nil => rfl
  | cons start rest ih =>
      rw [probeBehind, firstBehind, Candidates.probe]
      cases (body start s).first (· == pos) with
      | accepted stop s' => rfl
      | none s' => exact ih s'
      | aborted failure s' => rfl

/-- An assertion probes its body: ahead of the position, or from each start behind it. -/
theorem assertInside_eq (behind negative : Bool) (body : Nat → Stream) (pos : Nat) :
    assertInside behind negative body pos =
      if behind then
        probeBehind body pos (offerIf (!negative) pos) (offerIf negative pos)
          (List.range (pos + 1))
      else fun s =>
        (body pos s).probe (fun _ => true) (offerIf (!negative) pos) (offerIf negative pos) := by
  funext s
  cases behind with
  | true =>
      rw [if_pos rfl, probeBehind_eq]
      rfl
  | false => rfl

/-- The same search with another budget. -/
def Context.limited (ctx : Context) (limit : Option Nat) : Context :=
  ⟨ctx.units, { ctx.options with maxSteps := limit }⟩

/-- A relation between the streams of a search under two budgets, and a weaker one for what stands
inside of a visit, that are kept by every way of building streams. -/
structure Congruence (ctx : Context) (limit limit' : Option Nat) (R W : Stream → Stream → Prop) :
    Prop where
  exhausted : R .exhausted .exhausted
  noticed (notice : Notice) :
    R (fun s => .exhausted { s with notices := s.notices.push notice })
      (fun s => .exhausted { s with notices := s.notices.push notice })
  fault (cause : Node.Fault) : R (.aborted (.fault cause)) (.aborted (.fault cause))
  offerOnce (stop : Nat) : R (offerOnce stop) (offerOnce stop)
  orElse {f f' g g' : Stream} (hf : R f f') (hg : R g g') :
    R (fun s => (f s).orElse g) (fun s => (f' s).orElse g')
  andThen {f f' : Stream} {next next' : Nat → Stream} (hf : R f f')
    (hnext : ∀ stop, R (next stop) (next' stop)) :
    R (fun s => (f s).andThen next) (fun s => (f' s).andThen next')
  inside {f f' : Stream} (hf : R f f') : W f f'
  probe {f f' found found' missing missing' : Stream} (accept : Nat → Bool) (hf : R f f')
    (hfound : R found found') (hmissing : W missing missing') :
    W (fun s => (f s).probe accept found missing) (fun s => (f' s).probe accept found' missing')
  visit {f f' : Stream} (o : Occurrence) (pos : Nat) (hf : W f f') :
    R (fun s => visit (ctx.limited limit) o pos s f)
      (fun s => visit (ctx.limited limit') o pos s f')

namespace Congruence

variable {ctx : Context} {limit limit' : Option Nat} {R W : Stream → Stream → Prop}
  (h : Congruence ctx limit limit' R W)

include h

theorem offerIf (condition : Bool) (stop : Nat) :
    R (offerIf condition stop) (offerIf condition stop) := by
  cases condition with
  | true => exact h.offerOnce stop
  | false => exact h.exhausted

theorem leafInside (node : Node) (pos : Nat) :
    R (leafInside (ctx.limited limit) node pos) (leafInside (ctx.limited limit') node pos) := by
  have hsame : Search.leafInside (ctx.limited limit') node pos =
      Search.leafInside (ctx.limited limit) node pos := rfl
  rw [hsame]
  unfold Search.leafInside
  cases Utf16.codePointAt? (ctx.limited limit).units pos with
  | none => exact h.exhausted
  | some c =>
      simp only
      cases Leaf.accepts (ctx.limited limit).options.rules node c with
      | ok accepted => exact h.offerIf accepted _
      | error cause => exact h.fault cause

theorem leaf (o : Occurrence) (node : Node) (pos : Nat) :
    R (fun s => Search.visit (ctx.limited limit) o pos s
        (Search.leafInside (ctx.limited limit) node pos))
      (fun s => Search.visit (ctx.limited limit') o pos s
        (Search.leafInside (ctx.limited limit') node pos)) :=
  h.visit o pos (h.inside (h.leafInside node pos))

section Rounds

variable {bounds : Bounds} {round round' : Nat → Stream}
  (hround : ∀ pos, R (round pos) (round' pos))

include hround

/-- One more round, which beyond the minimum is dropped if it ends where it began. -/
theorem again {next next' : Nat → Stream} (count here : Nat)
    (hnext : ∀ stop, R (next stop) (next' stop)) :
    R (fun s => (round here s).andThen fun stop s' =>
        if bounds.min ≤ count ∧ stop = here then .exhausted s' else next stop s')
      (fun s => (round' here s).andThen fun stop s' =>
        if bounds.min ≤ count ∧ stop = here then .exhausted s' else next' stop s') := by
  refine h.andThen (hround here) fun stop => ?_
  split
  · exact h.exhausted
  · exact hnext stop

/-- The rounds of a repetition with many rounds first, by the number of rounds still allowed. -/
theorem repeatMany (fuel : Nat) (earlier : List Nat) (here : Nat) :
    R (Search.repeatMany bounds round fuel earlier here)
      (Search.repeatMany bounds round' fuel earlier here) := by
  induction fuel generalizing earlier here with
  | zero => exact h.exhausted
  | succ fuel ih =>
      simp only [Search.repeatMany]
      split
      · exact h.offerOnce here
      · apply h.orElse
        · exact h.again hround earlier.length here fun stop => ih (here :: earlier) stop
        · exact h.offerIf _ here

theorem repeatFew (fuel : Nat) (earlier : List Nat) (here : Nat) :
    R (Search.repeatFew bounds round fuel earlier here)
      (Search.repeatFew bounds round' fuel earlier here) := by
  induction fuel generalizing earlier here with
  | zero => exact h.exhausted
  | succ fuel ih =>
      simp only [Search.repeatFew]
      apply h.orElse
      · exact h.offerIf _ here
      · split
        · exact h.exhausted
        · exact h.again hround earlier.length here fun stop => ih (here :: earlier) stop

end Rounds

section Assertion

variable {body body' : Nat → Stream} (hbody : ∀ pos, R (body pos) (body' pos))

include hbody

theorem probeBehind {found found' missing missing' : Stream} (pos : Nat) (hfound : R found found')
    (hmissing : W missing missing') (starts : List Nat) :
    W (Search.probeBehind body pos found missing starts)
      (Search.probeBehind body' pos found' missing' starts) := by
  induction starts with
  | nil => exact hmissing
  | cons start rest ih => exact h.probe (· == pos) (hbody start) hfound ih

theorem assertInside (behind negative : Bool) (pos : Nat) :
    W (Search.assertInside behind negative body pos)
      (Search.assertInside behind negative body' pos) := by
  have hfound := h.offerIf (!negative) pos
  have hmissing := h.inside (h.offerIf negative pos)
  rw [assertInside_eq, assertInside_eq]
  cases behind with
  | true => exact h.probeBehind hbody pos hfound hmissing _
  | false => exact h.probe (fun _ => true) (hbody pos) hfound hmissing

end Assertion

/-- A group with related streams of its body is visited alike. -/
theorem group (o : Occurrence) (behaviour : Behaviour) {body body' : Nat → Stream}
    (hbody : ∀ pos, R (body pos) (body' pos)) (pos : Nat) :
    R (fun s => Search.visit (ctx.limited limit) o pos s
        (match behaviour, ctx.options.lookaround with
          | .look behind negative, .assert => Search.assertInside behind negative body pos
          | _, _ => body pos))
      (fun s => Search.visit (ctx.limited limit') o pos s
        (match behaviour, ctx.options.lookaround with
          | .look behind negative, .assert => Search.assertInside behind negative body' pos
          | _, _ => body' pos)) := by
  apply h.visit
  generalize ctx.options.lookaround = mode
  cases mode with
  | consume => cases behaviour <;> exact h.inside (hbody pos)
  | assert =>
      cases behaviour with
      | look behind negative => exact h.assertInside hbody behind negative pos
      | _ => exact h.inside (hbody pos)

/-- A repetition with related streams of its body is offered alike. -/
theorem quantifier (o : Occurrence) (min : Int) (max : Option Int) (few : Bool)
    {body body' : Nat → Stream} (hbody : ∀ pos, R (body pos) (body' pos)) (pos : Nat) :
    R (fun s =>
        match Bounds.ofInts? min max with
        | none => .exhausted { s with notices := s.notices.push (.malformedQuantifier min max) }
        | some bounds =>
          Search.visit (ctx.limited limit) o pos s
            ((if few then Search.repeatFew else Search.repeatMany) bounds body
              (roundLimit ctx bounds pos) [] pos))
      (fun s =>
        match Bounds.ofInts? min max with
        | none => .exhausted { s with notices := s.notices.push (.malformedQuantifier min max) }
        | some bounds =>
          Search.visit (ctx.limited limit') o pos s
            ((if few then Search.repeatFew else Search.repeatMany) bounds body'
              (roundLimit ctx bounds pos) [] pos)) := by
  cases Bounds.ofInts? min max with
  | none => exact h.noticed _
  | some bounds =>
      apply h.visit
      apply h.inside
      cases few with
      | true => exact h.repeatFew hbody _ [] pos
      | false => exact h.repeatMany hbody _ [] pos

mutual

/-- The streams of a node are related. -/
theorem candidates (address : Address) : ∀ (node : Node) (pos : Nat),
    R (candidates (ctx.limited limit) address node pos)
      (candidates (ctx.limited limit') address node pos)
  | .anchor kind, pos => h.visit _ pos (h.inside (h.offerIf (anchorHolds ctx kind pos) pos))
  | .value c, pos => h.leaf _ (.value c) pos
  | .dot, pos => h.leaf _ .dot pos
  | .escape kind, pos => h.leaf _ (.escape kind) pos
  | .charClass negative items, pos => h.leaf _ (.charClass negative items) pos
  | .unsupported _ _, pos => h.visit _ pos (h.inside h.exhausted)
  | .alternative body, pos => h.visit _ pos (h.inside (sequence address 0 body pos))
  | .disjunction branches, pos => h.visit _ pos (h.inside (choice address 0 branches pos))
  | .group behaviour body name number, pos =>
    h.group ⟨address, .group behaviour body name number⟩ behaviour (sequence address 0 body) pos
  | .quantifier min max greedy body shorthand, pos =>
    h.quantifier ⟨address, .quantifier min max greedy body shorthand⟩ min max
      (ctx.options.honorLazy && !greedy) (candidates (address ++ [Move.repeated]) body) pos
  | .range _ _, _ => h.fault _
  | .alien, _ => h.fault _
  | .absent, _ => h.fault _

theorem sequence (address : Address) (index : Nat) : ∀ (body : List Node) (pos : Nat),
    R (sequence (ctx.limited limit) address index body pos)
      (sequence (ctx.limited limit') address index body pos)
  | [], pos => h.offerOnce pos
  | node :: rest, pos =>
    h.andThen (candidates (address ++ [.element index]) node pos)
      (sequence address (index + 1) rest)

theorem choice (address : Address) (index : Nat) : ∀ (branches : List Node) (pos : Nat),
    R (choice (ctx.limited limit) address index branches pos)
      (choice (ctx.limited limit') address index branches pos)
  | [], _ => h.exhausted
  | node :: rest, pos =>
    h.orElse (candidates (address ++ [.branch index]) node pos)
      (choice address (index + 1) rest pos)

end

/-- The streams of a whole pattern are related. -/
theorem rootCandidates (root : Node) (pos : Nat) :
    R (rootCandidates (ctx.limited limit) root pos)
      (rootCandidates (ctx.limited limit') root pos) := by
  cases root with
  | alternative body => exact h.sequence [] 0 body pos
  | disjunction branches => exact h.choice [] 0 branches pos
  | _ => exact h.candidates [] _ pos

end Congruence

end RegexTrace.Search
