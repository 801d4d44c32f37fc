import RegexTrace.Proofs.Congruence
import RegexTrace.Proofs.Positions

/-!
# The effort of a search

A tree and the length of the subject bound how many candidates a node offers at a position and how
many node entries are made for them, whatever the subject holds and whatever the options are. So
every search is over after so many node entries.

## Implementation notes

A stream is bounded wherever its consumer resumes it, so the entries that the consumer makes in the
meantime do not count for the stream: what is left of the effort is counted from the state in which
it is resumed. The candidates are kept within the subject along the way, since a lookbehind tries
every start before its position.
-/

namespace RegexTrace

/-- How many candidates are offered at most, and how many node entries are made at most. -/
structure Effort where
  offers : Nat
  entries : Nat
  deriving DecidableEq, Repr

namespace Effort

/-- The effort of one stream and then another. -/
def orElse (e later : Effort) : Effort := ⟨e.offers + later.offers, e.entries + later.entries⟩

/-- The effort of going on from each candidate. -/
def andThen (e next : Effort) : Effort :=
  ⟨e.offers * next.offers, e.entries + e.offers * next.entries⟩

/-- The effort with the entry of the node itself. -/
def entered (e : Effort) : Effort := ⟨e.offers, e.entries + 1⟩

/-- The effort of at most so many rounds, with stopping after each of them. -/
def rounds (e : Effort) : Nat → Effort
  | 0 => ⟨0, 0⟩
  | n + 1 => (e.andThen (e.rounds n)).orElse ⟨1, 0⟩

/-- The effort of a group: of its body at the position of the group, or at every position before for
one more candidate. -/
def group (size : Nat) (e : Effort) : Effort := ⟨e.offers + 1, (size + 1) * e.entries⟩

end Effort

namespace Node

open Search

mutual

/-- The effort of a node in a subject of so many units. -/
def effort (size : Nat) : Node → Effort
  | .alternative body => (sequenceEffort size body).entered
  | .disjunction branches => (choiceEffort size branches).entered
  | .group _ body _ _ => ((sequenceEffort size body).group size).entered
  | .quantifier min max _ body _ =>
    match Bounds.ofInts? min max with
    | none => ⟨0, 0⟩
    | some bounds => ((effort size body).rounds (bounds.min + size + 2)).entered
  | .anchor _ | .value _ | .dot | .escape _ | .charClass _ _ | .unsupported _ _ => ⟨1, 1⟩
  | .range _ _ | .alien | .absent => ⟨0, 0⟩

/-- The effort of elements one after the other. -/
def sequenceEffort (size : Nat) : List Node → Effort
  | [] => ⟨1, 0⟩
  | node :: rest => (effort size node).andThen (sequenceEffort size rest)

/-- The effort of branches one after the other. -/
def choiceEffort (size : Nat) : List Node → Effort
  | [] => ⟨0, 0⟩
  | node :: rest => (effort size node).orElse (choiceEffort size rest)

end

end Node

namespace Search

/-- A stream that is begun after `begun` node entries makes no more than its effort from there on,
and all its candidates end between two positions, in whatever states it is resumed. -/
inductive Candidates.Bounded (low high : Nat) : Effort → Nat → Candidates → Prop
  | exhausted {e : Effort} {begun : Nat} {s : State} (h : s.entries ≤ begun + e.entries) :
      Bounded low high e begun (.exhausted s)
  | offer {left : Effort} {made begun stop : Nat} {s : State} {resume : Stream}
      (hlow : low ≤ stop) (hhigh : stop ≤ high) (h : s.entries ≤ begun + made)
      (hresume : ∀ s', Bounded low high left s'.entries (resume s')) :
      Bounded low high ⟨left.offers + 1, made + left.entries⟩ begun (.offer stop s resume)
  | aborted {e : Effort} {begun : Nat} {failure : Failure} {s : State}
      (h : s.entries ≤ begun + e.entries) : Bounded low high e begun (.aborted failure s)

/-- A search for one candidate that makes no more than so many node entries. -/
def Candidates.First.Bounded (limit : Nat) : Candidates.First → Prop
  | .accepted _ s | .none s | .aborted _ s => s.entries ≤ limit

theorem Candidates.First.Bounded.weaken {limit limit' : Nat} {found : Candidates.First}
    (h : found.Bounded limit) (hle : limit ≤ limit') : found.Bounded limit' := by
  cases found <;> exact Nat.le_trans h hle

/-- A stream that has not begun is bounded from every state. -/
def BoundedFrom (low high : Nat) (e : Effort) (f : Stream) : Prop :=
  ∀ s, (f s).Bounded low high e s.entries

namespace Candidates.Bounded

variable {low high : Nat} {e e' : Effort} {begun begun' : Nat} {cs : Candidates}

/-- More effort may be allowed, and less may be counted. -/
theorem weaken {low' : Nat} (h : cs.Bounded low high e begun) (hlow : low' ≤ low)
    (hoffers : e.offers ≤ e'.offers) (hentries : e.entries ≤ e'.entries)
    (hend : begun + e.entries ≤ begun' + e'.entries) : cs.Bounded low' high e' begun' := by
  induction h generalizing e' begun' with
  | exhausted hs => exact .exhausted (Nat.le_trans hs hend)
  | aborted hs => exact .aborted (Nat.le_trans hs hend)
  | @offer left made begun stop s resume hstop hhigh hs _ ih =>
      obtain ⟨offers, entries⟩ := e'
      simp only at hoffers hentries hend
      have hsplit : (⟨offers, entries⟩ : Effort) =
          ⟨offers - 1 + 1, (entries - left.entries) + left.entries⟩ := by
        congr 1 <;> omega
      rw [hsplit]
      refine @Bounded.offer _ _ ⟨offers - 1, left.entries⟩ _ _ _ _ _ (Nat.le_trans hlow hstop)
        hhigh (by omega) fun s' => ?_
      exact ih s' (by simp only; omega) (Nat.le_refl _) (Nat.le_refl _)

theorem orElse {next : Stream} (h : cs.Bounded low high e begun)
    (hnext : BoundedFrom low high e' next) :
    (cs.orElse next).Bounded low high (e.orElse e') begun := by
  induction h with
  | @exhausted e begun s hs =>
      apply (hnext s).weaken (Nat.le_refl low) <;> simp only [Effort.orElse] <;> omega
  | aborted hs =>
      apply Bounded.aborted
      simp only [Effort.orElse]
      omega
  | @offer left made begun stop s resume hstop hhigh hs _ ih =>
      have hsplit : Effort.orElse ⟨left.offers + 1, made + left.entries⟩ e' =
          ⟨(left.orElse e').offers + 1, made + (left.orElse e').entries⟩ := by
        simp only [Effort.orElse, Effort.mk.injEq]
        omega
      rw [hsplit]
      exact .offer hstop hhigh hs ih

theorem andThen {next : Nat → Stream} (h : cs.Bounded low high e begun)
    (hnext : ∀ stop, low ≤ stop → stop ≤ high → BoundedFrom stop high e' (next stop)) :
    (cs.andThen next).Bounded low high (e.andThen e') begun := by
  induction h with
  | @exhausted e begun s hs =>
      apply Bounded.exhausted
      simp only [Effort.andThen]
      omega
  | @aborted e begun failure s hs =>
      apply Bounded.aborted
      simp only [Effort.andThen]
      omega
  | @offer left made begun stop s resume hstop hhigh hs _ ih =>
      have hhere : (next stop s).Bounded low high e' s.entries :=
        (hnext stop hstop hhigh s).weaken hstop (Nat.le_refl _) (Nat.le_refl _) (Nat.le_refl _)
      apply (hhere.orElse ih).weaken (Nat.le_refl low) <;>
        simp only [Effort.andThen, Effort.orElse, Nat.add_mul, Nat.one_mul] <;> omega

/-- A search for one candidate resumes the stream where it stands. -/
theorem first (h : cs.Bounded low high e begun) (accept : Nat → Bool) :
    (cs.first accept).Bounded (begun + e.entries) := by
  induction h with
  | exhausted hs => exact hs
  | aborted hs => exact hs
  | @offer left made begun stop s resume _ _ hs _ ih =>
      rw [Candidates.first]
      split
      · exact (by omega : s.entries ≤ begun + (made + left.entries))
      · apply (ih s).weaken
        dsimp only
        omega

end Candidates.Bounded

/-- All candidates of a stream end between two positions, in whatever states it is resumed. -/
inductive Candidates.Within (low high : Nat) : Candidates → Prop
  | exhausted (s : State) : Within low high (.exhausted s)
  | offer {stop : Nat} {s : State} {resume : Stream} (hlow : low ≤ stop) (hhigh : stop ≤ high)
      (hresume : ∀ s', Within low high (resume s')) : Within low high (.offer stop s resume)
  | aborted (failure : Failure) (s : State) : Within low high (.aborted failure s)

theorem Candidates.Within.weaken {low low' high : Nat} {cs : Candidates}
    (h : cs.Within low high) (hlow : low' ≤ low) : cs.Within low' high := by
  induction h with
  | exhausted s => exact .exhausted s
  | offer hstop hhigh _ ih => exact .offer (Nat.le_trans hlow hstop) hhigh ih
  | aborted failure s => exact .aborted failure s

theorem Candidates.Bounded.within {low high : Nat} {e : Effort} {begun : Nat} {cs : Candidates}
    (h : cs.Bounded low high e begun) : cs.Within low high := by
  induction h with
  | exhausted _ => exact .exhausted _
  | offer hlow hhigh _ _ ih => exact .offer hlow hhigh ih
  | aborted _ => exact .aborted _ _

section Streams

variable {low high : Nat} {e : Effort} {ctx : Context}

theorem exhausted_bounded : BoundedFrom low high e .exhausted :=
  fun _ => .exhausted (Nat.le_add_right _ _)

theorem offerOnce_bounded {stop : Nat} (hlow : low ≤ stop) (hhigh : stop ≤ high) :
    BoundedFrom low high ⟨1, 0⟩ (offerOnce stop) := by
  intro s
  exact @Candidates.Bounded.offer _ _ ⟨0, 0⟩ 0 _ _ _ _ hlow hhigh (Nat.le_refl _)
    exhausted_bounded

theorem offerIf_bounded (condition : Bool) {stop : Nat} (hlow : low ≤ stop) (hhigh : stop ≤ high) :
    BoundedFrom low high ⟨1, 0⟩ (offerIf condition stop) := by
  cases condition with
  | true => exact offerOnce_bounded hlow hhigh
  | false => exact exhausted_bounded

theorem leave_bounded (checkpoint : Nat) : BoundedFrom low high ⟨0, 0⟩ (leave checkpoint) := by
  intro s
  unfold leave
  split
  · exact .exhausted (Nat.le_refl s.entries)
  · exact .aborted (Nat.le_refl s.entries)

/-- A visit makes one entry more than its inside. -/
theorem visit_bounded (o : Occurrence) (pos : Nat) {inside : Stream}
    (h : BoundedFrom low high e inside) :
    BoundedFrom low high e.entered fun s => visit ctx o pos s inside := by
  intro s
  have hentered : ∀ entered : State, entered.entries = s.entries + 1 →
      ((inside entered).orElse (leave s.trace.length)).Bounded low high e.entered s.entries := by
    intro entered hcount
    apply ((h entered).orElse (leave_bounded s.trace.length)).weaken (Nat.le_refl low) <;>
      simp only [Effort.orElse, Effort.entered] <;> omega
  unfold visit enter
  cases ctx.options.maxSteps with
  | none => exact hentered _ rfl
  | some limit =>
      by_cases hlimit : limit < s.entries + 1
      · simp only [if_pos hlimit]
        apply Candidates.Bounded.aborted
        simp only [Effort.entered]
        omega
      · simp only [if_neg hlimit]
        exact hentered _ rfl

/-- A leaf stays within the subject. -/
theorem leafInside_bounded (closed : Utf16.Closed ctx.units) (node : Node) (pos : Nat) :
    BoundedFrom pos ctx.units.size ⟨1, 0⟩ (leafInside ctx node pos) := by
  unfold leafInside
  cases hc : Utf16.codePointAt? ctx.units pos with
  | none => exact exhausted_bounded
  | some c =>
      simp only
      cases Leaf.accepts ctx.options.rules node c with
      | ok accepted =>
          exact offerIf_bounded accepted (Nat.le_add_right pos _)
            (Utf16.width_le_of_codePointAt? closed hc)
      | error cause => exact fun s => .aborted (Nat.le_add_right _ _)

section Rounds

variable {bounds : Bounds} {round : Nat → Stream}
  (hround : ∀ pos ≤ high, BoundedFrom pos high e (round pos))

include hround

/-- One more round, which beyond the minimum is dropped if it ends where it began. -/
theorem again_bounded {e' : Effort} {next : Nat → Stream} (count : Nat) {here : Nat}
    (hhere : here ≤ high) (hnext : ∀ stop ≤ high, BoundedFrom stop high e' (next stop)) :
    BoundedFrom here high (e.andThen e') fun s => (round here s).andThen fun stop s' =>
      if bounds.min ≤ count ∧ stop = here then .exhausted s' else next stop s' := by
  intro s
  apply (hround here hhere s).andThen
  intro stop _ hstop s'
  split
  · exact exhausted_bounded s'
  · exact hnext stop hstop s'

theorem repeatMany_bounded {limit fuel : Nat} (hfuel : fuel ≤ limit) (earlier : List Nat)
    {here : Nat} (hhere : here ≤ high) :
    BoundedFrom here high (e.rounds limit) (repeatMany bounds round fuel earlier here) := by
  induction limit generalizing fuel earlier here with
  | zero =>
      obtain rfl := Nat.le_zero.mp hfuel
      exact exhausted_bounded
  | succ limit ih =>
      cases fuel with
      | zero => exact exhausted_bounded
      | succ fuel =>
          intro s
          have hlast := offerOnce_bounded (Nat.le_refl here) hhere s
          have hnext : ∀ stop ≤ high, BoundedFrom stop high (e.rounds limit)
              (repeatMany bounds round fuel (here :: earlier) stop) :=
            fun stop hstop => ih (Nat.le_of_succ_le_succ hfuel) (here :: earlier) hstop
          rw [repeatMany]
          split
          · apply hlast.weaken (Nat.le_refl here) <;>
              simp only [Effort.rounds, Effort.orElse, Effort.andThen] <;> omega
          · exact (again_bounded hround earlier.length hhere hnext s).orElse
              (offerIf_bounded _ (Nat.le_refl here) hhere)

theorem repeatFew_bounded {limit fuel : Nat} (hfuel : fuel ≤ limit) (earlier : List Nat)
    {here : Nat} (hhere : here ≤ high) :
    BoundedFrom here high (e.rounds limit) (repeatFew bounds round fuel earlier here) := by
  induction limit generalizing fuel earlier here with
  | zero =>
      obtain rfl := Nat.le_zero.mp hfuel
      exact exhausted_bounded
  | succ limit ih =>
      cases fuel with
      | zero => exact exhausted_bounded
      | succ fuel =>
          intro s
          have hstop := offerIf_bounded (bounds.min ≤ earlier.length) (Nat.le_refl here) hhere s
          have hnext : ∀ stop ≤ high, BoundedFrom stop high (e.rounds limit)
              (repeatFew bounds round fuel (here :: earlier) stop) :=
            fun stop hstop => ih (Nat.le_of_succ_le_succ hfuel) (here :: earlier) hstop
          have hon : BoundedFrom here high (e.andThen (e.rounds limit)) fun s =>
              if bounds.reached earlier.length then .exhausted s
              else (round here s).andThen fun stop s' =>
                if bounds.min ≤ earlier.length ∧ stop = here then .exhausted s'
                else repeatFew bounds round fuel (here :: earlier) stop s' := by
            intro s
            split
            · exact exhausted_bounded s
            · exact again_bounded hround earlier.length hhere hnext s
          rw [repeatFew]
          apply (hstop.orElse hon).weaken (Nat.le_refl here) <;>
            simp only [Effort.rounds, Effort.orElse] <;> omega

end Rounds

section Assertion

variable {body : Nat → Stream} {pos : Nat}
  (hbody : ∀ start ≤ high, BoundedFrom start high e (body start))

include hbody

/-- Each start of a lookbehind is tried once. -/
theorem firstBehind_bounded {starts : List Nat} (hstarts : ∀ start ∈ starts, start ≤ high)
    (s : State) :
    (firstBehind body pos starts s).Bounded (s.entries + starts.length * e.entries) := by
  induction starts generalizing s with
  | nil => exact Nat.le_add_right _ _
  | cons start rest ih =>
      obtain ⟨hstart, hrest⟩ := List.forall_mem_cons.mp hstarts
      have hfirst := (hbody start hstart s).first (· == pos)
      rw [firstBehind, List.length_cons, Nat.add_mul, Nat.one_mul]
      generalize (body start s).first (· == pos) = found at hfirst
      cases found with
      | accepted stop s' =>
          simp only [Candidates.First.Bounded] at hfirst ⊢
          omega
      | aborted failure s' =>
          simp only [Candidates.First.Bounded] at hfirst ⊢
          omega
      | none s' =>
          simp only [Candidates.First.Bounded] at hfirst
          exact (ih hrest s').weaken (by omega)

/-- An assertion tries its body from one start, or from each start up to its position. -/
theorem assertInside_bounded (behind negative : Bool) (hpos : pos ≤ high) :
    BoundedFrom pos high (e.group high) (assertInside behind negative body pos) := by
  intro s
  have hfinding : (if behind then firstBehind body pos (List.range (pos + 1)) s
      else (body pos s).first fun _ => true).Bounded (s.entries + (high + 1) * e.entries) := by
    have hstarts : ∀ start ∈ List.range (pos + 1), start ≤ high := fun start hstart =>
      Nat.le_trans (Nat.le_of_lt_succ (List.mem_range.mp hstart)) hpos
    cases behind with
    | true =>
        have hle : (List.range (pos + 1)).length * e.entries ≤ (high + 1) * e.entries := by
          rw [List.length_range]
          exact Nat.mul_le_mul_right _ (Nat.succ_le_succ hpos)
        exact (firstBehind_bounded hbody hstarts s).weaken (Nat.add_le_add_left hle _)
    | false =>
        have hle : e.entries ≤ (high + 1) * e.entries :=
          Nat.le_mul_of_pos_left _ (Nat.succ_pos high)
        exact ((hbody pos hpos s).first fun _ => true).weaken (Nat.add_le_add_left hle _)
  have hanswer : ∀ (condition : Bool) (s' : State),
      s'.entries ≤ s.entries + (high + 1) * e.entries →
      (offerIf condition pos s').Bounded pos high (e.group high) s.entries := by
    intro condition s' hs'
    apply (offerIf_bounded condition (Nat.le_refl pos) hpos s').weaken (Nat.le_refl pos) <;>
      simp only [Effort.group] <;> omega
  unfold assertInside
  dsimp only
  generalize (if behind then firstBehind body pos (List.range (pos + 1)) s
    else (body pos s).first fun _ => true) = found at hfinding
  cases found with
  | accepted stop s' => exact hanswer _ s' hfinding
  | none s' => exact hanswer _ s' hfinding
  | aborted failure s' => exact .aborted hfinding

end Assertion

/-- A group goes through its body, or asserts it. -/
theorem group_bounded {body : Nat → Stream}
    (hbody : ∀ start ≤ high, BoundedFrom start high e (body start)) (behaviour : Behaviour)
    (mode : LookaroundMode) {pos : Nat} (hpos : pos ≤ high) :
    BoundedFrom pos high (e.group high)
      (match behaviour, mode with
        | .look behind negative, .assert => assertInside behind negative body pos
        | _, _ => body pos) := by
  have hplain : BoundedFrom pos high (e.group high) (body pos) := by
    intro s
    have hle : e.entries ≤ (high + 1) * e.entries := Nat.le_mul_of_pos_left _ (Nat.succ_pos high)
    apply (hbody pos hpos s).weaken (Nat.le_refl pos) <;> simp only [Effort.group] <;> omega
  cases mode with
  | consume => cases behaviour <;> exact hplain
  | assert =>
      cases behaviour with
      | look behind negative => exact assertInside_bounded hbody behind negative hpos
      | _ => exact hplain

mutual

/-- The stream of a node keeps to the effort of the node. -/
theorem candidates_bounded (closed : Utf16.Closed ctx.units) (address : Address) :
    ∀ (node : Node) (pos : Nat), pos ≤ ctx.units.size →
      BoundedFrom pos ctx.units.size (node.effort ctx.units.size) (candidates ctx address node pos)
  | .anchor kind, pos, hpos => by
      rw [Node.effort]
      exact visit_bounded _ pos (offerIf_bounded _ (Nat.le_refl pos) hpos)
  | .value c, pos, hpos => by
      rw [Node.effort]
      exact visit_bounded _ pos (leafInside_bounded closed _ pos)
  | .dot, pos, hpos => by
      rw [Node.effort]
      exact visit_bounded _ pos (leafInside_bounded closed _ pos)
  | .escape kind, pos, hpos => by
      rw [Node.effort]
      exact visit_bounded _ pos (leafInside_bounded closed _ pos)
  | .charClass negative items, pos, hpos => by
      rw [Node.effort]
      exact visit_bounded _ pos (leafInside_bounded closed _ pos)
  | .unsupported kind raw, pos, hpos => by
      rw [Node.effort]
      exact visit_bounded (e := ⟨1, 0⟩) _ pos exhausted_bounded
  | .alternative body, pos, hpos => by
      rw [Node.effort]
      exact visit_bounded _ pos (sequence_bounded closed address 0 body pos hpos)
  | .disjunction branches, pos, hpos => by
      rw [Node.effort]
      exact visit_bounded _ pos (choice_bounded closed address 0 branches pos hpos)
  | .group behaviour body name number, pos, hpos => by
      rw [Node.effort]
      exact visit_bounded _ pos (group_bounded
        (fun start hstart => sequence_bounded closed address 0 body start hstart) behaviour _ hpos)
  | .quantifier min max greedy body shorthand, pos, hpos => by
      intro s
      rw [Node.effort, candidates]
      cases Bounds.ofInts? min max with
      | none => exact .exhausted (Nat.le_add_right _ _)
      | some bounds =>
          have hfuel : roundLimit ctx bounds pos ≤ bounds.min + ctx.units.size + 2 := by
            unfold roundLimit
            omega
          have hround : ∀ start ≤ ctx.units.size, BoundedFrom start ctx.units.size
              (body.effort ctx.units.size) (candidates ctx (address ++ [.repeated]) body start) :=
            fun start hstart => candidates_bounded closed _ body start hstart
          refine visit_bounded _ pos ?_ s
          cases ctx.options.honorLazy && !greedy with
          | true => exact repeatFew_bounded hround hfuel [] hpos
          | false => exact repeatMany_bounded hround hfuel [] hpos
  | .range min max, pos, hpos => fun s => .aborted (Nat.le_add_right _ _)
  | .alien, pos, hpos => fun s => .aborted (Nat.le_add_right _ _)
  | .absent, pos, hpos => fun s => .aborted (Nat.le_add_right _ _)

theorem sequence_bounded (closed : Utf16.Closed ctx.units) (address : Address) (index : Nat) :
    ∀ (body : List Node) (pos : Nat), pos ≤ ctx.units.size →
      BoundedFrom pos ctx.units.size (Node.sequenceEffort ctx.units.size body)
        (sequence ctx address index body pos)
  | [], pos, hpos => offerOnce_bounded (Nat.le_refl pos) hpos
  | node :: rest, pos, hpos => by
      rw [Node.sequenceEffort]
      intro s
      apply (candidates_bounded closed _ node pos hpos s).andThen
      exact fun stop _ hstop => sequence_bounded closed address (index + 1) rest stop hstop

theorem choice_bounded (closed : Utf16.Closed ctx.units) (address : Address) (index : Nat) :
    ∀ (branches : List Node) (pos : Nat), pos ≤ ctx.units.size →
      BoundedFrom pos ctx.units.size (Node.choiceEffort ctx.units.size branches)
        (choice ctx address index branches pos)
  | [], pos, hpos => exhausted_bounded
  | node :: rest, pos, hpos => by
      rw [Node.choiceEffort]
      intro s
      apply (candidates_bounded closed _ node pos hpos s).orElse
      exact choice_bounded closed address (index + 1) rest pos hpos

end

/-- The candidates of a node stay between its position and the end of the subject. -/
theorem candidates_within (closed : Utf16.Closed ctx.units) (address : Address) (node : Node)
    {pos : Nat} (hpos : pos ≤ ctx.units.size) (s : State) :
    (candidates ctx address node pos s).Within pos ctx.units.size :=
  (candidates_bounded closed address node pos hpos s).within

/-- The stream of a whole pattern keeps to the effort of its root. -/
theorem rootCandidates_bounded (closed : Utf16.Closed ctx.units) (root : Node) {pos : Nat}
    (hpos : pos ≤ ctx.units.size) :
    BoundedFrom pos ctx.units.size (root.effort ctx.units.size) (rootCandidates ctx root pos) := by
  cases root with
  | alternative body =>
      rw [Node.effort]
      intro s
      apply (sequence_bounded closed [] 0 body pos hpos s).weaken (Nat.le_refl pos) <;>
        simp only [Effort.entered] <;> omega
  | disjunction branches =>
      rw [Node.effort]
      intro s
      apply (choice_bounded closed [] 0 branches pos hpos s).weaken (Nat.le_refl pos) <;>
        simp only [Effort.entered] <;> omega
  | _ => exact candidates_bounded closed [] _ pos hpos

/-- Each start is tried at most once. -/
theorem entries_scanFrom_le (closed : Utf16.Closed ctx.units) (root : Node) {starts : List Nat}
    (hstarts : ∀ start ∈ starts, start ≤ ctx.units.size) (s : State) :
    (scanFrom ctx root starts s).entries ≤
      s.entries + starts.length * (root.effort ctx.units.size).entries := by
  induction starts generalizing s with
  | nil => exact Nat.le_add_right _ _
  | cons start rest ih =>
      obtain ⟨hstart, hrest⟩ := List.forall_mem_cons.mp hstarts
      have hbounded := rootCandidates_bounded closed root hstart
        { s with trace := Trace.append {} start .start }
      rw [scanFrom, List.length_cons, Nat.add_mul, Nat.one_mul]
      generalize rootCandidates ctx root start _ = cs at hbounded
      generalize root.effort ctx.units.size = e at hbounded ih ⊢
      cases hbounded with
      | @exhausted _ _ s' hs' =>
          have hlater := ih hrest s'
          simp only at hs' ⊢
          omega
      | @offer left made _ stop s' resume _ _ hs' _ =>
          simp only [Report.found] at hs' ⊢
          omega
      | aborted hs' =>
          simp only at hs' ⊢
          omega

end Streams

end Search

end RegexTrace
