import RegexTrace.Proofs.Adequacy
import RegexTrace.Proofs.RoundStacks

/-!
# Termination

Every search is over after a number of node entries that the tree and the length of the text bound,
with a budget or without. The loops by which sequences and repetitions can be run are over as well,
and wherever a search comes to a repetition, the stack of its loop is bounded and in step with its
positions.

## Implementation notes

Which nodes a search comes to, and where, is said by the loops in whatever states they are resumed.
This is more than any one run of a search comes to, so what is said of all of it is said of every
run.
-/

namespace RegexTrace.Search

section Sequence

variable {size : Nat} {elements : List (Nat → Stream)}

/-- The loop of a sequence keeps to the subject. -/
def SequenceFrame.Inside (size : Nat) : SequenceFrame → Prop
  | .arrived here stack => here ≤ size ∧ ∀ left ∈ stack, ∀ s, (left s).Within 0 size
  | .asking stack => ∀ left ∈ stack, ∀ s, (left s).Within 0 size

/-- Where every element keeps to the subject, so does every turn. -/
theorem sequenceTurn_leaves
    (helements : ∀ element ∈ elements, ∀ pos ≤ size, ∀ s, (element pos s).Within pos size)
    (f : SequenceFrame) (s : State) (h : f.Inside size) :
    (sequenceTurn elements f s).Leaves (SequenceFrame.Inside size) fun stop _ => stop ≤ size := by
  cases f with
  | arrived here stack =>
      obtain ⟨hhere, hstack⟩ := h
      rw [sequenceTurn]
      cases hnext : elements[stack.length]? with
      | none => exact ⟨hstack, hhere⟩
      | some element =>
          refine List.forall_mem_cons.mpr ⟨fun s' => ?_, hstack⟩
          have hmem := List.mem_of_getElem? hnext
          exact (helements element hmem here hhere s').weaken (Nat.zero_le here)
  | asking stack =>
      cases stack with
      | nil => trivial
      | cons top rest =>
          obtain ⟨htop, hrest⟩ := List.forall_mem_cons.mp h
          have hnext := htop s
          rw [sequenceTurn]
          generalize top s = cs at hnext
          cases hnext with
          | exhausted s' => exact hrest
          | offer _ hhigh hresume => exact ⟨hhigh, List.forall_mem_cons.mpr ⟨hresume, hrest⟩⟩
          | aborted failure s' => trivial

variable {ctx : Context}

theorem elementStreams_within (closed : Utf16.Closed ctx.units) (address : Address) (index : Nat)
    (body : List Node) : ∀ element ∈ elementStreams ctx address index body,
      ∀ pos ≤ ctx.units.size, ∀ s, (element pos s).Within pos ctx.units.size := by
  induction body generalizing index with
  | nil => exact nofun
  | cons node rest ih =>
      refine List.forall_mem_cons.mpr ⟨fun pos hpos s => ?_, ih (index + 1)⟩
      exact candidates_within closed _ node hpos s

/-- The loop of a sequence arrives at positions of the subject only. -/
theorem arrived_le_size (closed : Utf16.Closed ctx.units) {address : Address} {body : List Node}
    {pos here : Nat} {stack : List Stream} (hpos : pos ≤ ctx.units.size)
    (h : MayHold (sequenceTurn (elementStreams ctx address 0 body)) (.arrived pos [])
      (.arrived here stack)) : here ≤ ctx.units.size :=
  (h.kept ⟨hpos, nofun⟩
    (sequenceTurn_leaves (elementStreams_within closed address 0 body)) :
      SequenceFrame.Inside ctx.units.size (.arrived here stack)).1

end Sequence

/-- The nodes that a search comes to, each with its address and the position where it is begun. The
body of a group may be begun at an earlier position, as that of a lookbehind is. -/
inductive Meets (ctx : Context) (root : Node) : Address → Node → Nat → Prop
  | root {start : Nat} (h : start ≤ ctx.units.size) : Meets ctx root [] root start
  | element {address : Address} {body : List Node} {pos here : Nat} {stack : List Stream}
      {node : Node} (h : Meets ctx root address (.alternative body) pos)
      (hframe : MayHold (sequenceTurn (elementStreams ctx address 0 body)) (.arrived pos [])
        (.arrived here stack)) (hnode : body[stack.length]? = some node) :
      Meets ctx root (address ++ [.element stack.length]) node here
  | grouped {address : Address} {behaviour : Behaviour} {body : List Node} {name : Option Text}
      {number : Option Int} {pos start here : Nat} {stack : List Stream} {node : Node}
      (h : Meets ctx root address (.group behaviour body name number) pos) (hstart : start ≤ pos)
      (hframe : MayHold (sequenceTurn (elementStreams ctx address 0 body)) (.arrived start [])
        (.arrived here stack)) (hnode : body[stack.length]? = some node) :
      Meets ctx root (address ++ [.element stack.length]) node here
  | branch {address : Address} {branches : List Node} {pos index : Nat} {node : Node}
      (h : Meets ctx root address (.disjunction branches) pos)
      (hnode : branches[index]? = some node) :
      Meets ctx root (address ++ [.branch index]) node pos
  | repeated {address : Address} {min : Int} {max : Option Int} {greedy : Bool} {body : Node}
      {shorthand : Option Shorthand} {bounds : Bounds} {pos : Nat} {f : RoundsFrame}
      (h : Meets ctx root address (.quantifier min max greedy body shorthand) pos)
      (hbounds : Bounds.ofInts? min max = some bounds)
      (hframe : MayHold (roundsTurn (ctx.options.honorLazy && !greedy) bounds
        (candidates ctx (address ++ [.repeated]) body)) (.entered pos) f)
      (hphase : f.phase = .extending) (hroom : ¬ bounds.reached f.stack.length = true) :
      Meets ctx root (address ++ [.repeated]) body (f.endAfter f.stack.length)

/-- A search comes to nodes at positions of its subject only. -/
theorem Meets.le_size {ctx : Context} (closed : Utf16.Closed ctx.units) {root node : Node}
    {address : Address} {pos : Nat} (h : Meets ctx root address node pos) :
    pos ≤ ctx.units.size := by
  induction h with
  | root hstart => exact hstart
  | element _ hframe _ ih => exact arrived_le_size closed ih hframe
  | grouped _ hstart hframe _ ih =>
      exact arrived_le_size closed (Nat.le_trans hstart ih) hframe
  | branch _ _ ih => exact ih
  | @repeated address min max greedy body shorthand bounds pos f _ _ hframe hphase _ ih =>
      have hloop : BoundedLoop (ctx.options.honorLazy && !greedy) bounds
          (candidates ctx (address ++ [.repeated]) body) pos ctx.units.size :=
        boundedLoop (fun _ hstart s => candidates_within closed _ body hstart s) ih _
      have hcompleted : f.completed = f.stack.length := by
        rw [RoundsFrame.completed, hphase]
      obtain ⟨here, hhere, -, hle⟩ := (hloop.inStep f hframe).within f.completed (Nat.le_refl _)
      rw [hcompleted] at hhere
      rw [RoundsFrame.endAfter_of_getElem? hhere]
      exact hle

/-- The stream of a repetition is what its loop offers, inside of a visit. -/
theorem exists_inside_quantifier {ctx : Context} (closed : Utf16.Closed ctx.units)
    (address : Address) {min : Int} {max : Option Int} (greedy : Bool) (body : Node)
    (shorthand : Option Shorthand) {bounds : Bounds}
    (hbounds : Bounds.ofInts? min max = some bounds) {pos : Nat} (hpos : pos ≤ ctx.units.size) :
    ∃ inside : Stream,
      (∀ s, candidates ctx address (.quantifier min max greedy body shorthand) pos s =
        visit ctx ⟨address, .quantifier min max greedy body shorthand⟩ pos s inside) ∧
      ∀ s, Runs (roundsTurn (ctx.options.honorLazy && !greedy) bounds
        (candidates ctx (address ++ [.repeated]) body)) (.entered pos) s (inside s) := by
  have hfuel : bounds.min + (ctx.units.size - pos) < roundLimit ctx bounds pos := by
    unfold roundLimit
    omega
  refine ⟨(if ctx.options.honorLazy && !greedy then repeatFew else repeatMany) bounds
    (candidates ctx (address ++ [.repeated]) body) (roundLimit ctx bounds pos) [] pos,
    fun s => ?_, fun s => ?_⟩
  · rw [candidates, hbounds]
  · exact runs_entered _ (fun _ hstart s => candidates_within closed _ body hstart s) hpos hfuel s

/-- A search makes no more node entries than its tree and the length of its text allow. -/
theorem entries_run_le (options : Options) (root : Node) (text : Text) :
    (run options root text).entries ≤ ((Utf16.encode text).size + 1) *
      (root.effort (Utf16.encode text).size).entries := by
  unfold run
  split
  · exact Nat.zero_le _
  · have closed : Utf16.Closed (Context.mk (Utf16.encode text) options).units :=
      Utf16.closed_encode text
    have hstarts : ∀ start ∈ List.range ((Utf16.encode text).size + 1),
        start ≤ (Utf16.encode text).size :=
      fun start hstart => Nat.le_of_lt_succ (List.mem_range.mp hstart)
    have hle := entries_scanFrom_le closed root hstarts {}
    rw [List.length_range] at hle
    exact Nat.le_trans hle (Nat.le_of_eq (Nat.zero_add _))

/-- Every search is over after no more node entries than its tree and the length of its text allow,
with a budget or without, and with a trace or with the report that the budget is used up. So are the
loops of all its sequences and repetitions. Wherever it comes to a repetition, in whatever states
the streams are resumed and with many or with few rounds first, no more streams of rounds are
suspended than the minimum, the units that are left and one more, and no more than the maximum; and
the positions after the rounds that are complete are kept in step with the stack. -/
theorem search_terminates (options : Options) (root : Node) (text : Text) :
    let ctx : Context := ⟨Utf16.encode text, options⟩
    let size := ctx.units.size
    (run options root text).entries ≤ (size + 1) * (root.effort size).entries ∧
    (root.Testable options.ignoreCase → text.Valid →
      (∃ found, trace options root text = .ok found) ∨
        ∃ n, options.maxSteps = some n ∧ trace options root text = .error (.budgetExceeded n)) ∧
    (∀ address body pos s, Runs (sequenceTurn (elementStreams ctx address 0 body))
      (.arrived pos []) s (sequence ctx address 0 body pos s)) ∧
    (∀ address node pos, Meets ctx root address node pos → pos ≤ size) ∧
    ∀ address min max greedy body shorthand bounds pos, Bounds.ofInts? min max = some bounds →
      pos ≤ size →
        let few := options.honorLazy && !greedy
        let round := candidates ctx (address ++ [.repeated]) body
        (∃ inside : Stream,
          (∀ s, candidates ctx address (.quantifier min max greedy body shorthand) pos s =
            visit ctx ⟨address, .quantifier min max greedy body shorthand⟩ pos s inside) ∧
          ∀ s, Runs (roundsTurn few bounds round) (.entered pos) s (inside s)) ∧
        BoundedLoop few bounds round pos size := by
  intro ctx size
  have closed : Utf16.Closed ctx.units := Utf16.closed_encode text
  refine ⟨entries_run_le options root text, ?answer, runs_sequence ctx, ?positions, ?loops⟩
  case answer =>
      intro testable valid
      rcases trace_eq_or_cut options root text with hbacktrack | hcut
      · rw [hbacktrack]
        exact Or.inl (exists_backtrack testable valid)
      · exact Or.inr hcut
  case positions => exact fun address node pos h => h.le_size closed
  case loops =>
      intro address min max greedy body shorthand bounds pos hbounds hpos few round
      refine ⟨exists_inside_quantifier closed address greedy body shorthand hbounds hpos, ?_⟩
      exact boundedLoop (fun _ hstart s => candidates_within closed _ body hstart s) hpos few

/-- One to two rounds of a body that may match nothing: from the entry of the repetition on, the
loop completes two rounds and offers the end of the second. -/
theorem search_terminates_nullable :
    let options : Options := {}
    let body : Node := .disjunction [.value 'a'.toNat, .alternative []]
    let repetition : Node := .quantifier 1 (some 2) true body none
    let root : Node := .alternative [repetition]
    let ctx : Context := ⟨Utf16.encode "aa", options⟩
    let bounds : Bounds := ⟨1, some 2⟩
    let round := candidates ctx [.element 0, .repeated] body
    (run options root "aa").entries ≤ 3 * (root.effort 2).entries ∧
    root.Testable false ∧ Text.Valid "aa" ∧ (∃ found, trace options root "aa" = .ok found) ∧
    Meets ctx root [.element 0] repetition 0 ∧ Bounds.ofInts? 1 (some 2) = some bounds ∧
    ∃ f s next s', MayHold (roundsTurn false bounds round) (.entered 0) f ∧
      roundsTurn false bounds round f s = .offers 2 next s' ∧ f.completed = 2 ∧
      f.stack.length ≤ 2 ∧ InStep bounds round 0 2 f.stack f.ends f.completed ∧
      next.ends[next.stack.length]? = some 2 := by
  intro options body repetition root ctx bounds round
  have testable : root.Testable false := by
    simp [root, repetition, body, Node.Testable, Node.TestableAll]
  have valid : Text.Valid "aa" := by decide
  have hframe : MayHold (sequenceTurn (elementStreams ctx [] 0 [repetition])) (.arrived 0 [])
      (.arrived 0 []) := .start
  have hmeets : Meets ctx root [.element 0] repetition 0 :=
    .element (.root (Nat.zero_le _)) hframe rfl
  obtain ⟨hentries, hanswer, -, hpositions, hloops⟩ := search_terminates options root "aa"
  obtain ⟨-, hloop⟩ := hloops [.element 0] 1 (some 2) true body none bounds 0 rfl
    (hpositions _ _ _ hmeets)
  have hfound : ∃ found, trace options root "aa" = .ok found := by
    rcases hanswer testable valid with hfound | ⟨n, hn, -⟩
    · exact hfound
    · cases hn
  have hextending : MayHold (roundsTurn false bounds round) (.entered 0) ⟨.extending, [], [0]⟩ :=
    .again (s := {}) .start rfl
  have hfirst : MayHold (roundsTurn false bounds round) (.entered 0) ⟨.asking, [round 0], [0]⟩ :=
    .again (s := {}) hextending rfl
  have hone := MayHold.again (s := {}) hfirst rfl
  have hsecond := MayHold.again (s := {}) (MayHold.again (s := {}) hone rfl) rfl
  have htwo := MayHold.again (s := {}) hsecond rfl
  refine ⟨hentries, testable, valid, hfound, hmeets, rfl, _, {}, _, _, htwo, rfl, rfl,
    hloop.stack_le_max _ htwo 2 rfl, hloop.inStep _ htwo, ?_⟩
  exact (hloop.offers _ {} 2 _ _ htwo rfl).2

end RegexTrace.Search
