import RegexTrace.Proofs.Ways

/-!
# Ways move forward

A way that starts inside the subject ends inside it, and not before its start. In a subject that is
the view of a text, a code point of two units is never cut off at the end.
-/

namespace RegexTrace

namespace Utf16

/-- A number beyond sixteen bits is never the last unit. -/
def Closed (units : Units) : Prop :=
  ∀ pos unit, units[pos]? = some unit → 0xFFFF < unit → pos + 1 < units.size

/-- Only the first of the units of a code point can go beyond sixteen bits, and then there is a
second one. -/
theorem closed_unitsOf_append {c : CodePoint} {rest : List Nat} (h : Closed rest.toArray) :
    Closed (unitsOf c ++ rest).toArray := by
  intro pos unit hunit hwide
  simp only [List.getElem?_toArray, List.size_toArray] at hunit ⊢
  have shift : ∀ pos, rest[pos]? = some unit → pos + 1 < rest.length := by
    intro pos hpos
    simpa using h pos unit (by simpa using hpos) hwide
  by_cases hc : c ≤ 0xFFFF
  · simp only [unitsOf, hc, if_true, List.cons_append, List.nil_append, List.length_cons]
      at hunit ⊢
    cases pos with
    | zero =>
        obtain rfl : c = unit := Option.some.inj hunit
        exact absurd hc (Nat.not_le.mpr hwide)
    | succ pos =>
        have := shift pos hunit
        omega
  · simp only [unitsOf, hc, if_false, List.cons_append, List.nil_append, List.length_cons]
      at hunit ⊢
    rcases pos with _ | _ | pos
    · omega
    · simp only [List.getElem?_cons_succ, List.getElem?_cons_zero, Option.some.injEq] at hunit
      omega
    · have := shift pos hunit
      omega

theorem closed_encode (t : Text) : Closed (encode t) := by
  unfold encode
  induction t with
  | nil => exact fun pos unit hunit => by simp at hunit
  | cons c t ih => exact closed_unitsOf_append ih

/-- The code point at a position lies inside the subject with all its units. -/
theorem width_le_of_codePointAt? {units : Units} (closed : Closed units) {pos : Nat}
    {c : CodePoint} (h : codePointAt? units pos = some c) : pos + width c ≤ units.size := by
  unfold codePointAt? at h
  cases hunit : units[pos]? with
  | none => simp [hunit] at h
  | some unit =>
      have hpos : pos < units.size := (Array.getElem?_eq_some_iff.mp hunit).1
      have hself : unit = c → pos + width c ≤ units.size := by
        rintro rfl
        unfold width
        split
        · omega
        · next hwide => exact closed pos unit hunit (Nat.not_le.mp hwide)
      simp only [hunit] at h
      split at h
      · cases hnext : units[pos + 1]? with
        | none =>
            rw [hnext] at h
            exact hself (Option.some.inj h)
        | some next =>
            have hsucc : pos + 1 < units.size := (Array.getElem?_eq_some_iff.mp hnext).1
            unfold width
            split <;> omega
      · exact hself (Option.some.inj h)

end Utf16

namespace Search

/-- All ways end between two positions. -/
def Ways.Within (low high : Nat) (ws : Ways) : Prop :=
  ∀ way ∈ ws.toList, low ≤ way.stop ∧ way.stop ≤ high

namespace Ways.Within

variable {low high : Nat} {ws later : Ways}

theorem none : Within low high .none := All.none

theorem fault (cause : Node.Fault) : Within low high (.fault cause) := All.fault cause

theorem single {stop : Nat} (h₁ : low ≤ stop) (h₂ : stop ≤ high) :
    Within low high (single stop) :=
  All.singleIf true ⟨h₁, h₂⟩

theorem singleIf {condition : Bool} {stop : Nat} (h₁ : low ≤ stop) (h₂ : stop ≤ high) :
    Within low high (singleIf condition stop) :=
  All.singleIf condition ⟨h₁, h₂⟩

theorem append (h₁ : ws.Within low high) (h₂ : later.Within low high) :
    (ws.append later).Within low high :=
  All.append h₁ h₂

theorem ordered {firstFirst : Bool} (h₁ : ws.Within low high) (h₂ : later.Within low high) :
    (ws.ordered firstFirst later).Within low high :=
  All.ordered h₁ h₂

theorem after (h : ws.Within low high) (steps : List (Step Nat Occurrence)) :
    (ws.after steps).Within low high :=
  All.after h

theorem andThen {next : Nat → Ways} (h : ws.Within low high)
    (hnext : ∀ stop, low ≤ stop → stop ≤ high → (next stop).Within stop high) :
    (ws.andThen next).Within low high := by
  intro way hway
  obtain ⟨first, hfirst, second, hsecond, rfl⟩ := mem_of_mem_andThen hway
  obtain ⟨hlow, hhigh⟩ := h first hfirst
  obtain ⟨hfrom, hto⟩ := hnext first.stop hlow hhigh second hsecond
  exact ⟨Nat.le_trans hlow hfrom, hto⟩

end Ways.Within

variable {size : Nat}

/-- Rounds of a body that moves forward move forward. -/
theorem rounds_within {few : Bool} {bounds : Bounds} {body : Nat → Ways}
    (hbody : ∀ pos ≤ size, (body pos).Within pos size) (count here : Nat) (hhere : here ≤ size) :
    (rounds few bounds size body count here).Within here size := by
  induction count, here using rounds.induct bounds size with
  | case1 count here ih =>
      rw [rounds]
      refine Ways.Within.ordered (.singleIf (Nat.le_refl here) hhere) ?_
      split
      · exact .none
      · refine (hbody here hhere).andThen fun stop _ hstop => ?_
        split
        · next hon => exact ih stop hon hstop
        · exact .none

/-- Beyond the minimum, the rounds that are dropped are those that end where they began. -/
theorem rounds_eq {few : Bool} {bounds : Bounds} {body : Nat → Ways} {count here : Nat}
    (hbody : (body here).Within here size) :
    rounds few bounds size body count here =
      (Ways.singleIf (bounds.min ≤ count) here).ordered few
        (if bounds.reached count then .none
          else
            (body here).andThen fun stop =>
              if bounds.min ≤ count ∧ stop = here then .none
              else rounds few bounds size body (count + 1) stop) := by
  rw [rounds]
  refine congrArg (Ways.ordered _ few) ?_
  split
  · rfl
  · refine Ways.andThen_congr fun way hway => ?_
    obtain ⟨hfrom, hto⟩ := hbody way hway
    by_cases hdrop : bounds.min ≤ count ∧ way.stop = here
    · rw [if_pos hdrop, if_neg (by omega)]
    · rw [if_neg hdrop, if_pos (by omega)]

/-- The first start of a lookbehind is one whose body has a way. -/
theorem exists_start_of_firstBehind? {body : Nat → Ways} {pos : Nat} {starts : List Nat}
    {way : Way} (h : firstBehind? body pos starts = .ok (some way)) :
    ∃ start ∈ starts, (body start).first? (· == pos) = .ok (some way) := by
  induction starts with
  | nil => simp [firstBehind?] at h
  | cons start rest ih =>
      rw [firstBehind?] at h
      split at h
      · obtain ⟨other, hother, hway⟩ := ih h
        exact ⟨other, List.mem_cons_of_mem _ hother, hway⟩
      · exact ⟨start, List.mem_cons_self, h⟩

/-- An assertion holds the position. -/
theorem assertion_within {behind negative : Bool} {body : Nat → Ways} {pos : Nat}
    (hpos : pos ≤ size) : (assertion behind negative body pos).Within pos size := by
  unfold assertion
  simp only
  split
  · exact .fault _
  · split
    · exact .none
    · intro way hway
      obtain rfl := List.mem_singleton.mp hway
      exact ⟨Nat.le_refl pos, hpos⟩
  · exact .singleIf (Nat.le_refl pos) hpos

theorem groupWays_within {mode : LookaroundMode} {behaviour : Behaviour} {body : Nat → Ways}
    {pos : Nat} (hpos : pos ≤ size) (hbody : (body pos).Within pos size) :
    (groupWays mode behaviour body pos).Within pos size := by
  unfold groupWays
  split
  · exact assertion_within hpos
  · exact hbody

variable {ctx : Context}

theorem leafWays_within (closed : Utf16.Closed ctx.units) (node : Node) (pos : Nat) :
    (leafWays ctx node pos).Within pos ctx.units.size := by
  unfold leafWays
  split
  · exact .none
  · next c hc =>
      split
      · exact .singleIf (Nat.le_add_right pos _) (Utf16.width_le_of_codePointAt? closed hc)
      · exact .fault _

mutual

/-- The ways of a node move forward inside the subject. -/
theorem ways_within (closed : Utf16.Closed ctx.units) (address : Address) :
    ∀ (node : Node) (pos : Nat), pos ≤ ctx.units.size →
      (ways ctx address node pos).Within pos ctx.units.size
  | .anchor kind, pos, hpos => by
      rw [ways]
      exact (Ways.Within.singleIf (Nat.le_refl pos) hpos).after _
  | .value c, pos, hpos => by
      rw [ways]
      exact (leafWays_within closed _ pos).after _
  | .dot, pos, hpos => by
      rw [ways]
      exact (leafWays_within closed _ pos).after _
  | .escape kind, pos, hpos => by
      rw [ways]
      exact (leafWays_within closed _ pos).after _
  | .charClass negative items, pos, hpos => by
      rw [ways]
      exact (leafWays_within closed _ pos).after _
  | .unsupported kind raw, pos, hpos => by
      rw [ways]
      exact .none
  | .alternative body, pos, hpos => by
      rw [ways]
      exact (sequenceWays_within closed address 0 body pos hpos).after _
  | .disjunction branches, pos, hpos => by
      rw [ways]
      exact (choiceWays_within closed address 0 branches pos hpos).after _
  | .group behaviour body name number, pos, hpos => by
      rw [ways]
      exact (groupWays_within hpos (sequenceWays_within closed address 0 body pos hpos)).after _
  | .quantifier min max greedy body shorthand, pos, hpos => by
      rw [ways]
      split
      · exact .none
      · exact (rounds_within (ways_within closed _ body) 0 pos hpos).after _
  | .range min max, pos, hpos => by
      rw [ways]
      exact .fault _
  | .alien, pos, hpos => by
      rw [ways]
      exact .fault _
  | .absent, pos, hpos => by
      rw [ways]
      exact .fault _

theorem sequenceWays_within (closed : Utf16.Closed ctx.units) (address : Address) (index : Nat) :
    ∀ (body : List Node) (pos : Nat), pos ≤ ctx.units.size →
      (sequenceWays ctx address index body pos).Within pos ctx.units.size
  | [], pos, hpos => by
      rw [sequenceWays]
      exact .single (Nat.le_refl pos) hpos
  | node :: rest, pos, hpos => by
      rw [sequenceWays]
      exact (ways_within closed _ node pos hpos).andThen fun stop _ hstop =>
        sequenceWays_within closed address (index + 1) rest stop hstop

theorem choiceWays_within (closed : Utf16.Closed ctx.units) (address : Address) (index : Nat) :
    ∀ (branches : List Node) (pos : Nat), pos ≤ ctx.units.size →
      (choiceWays ctx address index branches pos).Within pos ctx.units.size
  | [], pos, hpos => by
      rw [choiceWays]
      exact .none
  | node :: rest, pos, hpos => by
      rw [choiceWays]
      exact (ways_within closed _ node pos hpos).append
        (choiceWays_within closed address (index + 1) rest pos hpos)

end

end Search

end RegexTrace
