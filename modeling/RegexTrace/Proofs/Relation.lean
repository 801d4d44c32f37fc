import RegexTrace.Search.Scan

/-!
# The relation of a pattern

Which positions a pattern leads to, without any preference among them and without any rule about
empty repetitions. Elements one after the other are composition, branches are union, a repetition is
the union of the allowed powers of its body, and an assertion is part of the identity.

The engine drops a repetition beyond the minimum that ends where it began. In the relation such
repetitions can be left out of a chain, so the rule takes nothing away.
-/

namespace RegexTrace

namespace Node

mutual

/-- The tree with every repetition made greedy. -/
def eager : Node → Node
  | .anchor kind => .anchor kind
  | .value c => .value c
  | .dot => .dot
  | .escape kind => .escape kind
  | .charClass negative items => .charClass negative items
  | .unsupported kind raw => .unsupported kind raw
  | .alternative body => .alternative (eagerAll body)
  | .disjunction branches => .disjunction (eagerAll branches)
  | .group behaviour body name number => .group behaviour (eagerAll body) name number
  | .quantifier min max _ body shorthand => .quantifier min max true (eager body) shorthand
  | .range min max => .range min max
  | .alien => .alien
  | .absent => .absent

/-- All trees with every repetition made greedy. -/
def eagerAll : List Node → List Node
  | [] => []
  | node :: rest => eager node :: eagerAll rest

end

end Node

namespace Search

/-- So many steps of a relation, one after the other. -/
def Iterated (r : Nat → Nat → Prop) : Nat → Nat → Nat → Prop
  | 0, start, stop => start = stop
  | count + 1, start, stop => ∃ mid, r start mid ∧ Iterated r count mid stop

/-- A number of rounds lies within the bounds of a repetition. -/
def Allows (min : Int) (max : Option Int) (count : Nat) : Prop :=
  min ≤ count ∧ ∀ limit, max = some limit → (count : Int) ≤ limit

/-- The bounds of a repetition are in order and not negative. -/
def Proper (min : Int) (max : Option Int) : Prop :=
  0 ≤ min ∧ ∀ limit, max = some limit → min ≤ limit

/-- A leaf leads over the code point at hand if it accepts that. -/
def LeafRelates (ctx : Context) (node : Node) (start stop : Nat) : Prop :=
  ∃ c, Utf16.codePointAt? ctx.units start = some c ∧
    Leaf.accepts ctx.options.rules node c = .ok true ∧ stop = start + Utf16.width c

/-- A body matches ahead of a position, or behind it from some start. -/
def LooksTo (behind : Bool) (body : Nat → Nat → Prop) (pos : Nat) : Prop :=
  if behind then ∃ start ≤ pos, body start pos else ∃ stop, body pos stop

/-- What a group makes of the relation of its body: an assertion is the identity where the body
matches or, if negative, where it does not. -/
def GroupRelates (mode : LookaroundMode) (behaviour : Behaviour) (body : Nat → Nat → Prop)
    (start stop : Nat) : Prop :=
  match behaviour, mode with
  | .look behind negative, .assert =>
    stop = start ∧ if negative then ¬ LooksTo behind body start else LooksTo behind body start
  | _, _ => body start stop

mutual

/-- The positions that a node relates. -/
def Relates (ctx : Context) : Node → Nat → Nat → Prop
  | .anchor kind, start, stop => anchorHolds ctx kind start = true ∧ stop = start
  | .value c, start, stop => LeafRelates ctx (.value c) start stop
  | .dot, start, stop => LeafRelates ctx .dot start stop
  | .escape kind, start, stop => LeafRelates ctx (.escape kind) start stop
  | .charClass negative items, start, stop =>
    LeafRelates ctx (.charClass negative items) start stop
  | .unsupported _ _, _, _ => False
  | .alternative body, start, stop => RelatesAll ctx body start stop
  | .disjunction branches, start, stop => RelatesSome ctx branches start stop
  | .group behaviour body _ _, start, stop =>
    GroupRelates ctx.options.lookaround behaviour (RelatesAll ctx body) start stop
  | .quantifier min max _ body _, start, stop =>
    Proper min max ∧ ∃ count, Allows min max count ∧ Iterated (Relates ctx body) count start stop
  | .range _ _, _, _ | .alien, _, _ | .absent, _, _ => False

/-- Elements one after the other relate positions by composition. -/
def RelatesAll (ctx : Context) : List Node → Nat → Nat → Prop
  | [], start, stop => start = stop
  | node :: rest, start, stop => ∃ mid, Relates ctx node start mid ∧ RelatesAll ctx rest mid stop

/-- Branches relate positions by union. -/
def RelatesSome (ctx : Context) : List Node → Nat → Nat → Prop
  | [], _, _ => False
  | node :: rest, start, stop => Relates ctx node start stop ∨ RelatesSome ctx rest start stop

end

/-- Related bodies have related groups. -/
theorem groupRelates_congr {r r' : Nat → Nat → Prop}
    (h : ∀ start stop, r start stop ↔ r' start stop) (mode : LookaroundMode)
    (behaviour : Behaviour) (start stop : Nat) :
    GroupRelates mode behaviour r start stop ↔ GroupRelates mode behaviour r' start stop := by
  have heq : r = r' := funext fun start => funext fun stop => propext (h start stop)
  rw [heq]

/-- The same subject, searched with another preference and another budget. -/
def Context.preferring (ctx : Context) (lazyOn : Bool) (limit : Option Nat) : Context :=
  ⟨ctx.units, { ctx.options with honorLazy := lazyOn, maxSteps := limit }⟩

mutual

/-- The relation of a node asks neither which repetitions are greedy nor whether that matters. -/
theorem relates_eager_iff (ctx : Context) (lazyOn : Bool) (limit : Option Nat) :
    ∀ (node : Node) (start stop : Nat),
      Relates (ctx.preferring lazyOn limit) node.eager start stop ↔ Relates ctx node start stop
  | .anchor kind, start, stop => by
      rw [Node.eager, Relates, Relates]
      cases kind <;> rfl
  | .value c, start, stop => by
      rw [Node.eager, Relates, Relates]
      rfl
  | .dot, start, stop => by
      rw [Node.eager, Relates, Relates]
      rfl
  | .escape kind, start, stop => by
      rw [Node.eager, Relates, Relates]
      rfl
  | .charClass negative items, start, stop => by
      rw [Node.eager, Relates, Relates]
      rfl
  | .unsupported kind raw, start, stop => by
      rw [Node.eager, Relates, Relates]
  | .alternative body, start, stop => by
      rw [Node.eager, Relates, Relates, relatesAll_eager_iff ctx lazyOn limit body]
  | .disjunction branches, start, stop => by
      rw [Node.eager, Relates, Relates, relatesSome_eager_iff ctx lazyOn limit branches]
  | .group behaviour body name number, start, stop => by
      rw [Node.eager, Relates, Relates]
      exact groupRelates_congr (relatesAll_eager_iff ctx lazyOn limit body) _ behaviour start stop
  | .quantifier min max greedy body shorthand, start, stop => by
      have heq : Relates (ctx.preferring lazyOn limit) body.eager = Relates ctx body :=
        funext fun start => funext fun stop =>
          propext (relates_eager_iff ctx lazyOn limit body start stop)
      rw [Node.eager, Relates, Relates, heq]
  | .range min max, start, stop => by
      rw [Node.eager, Relates, Relates]
  | .alien, start, stop => by
      rw [Node.eager, Relates, Relates]
  | .absent, start, stop => by
      rw [Node.eager, Relates, Relates]

theorem relatesAll_eager_iff (ctx : Context) (lazyOn : Bool) (limit : Option Nat) :
    ∀ (body : List Node) (start stop : Nat),
      RelatesAll (ctx.preferring lazyOn limit) (Node.eagerAll body) start stop ↔
        RelatesAll ctx body start stop
  | [], start, stop => by rw [Node.eagerAll, RelatesAll, RelatesAll]
  | node :: rest, start, stop => by
      rw [Node.eagerAll, RelatesAll, RelatesAll]
      exact exists_congr fun mid => and_congr (relates_eager_iff ctx lazyOn limit node start mid)
        (relatesAll_eager_iff ctx lazyOn limit rest mid stop)

theorem relatesSome_eager_iff (ctx : Context) (lazyOn : Bool) (limit : Option Nat) :
    ∀ (branches : List Node) (start stop : Nat),
      RelatesSome (ctx.preferring lazyOn limit) (Node.eagerAll branches) start stop ↔
        RelatesSome ctx branches start stop
  | [], start, stop => by rw [Node.eagerAll, RelatesSome, RelatesSome]
  | node :: rest, start, stop => by
      rw [Node.eagerAll, RelatesSome, RelatesSome]
      exact or_congr (relates_eager_iff ctx lazyOn limit node start stop)
        (relatesSome_eager_iff ctx lazyOn limit rest start stop)

end

theorem relates_preferring_iff (ctx : Context) (lazyOn : Bool) (limit : Option Nat) (node : Node)
    (start stop : Nat) :
    Relates (ctx.preferring lazyOn limit) node start stop ↔ Relates ctx node start stop :=
  (relates_eager_iff (ctx.preferring lazyOn limit) lazyOn limit node start stop).symm.trans
    (relates_eager_iff ctx lazyOn limit node start stop)

theorem relates_iff_of_eager_eq (ctx : Context) {node other : Node} (h : other.eager = node.eager)
    (start stop : Nat) : Relates ctx other start stop ↔ Relates ctx node start stop := by
  rw [← relates_eager_iff ctx false none other, h, relates_eager_iff]

/-- What the leftmost match of a relation is: its start is the least one that is related to any
position, and its end is one of those. -/
def IsLeftmost (relates : Nat → Nat → Prop) (size : Nat) : Option (Nat × Nat) → Prop
  | none => ∀ start ≤ size, ∀ stop, ¬ relates start stop
  | some (start, stop) =>
    start ≤ size ∧ relates start stop ∧ ∀ earlier < start, ∀ stop, ¬ relates earlier stop

theorem IsLeftmost.congr {r r' : Nat → Nat → Prop} {size : Nat} {found : Option (Nat × Nat)}
    (h : IsLeftmost r size found) (hrr' : ∀ start stop, r start stop ↔ r' start stop) :
    IsLeftmost r' size found := by
  have heq : r = r' := funext fun start => funext fun stop => propext (hrr' start stop)
  exact heq ▸ h

/-- Two leftmost matches of relations that agree start at the same position. -/
theorem IsLeftmost.start_unique {r r' : Nat → Nat → Prop} {size : Nat}
    (hrr' : ∀ start stop, r start stop ↔ r' start stop) :
    ∀ {found found' : Option (Nat × Nat)}, IsLeftmost r size found → IsLeftmost r' size found' →
      found.map Prod.fst = found'.map Prod.fst
  | none, none, _, _ => rfl
  | none, some (start, stop), h, h' => absurd ((hrr' start stop).mpr h'.2.1) (h start h'.1 stop)
  | some (start, stop), none, h, h' => absurd ((hrr' start stop).mp h.2.1) (h' start h.1 stop)
  | some (start, stop), some (start', stop'), h, h' => by
      have hle : ¬ start < start' := fun hlt => h'.2.2 start hlt stop ((hrr' _ _).mp h.2.1)
      have hge : ¬ start' < start := fun hlt => h.2.2 start' hlt stop' ((hrr' _ _).mpr h'.2.1)
      have heq : start = start' := by omega
      exact congrArg some heq

/-- The rest of a repetition after some rounds: further rounds up to an allowed number. -/
def RoundsRelate (bounds : Bounds) (r : Nat → Nat → Prop) (count here stop : Nat) : Prop :=
  ∃ more, bounds.min ≤ count + more ∧ (∀ limit, bounds.max = some limit → count + more ≤ limit) ∧
    Iterated r more here stop

section Rounds

variable {bounds : Bounds} {r : Nat → Nat → Prop} {count here stop : Nat}

theorem Bounds.reached_eq_false (h : ∀ limit, bounds.max = some limit → count < limit) :
    bounds.reached count = false := by
  unfold Bounds.reached
  cases hmax : bounds.max with
  | none => rfl
  | some limit => exact decide_eq_false (Nat.not_le.mpr (h limit hmax))

theorem Bounds.reached_eq_true {limit : Nat} (h : bounds.max = some limit) (hle : limit ≤ count) :
    bounds.reached count = true := by
  unfold Bounds.reached
  rw [h]
  exact decide_eq_true hle

/-- A round that moves nowhere can be left out of a chain once the minimum is reached, so a chain
either stops at once or begins with a round that counts. -/
theorem RoundsRelate.stops_or_goes_on (h : RoundsRelate bounds r count here stop) :
    (bounds.min ≤ count ∧ stop = here) ∨ (bounds.reached count = false ∧
      ∃ mid, r here mid ∧ ¬ (bounds.min ≤ count ∧ mid = here) ∧
        RoundsRelate bounds r (count + 1) mid stop) := by
  obtain ⟨more, hmin, hmax, hchain⟩ := h
  induction more with
  | zero => exact Or.inl ⟨hmin, hchain.symm⟩
  | succ more ih =>
      obtain ⟨mid, hmid, hrest⟩ := hchain
      have hbelow : ∀ limit, bounds.max = some limit → count + more < limit := fun limit hlimit =>
        hmax limit hlimit
      by_cases hdrop : bounds.min ≤ count ∧ mid = here
      · have hshorter := fun limit hlimit => Nat.le_of_lt (hbelow limit hlimit)
        exact ih (Nat.le_add_right_of_le hdrop.1) hshorter (hdrop.2 ▸ hrest)
      · have hopen : bounds.reached count = false := Bounds.reached_eq_false fun limit hlimit =>
          Nat.lt_of_le_of_lt (Nat.le_add_right count more) (hbelow limit hlimit)
        refine Or.inr ⟨hopen, mid, hmid, hdrop, more, by omega, fun limit hlimit => ?_, hrest⟩
        have := hbelow limit hlimit
        omega

/-- One step of a repetition under the rule about empty rounds: stopping where the minimum is
reached, or a further round that is not empty beyond the minimum. -/
theorem roundsRelate_iff (hcount : ∀ limit, bounds.max = some limit → count ≤ limit) :
    RoundsRelate bounds r count here stop ↔
      (bounds.min ≤ count ∧ stop = here) ∨ (bounds.reached count = false ∧
        ∃ mid, r here mid ∧ ¬ (bounds.min ≤ count ∧ mid = here) ∧
          RoundsRelate bounds r (count + 1) mid stop) := by
  refine ⟨RoundsRelate.stops_or_goes_on, ?_⟩
  rintro (⟨hmin, rfl⟩ | ⟨-, mid, hmid, -, more, hmin, hmax, hrest⟩)
  · exact ⟨0, hmin, hcount, rfl⟩
  · refine ⟨more + 1, by omega, fun limit hlimit => ?_, mid, hmid, hrest⟩
    have := hmax limit hlimit
    omega

end Rounds

theorem Bounds.ofInts?_eq_none_iff {min : Int} {max : Option Int} :
    Bounds.ofInts? min max = none ↔ ¬ Proper min max := by
  unfold Bounds.ofInts? Proper
  cases max with
  | none => simp
  | some limit =>
      by_cases hmin : min < 0
      · simp [hmin, Int.not_le.mpr hmin]
      · simp [hmin, Int.not_lt.mp hmin]

/-- Proper bounds as natural numbers allow the same numbers of rounds. -/
theorem Bounds.allows_of_ofInts? {min : Int} {max : Option Int} {bounds : Bounds}
    (h : Bounds.ofInts? min max = some bounds) (count : Nat) :
    (bounds.min ≤ count ∧ ∀ limit, bounds.max = some limit → count ≤ limit) ↔
      Allows min max count := by
  unfold Bounds.ofInts? at h
  unfold Allows
  split at h
  · cases h
  · next hmin =>
      split at h
      · obtain rfl := Option.some.inj h
        simp
      · next limit =>
          split at h
          · cases h
          · next hmax =>
              obtain rfl := Option.some.inj h
              simp only [Option.some.injEq, forall_eq']
              omega

/-- The relation of a repetition as the relation of its rounds from the first on. -/
theorem relates_quantifier_iff {ctx : Context} {min : Int} {max : Option Int} {greedy : Bool}
    {body : Node} {shorthand : Option Shorthand} {bounds : Bounds} {start stop : Nat}
    (h : Bounds.ofInts? min max = some bounds) :
    Relates ctx (.quantifier min max greedy body shorthand) start stop ↔
      RoundsRelate bounds (Relates ctx body) 0 start stop := by
  have hproper : Proper min max := Classical.not_not.mp fun hnot => by
    rw [Bounds.ofInts?_eq_none_iff.mpr hnot] at h
    cases h
  simp only [Relates, hproper, true_and, RoundsRelate, Nat.zero_add, ← and_assoc,
    Bounds.allows_of_ofInts? h]

end Search

end RegexTrace
