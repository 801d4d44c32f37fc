import RegexTrace.Proofs.Grammar
import RegexTrace.Proofs.Positions

/-!
# Where ways end

The positions where the ways of a list end, in order. Without a fault they are computed along the
list: putting lists one after the other appends them, and going on is a `flatMap`. A search of a
tree of the ten kinds has no fault, except that a literal that is no code point cannot be compared
without regard to case.
-/

namespace RegexTrace

namespace Node

/-- An item of a class can be tested: where case is ignored, a literal has to be a code point. -/
def TestableItem (ignoreCase : Bool) : Node → Prop
  | .value c => ignoreCase = true → IsCodePoint c
  | _ => True

mutual

/-- A tree of the ten kinds whose literals are code points where case is ignored. -/
def Testable (ignoreCase : Bool) : Node → Prop
  | .value c => ignoreCase = true → IsCodePoint c
  | .charClass _ items => ∀ item ∈ items, item.TestableItem ignoreCase
  | .anchor _ | .dot | .escape _ | .unsupported _ _ => True
  | .alternative body => TestableAll ignoreCase body
  | .disjunction branches => TestableAll ignoreCase branches
  | .group _ body _ _ => TestableAll ignoreCase body
  | .quantifier _ _ _ body _ => Testable ignoreCase body
  | .range _ _ | .alien | .absent => False

/-- All nodes are trees of the ten kinds. -/
def TestableAll (ignoreCase : Bool) : List Node → Prop
  | [] => True
  | node :: rest => Testable ignoreCase node ∧ TestableAll ignoreCase rest

end

theorem testableAll_iff {ignoreCase : Bool} {nodes : List Node} :
    TestableAll ignoreCase nodes ↔ ∀ node ∈ nodes, node.Testable ignoreCase := by
  induction nodes with
  | nil => simp [TestableAll]
  | cons node rest ih => simp [TestableAll, ih]

theorem testable_choice {ignoreCase : Bool} {branches : List (List Node)}
    (h : ∀ branch ∈ branches, ∀ term ∈ branch, term.Testable ignoreCase) :
    (Node.disjunction (branches.map .alternative)).Testable ignoreCase := by
  rw [Testable, testableAll_iff]
  intro branch hbranch
  obtain ⟨body, hbody, rfl⟩ := List.mem_map.mp hbranch
  rw [Testable, testableAll_iff]
  exact h body hbody

/-- A term can be tested with and without regard to case. -/
theorem IsTerm.testableIn (ignoreCase : Bool) {node : Node} (h : node.IsTerm) :
    node.Testable ignoreCase := by
  induction h with
  | value codePoint =>
      rw [Testable]
      exact fun _ => codePoint
  | charClass known =>
      rw [Testable]
      intro item hitem
      have hknown := known item hitem
      cases item <;> first | exact trivial | exact fun _ => hknown
  | run _ _ ih =>
      rw [Testable, testableAll_iff]
      exact ih
  | choice _ _ _ ih =>
      rw [Testable, testableAll_iff]
      exact List.forall_mem_singleton.mpr (testable_choice ih)
  | quantifier _ _ _ _ _ ih =>
      rw [Testable]
      exact ih
  | _ => simp [Testable]

/-- The tree of a pattern can be tested with and without regard to case. -/
theorem IsPattern.testableIn (ignoreCase : Bool) {root : Node} (h : root.IsPattern) :
    root.Testable ignoreCase := by
  cases h with
  | run terms =>
      rw [Testable, testableAll_iff]
      exact fun term hterm => (terms term hterm).testableIn ignoreCase
  | choice _ terms =>
      apply testable_choice
      exact fun body hbody term hterm => (terms body hbody term hterm).testableIn ignoreCase

end Node

namespace Search

namespace Ways

/-- The list of ways does not end in a fault. -/
def Faultless : Ways → Prop
  | none => True
  | fault _ => False
  | more _ rest => rest.Faultless

/-- The positions where ways end, in order. -/
def stops : Ways → List Nat
  | none | fault _ => []
  | more way rest => way.stop :: rest.stops

variable {ws later : Ways} {next : Nat → Ways}

theorem stops_eq_map (ws : Ways) : ws.stops = ws.toList.map Way.stop := by
  induction ws with
  | none => rfl
  | fault cause => rfl
  | more way rest ih => rw [stops, toList, List.map_cons, ih]

theorem mem_stops_iff {stop : Nat} : stop ∈ ws.stops ↔ ∃ way ∈ ws.toList, way.stop = stop := by
  rw [stops_eq_map, List.mem_map]

theorem Within.of_mem_stops {low high stop : Nat} (h : ws.Within low high)
    (hstop : stop ∈ ws.stops) : low ≤ stop ∧ stop ≤ high := by
  obtain ⟨way, hway, rfl⟩ := mem_stops_iff.mp hstop
  exact h way hway

@[simp] theorem faultless_singleIf (condition : Bool) (stop : Nat) :
    (singleIf condition stop).Faultless := by
  cases condition <;> exact trivial

@[simp] theorem faultless_after_iff {steps : List (Step Nat Occurrence)} :
    (ws.after steps).Faultless ↔ ws.Faultless := by
  induction ws with
  | none => rfl
  | fault cause => rfl
  | more way rest ih => exact ih

@[simp] theorem faultless_append_iff :
    (ws.append later).Faultless ↔ ws.Faultless ∧ later.Faultless := by
  induction ws with
  | none => simp [append, Faultless]
  | fault cause => simp [append, Faultless]
  | more way rest ih => exact ih

@[simp] theorem faultless_ordered_iff {firstFirst : Bool} :
    (ws.ordered firstFirst later).Faultless ↔ ws.Faultless ∧ later.Faultless := by
  cases firstFirst with
  | true => exact faultless_append_iff
  | false => exact faultless_append_iff.trans and_comm

@[simp] theorem faultless_andThen_iff :
    (ws.andThen next).Faultless ↔ ws.Faultless ∧ ∀ stop ∈ ws.stops, (next stop).Faultless := by
  induction ws with
  | none => simp [andThen, Faultless, stops]
  | fault cause => simp [andThen, Faultless]
  | more way rest ih =>
      rw [andThen, faultless_append_iff, faultless_after_iff, ih, stops, List.forall_mem_cons,
        Faultless]
      exact and_left_comm

theorem stops_singleIf (condition : Bool) (stop : Nat) :
    (singleIf condition stop).stops = if condition then [stop] else [] := by
  cases condition <;> rfl

@[simp] theorem stops_after (ws : Ways) (steps : List (Step Nat Occurrence)) :
    (ws.after steps).stops = ws.stops := by
  induction ws with
  | none => rfl
  | fault cause => rfl
  | more way rest ih => rw [after, stops, stops, ih]

theorem stops_append (h : ws.Faultless) : (ws.append later).stops = ws.stops ++ later.stops := by
  induction ws with
  | none => rfl
  | fault cause => exact h.elim
  | more way rest ih => rw [append, stops, stops, List.cons_append, ih h]

/-- Where going on from ways ends. -/
theorem stops_andThen (h : ws.Faultless) (hnext : ∀ stop ∈ ws.stops, (next stop).Faultless) :
    (ws.andThen next).stops = ws.stops.flatMap fun stop => (next stop).stops := by
  induction ws with
  | none => rfl
  | fault cause => exact h.elim
  | more way rest ih =>
      have hfirst : ((next way.stop).after way.steps).Faultless :=
        faultless_after_iff.mpr (hnext way.stop List.mem_cons_self)
      have hrest := ih h fun stop hstop => hnext stop (List.mem_cons_of_mem _ hstop)
      rw [andThen, stops_append hfirst, stops_after, hrest, stops,
        List.flatMap_cons]

theorem mem_of_mem_stops_append {stop : Nat} (h : stop ∈ (ws.append later).stops) :
    stop ∈ ws.stops ∨ stop ∈ later.stops := by
  obtain ⟨way, hway, rfl⟩ := mem_stops_iff.mp h
  exact (mem_of_mem_append hway).imp (fun h => mem_stops_iff.mpr ⟨way, h, rfl⟩)
    fun h => mem_stops_iff.mpr ⟨way, h, rfl⟩

theorem mem_of_mem_stops_andThen {stop : Nat} (h : stop ∈ (ws.andThen next).stops) :
    ∃ mid ∈ ws.stops, stop ∈ (next mid).stops := by
  obtain ⟨way, hway, rfl⟩ := mem_stops_iff.mp h
  obtain ⟨first, hfirst, second, hsecond, rfl⟩ := mem_of_mem_andThen hway
  have hstop := mem_stops_iff.mpr ⟨second, hsecond, rfl⟩
  exact ⟨first.stop, mem_stops_iff.mpr ⟨first, hfirst, rfl⟩, hstop⟩

/-- Looking for an acceptable way finds none only where there is no fault and none. -/
theorem first?_eq_none_iff {accept : Nat → Bool} :
    ws.first? accept = .ok Option.none ↔
      ws.Faultless ∧ ∀ stop ∈ ws.stops, accept stop = false := by
  induction ws with
  | none => simp [first?, stops, Faultless]
  | fault cause => simp [first?, Faultless]
  | more way rest ih =>
      rw [first?, stops, List.forall_mem_cons, Faultless]
      split
      · next haccept => simp [haccept]
      · next haccept => simp [haccept, ih]

/-- Without a fault, looking for an acceptable way has an answer. -/
theorem first?_ne_error {accept : Nat → Bool} (h : ws.Faultless) (cause : Node.Fault) :
    ws.first? accept ≠ .error cause := by
  intro herror
  induction ws with
  | none => cases herror
  | fault cause => exact h.elim
  | more way rest ih =>
      rw [first?] at herror
      split at herror
      · cases herror
      · exact ih h herror

end Ways

end Search

namespace Utf16

/-- Each unit of a code point has sixteen bits. -/
theorem unit_lt_of_mem_unitsOf {c unit : Nat} (hc : c < codePointLimit)
    (h : unit ∈ unitsOf c) : unit < 0x10000 := by
  unfold codePointLimit at hc
  unfold unitsOf at h
  split at h
  · next hnarrow => exact List.mem_singleton.mp h ▸ Nat.lt_succ_of_le hnarrow
  · simp only [List.mem_cons, List.not_mem_nil, or_false] at h
    replace h : @Eq Nat unit (0xD800 + (c - 0x10000) / 0x400) ∨
        @Eq Nat unit (0xDC00 + (c - 0x10000) % 0x400) := h
    omega

theorem combine_lt {high low : Nat} (hhigh : isHigh high = true) (hlow : isLow low = true) :
    combine high low < codePointLimit := by
  simp only [isHigh, isLow, Bool.and_eq_true, decide_eq_true_eq] at hhigh hlow
  have hlt : 0x10000 + (high - 0xD800) * 0x400 + (low - 0xDC00) < 0x110000 := by omega
  exact hlt

/-- What is read at a position of the view of a text is a code point. -/
theorem codePointAt?_lt {t : Text} (ht : t.Valid) {pos : Nat} {c : CodePoint}
    (h : codePointAt? (encode t) pos = some c) : c < codePointLimit := by
  have hunits : ∀ pos unit : Nat, (encode t)[pos]? = some unit → unit < codePointLimit := by
    intro pos unit hunit
    have hmem : unit ∈ t.flatMap unitsOf := by
      have := Array.mem_of_getElem? hunit
      simpa [encode] using this
    obtain ⟨c, hc, hmem⟩ := List.mem_flatMap.mp hmem
    exact Nat.lt_trans (unit_lt_of_mem_unitsOf (ht c hc) hmem) (by decide)
  unfold codePointAt? at h
  cases hunit : (encode t)[pos]? with
  | none => simp [hunit] at h
  | some unit =>
      have hself : unit = c → c < codePointLimit := fun hc => hc ▸ hunits pos unit hunit
      simp only [hunit] at h
      split at h
      · next hhigh =>
          split at h
          · next next hnext =>
              split at h
              · next hlow => exact Option.some.inj h ▸ combine_lt hhigh hlow
              · exact hself (Option.some.inj h)
          · exact hself (Option.some.inj h)
      · exact hself (Option.some.inj h)

end Utf16

namespace Leaf

theorem character_eq_ok {n : Int} (h : IsCodePoint n) : Node.character n = .ok n.toNat := by
  unfold Node.character
  exact if_pos h

theorem escapeAccepts_ok {n : Int} (hn : IsCodePoint n) (kind : EscapeKind) :
    ∃ accepted, escapeAccepts kind n = .ok accepted := by
  unfold escapeAccepts
  split
  · exact ⟨_, rfl⟩
  · rw [character_eq_ok hn]
    exact ⟨_, rfl⟩

/-- An item that can be tested has an answer. -/
theorem itemAccepts_ok {ignoreCase : Bool} {item : Node} (h : item.TestableItem ignoreCase)
    {n : Int} (hn : IsCodePoint n) : ∃ accepted, itemAccepts ignoreCase item n = .ok accepted := by
  unfold itemAccepts
  split
  · split
    · next value hignore =>
        unfold valueAcceptsFolded variants
        rw [character_eq_ok hn, character_eq_ok (h hignore)]
        simp only [Except.map, bind, Except.bind, pure, Except.pure]
        split <;> exact ⟨_, rfl⟩
    · exact ⟨_, rfl⟩
  · split
    · unfold variants
      rw [character_eq_ok hn]
      exact ⟨_, rfl⟩
    · exact ⟨_, rfl⟩
  · exact escapeAccepts_ok hn _
  · exact ⟨_, rfl⟩

/-- A class whose items can be tested has an answer. -/
theorem someItemAccepts_ok {ignoreCase : Bool} {items : List Node}
    (h : ∀ item ∈ items, item.TestableItem ignoreCase) {n : Int} (hn : IsCodePoint n) :
    ∃ accepted, someItemAccepts ignoreCase n items = .ok accepted := by
  induction items with
  | nil => exact ⟨false, rfl⟩
  | cons item rest ih =>
      obtain ⟨accepted, haccepted⟩ := itemAccepts_ok (h item List.mem_cons_self) hn
      obtain ⟨later, hlater⟩ := ih fun other hother => h other (List.mem_cons_of_mem _ hother)
      rw [someItemAccepts, haccepted]
      cases accepted with
      | true => exact ⟨true, rfl⟩
      | false => exact ⟨later, hlater⟩

end Leaf

namespace Search

variable {ctx : Context}

/-- A leaf whose test has an answer has no fault. -/
theorem leafWays_faultless {node : Node} {pos : Nat}
    (h : ∀ c, Utf16.codePointAt? ctx.units pos = some c →
      ∃ accepted, Leaf.accepts ctx.options.rules node c = .ok accepted) :
    (leafWays ctx node pos).Faultless := by
  unfold leafWays
  cases hc : Utf16.codePointAt? ctx.units pos with
  | none => exact trivial
  | some c =>
      obtain ⟨accepted, haccepted⟩ := h c hc
      simp only [haccepted]
      exact Ways.faultless_singleIf accepted _

/-- Rounds of a body without a fault have none. -/
theorem rounds_faultless {few : Bool} {bounds : Bounds} {size : Nat} {body : Nat → Ways}
    (hbody : ∀ pos, (body pos).Faultless) (count here : Nat) :
    (rounds few bounds size body count here).Faultless := by
  induction count, here using rounds.induct bounds size with
  | case1 count here ih =>
      rw [rounds]
      refine Ways.faultless_ordered_iff.mpr ⟨Ways.faultless_singleIf _ here, ?_⟩
      split
      · exact trivial
      · refine Ways.faultless_andThen_iff.mpr ⟨hbody here, fun stop _ => ?_⟩
        split
        · next hon => exact ih stop hon
        · exact trivial

theorem firstBehind?_ne_error {body : Nat → Ways} (hbody : ∀ pos, (body pos).Faultless)
    (pos : Nat) (starts : List Nat) (cause : Node.Fault) :
    firstBehind? body pos starts ≠ .error cause := by
  induction starts with
  | nil => exact nofun
  | cons start rest ih =>
      rw [firstBehind?]
      split
      · exact ih
      · exact Ways.first?_ne_error (hbody start) cause

/-- A group whose body has no fault has none. -/
theorem groupWays_faultless {mode : LookaroundMode} {behaviour : Behaviour} {body : Nat → Ways}
    (hbody : ∀ pos, (body pos).Faultless) (pos : Nat) :
    (groupWays mode behaviour body pos).Faultless := by
  unfold groupWays
  split
  · next behind negative =>
      unfold assertion
      simp only
      split
      · next cause hcause =>
          split at hcause
          · exact firstBehind?_ne_error hbody pos _ cause hcause
          · exact Ways.first?_ne_error (hbody pos) cause hcause
      · split <;> exact trivial
      · exact Ways.faultless_singleIf _ pos
  · exact hbody pos

/-- The code points of a subject are code points. -/
def Context.Readable (ctx : Context) : Prop :=
  ∀ pos c, Utf16.codePointAt? ctx.units pos = some c → c < codePointLimit

/-- In the view of a text of code points, code points are read. -/
theorem Context.readable_encode {text : Text} (valid : text.Valid) (options : Options) :
    (Context.mk (Utf16.encode text) options).Readable :=
  fun _ _ hc => Utf16.codePointAt?_lt valid hc

theorem Context.Readable.isCodePoint (readable : ctx.Readable) {pos : Nat} {c : CodePoint}
    (h : Utf16.codePointAt? ctx.units pos = some c) : IsCodePoint c :=
  ⟨Int.natCast_nonneg c, Int.ofNat_lt.mpr (readable pos c h)⟩

mutual

/-- A tree of the ten kinds has no fault. -/
theorem ways_faultless (readable : ctx.Readable) (address : Address) :
    ∀ (node : Node), node.Testable ctx.options.ignoreCase → ∀ pos,
      (ways ctx address node pos).Faultless
  | .anchor kind, _, pos => by
      rw [ways]
      exact Ways.faultless_after_iff.mpr (Ways.faultless_singleIf _ pos)
  | .value c, h, pos => by
      rw [ways]
      rw [Node.Testable] at h
      have hitem : Node.TestableItem ctx.options.ignoreCase (.value c) := h
      refine Ways.faultless_after_iff.mpr (leafWays_faultless fun d hd => ?_)
      exact Leaf.itemAccepts_ok hitem (readable.isCodePoint hd)
  | .dot, _, pos => by
      rw [ways]
      exact Ways.faultless_after_iff.mpr (leafWays_faultless fun d hd => ⟨_, rfl⟩)
  | .escape kind, _, pos => by
      rw [ways]
      refine Ways.faultless_after_iff.mpr (leafWays_faultless fun d hd => ?_)
      exact Leaf.escapeAccepts_ok (readable.isCodePoint hd) kind
  | .charClass negative items, h, pos => by
      rw [ways]
      rw [Node.Testable] at h
      refine Ways.faultless_after_iff.mpr (leafWays_faultless fun d hd => ?_)
      obtain ⟨accepted, haccepted⟩ := Leaf.someItemAccepts_ok h (readable.isCodePoint hd)
      exact ⟨accepted != negative, congrArg (Except.map (· != negative)) haccepted⟩
  | .unsupported kind raw, _, pos => by
      rw [ways]
      exact trivial
  | .alternative body, h, pos => by
      rw [ways]
      rw [Node.Testable] at h
      exact Ways.faultless_after_iff.mpr (sequenceWays_faultless readable address 0 body h pos)
  | .disjunction branches, h, pos => by
      rw [ways]
      rw [Node.Testable] at h
      exact Ways.faultless_after_iff.mpr (choiceWays_faultless readable address 0 branches h pos)
  | .group behaviour body name number, h, pos => by
      rw [ways]
      rw [Node.Testable] at h
      have hbody := sequenceWays_faultless readable address 0 body h
      exact Ways.faultless_after_iff.mpr (groupWays_faultless hbody pos)
  | .quantifier min max greedy body shorthand, h, pos => by
      rw [ways]
      rw [Node.Testable] at h
      split
      · exact trivial
      · have hbody := ways_faultless readable (address ++ [.repeated]) body h
        exact Ways.faultless_after_iff.mpr (rounds_faultless hbody 0 pos)
  | .range min max, h, pos => by
      rw [Node.Testable] at h
      exact h.elim
  | .alien, h, pos => by
      rw [Node.Testable] at h
      exact h.elim
  | .absent, h, pos => by
      rw [Node.Testable] at h
      exact h.elim

theorem sequenceWays_faultless (readable : ctx.Readable) (address : Address) (index : Nat) :
    ∀ (body : List Node), Node.TestableAll ctx.options.ignoreCase body → ∀ pos,
      (sequenceWays ctx address index body pos).Faultless
  | [], _, pos => by
      rw [sequenceWays]
      exact trivial
  | node :: rest, h, pos => by
      rw [sequenceWays]
      rw [Node.TestableAll] at h
      exact Ways.faultless_andThen_iff.mpr ⟨ways_faultless readable _ node h.1 pos, fun stop _ =>
        sequenceWays_faultless readable address (index + 1) rest h.2 stop⟩

theorem choiceWays_faultless (readable : ctx.Readable) (address : Address) (index : Nat) :
    ∀ (branches : List Node), Node.TestableAll ctx.options.ignoreCase branches → ∀ pos,
      (choiceWays ctx address index branches pos).Faultless
  | [], _, pos => by
      rw [choiceWays]
      exact trivial
  | node :: rest, h, pos => by
      rw [choiceWays]
      rw [Node.TestableAll] at h
      exact Ways.faultless_append_iff.mpr ⟨ways_faultless readable _ node h.1 pos,
        choiceWays_faultless readable address (index + 1) rest h.2 pos⟩

end

/-- The search for a tree of the ten kinds has no fault at any start. -/
theorem rootWays_faultless (readable : ctx.Readable) {root : Node}
    (h : root.Testable ctx.options.ignoreCase) (start : Nat) :
    (rootWays ctx root start).Faultless := by
  cases root with
  | alternative body => exact sequenceWays_faultless readable [] 0 body h start
  | disjunction branches => exact choiceWays_faultless readable [] 0 branches h start
  | _ => exact ways_faultless readable [] _ h start

end Search

end RegexTrace
