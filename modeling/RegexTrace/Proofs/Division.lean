import Mathlib.Logic.Relation
import RegexTrace.Proofs.Adequacy
import RegexTrace.Proofs.Halves

/-!
# Patterns that divide a code point

Between the two units of a wide code point only the second unit is left to be read. A pattern
divides the code point when it may match there and not from its start, or the other way round. A
pattern that does neither relates both positions to the same ends.

## Implementation notes

A negative assertion holds where its body has no match, so whether it divides a code point depends
on where its body matches from the start and not from inside. Both questions are answered by one
recursion over the tree, which is asked for one of the two readings.
-/

namespace RegexTrace

open Utf16

/-- A leaf accepts a code point. A test without an answer accepts nothing. -/
def Leaf.admits (rules : Rules) (leaf : Node) (c : CodePoint) : Bool :=
  match accepts rules leaf c with
  | .ok accepted => accepted
  | .error _ => false

theorem Leaf.admits_iff {rules : Rules} {leaf : Node} {c : CodePoint} :
    admits rules leaf c = true ↔ accepts rules leaf c = .ok true := by
  unfold admits
  cases accepts rules leaf c with
  | ok accepted => simp
  | error cause => simp

/-- An anchor may hold where a wide code point is read one way and not where it is read the other
way: no anchor but the denial of a word boundary holds inside of it. -/
def AnchorKind.divides (reading : Reading) : AnchorKind → Bool
  | .start | .boundary => reading == .whole
  | .finish => false
  | .notBoundary | .other _ => reading == .part

/-- A leaf accepts what is read of a wide code point one way and not the other way. -/
def Leaf.divides (rules : Rules) (c : CodePoint) (reading : Reading) (leaf : Node) : Bool :=
  admits rules leaf (reading.seen c) && !admits rules leaf (reading.other.seen c)

namespace Node

mutual

/-- A pattern may match where a wide code point is read one way and not where it is read the other
way. -/
def divides (options : Options) (c : CodePoint) (reading : Reading) : Node → Bool
  | .anchor kind => kind.divides reading
  | .value n => Leaf.divides options.rules c reading (.value n)
  | .dot => Leaf.divides options.rules c reading .dot
  | .escape kind => Leaf.divides options.rules c reading (.escape kind)
  | .charClass negative items => Leaf.divides options.rules c reading (.charClass negative items)
  | .alternative body => dividesSome options c reading body
  | .disjunction branches => dividesSome options c reading branches
  | .group behaviour body _ _ =>
    match behaviour, options.lookaround with
    | .look false negative, .assert =>
      dividesSome options c (if negative then reading.other else reading) body
    | .look true negative, .assert =>
      negative == (reading == .part) || dividesSome options c .part body
    | _, _ => dividesSome options c reading body
  | .quantifier _ _ _ body _ => divides options c reading body
  | .unsupported _ _ | .range _ _ | .alien | .absent => false

/-- Some of several patterns may match where a wide code point is read one way only. -/
def dividesSome (options : Options) (c : CodePoint) (reading : Reading) : List Node → Bool
  | [] => false
  | node :: rest => divides options c reading node || dividesSome options c reading rest

end

end Node

namespace Search

/-! ### Moves -/

/-- A move over the code point that is read at a position. -/
def Moves (units : Units) (start stop : Nat) : Prop :=
  ∃ c, codePointAt? units start = some c ∧ stop = start + width c

/-- Any number of moves. -/
abbrev Travels (units : Units) : Nat → Nat → Prop := Relation.ReflTransGen (Moves units)

theorem Travels.le {units : Units} {start stop : Nat} (h : Travels units start stop) :
    start ≤ stop := by
  induction h with
  | refl => exact Nat.le_refl start
  | tail _ last ih =>
      obtain ⟨c, -, rfl⟩ := last
      exact Nat.le_add_right_of_le ih

theorem Travels.eq_or_isBoundary {text : Text} (valid : text.Valid) (unsplit : Unsplit text)
    {start stop : Nat} (h : Travels (encode text) start stop) :
    stop = start ∨ IsBoundary text stop := by
  rcases h.cases_tail with rfl | ⟨mid, -, c, hc, rfl⟩
  · exact Or.inl rfl
  · exact Or.inr (isBoundary_of_codePointAt? valid unsplit hc)

section Moves

variable {ctx : Context} {start stop : Nat}

theorem LeafRelates.travels {node : Node} (h : LeafRelates ctx node start stop) :
    Travels ctx.units start stop := by
  obtain ⟨c, hc, -, hstop⟩ := h
  exact .single ⟨c, hc, hstop⟩

theorem Iterated.travels {r : Nat → Nat → Prop}
    (hr : ∀ start stop, r start stop → Travels ctx.units start stop) (count : Nat)
    (h : Iterated r count start stop) : Travels ctx.units start stop := by
  induction count generalizing start with
  | zero => exact h ▸ .refl
  | succ count ih =>
      obtain ⟨mid, hmid, hrest⟩ := h
      exact (hr start mid hmid).trans (ih hrest)

/-- A group leads where its body does, or nowhere. -/
theorem GroupRelates.travels {r : Nat → Nat → Prop}
    (hr : ∀ start stop, r start stop → Travels ctx.units start stop) {mode : LookaroundMode}
    {behaviour : Behaviour} (h : GroupRelates mode behaviour r start stop) :
    Travels ctx.units start stop := by
  cases behaviour with
  | look behind negative =>
      cases mode with
      | consume => exact hr start stop h
      | assert => exact h.1 ▸ .refl
  | _ => exact hr start stop h

end Moves

mutual

/-- A pattern leads on by moves over code points. -/
theorem relates_travels {ctx : Context} : ∀ (node : Node) (start stop : Nat),
    Relates ctx node start stop → Travels ctx.units start stop
  | .anchor kind, start, stop, h => by
      rw [Relates] at h
      exact h.2 ▸ .refl
  | .value c, start, stop, h => by
      rw [Relates] at h
      exact h.travels
  | .dot, start, stop, h => by
      rw [Relates] at h
      exact h.travels
  | .escape kind, start, stop, h => by
      rw [Relates] at h
      exact h.travels
  | .charClass negative items, start, stop, h => by
      rw [Relates] at h
      exact h.travels
  | .unsupported kind raw, start, stop, h => by
      rw [Relates] at h
      exact h.elim
  | .alternative body, start, stop, h => by
      rw [Relates] at h
      exact relatesAll_travels body start stop h
  | .disjunction branches, start, stop, h => by
      rw [Relates] at h
      exact relatesSome_travels branches start stop h
  | .group behaviour body name number, start, stop, h => by
      rw [Relates] at h
      exact h.travels (relatesAll_travels body)
  | .quantifier min max greedy body shorthand, start, stop, h => by
      rw [Relates] at h
      obtain ⟨-, count, -, hchain⟩ := h
      exact hchain.travels (relates_travels body) count
  | .range min max, start, stop, h => by
      rw [Relates] at h
      exact h.elim
  | .alien, start, stop, h => by
      rw [Relates] at h
      exact h.elim
  | .absent, start, stop, h => by
      rw [Relates] at h
      exact h.elim

theorem relatesAll_travels {ctx : Context} : ∀ (body : List Node) (start stop : Nat),
    RelatesAll ctx body start stop → Travels ctx.units start stop
  | [], start, stop, h => by
      rw [RelatesAll] at h
      exact h ▸ .refl
  | node :: rest, start, stop, h => by
      rw [RelatesAll] at h
      obtain ⟨mid, hmid, hrest⟩ := h
      exact (relates_travels node start mid hmid).trans (relatesAll_travels rest mid stop hrest)

theorem relatesSome_travels {ctx : Context} : ∀ (branches : List Node) (start stop : Nat),
    RelatesSome ctx branches start stop → Travels ctx.units start stop
  | [], start, stop, h => by
      rw [RelatesSome] at h
      exact h.elim
  | node :: rest, start, stop, h => by
      rw [RelatesSome] at h
      rcases h with h | h
      · exact relates_travels node start stop h
      · exact relatesSome_travels rest start stop h

end

/-! ### From one reading to the other -/

/-- What is related to a source is related to a target: the source itself to the target itself, and
any other end, which lies beyond both, to the target too. -/
def Carries (r : Nat → Nat → Prop) (source target : Nat) : Prop :=
  ∀ stop, r source stop →
    (stop = source ∧ r target target) ∨ (source < stop ∧ target < stop ∧ r target stop)

namespace Carries

variable {r r' : Nat → Nat → Prop} {source target : Nat}

theorem of_iff (hiff : ∀ start stop, r start stop ↔ r' start stop)
    (h : Carries r' source target) : Carries r source target := by
  intro stop hstop
  rcases h stop ((hiff source stop).mp hstop) with ⟨heq, hback⟩ | ⟨hsource, htarget, hback⟩
  · exact Or.inl ⟨heq, (hiff target target).mpr hback⟩
  · exact Or.inr ⟨hsource, htarget, (hiff target stop).mpr hback⟩

theorem held {condition : Nat → Prop} (h : condition source → condition target) :
    Carries (fun start stop => stop = start ∧ condition start) source target := by
  rintro stop ⟨rfl, hcondition⟩
  exact Or.inl ⟨rfl, rfl, h hcondition⟩

theorem or (h : Carries r source target) (h' : Carries r' source target) :
    Carries (fun start stop => r start stop ∨ r' start stop) source target := by
  rintro stop (hstop | hstop)
  · exact (h stop hstop).imp (And.imp_right Or.inl) (And.imp_right (And.imp_right Or.inl))
  · exact (h' stop hstop).imp (And.imp_right Or.inr) (And.imp_right (And.imp_right Or.inr))

theorem comp (h : Carries r source target) (h' : Carries r' source target)
    (hforward : ∀ start stop, r' start stop → start ≤ stop) :
    Carries (fun start stop => ∃ mid, r start mid ∧ r' mid stop) source target := by
  rintro stop ⟨mid, hmid, hstop⟩
  rcases h mid hmid with ⟨rfl, hback⟩ | ⟨hsource, htarget, hback⟩
  · rcases h' stop hstop with ⟨rfl, hhere⟩ | ⟨hsource, htarget, honward⟩
    · exact Or.inl ⟨rfl, target, hback, hhere⟩
    · exact Or.inr ⟨hsource, htarget, target, hback, honward⟩
  · have hle := hforward mid stop hstop
    exact Or.inr ⟨Nat.lt_of_lt_of_le hsource hle, Nat.lt_of_lt_of_le htarget hle, mid, hback, hstop⟩

theorem iterated (h : Carries r source target)
    (hforward : ∀ count start stop, Iterated r count start stop → start ≤ stop) (count : Nat) :
    Carries (Iterated r count) source target := by
  induction count with
  | zero =>
      rintro stop rfl
      exact Or.inl ⟨rfl, rfl⟩
  | succ count ih => exact h.comp ih (hforward count)

theorem exists_stop (h : Carries r source target) :
    (∃ stop, r source stop) → ∃ stop, r target stop := by
  rintro ⟨stop, hstop⟩
  rcases h stop hstop with ⟨-, hback⟩ | ⟨-, -, hback⟩
  · exact ⟨target, hback⟩
  · exact ⟨stop, hback⟩

end Carries

section Readings

variable {text : Text} {c : CodePoint} {pos : Nat} {options : Options} {reading : Reading}

/-- A leaf that does not divide a code point is carried from one reading of it to the other. -/
theorem leaf_carries (h : WideAt text c pos) (valid : text.Valid) (unsplit : Unsplit text)
    {leaf : Node} (hdivides : Leaf.divides options.rules c reading leaf = false) :
    Carries (LeafRelates ⟨encode text, options⟩ leaf) (reading.position pos)
      (reading.other.position pos) := by
  rintro stop ⟨d, hread, haccepts, rfl⟩
  rw [h.codePointAt?_position valid unsplit] at hread
  obtain rfl := Option.some.inj hread
  rw [Leaf.divides, Leaf.admits_iff.mpr haccepts, Bool.true_and, Bool.not_eq_false',
    Leaf.admits_iff] at hdivides
  rw [h.position_add_width]
  refine Or.inr ⟨reading.position_lt pos, reading.other.position_lt pos, reading.other.seen c, ?_,
    hdivides, (h.position_add_width reading.other).symm⟩
  exact h.codePointAt?_position valid unsplit reading.other

/-- No unit of a wide code point is a newline. -/
theorem getElem?_position_ne_newline (h : WideAt text c pos) (valid : text.Valid)
    (reading : Reading) : (encode text)[reading.position pos]? ≠ some newline := by
  obtain ⟨⟨high, hhigh, hishigh⟩, hlow⟩ := h.units valid
  intro hnewline
  cases reading with
  | whole =>
      obtain rfl := Option.some.inj (hhigh.symm.trans hnewline)
      cases hishigh
  | part =>
      have heq := Option.some.inj (hlow.symm.trans hnewline)
      have hislow := isLow_lowHalf c
      rw [heq] at hislow
      cases hislow

theorem start_not_inside (h : WideAt text c pos) (valid : text.Valid) :
    anchorHolds ⟨encode text, options⟩ .start (pos + 1) = false := by
  have hunit : (encode text)[pos]? ≠ some newline := getElem?_position_ne_newline h valid .whole
  simp [anchorHolds, hunit]

theorem finish_not_before (h : WideAt text c pos) (valid : text.Valid) (reading : Reading) :
    anchorHolds ⟨encode text, options⟩ .finish (reading.position pos) = false := by
  have hlt : reading.position pos ≠ (encode text).size := by
    have hsize := h.lt_size valid
    have hposition := reading.position_lt pos
    omega
  simp [anchorHolds, hlt, getElem?_position_ne_newline h valid reading]

theorem not_word_inside (h : WideAt text c pos) (valid : text.Valid) :
    Leaf.isWordAt (codePointBefore? (encode text) (pos + 1)) = false ∧
      Leaf.isWordAt (codePointAt? (encode text) (pos + 1)) = false := by
  obtain ⟨high, hbefore, hhigh⟩ := h.codePointBefore?_inside valid
  have hlow := isLow_lowHalf c
  rw [isHigh, Bool.and_eq_true, decide_eq_true_eq, decide_eq_true_eq] at hhigh
  rw [isLow, Bool.and_eq_true, decide_eq_true_eq, decide_eq_true_eq] at hlow
  rw [hbefore, h.codePointAt?_inside valid]
  exact ⟨Unicode.isWord_eq_false_of_surrogate hhigh.1 (Nat.le_trans hhigh.2 (by decide)),
    Unicode.isWord_eq_false_of_surrogate (Nat.le_trans (by decide) hlow.1) hlow.2⟩

/-- An anchor that does not divide a code point holds at the one position if it holds at the
other. -/
theorem anchor_carries (h : WideAt text c pos) (valid : text.Valid) {kind : AnchorKind}
    (hdivides : kind.divides reading = false)
    (hholds : anchorHolds ⟨encode text, options⟩ kind (reading.position pos) = true) :
    anchorHolds ⟨encode text, options⟩ kind (reading.other.position pos) = true := by
  have hword := not_word_inside h valid
  cases reading with
  | whole =>
      cases kind with
      | start | boundary => cases hdivides
      | finish =>
          rw [finish_not_before h valid] at hholds
          cases hholds
      | notBoundary | other =>
          simp [anchorHolds, Reading.other, Reading.position, hword]
  | part =>
      cases kind with
      | notBoundary | other => cases hdivides
      | start =>
          have hnot : anchorHolds ⟨encode text, options⟩ .start (pos + 1) = false :=
            start_not_inside h valid
          exact absurd (hnot.symm.trans hholds) Bool.false_ne_true
      | finish =>
          rw [finish_not_before h valid] at hholds
          cases hholds
      | boundary => simp [anchorHolds, Reading.position, hword] at hholds

theorem Travels.eq_of_inside (h : WideAt text c pos) (valid : text.Valid) (unsplit : Unsplit text)
    {start : Nat} (htravels : Travels (encode text) start (pos + 1)) : start = pos + 1 := by
  rcases htravels.eq_or_isBoundary valid unsplit with heq | hboundary
  · exact heq.symm
  · exact absurd hboundary h.not_isBoundary

variable {r : Nat → Nat → Prop}

/-- A body that matches up to the inside of a code point matches emptily, and if it does not divide
the code point, it matches emptily at the start too. -/
theorem LooksTo.carries_part (h : WideAt text c pos) (valid : text.Valid) (unsplit : Unsplit text)
    (htravels : ∀ start stop, r start stop → Travels (encode text) start stop)
    (hcarries : Carries r (pos + 1) pos) (hlooks : LooksTo true r (pos + 1)) :
    LooksTo true r pos := by
  obtain ⟨start, -, hstop⟩ := hlooks
  obtain rfl := (htravels start (pos + 1) hstop).eq_of_inside h valid unsplit
  rcases hcarries (pos + 1) hstop with ⟨-, hback⟩ | ⟨hlt, -, -⟩
  · exact ⟨pos, Nat.le_refl pos, hback⟩
  · exact absurd hlt (Nat.lt_irrefl _)

/-- A group is carried if it does not divide the code point and its body is carried unless it
divides the code point. -/
theorem group_carries (h : WideAt text c pos) (valid : text.Valid) (unsplit : Unsplit text)
    {behaviour : Behaviour} {body : List Node} {name : Option Text} {number : Option Int}
    (htravels : ∀ start stop, r start stop → Travels (encode text) start stop)
    (hbody : ∀ reading : Reading, Node.dividesSome options c reading body = false →
      Carries r (reading.position pos) (reading.other.position pos))
    (hdivides : (Node.group behaviour body name number).divides options c reading = false) :
    Carries (GroupRelates options.lookaround behaviour r) (reading.position pos)
      (reading.other.position pos) := by
  unfold Node.divides at hdivides
  generalize options.lookaround = mode at hdivides
  cases behaviour with
  | look behind negative =>
      cases mode with
      | consume => cases behind <;> exact hbody reading hdivides
      | assert =>
          apply Carries.held
          cases behind with
          | false =>
              cases negative with
              | false => exact (hbody reading hdivides).exists_stop
              | true =>
                  have hback := (hbody reading.other hdivides).exists_stop
                  cases reading <;> exact mt hback
          | true =>
              obtain ⟨hside, hpart⟩ := Bool.or_eq_false_iff.mp hdivides
              have hlooks := LooksTo.carries_part h valid unsplit htravels (hbody .part hpart)
              cases reading <;> cases negative
              · cases hside
              · exact mt hlooks
              · exact hlooks
              · cases hside
  | _ => exact hbody reading hdivides

mutual

/-- A pattern that does not divide a code point is carried from one reading of it to the other. -/
theorem relates_carries (h : WideAt text c pos) (valid : text.Valid) (unsplit : Unsplit text) :
    ∀ (node : Node) (reading : Reading), node.divides options c reading = false →
      Carries (Relates ⟨encode text, options⟩ node) (reading.position pos)
        (reading.other.position pos)
  | .anchor kind, reading, hdivides =>
      Carries.of_iff (fun start stop => by rw [Relates, and_comm])
        (Carries.held (anchor_carries h valid hdivides))
  | .value n, reading, hdivides =>
      Carries.of_iff (fun start stop => by rw [Relates]) (leaf_carries h valid unsplit hdivides)
  | .dot, reading, hdivides =>
      Carries.of_iff (fun start stop => by rw [Relates]) (leaf_carries h valid unsplit hdivides)
  | .escape kind, reading, hdivides =>
      Carries.of_iff (fun start stop => by rw [Relates]) (leaf_carries h valid unsplit hdivides)
  | .charClass negative items, reading, hdivides =>
      Carries.of_iff (fun start stop => by rw [Relates]) (leaf_carries h valid unsplit hdivides)
  | .unsupported kind raw, reading, hdivides => fun stop hstop => by
      rw [Relates] at hstop
      exact hstop.elim
  | .alternative body, reading, hdivides =>
      Carries.of_iff (fun start stop => by rw [Relates])
        (relatesAll_carries h valid unsplit body reading hdivides)
  | .disjunction branches, reading, hdivides =>
      Carries.of_iff (fun start stop => by rw [Relates])
        (relatesSome_carries h valid unsplit branches reading hdivides)
  | .group behaviour body name number, reading, hdivides =>
      Carries.of_iff (fun start stop => by rw [Relates])
        (group_carries h valid unsplit (relatesAll_travels body)
          (relatesAll_carries h valid unsplit body) hdivides)
  | .quantifier min max greedy body shorthand, reading, hdivides => by
      have hforward : ∀ count start stop,
          Iterated (Relates ⟨encode text, options⟩ body) count start stop → start ≤ stop :=
        fun count start stop hchain => (hchain.travels (relates_travels body) count).le
      have hcarries := relates_carries h valid unsplit body reading hdivides
      intro stop hstop
      rw [Relates] at hstop
      obtain ⟨hproper, count, hallows, hchain⟩ := hstop
      rw [Relates, Relates]
      exact (hcarries.iterated hforward count stop hchain).imp
        (And.imp_right fun hback => ⟨hproper, count, hallows, hback⟩)
        (And.imp_right (And.imp_right fun hback => ⟨hproper, count, hallows, hback⟩))
  | .range min max, reading, hdivides => fun stop hstop => by
      rw [Relates] at hstop
      exact hstop.elim
  | .alien, reading, hdivides => fun stop hstop => by
      rw [Relates] at hstop
      exact hstop.elim
  | .absent, reading, hdivides => fun stop hstop => by
      rw [Relates] at hstop
      exact hstop.elim

theorem relatesAll_carries (h : WideAt text c pos) (valid : text.Valid) (unsplit : Unsplit text) :
    ∀ (body : List Node) (reading : Reading), Node.dividesSome options c reading body = false →
      Carries (RelatesAll ⟨encode text, options⟩ body) (reading.position pos)
        (reading.other.position pos)
  | [], reading, hdivides => fun stop hstop => by
      rw [RelatesAll] at hstop
      exact Or.inl ⟨hstop.symm, by rw [RelatesAll]⟩
  | node :: rest, reading, hdivides => by
      obtain ⟨hnode, hrest⟩ := Bool.or_eq_false_iff.mp hdivides
      have hforward : ∀ start stop, RelatesAll ⟨encode text, options⟩ rest start stop →
          start ≤ stop := fun start stop hstop => (relatesAll_travels rest start stop hstop).le
      exact Carries.of_iff (fun start stop => by rw [RelatesAll])
        ((relates_carries h valid unsplit node reading hnode).comp
          (relatesAll_carries h valid unsplit rest reading hrest) hforward)

theorem relatesSome_carries (h : WideAt text c pos) (valid : text.Valid) (unsplit : Unsplit text) :
    ∀ (branches : List Node) (reading : Reading),
      Node.dividesSome options c reading branches = false →
        Carries (RelatesSome ⟨encode text, options⟩ branches) (reading.position pos)
          (reading.other.position pos)
  | [], reading, hdivides => fun stop hstop => by
      rw [RelatesSome] at hstop
      exact hstop.elim
  | node :: rest, reading, hdivides => by
      obtain ⟨hnode, hrest⟩ := Bool.or_eq_false_iff.mp hdivides
      exact Carries.of_iff (fun start stop => by rw [RelatesSome])
        ((relates_carries h valid unsplit node reading hnode).or
          (relatesSome_carries h valid unsplit rest reading hrest))

end

/-- A letter of two units is divided where no word character is asked for, but not where anything
except another letter is. -/
example : (Node.escape .notWord).divides {} 0x1D400 .part = true ∧
    (Node.charClass true [.value 'a'.toNat]).divides {} 0x1D400 .part = false := by
  decide +kernel

end Readings

end Search

end RegexTrace
