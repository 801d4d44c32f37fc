import Mathlib.Data.Nat.Digits.Defs
import RegexTrace.Proofs.Adequacy
import RegexTrace.Proofs.Listing
import RegexTrace.Proofs.Lookups
import RegexTrace.Proofs.Provenance

/-!
# Nothing fails on the tree of a pattern

Whoever gets the tree of a pattern gets an answer: there are explanations, labels, a flow graph and
an outline, and a search without a budget has a trace in every text. The bounds of repetitions can
be written out as they were read, and no search looks at a unit that its subject does not have.
-/

namespace RegexTrace

namespace Node

/-- The bounds of a repetition have no more digits than can be written. -/
def BoundsWritable : Node → Prop
  | .quantifier min max _ _ _ =>
    ∀ bound ∈ min :: max.toList, (Text.ofInt bound).length ≤ Numeral.digitLimit
  | _ => True

end Node

theorem Unicode.decimalValue?_getD_lt (c : CodePoint) : (decimalValue? c).getD 0 < 10 := by
  unfold decimalValue?
  cases decimalRanges.find? c with
  | none => exact (by decide : 0 < 10)
  | some range => exact Nat.mod_lt _ (by decide)

namespace Numeral

/-- A number of so many decimal digits is less than that power of ten. -/
theorem value_lt (digits : Text) : value digits < 10 ^ digits.length := by
  have hfold : ∀ n bound, n < bound →
      digits.foldl (fun n c => n * 10 + (Unicode.decimalValue? c).getD 0) n <
        bound * 10 ^ digits.length := by
    induction digits with
    | nil => exact fun n bound h => by simpa using h
    | cons c rest ih =>
        intro n bound h
        have hc := Unicode.decimalValue?_getD_lt c
        have hnext := ih (n * 10 + (Unicode.decimalValue? c).getD 0) (bound * 10) (by omega)
        rw [Nat.mul_assoc, ← Nat.pow_succ'] at hnext
        exact hnext
  simpa [value] using hfold 0 1 (by decide)

/-- A number that was read can be written: it has no more digits than are read. -/
theorem length_ofNat_le_of_ofDigits {digits : Text} {n : Nat} (h : ofDigits digits = .ok n) :
    (Text.ofNat n).length ≤ digitLimit := by
  unfold ofDigits at h
  split at h
  · cases h
  · next hshort =>
      obtain rfl := Except.ok.inj h
      rw [Text.ofNat, List.length_map]
      apply Nat.toDigits_length _ _ _ (by decide)
      apply Nat.lt_of_lt_of_le (value_lt digits)
      exact Nat.pow_le_pow_right (by decide) (Nat.not_lt.mp hshort)

end Numeral

namespace Pattern

/-- The numbers in braces can be written. -/
theorem Braces.bounds_writable {braces : Braces} {min : Nat} {max : Option Nat}
    (h : braces.bounds = .ok (min, max)) :
    ∀ bound ∈ min :: max.toList, (Text.ofNat bound).length ≤ Numeral.digitLimit := by
  obtain ⟨low, high, width⟩ := braces
  rcases Numeral.ofDigits_spec low with ⟨n, hlow⟩ | ⟨⟨fault, hlow⟩, -⟩
  · have hlowShort := Numeral.length_ofNat_le_of_ofDigits hlow
    rcases high with _ | _ | ⟨c, rest⟩
    · rw [bounds_one hlow] at h
      cases h
      exact List.forall_mem_cons.mpr ⟨hlowShort, List.forall_mem_singleton.mpr hlowShort⟩
    · rw [bounds_open hlow] at h
      cases h
      exact List.forall_mem_singleton.mpr hlowShort
    · rcases Numeral.ofDigits_spec (c :: rest) with ⟨m, hhigh⟩ | ⟨⟨fault, hhigh⟩, -⟩
      · have hhighShort := Numeral.length_ofNat_le_of_ofDigits hhigh
        rw [bounds_two (List.cons_ne_nil c rest) hlow hhigh] at h
        split at h
        · cases h
        · cases h
          exact List.forall_mem_cons.mpr ⟨hlowShort, List.forall_mem_singleton.mpr hhighShort⟩
      · rw [Braces.bounds, hlow] at h
        dsimp only at h
        rw [hhigh] at h
        cases h
  · rw [Braces.bounds, hlow] at h
    cases h

/-- The numbers of a bare mark can be written. -/
theorem readBare?_writable {t : Text} {min : Nat} {max : Option Nat} {shorthand : Option Shorthand}
    {width : Nat} (h : readBare? t = .ok (some (min, max, shorthand, width))) :
    ∀ bound ∈ min :: max.toList, (Text.ofNat bound).length ≤ Numeral.digitLimit := by
  unfold readBare? at h
  split at h
  · cases h
    decide
  · cases h
    decide
  · cases h
    decide
  · split at h
    · cases h
    · next braces hbraces =>
        obtain ⟨⟨low, high⟩, hbounds, heq⟩ := exists_of_bind_ok h
        cases heq
        exact Braces.bounds_writable hbounds

/-- A repetition that is read has bounds that can be written. -/
theorem Repetition.apply_boundsWritable {t : Text} {repetition : Repetition}
    (h : Repetition.read? t = .ok (some repetition)) (body : Node) :
    (repetition.apply body).BoundsWritable := by
  unfold Repetition.read? at h
  obtain ⟨mark, hbare, h⟩ := exists_of_bind_ok h
  cases mark with
  | none => cases h
  | some mark =>
      obtain ⟨min, max, shorthand, width⟩ := mark
      have hwritable := readBare?_writable hbare
      have hbounds : repetition.min = min ∧ repetition.max = max := by
        simp only at h
        split at h <;> cases h <;> exact ⟨rfl, rfl⟩
      obtain ⟨rfl, rfl⟩ := hbounds
      obtain ⟨hmin, hmax⟩ := List.forall_mem_cons.mp hwritable
      refine List.forall_mem_cons.mpr ⟨hmin, fun bound hbound => ?_⟩
      obtain ⟨limit, hlimit, rfl⟩ := Option.map_eq_some_iff.mp (Option.mem_toList.mp hbound)
      exact hmax limit (Option.mem_toList.mpr hlimit)

/-- Everything that is read in a pattern has bounds that can be written. -/
theorem readOff_boundsWritable {pattern : Text} (valid : pattern.Valid) :
    ReadOff pattern (fun _ => True) Node.BoundsWritable where
  literalItem _ := trivial
  escapeItem _ _ := trivial
  range _ := trivial
  charClass _ _ _ := trivial
  dot := trivial
  anchor _ := trivial
  literal _ := trivial
  escape {t node width} left h := by
    have hfits := readEscape_fits false fun c hc =>
      valid c (left.subset (List.mem_cons_of_mem _ hc))
    rw [h] at hfits
    cases node <;> first | exact trivial | exact hfits.1.elim
  group _ _ _ _ := trivial
  alternative _ := trivial
  disjunction _ := trivial
  repeated body _ h := Repetition.apply_boundsWritable h body

/-- Without a budget the tree of a pattern has a trace in every text. -/
theorem exists_trace {options : Options} (unlimited : options.maxSteps = none) {root : Node}
    (h : root.IsPattern) {text : Text} (valid : text.Valid) :
    ∃ found, Search.trace options root text = .ok found := by
  obtain ⟨span, hspan⟩ := Search.exists_span? unlimited (h.testableIn _) valid
  obtain ⟨found, hfound, -⟩ := exists_of_map_ok hspan
  exact ⟨found, hfound⟩

/-- Nothing fails on the tree of a pattern: its explanations, the words and the label of each of its
nodes, its flow graph and its outline are there, its bounds can be written out, and a search without
a budget has a trace in every text and never looks at a unit that is not there. -/
theorem views_and_searches_total {pattern : Text} (valid : pattern.Valid) {parsed : Parsed}
    (h : parse pattern = .ok parsed) :
    (∃ explanations, Explanation.ofTree parsed.root = .ok explanations) ∧
      (∀ address node, parsed.root.at? address = some node →
        (∃ label, node.label = .ok label) ∧ (∃ text, Explanation.describe node = .ok text) ∧
          node.BoundsWritable) ∧
      (∃ graph, Flow.Graph.ofTree parsed.root = .ok graph) ∧
      (∀ id, ∃ outline, Outline.ofNode id parsed.root = .ok outline) ∧
      ∀ (options : Options) (text : Text), text.Valid →
        (∃ found, Search.trace { options with maxSteps := none } parsed.root text = .ok found) ∧
          ∀ missed, Search.runOr missed { options with maxSteps := none } parsed.root text =
            Search.run { options with maxSteps := none } parsed.root text := by
  have hroot := isPattern_of_parse valid h
  have hpart : parsed.root.IsPart := Or.inr hroot
  have hbounds := (readOff_boundsWritable valid).everywhere valid h
  refine ⟨?_, ?_, ?_, Outline.ofNode_ok_of_isPart hpart, ?_⟩
  · obtain ⟨explanations, hlisted, -⟩ := Explanation.ofTree_spec hpart
    exact ⟨explanations, hlisted⟩
  · intro address node hat
    have hnode := hpart.at? hat
    exact ⟨hnode.label_ok, hnode.describe_ok, hbounds address node hat⟩
  · obtain ⟨graph, _, _, _, hgraph, -⟩ := Flow.Graph.ofTree_spec hpart
    exact ⟨graph, hgraph⟩
  · intro options text htext
    exact ⟨exists_trace rfl hroot htext, fun missed => Search.runOr_eq missed _ _ _⟩

/-- A pattern with a named group, a negated class with a range, and bounds. Its tree is searched in
a text with a lone surrogate. -/
theorem views_and_searches_total_class :
    let pattern : Text := "^(?<n>[^a-f]\x7b2\x7d|\\b)$"
    let text : Text := [0xD83D, 0x0A]
    let options : Options := { multiline := true, ignoreCase := true }
    pattern.Valid ∧ text.Valid ∧ ∃ parsed, parse pattern = .ok parsed ∧
      ((∃ explanations, Explanation.ofTree parsed.root = .ok explanations) ∧
        (∀ address node, parsed.root.at? address = some node →
          (∃ label, node.label = .ok label) ∧ (∃ text, Explanation.describe node = .ok text) ∧
            node.BoundsWritable) ∧
        (∃ graph, Flow.Graph.ofTree parsed.root = .ok graph) ∧
        (∀ id, ∃ outline, Outline.ofNode id parsed.root = .ok outline)) ∧
      (∃ found, Search.trace { options with maxSteps := none } parsed.root text = .ok found) ∧
        ∀ missed, Search.runOr missed { options with maxSteps := none } parsed.root text =
          Search.run { options with maxSteps := none } parsed.root text := by
  intro pattern text options
  have valid : pattern.Valid := by decide
  have htext : text.Valid := by decide
  obtain ⟨parsed, hparsed⟩ : ∃ parsed, parse pattern = .ok parsed := ⟨_, rfl⟩
  obtain ⟨hwords, hnodes, hgraph, houtline, hsearch⟩ := views_and_searches_total valid hparsed
  refine ⟨valid, htext, parsed, hparsed, ⟨hwords, hnodes, hgraph, houtline⟩, ?_⟩
  exact hsearch options text htext

end Pattern

end RegexTrace
