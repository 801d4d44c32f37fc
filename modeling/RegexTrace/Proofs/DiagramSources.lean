import RegexTrace.Proofs.ClassItems
import RegexTrace.Proofs.DotStatements
import RegexTrace.Proofs.Wiring

/-!
# Sources of diagrams

The flow node of a node carries the label of the node, and the other flow nodes carry fixed labels.
Of the labels of a pattern only that of a literal backslash ends in a backslash: a class ends in its
bracket, a group in its parenthesis, an escape in its letter. So the source of the diagram of a
pattern can be read back exactly if no literal backslash stands outside brackets.
-/

namespace RegexTrace

namespace Flow.Dot

/-- A text that begins with no sign of markup and ends in neither a newline nor a backslash. -/
def Closed (t : Text) : Prop :=
  t.head? ≠ some Ascii.less ∧ t.getLast? ∉ [none, some Ascii.newline, some Ascii.backslash]

instance (t : Text) : Decidable (Closed t) := inferInstanceAs (Decidable (_ ∧ _))

namespace Closed

theorem ne_nil {t : Text} (h : Closed t) : t ≠ [] := by
  rintro rfl
  exact h.2 List.mem_cons_self

/-- A closed text can be read back. -/
theorem readable {t : Text} (h : Closed t) : Readable t := by
  obtain ⟨first, rest, rfl⟩ := List.exists_cons_of_ne_nil h.ne_nil
  obtain ⟨hfirst, hlast⟩ := h
  simp only [List.mem_cons, List.not_mem_nil, or_false, not_or] at hlast
  refine ⟨.of_ends (fun heq => hfirst (congrArg some heq)) hlast.2.1, ?_⟩
  rcases List.eq_nil_or_concat (first :: rest) with hnil | ⟨start, last, hconcat⟩
  · cases hnil
  · rw [List.concat_eq_append] at hconcat
    rw [hconcat] at hlast ⊢
    exact endsOdd_append_singleton (fun heq => hlast.2.2 (by simp [heq])) false start

theorem enclosed {lead tail : Text} (hlead : lead ≠ [] ∧ lead.head? ≠ some Ascii.less)
    (htail : tail.getLast? ∉ [none, some Ascii.newline, some Ascii.backslash]) (t : Text) :
    Closed (lead ++ t ++ tail) := by
  obtain ⟨first, lead, rfl⟩ := List.exists_cons_of_ne_nil hlead.1
  refine ⟨hlead.2, ?_⟩
  cases hlast : tail.getLast? with
  | none => exact absurd (by rw [hlast]; exact List.mem_cons_self) htail
  | some last => rwa [List.getLast?_append, hlast, Option.some_or, ← hlast]

theorem of_notMem {first : CodePoint} {t : Text} (hfirst : first ≠ Ascii.less) (hne : t ≠ [])
    (hnewline : Ascii.newline ∉ t) (hbackslash : Ascii.backslash ∉ t) : Closed (first :: t) := by
  refine ⟨fun heq => hfirst (Option.some.inj heq), ?_⟩
  rw [List.getLast?_cons_of_ne_nil hne, List.getLast?_eq_some_getLast hne]
  have hlast := List.getLast_mem hne
  have hother {c : CodePoint} (hc : c ∉ t) : t.getLast hne ≠ c := fun heq => hc (heq ▸ hlast)
  simp [hother hnewline, hother hbackslash]

end Closed

theorem quotable_singleton (c : CodePoint) : Quotable [c] := by
  by_cases hnewline : c = Ascii.newline
  · subst hnewline
    exact ⟨rfl, fun hplain => absurd hplain (by decide)⟩
  · by_cases hless : c = Ascii.less
    · subst hless
      exact ⟨rfl, fun hplain => absurd hplain (by decide)⟩
    · exact .of_ends hless (by simpa using hnewline)

end Flow.Dot

namespace Node

open Flow.Dot

/-- A construct that is read but never matches has a closed spelling. -/
def RawClosed (node : Node) : Prop := ∀ kind raw, node = .unsupported kind raw → Closed raw

/-- The spelling of the bounds of a repetition is closed. -/
theorem closed_boundsLabel (min : Int) (max : Option Int) : Closed (boundsLabel min max) := by
  unfold boundsLabel
  split
  · exact .enclosed (by decide) (by decide) _
  · split
    · exact .enclosed (by decide) (by decide) _
    · next max _ =>
        have hclosed : Closed (Text.ofString "\x7b" ++
            (Text.ofInt min ++ Text.ofString "," ++ Text.ofInt max) ++ Text.ofString "\x7d") :=
          .enclosed (by decide) (by decide) _
        simpa only [List.append_assoc] using hclosed

/-- The spelling of a repetition is closed. -/
theorem closed_quantifierLabel {min : Int} {max : Option Int} {shorthand : Option Shorthand}
    (h : ShorthandFits min max shorthand) (greedy : Bool) :
    Closed (quantifierLabel min max greedy shorthand) := by
  have hspelled : Closed ((shorthandSpelling? shorthand).getD (boundsLabel min max)) := by
    cases shorthand with
    | none => exact closed_boundsLabel min max
    | some s =>
        cases s with
        | star => exact (by decide : Closed (Text.ofString "*"))
        | plus => exact (by decide : Closed (Text.ofString "+"))
        | question => exact (by decide : Closed (Text.ofString "?"))
        | other spelling => exact h.elim
  cases greedy with
  | true =>
      rw [quantifierLabel, if_pos rfl]
      exact (List.append_nil _).symm ▸ hspelled
  | false =>
      have hlazy := Closed.enclosed ⟨hspelled.ne_nil, hspelled.1⟩
        (show (Text.ofString "?").getLast? ∉ _ by decide) []
      rwa [List.append_nil] at hlazy

theorem closed_groupLabel (behaviour : Behaviour) (name : Option Text) :
    Closed (groupLabel behaviour name) := by
  unfold groupLabel
  split
  · exact .enclosed (by decide) (by decide) _
  · decide
  · exact .enclosed (by decide) (by decide) _

/-- A part of a pattern that is no literal has a closed label. -/
theorem IsPart.closed_label {node : Node} (h : node.IsPart) (hraw : node.RawClosed)
    (hother : ∀ c, node ≠ .value c) {label : Text} (hlabel : node.label = .ok label) :
    Closed label := by
  rcases h with h | h
  · cases h with
    | @anchor kind known =>
        cases kind with
        | other name => exact known.elim
        | _ => cases hlabel; decide
    | @value c codePoint => exact absurd rfl (hother c)
    | dot => cases hlabel; decide
    | @escape kind known =>
        cases kind with
        | other name => exact known.elim
        | _ => cases hlabel; decide
    | @charClass negative items known =>
        obtain ⟨parts, -, heq⟩ := exists_of_bind_ok hlabel
        cases heq
        refine .enclosed ?_ (by decide) _
        cases negative <;> decide
    | @unsupported kind raw known =>
        have hclosed := hraw kind raw rfl
        rw [Node.label, List.isEmpty_eq_false_iff.mpr hclosed.ne_nil] at hlabel
        cases hlabel
        exact hclosed
    | @run behaviour _ name _ labels terms =>
        cases hlabel
        exact closed_groupLabel behaviour name
    | @choice behaviour _ name _ labels several terms =>
        cases hlabel
        exact closed_groupLabel behaviour name
    | @quantifier min max greedy body shorthand nonnegative ordered term repeatable spelling =>
        cases hlabel
        exact closed_quantifierLabel spelling greedy
  · cases h with
    | _ => cases hlabel; decide

/-- A part of a pattern has a label that can be written, and it can be read back unless the part is
a literal backslash. -/
theorem IsPart.quotable_label {node : Node} (h : node.IsPart) (hraw : node.RawClosed) {label : Text}
    (hlabel : node.label = .ok label) :
    Quotable label ∧ (endsOdd false label = false ↔ node ≠ .value Ascii.backslash) := by
  by_cases hvalue : ∃ c, node = .value c
  · obtain ⟨c, rfl⟩ := hvalue
    have codePoint : IsCodePoint c := by
      rcases h with h | h
      · cases h with
        | value codePoint => exact codePoint
      · cases h
    rw [Node.label, Leaf.character_eq_ok codePoint] at hlabel
    cases hlabel
    have hbackslash : c = Ascii.backslash ↔ c.toNat = Ascii.backslash := by
      have hnonneg := codePoint.1
      omega
    refine ⟨quotable_singleton _, ?_⟩
    rw [ne_eq, Node.value.injEq, hbackslash]
    simp [endsOdd]
  · have hother := not_exists.mp hvalue
    have hclosed := h.closed_label hraw hother hlabel
    exact ⟨hclosed.readable.1, iff_of_true hclosed.readable.even (hother _)⟩

end Node

namespace Flow

/-- A flow node carries the label of its node, or a fixed one if it stands for none. -/
def Vertex.Labelled (v : Vertex) : Prop :=
  match v.origin with
  | some o => o.node.label = .ok v.label
  | none => v.label ∈ [Text.ofString "START", Text.ofString "END", Graph.junctionLabel]

namespace Graph

/-- A property of graphs that all that is done for the nodes of a tree preserves. -/
structure Preserved (property : Graph → Prop) : Prop where
  node {g : Graph} {o : Occurrence} {label : Text} (source : Id)
    (labelled : o.node.label = .ok label) (h : property g) :
    property (g.addNode source o label).2
  junction {g : Graph} (h : property g) : property g.addJunction.2
  edge {g : Graph} (source target : Id) (kind : EdgeKind) (h : property g) :
    property (g.addEdge source target kind)

namespace Preserved

variable {property : Graph → Prop}

theorem merges (preserved : Preserved property) {g : Graph} (ends : List Id) (junction : Id)
    (h : property g) : property (g.addMerges ends junction) := by
  unfold addMerges
  induction ends generalizing g with
  | nil => exact h
  | cons source rest ih => exact ih (preserved.edge source junction .alternation h)

mutual

/-- A tree is added with the property preserved. -/
theorem add (preserved : Preserved property) {address : Address} {node : Node} {source last : Id}
    {g g' : Graph} (hadd : Graph.add address node source g = .ok (last, g')) (h : property g) :
    property g' := by
  cases node with
  | alternative body | group _ body _ _ =>
      rw [Graph.add] at hadd
      obtain ⟨label, hlabel, hbody⟩ := exists_of_bind_ok hadd
      exact addChain preserved hbody (preserved.node source hlabel h)
  | quantifier min max greedy body shorthand =>
      rw [Graph.add] at hadd
      obtain ⟨label, hlabel, hadd⟩ := exists_of_bind_ok hadd
      dsimp only at hadd
      split at hadd
      · cases hadd
      · next bodyLast inner hbody =>
          cases hadd
          have hinner := add preserved hbody (preserved.node source hlabel h)
          exact preserved.edge _ _ _ (preserved.junction (preserved.edge _ _ _ hinner))
  | disjunction branches =>
      rw [Graph.add] at hadd
      obtain ⟨label, hlabel, hadd⟩ := exists_of_bind_ok hadd
      dsimp only at hadd
      split at hadd
      · cases hadd
      · next ends inner hbranches =>
          cases hadd
          have hinner := addBranches preserved hbranches (preserved.node source hlabel h)
          exact preserved.merges _ _ (preserved.junction hinner)
  | _ =>
      rw [Graph.add] at hadd
      obtain ⟨label, hlabel, heq⟩ := exists_of_bind_ok hadd
      cases heq
      exact preserved.node source hlabel h
termination_by sizeOf node

theorem addChain (preserved : Preserved property) {address : Address} {index : Nat}
    {body : List Node} {source last : Id} {g g' : Graph}
    (hadd : Graph.addChain address index body source g = .ok (last, g')) (h : property g) :
    property g' := by
  cases body with
  | nil =>
      rw [Graph.addChain] at hadd
      cases hadd
      exact h
  | cons node rest =>
      rw [Graph.addChain] at hadd
      obtain ⟨⟨next, inner⟩, hfirst, hrest⟩ := exists_of_bind_ok hadd
      exact addChain preserved hrest (add preserved hfirst h)
termination_by sizeOf body

theorem addBranches (preserved : Preserved property) {address : Address} {index : Nat}
    {branches : List Node} {source : Id} {ends : List Id} {g g' : Graph}
    (hadd : Graph.addBranches address index branches source g = .ok (ends, g')) (h : property g) :
    property g' := by
  cases branches with
  | nil =>
      rw [Graph.addBranches] at hadd
      cases hadd
      exact h
  | cons node rest =>
      rw [Graph.addBranches] at hadd
      obtain ⟨⟨last, inner⟩, hfirst, hadd⟩ := exists_of_bind_ok hadd
      obtain ⟨⟨others, outer⟩, hrest, heq⟩ := exists_of_bind_ok hadd
      cases heq
      exact addBranches preserved hrest (add preserved hfirst h)
termination_by sizeOf branches

end

end Preserved

/-- All flow nodes of a graph carry the labels that they should. -/
def Labelled (g : Graph) : Prop := ∀ v ∈ g.vertices, v.Labelled

theorem Labelled.addVertex {g : Graph} (h : g.Labelled) {v : Vertex} (hv : v.Labelled) :
    (g.addVertex v).Labelled :=
  Array.forall_mem_push.mpr ⟨hv, h⟩

theorem preserved_labelled : Preserved Labelled where
  node _ labelled h := h.addVertex labelled
  junction h := h.addVertex (by simp [Vertex.Labelled])
  edge _ _ _ h := h

/-- The flow nodes of the graph of a tree carry the labels that they should. -/
theorem labelled_of_ofTree {root : Node} {g : Graph} (h : ofTree root = .ok g) : g.Labelled := by
  have hempty : Labelled {} := fun v hv => absurd hv (Array.not_mem_empty v)
  rw [ofTree] at h
  split at h
  · cases h
    exact hempty
  · obtain ⟨⟨last, inner⟩, hadd, heq⟩ := exists_of_bind_ok h
    cases heq
    have hstart : Labelled (addVertex {} { id := .start, role := .start, label := "START" }) :=
      hempty.addVertex (by simp [Vertex.Labelled])
    have hinner : inner.Labelled := preserved_labelled.add hadd hstart
    exact hinner.addVertex (by simp [Vertex.Labelled])

end Graph

end Flow

namespace Pattern

open Node Flow.Dot

theorem UntestedSpelling.closed {kind raw : Text} (h : UntestedSpelling kind raw) : Closed raw := by
  have ended {last : CodePoint} (t : Text)
      (hlast : [last].getLast? ∉ [none, some Ascii.newline, some Ascii.backslash]) :
      Closed ([Ascii.backslash] ++ t ++ [last]) := .enclosed (by decide) hlast t
  cases h with
  | reference named => exact ended ('k'.toNat :: Ascii.less :: _) (by decide)
  | @property letter inside known closed =>
      exact ended (letter :: Ascii.openBrace :: inside) (by decide)

theorem IsItemOf.rawClosed {pattern : Text} {node : Node} (h : IsItemOf pattern node) :
    node.RawClosed := by
  rintro kind raw rfl
  rcases h with h | ⟨kind, raw, heq, hspelled, -⟩
  · exact h.elim
  · cases heq
    exact hspelled.closed

/-- A reference by a number ends in a digit. -/
theorem closed_reference {c : CodePoint} (hlow : '1'.toNat ≤ c) (hhigh : c ≤ '9'.toNat)
    (rest : Text) : Closed (Ascii.backslash :: (c :: rest).take (referenceWidth rest)) := by
  have hdigits : rest.take (rest.takeWhile Unicode.isDigit).length =
      rest.takeWhile Unicode.isDigit :=
    (List.prefix_iff_eq_take.mp (List.takeWhile_prefix _)).symm
  have hnotMem {d : CodePoint} (hd : Unicode.isDigit d = false) (hne : d ≠ c) :
      d ∉ c :: rest.takeWhile Unicode.isDigit := by
    intro hmem
    rcases List.mem_cons.mp hmem with heq | hmem
    · exact hne heq
    · exact Bool.noConfusion (hd.symm.trans (List.all_eq_true.mp List.all_takeWhile d hmem))
  rw [referenceWidth, Nat.add_comm, List.take_succ_cons, hdigits]
  refine .of_notMem (by decide) (List.cons_ne_nil _ _) (hnotMem (by decide) ?_)
    (hnotMem (by decide) ?_)
  · rintro rfl
    exact absurd hlow (by decide)
  · rintro rfl
    exact absurd hhigh (by decide)

/-- An escape outside brackets has a closed spelling, if it is kept. -/
theorem readLetter_rawClosed (c : CodePoint) (rest : Text) :
    (readLetter false c rest).Answers fun node _ => node.RawClosed := by
  intro node width hread
  cases (readLetter_answers false c rest node width hread).1 with
  | value | escape | anchor => exact nofun
  | number low high =>
      rintro kind raw hraw
      cases hraw
      exact closed_reference low high rest
  | name hc hrest hname => exact hc ▸ hrest ▸ (IsItemOf.reference hname).rawClosed
  | property hc hrest hinside =>
      subst hrest
      exact (IsItemOf.property hc hinside).rawClosed

/-- What is read in a pattern has a closed spelling, if it is kept. -/
theorem readOff_rawClosed (pattern : Text) : ReadOff pattern (fun _ => True) RawClosed where
  literalItem _ := trivial
  escapeItem _ _ := trivial
  range _ := trivial
  charClass _ _ _ := nofun
  dot := nofun
  anchor _ := nofun
  literal _ := nofun
  escape {t _ _} _ h := by
    cases t with
    | nil => cases h
    | cons c rest => exact readLetter_rawClosed c rest _ _ h
  group _ _ _ _ := nofun
  alternative _ := nofun
  disjunction _ := nofun
  repeated _ _ _ := nofun

/-- The label of a flow node of a diagram can be written, and it can be read back unless the flow
node stands for a literal backslash. -/
theorem quotable_label {root : Node} (hpart : root.IsPart) (hraw : root.Everywhere RawClosed)
    {v : Flow.Vertex} (hv : v.Labelled)
    (horigin : ∀ o, v.origin = some o → o ∈ root.occurrences []) :
    Quotable v.label ∧ (endsOdd false v.label = false ↔
      ∀ o, v.origin = some o → o.node ≠ .value Ascii.backslash) := by
  rw [Flow.Vertex.Labelled] at hv
  split at hv
  · next o ho =>
      have hmem := horigin o ho
      obtain ⟨moves, -, hat⟩ := mem_occurrences_iff.mp hmem
      have hlabel := (hpart.of_mem_occurrences hmem).quotable_label (hraw moves o.node hat) hv
      rw [ho]
      simpa using hlabel
  · next hnone =>
      have hfixed : ∀ label ∈ [Text.ofString "START", Text.ofString "END",
          Flow.Graph.junctionLabel], Closed label := by decide
      have hclosed := hfixed v.label hv
      rw [hnone]
      exact ⟨hclosed.readable.1, iff_of_true hclosed.readable.even nofun⟩

/-- The source of the diagram of a pattern reads as the flow graph, with the highlighted flow nodes
filled and no others, exactly if no literal backslash stands outside the classes of the pattern. -/
theorem diagramSource_reads {pattern : Text} (valid : pattern.Valid) {parsed : Parsed}
    (h : parse pattern = .ok parsed) (highlight : List Text) :
    ∃ graph, Flow.Graph.ofTree parsed.root = .ok graph ∧
      (read? (source graph highlight) = some (document graph highlight) ↔
        parsed.root.Everywhere (· ≠ .value Ascii.backslash)) ∧
      ∀ s ∈ (document graph highlight).statements,
        s.fill = if s.nodeId?.any highlight.contains then fillAttributes else [] := by
  have hpart : parsed.root.IsPart := Or.inr (isPattern_of_parse valid h)
  have hraw := (readOff_rawClosed pattern).everywhere valid h
  obtain ⟨graph, hgraph, hshows⟩ := Flow.Graph.exists_shows hpart
  have horigin {v : Flow.Vertex} (hv : v ∈ graph.vertices) {o : Occurrence}
      (ho : v.origin = some o) : o ∈ parsed.root.occurrences [] :=
    hshows.listed ▸ List.mem_filterMap.mpr ⟨v, Array.mem_toList_iff.mpr hv, ho⟩
  -- every label can be written, and only that of a literal backslash cannot be read back
  have hlabels : ∀ v ∈ graph.vertices, Quotable v.label ∧ (endsOdd false v.label = false ↔
      ∀ o, v.origin = some o → o.node ≠ .value Ascii.backslash) := fun v hv =>
    quotable_label hpart hraw (Flow.Graph.labelled_of_ofTree hgraph v hv) fun _ => horigin hv
  refine ⟨graph, hgraph, ?_, fun s hs => fill_of_mem_document hs⟩
  rw [read?_source_iff (fun v hv => (hlabels v hv).1)]
  constructor
  · intro heven moves node hat
    have hmem : (⟨moves, node⟩ : Occurrence) ∈ graph.vertices.toList.filterMap Flow.Vertex.origin :=
      hshows.listed ▸ mem_occurrences_iff.mpr ⟨moves, rfl, hat⟩
    obtain ⟨v, hv, ho⟩ := List.mem_filterMap.mp hmem
    have hv := Array.mem_toList_iff.mp hv
    exact (hlabels v hv).2.mp (heven v hv) _ ho
  · intro hnone v hv
    refine (hlabels v hv).2.mpr fun o ho => ?_
    obtain ⟨moves, -, hat⟩ := mem_occurrences_iff.mp (horigin hv ho)
    exact hnone moves o.node hat

/-- A double quote and a class with a letter: both labels need quotes, and neither ends in a
backslash. -/
theorem diagramSource_reads_quote :
    let pattern : Text := "\"\\d"
    let root : Node := .alternative [.value Ascii.doubleQuote, .escape .digit]
    let highlight : List Text := ["node-1"]
    pattern.Valid ∧ parse pattern = .ok ⟨root, 0⟩ ∧ ∃ graph, Flow.Graph.ofTree root = .ok graph ∧
      read? (source graph highlight) = some (document graph highlight) ∧
      ∀ s ∈ (document graph highlight).statements,
        s.fill = if s.nodeId?.any highlight.contains then fillAttributes else [] := by
  intro pattern root highlight
  have valid : pattern.Valid := by decide
  have hparse : parse pattern = .ok ⟨root, 0⟩ := rfl
  have hquote : (Node.value Ascii.doubleQuote).Everywhere (· ≠ .value Ascii.backslash) :=
    .leaf (by simp) fun move => by cases move <;> rfl
  have hdigit : (Node.escape .digit).Everywhere (· ≠ .value Ascii.backslash) :=
    .leaf (by simp) fun move => by cases move <;> rfl
  have hnone : root.Everywhere (· ≠ .value Ascii.backslash) :=
    .alternative (by simp) (List.forall_mem_cons.mpr ⟨hquote, List.forall_mem_singleton.mpr hdigit⟩)
  obtain ⟨graph, hgraph, hreads, hfill⟩ := diagramSource_reads valid hparse highlight
  exact ⟨valid, hparse, graph, hgraph, hreads.mpr hnone, hfill⟩

/-- The closing quote behind a literal backslash is escaped, and the source is not well formed. -/
theorem diagramSource_of_backslash :
    let root : Node := .alternative [.value Ascii.backslash]
    parse "\\\\" = .ok ⟨root, 0⟩ ∧
      (Flow.Graph.ofTree root).toOption.map (fun graph => tokens? (source graph [])) =
        some none := by
  refine ⟨rfl, ?_⟩
  decide +kernel

end Pattern

end RegexTrace
