import RegexTrace.Proofs.ClassItems
import RegexTrace.Proofs.Identifiers

/-!
# Trees are recovered from their outlines

The document of an outline spells out some fields of a node and leaves the others to its label. Both
together determine the node: a reader takes the document and rebuilds the tree. So two patterns with
the same document have the same tree, as long as their classes hold nothing but items that have a
spelling.

## Implementation notes

The reader decides the kind of a node by its further fields, and by the name of the kind only where
there are none. Of a label it looks at a code point or two, never at all of it.
-/

namespace RegexTrace

namespace Node

/-- The item with a given spelling. -/
def ofItemLabel : Text → Node
  | [c] => .value (c : Nat)
  | [first, _, last] => .range (first : Nat) (last : Nat)
  | label => .escape (EscapeKind.ofLetter label.tail)

/-- The kind of a construct that is read but never matches, by the letter of its escape. -/
def kindOfLetter (letter : CodePoint) : Text :=
  if letter = 'p'.toNat ∨ letter = 'P'.toNat then "unicodePropertyEscape" else "reference"

/-- The kind of a construct that is read but never matches. -/
def kindOfRaw : Text → Text
  | _ :: letter :: _ => kindOfLetter letter
  | _ => []

/-- The shorthand at the start of the label of a repetition. -/
def shorthandOfLabel? : Text → Option Shorthand
  | Ascii.star :: _ => some .star
  | Ascii.plus :: _ => some .plus
  | Ascii.question :: _ => some .question
  | _ => none

/-- The node of a kind that has no further fields. -/
def ofLabel? (typeName label : Text) (children : List Node) : Option Node :=
  if typeName = "Dot" then some .dot
  else if typeName = "ClassEscape" then some (.escape (EscapeKind.ofLetter label.tail))
  else if typeName = "Unsupported" then some (.unsupported (kindOfRaw label) label)
  else if typeName = "Alternative" then some (.alternative children)
  else if typeName = "Disjunction" then some (.disjunction children)
  else none

end Node

namespace Json

/-- The number that stands for an optional number. -/
def number? : Json → Option Int
  | .number n => some n
  | _ => none

/-- The text that stands for an optional text. -/
def text? : Json → Option Text
  | .text t => some t
  | _ => none

/-- The node with the given kind, label, further fields and children. -/
def nodeOf? (typeName label : Text) (children : List Node) : List (Text × Json) → Option Node
  | [] => Node.ofLabel? typeName label children
  | [(_, .text kind)] => some (.anchor (AnchorKind.ofName kind))
  | [(_, .number value)] => some (.value value)
  | [(_, .bool negative), (_, .array items)] =>
    some (.charClass negative (items.filterMap fun item => item.text?.map Node.ofItemLabel))
  | [(_, .number min), (_, max), (_, .bool greedy)] =>
    children.head?.map fun body =>
      .quantifier min max.number? greedy body (Node.shorthandOfLabel? label)
  | [(_, .text behaviour), (_, name), (_, group)] =>
    some (.group (Behaviour.ofName behaviour) children name.text? group.number?)
  | _ => none

mutual

/-- The tree of the document of an outline. -/
def node? : Json → Option Node
  | .object (_ :: (_, .text typeName) :: (_, .text label) :: (_, .array children) :: fields) =>
    (nodes? children).bind fun children => nodeOf? typeName label children fields
  | _ => none

/-- The trees of the documents of several outlines. -/
def nodes? : List Json → Option (List Node)
  | [] => some []
  | first :: rest => (node? first).bind fun node => (nodes? rest).map (node :: ·)

end

theorem number?_optional (n : Option Int) : (optional .number n).number? = n := by
  cases n <;> rfl

theorem text?_optional (t : Option Text) : (optional .text t).text? = t := by
  cases t <;> rfl

end Json

theorem Behaviour.Known.ofName_name {behaviour : Behaviour} (h : behaviour.Known) :
    Behaviour.ofName behaviour.name = behaviour := by
  rcases behaviour with _ | _ | ⟨_ | _, _ | _⟩ | name <;> first | rfl | exact h.elim

namespace Node

/-- An item that has a spelling: a literal, a range or a class with a letter. -/
def HasItemLabel : Node → Prop
  | .value _ | .range _ _ | .escape _ => True
  | _ => False

/-- An item with a spelling is recovered from it. -/
theorem IsItem.ofItemLabel {item : Node} {label : Text} (h : item.IsItem)
    (hlabelled : item.HasItemLabel) (hlabel : item.itemLabel = .ok label) :
    Node.ofItemLabel label = item := by
  cases item with
  | value c =>
      rw [itemLabel, Leaf.character_eq_ok h] at hlabel
      cases hlabel
      exact congrArg Node.value (Int.toNat_of_nonneg h.1)
  | range min max =>
      rw [itemLabel, Leaf.character_eq_ok h.1, Leaf.character_eq_ok h.2.1] at hlabel
      cases hlabel
      exact congrArg₂ Node.range (Int.toNat_of_nonneg h.1.1) (Int.toNat_of_nonneg h.2.1.1)
  | escape kind =>
      cases hlabel
      cases kind <;> first | rfl | exact h.elim
  | _ => exact hlabelled.elim

/-- Items with spellings are recovered from them. -/
theorem ofItemLabels {items : List Node} {labels : List Text} (h : ∀ item ∈ items, item.IsItem)
    (hlabelled : ∀ item ∈ items, item.HasItemLabel) (hlabels : items.mapM itemLabel = .ok labels) :
    labels.map Node.ofItemLabel = items := by
  induction items generalizing labels with
  | nil =>
      cases hlabels
      rfl
  | cons item rest ih =>
      obtain ⟨hitem, hrest⟩ := List.forall_mem_cons.mp h
      obtain ⟨hfirst, hothers⟩ := List.forall_mem_cons.mp hlabelled
      rw [List.mapM_cons] at hlabels
      obtain ⟨label, hlabel, hlabels⟩ := exists_of_bind_ok hlabels
      obtain ⟨others, hrests, hlabels⟩ := exists_of_bind_ok hlabels
      cases hlabels
      rw [List.map_cons, hitem.ofItemLabel hfirst hlabel, ih hrest hothers hrests]

/-- The shorthand of a repetition stands at the start of its label. -/
theorem ShorthandFits.shorthandOfLabel? {min : Int} {max : Option Int}
    {shorthand : Option Shorthand} (h : ShorthandFits min max shorthand) (greedy : Bool) :
    Node.shorthandOfLabel? (quantifierLabel min max greedy shorthand) = shorthand := by
  cases shorthand with
  | none =>
      rw [quantifierLabel, shorthandSpelling?, Option.getD_none, boundsLabel.eq_def]
      split
      · rfl
      · split <;> rfl
  | some s =>
      cases s with
      | other spelling => exact h.elim
      | _ => rfl

/-- A construct that is read but never matches shows its kind in its spelling. -/
def RawFits (node : Node) : Prop :=
  ∀ kind raw, node = .unsupported kind raw → raw ≠ [] ∧ kindOfRaw raw = kind

/-- A node that its label, its further fields and its children show. -/
structure Shown (node : Node) : Prop where
  part : node.IsPart
  items : ∀ negative items, node = .charClass negative items → ∀ item ∈ items, item.HasItemLabel
  raw : node.RawFits

end Node

namespace Pattern

open Node

/-- An escape outside brackets is spelled with the letter of its kind. -/
theorem readLetter_rawFits (c : CodePoint) (rest : Text) :
    (readLetter false c rest).Answers fun node _ => node.RawFits := by
  have kept {kind : Text} {width : Nat} (h : kindOfLetter c = kind) :
      RawFits (unsupportedEscape kind (c :: rest) (width + 1)).1 := by
    rintro _ _ heq
    cases heq
    exact ⟨List.cons_ne_nil _ _, h⟩
  intro node width hread
  cases (readLetter_answers false c rest node width hread).1 with
  | value | escape | anchor => exact nofun
  | number low high =>
      have hletter : ¬ (c = 'p'.toNat ∨ c = 'P'.toNat) := by
        rintro (rfl | rfl) <;> exact absurd high (by decide)
      rw [referenceWidth, Nat.add_comm]
      exact kept (if_neg hletter)
  | name hc => exact kept (hc ▸ rfl)
  | property hc => exact kept (if_pos hc)

/-- What is read in a pattern shows its kind in its spelling. -/
theorem readOff_rawFits (pattern : Text) : ReadOff pattern (fun _ => True) RawFits where
  literalItem _ := trivial
  escapeItem _ _ := trivial
  range _ := trivial
  charClass _ _ _ := nofun
  dot := nofun
  anchor _ := nofun
  literal _ := nofun
  escape {t _ _} _ h := by
    cases t with
    | nil => cases h
    | cons c rest => exact readLetter_rawFits c rest _ _ h
  group _ _ _ _ := nofun
  alternative _ := nofun
  disjunction _ := nofun
  repeated _ _ _ := nofun

/-- All nodes of the tree of a pattern are shown where the items of its classes have spellings. -/
theorem everywhere_shown {pattern : Text} (valid : pattern.Valid) {parsed : Parsed}
    (h : parse pattern = .ok parsed)
    (labelled : ∀ address negative items,
      parsed.root.at? address = some (.charClass negative items) →
        ∀ item ∈ items, item.HasItemLabel) : parsed.root.Everywhere Shown := by
  intro address node hat
  refine ⟨IsPart.at? (Or.inr (isPattern_of_parse valid h)) hat, ?_, ?_⟩
  · rintro negative items rfl
    exact labelled address negative items hat
  · exact (readOff_rawFits pattern).everywhere valid h address node hat

end Pattern

namespace Node.Shown

/-- A node that is shown is determined by what its outline keeps of it and by its children. -/
theorem nodeOf?_eq {node : Node} (h : node.Shown) {label : Text} (hlabel : node.label = .ok label)
    {details : Outline.Details} (hdetails : Outline.detailsOf node = .ok details)
    {nodes : List Node} (hnodes : node.children = .ok nodes) :
    Json.nodeOf? node.typeName label nodes details.fields = some node := by
  rcases h.part with hterm | hpattern
  · cases hterm with
    | @anchor kind known =>
        cases hdetails
        cases kind <;> first | rfl | exact known.elim
    | value _ | dot =>
        cases hdetails
        rfl
    | @escape kind known =>
        cases hdetails
        cases hlabel
        cases kind <;> first | rfl | exact known.elim
    | @charClass negative items known =>
        obtain ⟨labels, hlabels, hkept⟩ := exists_of_bind_ok hdetails
        cases hkept
        have hread : (labels.map Json.text).filterMap (fun item => item.text?.map ofItemLabel) =
            items := by
          rw [List.filterMap_map, ← ofItemLabels known (h.items negative items rfl) hlabels]
          exact congrFun List.filterMap_eq_map labels
        exact congrArg (fun items => some (Node.charClass negative items)) hread
    | @unsupported kind raw known =>
        obtain ⟨hraw, hkind⟩ := h.raw kind raw rfl
        cases hdetails
        rw [Node.label, if_neg (by simpa using hraw)] at hlabel
        cases hlabel
        exact congrArg (fun kind => some (Node.unsupported kind label)) hkind
    | run labels _ | choice labels _ _ =>
        cases hdetails
        cases hnodes
        rw [Outline.Details.fields, Json.nodeOf?, labels.1.ofName_name, Json.text?_optional,
          Json.number?_optional]
    | @quantifier min max greedy body shorthand _ _ _ _ spelling =>
        cases hdetails
        cases hnodes
        cases hlabel
        rw [Outline.Details.fields, Json.nodeOf?, spelling.shorthandOfLabel?, Json.number?_optional]
        rfl
  · cases hpattern with
    | _ =>
        cases hdetails
        cases hnodes
        rfl

end Node.Shown

namespace Node

theorem Everywhere.child {property : Node → Prop} {node child : Node} {move : Move}
    (h : node.Everywhere property) (hchild : node.child? move = some child) :
    child.Everywhere property := by
  intro moves inner hat
  apply h (move :: moves) inner
  rw [at?, hchild, Option.bind_some, hat]

/-- A move leads to every child. -/
theorem exists_move_of_mem_children {node child : Node} {nodes : List Node}
    (hnodes : node.children = .ok nodes) (h : child ∈ nodes) :
    ∃ move, node.child? move = some child := by
  unfold children at hnodes
  split at hnodes
  · cases hnodes
    obtain ⟨i, hi⟩ := List.mem_iff_getElem?.mp h
    exact ⟨.element i, hi⟩
  · cases hnodes
    obtain ⟨i, hi⟩ := List.mem_iff_getElem?.mp h
    exact ⟨.branch i, hi⟩
  · cases hnodes
    obtain ⟨i, hi⟩ := List.mem_iff_getElem?.mp h
    exact ⟨.element i, hi⟩
  · cases hnodes
    obtain rfl := List.mem_singleton.mp h
    exact ⟨.repeated, rfl⟩
  · cases hnodes
  · cases hnodes
  · cases hnodes
  · cases hnodes
    cases h

end Node

namespace Outline

/-- An outline keeps the label of its node, the further fields and the outlines of the children. -/
theorem exists_of_ofNode {id : Text} {node : Node} {outline : Outline}
    (h : ofNode id node = .ok outline) :
    ∃ label details nodes children, node.label = .ok label ∧ detailsOf node = .ok details ∧
      node.children = .ok nodes ∧ ofNodes id 0 nodes = .ok children ∧
      outline = .entry id node.typeName label details children := by
  cases node with
  | alternative body | disjunction body | group _ body _ _ =>
      rw [ofNode] at h
      obtain ⟨label, hlabel, h⟩ := exists_of_bind_ok h
      obtain ⟨details, hdetails, h⟩ := exists_of_bind_ok h
      obtain ⟨children, hchildren, h⟩ := exists_of_bind_ok h
      cases h
      exact ⟨label, details, body, children, hlabel, hdetails, rfl, hchildren, rfl⟩
  | quantifier min max greedy body shorthand =>
      rw [ofNode] at h
      obtain ⟨label, hlabel, h⟩ := exists_of_bind_ok h
      obtain ⟨details, hdetails, h⟩ := exists_of_bind_ok h
      obtain ⟨children, hchildren, h⟩ := exists_of_bind_ok h
      obtain ⟨child, hchild, rfl⟩ := exists_of_map_ok hchildren
      cases h
      refine ⟨label, details, [body], [child], hlabel, hdetails, rfl, ?_, rfl⟩
      rw [ofNodes, hchild, ofNodes]
      rfl
  | _ =>
      rw [ofNode] at h
      obtain ⟨label, hlabel, h⟩ := exists_of_bind_ok h
      obtain ⟨details, hdetails, h⟩ := exists_of_bind_ok h
      cases h
      first
        | exact ⟨label, details, [], [], hlabel, hdetails, rfl, by rw [ofNodes], rfl⟩
        | cases hlabel

/-- The outlines of several nodes are those of the first and of the others. -/
theorem exists_of_ofNodes_cons {id : Text} {index : Nat} {node : Node} {rest : List Node}
    {outlines : List Outline} (h : ofNodes id index (node :: rest) = .ok outlines) :
    ∃ first others, ofNode (id ++ Text.ofString "-" ++ Text.ofNat index) node = .ok first ∧
      ofNodes id (index + 1) rest = .ok others ∧ outlines = first :: others := by
  rw [ofNodes] at h
  obtain ⟨first, hfirst, h⟩ := exists_of_bind_ok h
  obtain ⟨others, hothers, h⟩ := exists_of_bind_ok h
  cases h
  exact ⟨first, others, hfirst, hothers, rfl⟩

/-- Nodes are recovered from the documents of their outlines if each of them is. -/
theorem nodes?_toJsonAll {nodes : List Node}
    (h : ∀ node ∈ nodes, ∀ {id outline}, ofNode id node = .ok outline →
      outline.toJson.node? = some node) {id : Text} {index : Nat} {outlines : List Outline}
    (houtlines : ofNodes id index nodes = .ok outlines) :
    Json.nodes? (toJsonAll outlines) = some nodes := by
  induction nodes generalizing index outlines with
  | nil =>
      rw [ofNodes] at houtlines
      cases houtlines
      rw [toJsonAll, Json.nodes?]
  | cons node rest ih =>
      obtain ⟨hnode, hrest⟩ := List.forall_mem_cons.mp h
      obtain ⟨first, others, hfirst, hothers, rfl⟩ := exists_of_ofNodes_cons houtlines
      rw [toJsonAll, Json.nodes?, hnode hfirst, Option.bind_some, ih hrest hothers, Option.map_some]

/-- A tree whose nodes are shown is recovered from the document of its outline. -/
theorem node?_toJson {node : Node} (h : node.Everywhere Node.Shown) {id : Text} {outline : Outline}
    (houtline : ofNode id node = .ok outline) : outline.toJson.node? = some node := by
  obtain ⟨label, details, nodes, children, hlabel, hdetails, hnodes, hchildren, rfl⟩ :=
    exists_of_ofNode houtline
  have below : ∀ child ∈ nodes, ∀ {id outline}, ofNode id child = .ok outline →
      outline.toJson.node? = some child := by
    intro child hmem id outline hchild
    obtain ⟨move, hmove⟩ := Node.exists_move_of_mem_children hnodes hmem
    have := Node.sizeOf_lt_of_child? hmove
    exact node?_toJson (h.child hmove) hchild
  rw [toJson, List.cons_append, List.cons_append, List.cons_append, List.cons_append,
    List.nil_append, Json.node?, nodes?_toJsonAll below hchildren, Option.bind_some]
  exact (h [] node rfl).nodeOf?_eq hlabel hdetails hnodes
termination_by sizeOf node

mutual

/-- The identifiers of an outline, those of the children after that of the node. -/
def ids : Outline → List Text
  | .entry id _ _ _ children => id :: idsAll children

/-- The identifiers of outlines in order. -/
def idsAll : List Outline → List Text
  | [] => []
  | outline :: rest => ids outline ++ idsAll rest

end

mutual

/-- The moves by which the identifiers of an outline go on from that of the root, the index of a
child at each of them. -/
def paths : Outline → List Address
  | .entry _ _ _ _ children => [] :: pathsAll 0 children

/-- The moves to and below children that are numbered from `index` on. -/
def pathsAll (index : Nat) : List Outline → List Address
  | [] => []
  | outline :: rest => (paths outline).map (.element index :: ·) ++ pathsAll (index + 1) rest

end

/-- The moves below children start with the index of one of them. -/
theorem exists_of_mem_pathsAll {index : Nat} {outlines : List Outline} {path : Address}
    (h : path ∈ pathsAll index outlines) :
    ∃ i moves, index ≤ i ∧ path = .element i :: moves := by
  induction outlines generalizing index with
  | nil =>
      rw [pathsAll] at h
      cases h
  | cons outline rest ih =>
      rw [pathsAll] at h
      rcases List.mem_append.mp h with h | h
      · obtain ⟨moves, -, rfl⟩ := List.mem_map.mp h
        exact ⟨index, moves, Nat.le_refl index, rfl⟩
      · obtain ⟨i, moves, hi, rfl⟩ := ih h
        exact ⟨i, moves, by omega, rfl⟩

mutual

theorem nodup_paths (outline : Outline) : outline.paths.Nodup := by
  cases outline with
  | entry id typeName label details children =>
      rw [paths]
      refine List.nodup_cons.mpr ⟨fun h => ?_, nodup_pathsAll 0 children⟩
      obtain ⟨i, moves, -, hnil⟩ := exists_of_mem_pathsAll h
      cases hnil
termination_by sizeOf outline

theorem nodup_pathsAll (index : Nat) (outlines : List Outline) :
    (pathsAll index outlines).Nodup := by
  cases outlines with
  | nil =>
      rw [pathsAll]
      exact List.nodup_nil
  | cons outline rest =>
      rw [pathsAll]
      have hfirst : ((paths outline).map (Move.element index :: ·)).Nodup :=
        (nodup_paths outline).map fun _ _ h => (List.cons.inj h).2
      refine List.nodup_append'.mpr ⟨hfirst, nodup_pathsAll (index + 1) rest, ?_⟩
      intro path hpath hlater
      obtain ⟨moves, -, rfl⟩ := List.mem_map.mp hpath
      obtain ⟨i, more, hi, heq⟩ := exists_of_mem_pathsAll hlater
      cases heq
      omega
termination_by sizeOf outlines

end

/-- An identifier with the suffixes of some moves. -/
def suffixed (id : Text) (moves : Address) : Text := id ++ moves.flatMap Move.suffix

theorem suffixed_injective (id : Text) : Function.Injective (suffixed id) := by
  intro moves other h
  apply Address.id_inj.mp
  exact congrArg (Text.ofString "root" ++ ·) (List.append_cancel_left h)

theorem suffixed_element (id : Text) (index : Nat) :
    suffixed (id ++ Text.ofString "-" ++ Text.ofNat index) =
      fun moves => suffixed id (.element index :: moves) := by
  funext moves
  simp only [suffixed, List.flatMap_cons, Move.suffix, List.append_assoc]

/-- The identifiers of outlines of children follow the moves if those of each child do. -/
theorem idsAll_eq {nodes : List Node}
    (h : ∀ node ∈ nodes, ∀ {id outline}, ofNode id node = .ok outline →
      outline.ids = outline.paths.map (suffixed id)) {id : Text} {index : Nat}
    {outlines : List Outline} (houtlines : ofNodes id index nodes = .ok outlines) :
    idsAll outlines = (pathsAll index outlines).map (suffixed id) := by
  induction nodes generalizing index outlines with
  | nil =>
      rw [ofNodes] at houtlines
      cases houtlines
      rw [idsAll, pathsAll, List.map_nil]
  | cons node rest ih =>
      obtain ⟨hnode, hrest⟩ := List.forall_mem_cons.mp h
      obtain ⟨first, others, hfirst, hothers, rfl⟩ := exists_of_ofNodes_cons houtlines
      rw [idsAll, pathsAll, List.map_append, List.map_map, hnode hfirst, ih hrest hothers,
        suffixed_element]
      rfl

/-- The identifiers of an outline add the suffixes of moves to that of the root. -/
theorem ids_eq {node : Node} {id : Text} {outline : Outline} (h : ofNode id node = .ok outline) :
    outline.ids = outline.paths.map (suffixed id) := by
  obtain ⟨label, details, nodes, children, -, -, hnodes, hchildren, rfl⟩ := exists_of_ofNode h
  have below : ∀ child ∈ nodes, ∀ {id outline}, ofNode id child = .ok outline →
      outline.ids = outline.paths.map (suffixed id) := by
    intro child hmem id outline hchild
    obtain ⟨move, hmove⟩ := Node.exists_move_of_mem_children hnodes hmem
    have := Node.sizeOf_lt_of_child? hmove
    exact ids_eq hchild
  rw [ids, paths, List.map_cons, idsAll_eq below hchildren, suffixed, List.flatMap_nil,
    List.append_nil]
termination_by sizeOf node

theorem nodup_ids {node : Node} {id : Text} {outline : Outline}
    (h : ofNode id node = .ok outline) : outline.ids.Nodup := by
  rw [ids_eq h]
  exact (nodup_paths outline).map (suffixed_injective id)

end Outline

namespace Pattern

/-- Outlines lose nothing. The trees of two patterns have outlines under every identifier, with no
identifier twice; and if all items of classes in both trees have spellings, then the trees are equal
when the documents of their outlines are. -/
theorem outlines_faithful {pattern pattern' : Text} (valid : pattern.Valid)
    (valid' : pattern'.Valid) {parsed parsed' : Parsed} (h : parse pattern = .ok parsed)
    (h' : parse pattern' = .ok parsed')
    (labelled : ∀ address negative items,
      parsed.root.at? address = some (.charClass negative items) →
        ∀ item ∈ items, item.HasItemLabel)
    (labelled' : ∀ address negative items,
      parsed'.root.at? address = some (.charClass negative items) →
        ∀ item ∈ items, item.HasItemLabel) (id : Text) :
    ∃ outline outline', Outline.ofNode id parsed.root = .ok outline ∧
      Outline.ofNode id parsed'.root = .ok outline' ∧ outline.ids.Nodup ∧ outline'.ids.Nodup ∧
      (outline.toJson = outline'.toJson → parsed.root = parsed'.root) := by
  obtain ⟨outline, houtline⟩ :=
    Outline.ofNode_ok_of_isPart (Or.inr (isPattern_of_parse valid h)) id
  obtain ⟨outline', houtline'⟩ :=
    Outline.ofNode_ok_of_isPart (Or.inr (isPattern_of_parse valid' h')) id
  refine ⟨outline, outline', houtline, houtline', Outline.nodup_ids houtline,
    Outline.nodup_ids houtline', fun hsame => ?_⟩
  apply Option.some.inj
  calc some parsed.root = outline.toJson.node? :=
        (Outline.node?_toJson (everywhere_shown valid h labelled) houtline).symm
    _ = outline'.toJson.node? := congrArg Json.node? hsame
    _ = some parsed'.root := Outline.node?_toJson (everywhere_shown valid' h' labelled') houtline'

/-- Two spellings of the same bounds: the documents are the same, and so are the trees. -/
theorem outlines_faithful_bounds :
    let pattern : Text := "(?<n>[^a-c\\d]\x7b2\x7d|\\1)"
    let pattern' : Text := "(?<n>[^a-c\\d]\x7b2,2\x7d|\\1)"
    let root : Node := .alternative [.group .capturing [.disjunction
      [.alternative [.quantifier 2 (some 2) true
        (.charClass true [.range 'a'.toNat 'c'.toNat, .escape .digit]) none],
        .alternative [.unsupported "reference" "\\1"]]] (some (Text.ofString "n")) (some 1)]
    pattern.Valid ∧ pattern'.Valid ∧ pattern ≠ pattern' ∧ parse pattern = .ok ⟨root, 1⟩ ∧
      parse pattern' = .ok ⟨root, 1⟩ ∧
      (∀ address negative items, root.at? address = some (.charClass negative items) →
        ∀ item ∈ items, item.HasItemLabel) ∧
      ∃ outline outline', Outline.ofNode "root" root = .ok outline ∧
        Outline.ofNode "root" root = .ok outline' ∧ outline.ids.Nodup ∧ outline'.ids.Nodup ∧
        (outline.toJson = outline'.toJson → root = root) := by
  intro pattern pattern' root
  have valid : pattern.Valid := by decide
  have valid' : pattern'.Valid := by decide
  have hparse : parse pattern = .ok ⟨root, 1⟩ := rfl
  have hparse' : parse pattern' = .ok ⟨root, 1⟩ := rfl
  have labelled : ∀ address negative items, root.at? address = some (.charClass negative items) →
      ∀ item ∈ items, item.HasItemLabel := by
    intro address negative items hat
    have hmem : ⟨address, .charClass negative items⟩ ∈ root.occurrences [] :=
      Node.mem_occurrences_root_iff.mpr hat
    obtain ⟨-, -, rfl⟩ : address = [.element 0, .element 0, .branch 0, .element 0, .repeated] ∧
        negative = true ∧ items = [.range 'a'.toNat 'c'.toNat, .escape .digit] := by
      simpa [root, Node.occurrences, Node.occurrencesAll] using hmem
    exact List.forall_mem_cons.mpr ⟨trivial, List.forall_mem_singleton.mpr trivial⟩
  exact ⟨valid, valid', by decide, hparse, hparse', labelled,
    outlines_faithful valid valid' hparse hparse' labelled labelled "root"⟩

end Pattern

end RegexTrace
