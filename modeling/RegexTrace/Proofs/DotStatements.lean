import RegexTrace.Proofs.Digits
import RegexTrace.Proofs.DotTokens

/-!
# Statements of the DOT language

The source of a flow graph is read back as its comment, the direction of the diagram, one statement
for each flow node and then one for each edge, in the order of the graph; the flow nodes that carry
the attributes of a fill are the highlighted ones. This is so exactly if no label ends in an odd
number of backslashes: such a label goes on behind its closing quote, and no reading of the source
gives the flow node its label back.
-/

namespace RegexTrace.Flow.Dot

/-- What a statement declares. -/
inductive Subject
  | node (id : Text)
  | edge (source target : Text)
  deriving DecidableEq, Repr

/-- A statement; attributes stand in the order in which they are listed. -/
inductive Statement
  | assignment (name value : Text)
  | declaration (subject : Subject) (attributes : List (Text × Text))
  deriving DecidableEq, Repr

/-- What a source says. -/
structure Document where
  comments : List Text
  statements : List Statement
  deriving DecidableEq, Repr

/-- The statements up to the closing brace. If a list of attributes is open, it is that of the given
subject, of which the given attributes were read. -/
def statements? : Option (Subject × List (Text × Text)) → List Token → Option (List Statement)
  | none, [.sign .closeBrace] => some []
  | none, .id name :: .sign .equals :: .id value :: rest =>
    (statements? none rest).map (.assignment name value :: ·)
  | none, .id source :: .sign .arrow :: .id target :: .sign .openBracket :: rest =>
    statements? (some (.edge source target, [])) rest
  | none, .id source :: .sign .arrow :: .id target :: rest =>
    (statements? none rest).map (.declaration (.edge source target) [] :: ·)
  | none, .id id :: .sign .openBracket :: rest => statements? (some (.node id, [])) rest
  | none, .id id :: rest => (statements? none rest).map (.declaration (.node id) [] :: ·)
  | some (subject, attributes), .sign .closeBracket :: rest =>
    (statements? none rest).map (.declaration subject attributes :: ·)
  | some (subject, attributes), .id name :: .sign .equals :: .id value :: rest =>
    statements? (some (subject, attributes ++ [(name, value)])) rest
  | _, _ => none

/-- A directed graph without a name, after comments. -/
def document? : List Token → Option Document
  | .comment t :: rest =>
    (document? rest).map fun document => { document with comments := t :: document.comments }
  | .keyword word :: .sign .openBrace :: rest =>
    if Text.asciiLower word = "digraph" then (statements? none rest).map fun found => ⟨[], found⟩
    else none
  | _ => none

/-- What a source says, if it is well formed. -/
def read? (t : Text) : Option Document := (tokens? t).bind document?

namespace Statement

/-- The tokens of an attribute. -/
def attributeTokens (pair : Text × Text) : List Token :=
  [.id pair.1, .sign .equals, .id pair.2]

/-- The tokens of what is declared. -/
def subjectTokens : Subject → List Token
  | .node id => [.id id]
  | .edge source target => [.id source, .sign .arrow, .id target]

end Statement

open Statement

/-- The tokens of a list of attributes, after the bracket that opens it. -/
def listTokens (attributes : List (Text × Text)) : List Token :=
  attributes.flatMap attributeTokens ++ [.sign .closeBracket]

section Reading

variable {subject : Subject} {attributes : List (Text × Text)} {rest : List Token}

/-- A list of attributes is read to its end. -/
theorem statements?_listTokens (read attributes : List (Text × Text)) :
    statements? (some (subject, read)) (listTokens attributes ++ rest) =
      (statements? none rest).map (.declaration subject (read ++ attributes) :: ·) := by
  induction attributes generalizing read with
  | nil =>
      rw [List.append_nil]
      rfl
  | cons pair more ih =>
      have hstep : statements? (some (subject, read)) (listTokens (pair :: more) ++ rest) =
          statements? (some (subject, read ++ [pair])) (listTokens more ++ rest) := rfl
      rw [hstep, ih, List.append_assoc, List.singleton_append]

/-- A declaration with a list of attributes is read as one statement. -/
theorem statements?_declaration (subject : Subject) (attributes : List (Text × Text)) :
    statements? none
        (subjectTokens subject ++ .sign .openBracket :: listTokens attributes ++ rest) =
      (statements? none rest).map (.declaration subject attributes :: ·) := by
  have hopened : statements? none
      (subjectTokens subject ++ .sign .openBracket :: listTokens attributes ++ rest) =
      statements? (some (subject, [])) (listTokens attributes ++ rest) := by
    cases subject <;> rfl
  rw [hopened, statements?_listTokens, List.nil_append]

/-- A list of attributes that was begun ends up in the statement that is read first. -/
theorem exists_of_statements?_opened {opened : Option (Subject × List (Text × Text))}
    (hopened : opened = some (subject, attributes)) {found : List Statement}
    (h : statements? opened rest = some found) :
    ∃ added more, found = .declaration subject (attributes ++ added) :: more := by
  -- a list that is open ends with its bracket or goes on with an attribute
  fun_induction statements? opened rest generalizing attributes found with
  | case7 subject' read rest ih =>
      cases hopened
      obtain ⟨more, -, rfl⟩ := Option.map_eq_some_iff.mp h
      exact ⟨[], more, by rw [List.append_nil]⟩
  | case8 subject' read name value rest ih =>
      cases hopened
      obtain ⟨added, more, rfl⟩ := ih rfl h
      exact ⟨(name, value) :: added, more, by rw [List.append_assoc, List.singleton_append]⟩
  | case9 => cases h
  | _ => cases hopened

/-- An edge without a list of attributes is read as one statement. -/
theorem statements?_bareEdge (source target : Text)
    (h : rest.head? ≠ some (.sign .openBracket)) :
    statements? none (subjectTokens (.edge source target) ++ rest) =
      (statements? none rest).map (.declaration (.edge source target) [] :: ·) := by
  cases rest with
  | nil => rfl
  | cons token more =>
      cases token with
      | sign s =>
          cases s with
          | openBracket => exact absurd rfl h
          | _ => rfl
      | _ => rfl

end Reading

/-- A text that is written so that it can be read back. -/
structure Readable (t : Text) : Prop extends Quotable t where
  even : endsOdd false t = false

/-- A text of the code points of words and hyphens. -/
def Inert (t : Text) : Prop := t ≠ [] ∧ ∀ c ∈ t, isWordCharacter c = true ∨ c = Ascii.hyphen

instance (t : Text) : Decidable (Inert t) := inferInstanceAs (Decidable (_ ∧ _))

/-- An inert text can be read back, as it is. -/
theorem Inert.readable {t : Text} (h : Inert t) : Readable t ∧ escapeQuotes false t = t := by
  have hnotMem {c : CodePoint} (hword : isWordCharacter c = false) (hhyphen : c ≠ Ascii.hyphen) :
      c ∉ t := fun hc =>
    (h.2 c hc).elim (fun heq => Bool.noConfusion (hword.symm.trans heq)) hhyphen
  have hless : Ascii.less ∉ t := hnotMem rfl (by decide)
  have hnewline : Ascii.newline ∉ t := hnotMem rfl (by decide)
  have heven : endsOdd false t = false := endsOdd_eq_false (hnotMem rfl (by decide))
  have hsame : escapeQuotes false t = t := escapeQuotes_eq_self (hnotMem rfl (by decide)) false
  obtain ⟨first, rest, rfl⟩ := List.exists_cons_of_ne_nil h.1
  refine ⟨⟨.of_ends (fun heq => hless (heq ▸ List.mem_cons_self)) fun hlast => ?_, heven⟩, hsame⟩
  exact hnewline (List.mem_of_getLast? hlast)

theorem Inert.tokensFrom_quote {t rest : Text} (h : Inert t) (hrest : EndsWord rest) :
    tokensFrom .between (quote t ++ rest) = (tokensFrom .between rest).map (.id t :: ·) := by
  obtain ⟨hreadable, hsame⟩ := h.readable
  rw [hreadable.tokensFrom_quote hreadable.even hrest, hsame]

/-- Identifiers of flow nodes are inert. -/
theorem inert_id (id : Id) : Inert id.text := by
  cases id with
  | numbered n =>
      refine ⟨List.append_ne_nil_of_left_ne_nil (by decide) _, fun c hc => ?_⟩
      rcases List.mem_append.mp hc with hc | hc
      · have hlead : ∀ c ∈ Text.ofString "node-", isWordCharacter c = true ∨ c = Ascii.hyphen := by
          decide
        exact hlead c hc
      · exact Or.inl (by simp [isWordCharacter, isNameCharacter, Text.isDigit_of_mem_ofNat n c hc])
  | _ => decide

section Lines

variable {attributes : List (Text × Text)}

theorem tokensFrom_attributeName {name : Text} (h : Inert name) (rest : Text) :
    tokensFrom .between (quote name ++ (Text.ofString "=" ++ rest)) =
      (tokensFrom .between rest).map ([.id name, .sign .equals] ++ ·) := by
  have hequals : scan? .between (Text.ofString "=") = some ([.sign .equals], .between) := rfl
  have hends : EndsWord (Text.ofString "=" ++ rest) := ⟨_, _, rfl, rfl⟩
  rw [h.tokensFrom_quote hends, tokensFrom_append hequals, Option.map_map]
  rfl

/-- What is read of an attribute. -/
def asRead (pair : Text × Text) : Text × Text := (pair.1, escapeQuotes false pair.2)

/-- An attribute is read back. -/
theorem tokensFrom_writeAttribute {pair : Text × Text} (hname : Inert pair.1)
    (hvalue : Readable pair.2) {rest : Text} (hrest : EndsWord rest) :
    tokensFrom .between (writeAttribute pair ++ rest) =
      (tokensFrom .between rest).map (attributeTokens (asRead pair) ++ ·) := by
  rw [writeAttribute, List.append_assoc, List.append_assoc, tokensFrom_attributeName hname,
    hvalue.tokensFrom_quote hvalue.even hrest, Option.map_map]
  rfl

/-- A list of attributes is read back, up to its closing bracket. -/
theorem tokensFrom_writeAttributes (h : ∀ pair ∈ attributes, Inert pair.1 ∧ Readable pair.2)
    (rest : Text) :
    tokensFrom .between
        (Text.join (Text.ofString " ") (attributes.map writeAttribute) ++
          (Text.ofString "]\n" ++ rest)) =
      (tokensFrom .between rest).map (listTokens (attributes.map asRead) ++ ·) := by
  have hclosed : scan? .between (Text.ofString "]\n") =
      some ([.sign .closeBracket], .between) := rfl
  have hblank : scan? .between (Text.ofString " ") = some ([], .between) := rfl
  induction attributes with
  | nil => exact tokensFrom_append hclosed rest
  | cons pair more ih =>
      obtain ⟨⟨hname, hvalue⟩, hmore⟩ := List.forall_mem_cons.mp h
      cases more with
      | nil =>
          have hends : EndsWord (Text.ofString "]\n" ++ rest) := ⟨_, _, rfl, rfl⟩
          rw [List.map_singleton, Text.join, tokensFrom_writeAttribute hname hvalue hends,
            tokensFrom_append hclosed, Option.map_map]
          rfl
      | cons second more =>
          have hends (t : Text) : EndsWord (Text.ofString " " ++ t) := ⟨_, _, rfl, rfl⟩
          have hjoin : Text.join (Text.ofString " ") ((pair :: second :: more).map writeAttribute) =
              writeAttribute pair ++ Text.ofString " " ++
                Text.join (Text.ofString " ") ((second :: more).map writeAttribute) := rfl
          rw [hjoin, List.append_assoc, List.append_assoc,
            tokensFrom_writeAttribute hname hvalue (hends _), tokensFrom_append hblank, ih hmore,
            Option.map_map, Option.map_map]
          rfl

theorem tokensFrom_openBracket (rest : Text) :
    tokensFrom .between (Text.ofString " [" ++ rest) =
      (tokensFrom .between rest).map (.sign .openBracket :: ·) := by
  have hopened : scan? .between (Text.ofString " [") =
      some ([.sign .openBracket], .between) := rfl
  exact tokensFrom_append hopened rest

theorem tokensFrom_lineStart (id : Id) {rest : Text} (hrest : EndsWord rest) :
    tokensFrom .between (Text.ofString "\t" ++ (quote id.text ++ rest)) =
      (tokensFrom .between rest).map (.id id.text :: ·) := by
  have htab : scan? .between (Text.ofString "\t") = some ([], .between) := rfl
  rw [tokensFrom_append htab, (inert_id id).tokensFrom_quote hrest]
  exact Option.map_id'

theorem inert_vertexAttributes (role : Role) (highlighted : Bool) :
    ∀ pair ∈ vertexAttributes role highlighted, Inert pair.1 ∧ Inert pair.2 := by
  cases role <;> cases highlighted <;> decide

theorem inert_edgeAttributes (kind : EdgeKind) :
    ∀ pair ∈ edgeAttributes kind, Inert pair.1 ∧ Inert pair.2 := by
  cases kind <;> decide

theorem map_asRead (h : ∀ pair ∈ attributes, Inert pair.1 ∧ Inert pair.2) :
    attributes.map asRead = attributes := by
  have hsame : ∀ pair ∈ attributes, asRead pair = id pair := fun pair hpair =>
    Prod.ext rfl (h pair hpair).2.readable.2
  rw [List.map_congr_left hsame, List.map_id]

end Lines

/-- The statement of a flow node. -/
def vertexStatement (highlight : List Text) (v : Vertex) : Statement :=
  .declaration (.node v.id.text) ((Text.ofString "label", escapeQuotes false v.label) ::
    vertexAttributes v.role (highlight.contains v.id.text))

/-- The statement of an edge. -/
def edgeStatement (e : Edge) : Statement :=
  .declaration (.edge e.source.text e.target.text) (edgeAttributes e.kind)

/-- What the source of a flow graph says: its direction, its flow nodes and its edges in order. -/
def document (g : Graph) (highlight : List Text) : Document where
  comments := [" Regex flow"]
  statements := .assignment "rankdir" rankDirection ::
    (g.vertices.toList.map (vertexStatement highlight) ++ g.edges.toList.map edgeStatement)

/-- The statements from here on. -/
def statementsFrom (t : Text) : Option (List Statement) :=
  (tokensFrom .between t).bind (statements? none)

section Sources

variable {highlight : List Text} {v : Vertex}

/-- The line of a flow node, with its label as the first attribute. -/
theorem vertexLine_append (highlight : List Text) (v : Vertex) (rest : Text) :
    vertexLine highlight v ++ rest =
      Text.ofString "\t" ++ (quote v.id.text ++ (Text.ofString " [" ++
        (Text.join (Text.ofString " ") (((Text.ofString "label", v.label) ::
          vertexAttributes v.role (highlight.contains v.id.text)).map writeAttribute) ++
            (Text.ofString "]\n" ++ rest)))) := by
  simp only [vertexLine, List.append_assoc]
  rfl

/-- A flow node whose label can be read back is read as its statement. -/
theorem statementsFrom_vertexLine (hlabel : Readable v.label) (rest : Text) :
    statementsFrom (vertexLine highlight v ++ rest) =
      (statementsFrom rest).map (vertexStatement highlight v :: ·) := by
  have hends (t : Text) : EndsWord (Text.ofString " [" ++ t) := ⟨_, _, rfl, rfl⟩
  have hname : Inert (Text.ofString "label") := by decide
  have hattributes := inert_vertexAttributes v.role (highlight.contains v.id.text)
  have hlisted : ∀ pair ∈ (Text.ofString "label", v.label) ::
      vertexAttributes v.role (highlight.contains v.id.text), Inert pair.1 ∧ Readable pair.2 :=
    List.forall_mem_cons.mpr ⟨⟨hname, hlabel⟩, fun pair hpair =>
      ⟨(hattributes pair hpair).1, (hattributes pair hpair).2.readable.1⟩⟩
  rw [statementsFrom, vertexLine_append, tokensFrom_lineStart v.id (hends _),
    tokensFrom_openBracket, tokensFrom_writeAttributes hlisted, List.map_cons,
    map_asRead hattributes, statementsFrom]
  cases tokensFrom .between rest with
  | none => rfl
  | some tokens => exact statements?_declaration (.node v.id.text) _

/-- Whatever follows, the label of a flow node stands behind its identifier. -/
theorem exists_tokensFrom_vertexLine (highlight : List Text) (v : Vertex) (rest : Text) :
    ∃ tail, tokensFrom .between (vertexLine highlight v ++ rest) =
      (tokensFrom .between (quote v.label ++ tail)).map
        ([.id v.id.text, .sign .openBracket, .id "label", .sign .equals] ++ ·) := by
  have hends (t : Text) : EndsWord (Text.ofString " [" ++ t) := ⟨_, _, rfl, rfl⟩
  have hname : Inert (Text.ofString "label") := by decide
  obtain ⟨tail, htail⟩ : ∃ tail, Text.join (Text.ofString " ")
      (((Text.ofString "label", v.label) ::
        vertexAttributes v.role (highlight.contains v.id.text)).map writeAttribute) =
      writeAttribute (Text.ofString "label", v.label) ++ tail := by
    cases vertexAttributes v.role (highlight.contains v.id.text) with
    | nil => exact ⟨[], (List.append_nil _).symm⟩
    | cons second more => exact ⟨_, List.append_assoc _ _ _⟩
  refine ⟨tail ++ (Text.ofString "]\n" ++ rest), ?_⟩
  rw [vertexLine_append, htail, tokensFrom_lineStart v.id (hends _), tokensFrom_openBracket,
    writeAttribute]
  simp only [List.append_assoc]
  rw [tokensFrom_attributeName hname, Option.map_map, Option.map_map]
  rfl

/-- A flow node whose label ends in an odd number of backslashes is not read as its statement. -/
theorem even_of_statementsFrom_vertexLine (hlabel : Quotable v.label) {rest : Text}
    {more : List Statement}
    (h : statementsFrom (vertexLine highlight v ++ rest) =
      some (vertexStatement highlight v :: more)) : endsOdd false v.label = false := by
  rw [← Bool.not_eq_true]
  intro hodd
  obtain ⟨tail, htail⟩ := exists_tokensFrom_vertexLine highlight v rest
  rw [statementsFrom, htail] at h
  cases hread : tokensFrom .between (quote v.label ++ tail) with
  | none =>
      rw [hread] at h
      cases h
  | some tokens =>
      obtain ⟨u, later, rfl⟩ := hlabel.exists_of_tokensFrom_quote hodd hread
      rw [hread] at h
      have hopened : statements? (some (.node v.id.text,
          [(Text.ofString "label", escapeQuotes false v.label ++ Ascii.doubleQuote :: u)])) later =
          some (vertexStatement highlight v :: more) := h
      obtain ⟨added, others, hfound⟩ := exists_of_statements?_opened rfl hopened
      have hattributes := (Statement.declaration.inj (List.cons.inj hfound).1).2
      have hvalue : escapeQuotes false v.label =
          escapeQuotes false v.label ++ Ascii.doubleQuote :: u :=
        congrArg Prod.snd (List.cons.inj hattributes).1
      exact List.cons_ne_nil _ _ (List.self_eq_append_right.mp hvalue)

/-- The lines of flow nodes are read as their statements exactly if each of their labels can be read
back. -/
theorem statementsFrom_vertexLines_iff (highlight : List Text) {vs : List Vertex}
    (h : ∀ v ∈ vs, Quotable v.label) {rest : Text} {more : List Statement}
    (hrest : statementsFrom rest = some more) :
    statementsFrom (vs.flatMap (vertexLine highlight) ++ rest) =
        some (vs.map (vertexStatement highlight) ++ more) ↔
      ∀ v ∈ vs, endsOdd false v.label = false := by
  induction vs with
  | nil => simpa using hrest
  | cons v vs ih =>
      obtain ⟨hv, hvs⟩ := List.forall_mem_cons.mp h
      rw [List.flatMap_cons, List.map_cons, List.append_assoc, List.cons_append,
        List.forall_mem_cons, ← ih hvs]
      constructor
      · intro hread
        have heven := even_of_statementsFrom_vertexLine hv hread
        rw [statementsFrom_vertexLine ⟨hv, heven⟩] at hread
        obtain ⟨later, hlater, heq⟩ := Option.map_eq_some_iff.mp hread
        exact ⟨heven, hlater.trans (congrArg some (List.cons.inj heq).2)⟩
      · rintro ⟨heven, hlater⟩
        rw [statementsFrom_vertexLine ⟨hv, heven⟩, hlater]
        rfl

/-- The tokens of an edge. -/
def edgeTokens (e : Edge) : List Token :=
  subjectTokens (.edge e.source.text e.target.text) ++
    match edgeAttributes e.kind with
    | [] => []
    | attributes => .sign .openBracket :: listTokens attributes

/-- The line of an edge is read as its tokens. -/
theorem tokensFrom_edgeLine (e : Edge) (rest : Text) :
    tokensFrom .between (edgeLine e ++ rest) =
      (tokensFrom .between rest).map (edgeTokens e ++ ·) := by
  have harrow : scan? .between (Text.ofString " -> ") = some ([.sign .arrow], .between) := rfl
  have hnewline : scan? .between (Text.ofString "\n") = some ([], .between) := rfl
  have hends (t : Text) : EndsWord (Text.ofString " -> " ++ t) := ⟨_, _, rfl, rfl⟩
  have hattributes := inert_edgeAttributes e.kind
  have hlead {tail : Text} (htail : EndsWord tail) :
      tokensFrom .between (Text.ofString "\t" ++ (quote e.source.text ++ (Text.ofString " -> " ++
        (quote e.target.text ++ tail)))) =
      (tokensFrom .between tail).map
        (subjectTokens (.edge e.source.text e.target.text) ++ ·) := by
    rw [tokensFrom_lineStart e.source (hends _), tokensFrom_append harrow,
      (inert_id e.target).tokensFrom_quote htail, Option.map_map, Option.map_map]
    rfl
  unfold edgeLine edgeTokens
  cases hlist : edgeAttributes e.kind with
  | nil =>
      have hend : EndsWord (Text.ofString "\n" ++ rest) := ⟨_, _, rfl, rfl⟩
      simp only [List.append_assoc, List.append_nil]
      rw [hlead hend, tokensFrom_append hnewline, Option.map_map]
      rfl
  | cons pair more =>
      rw [hlist] at hattributes
      have hlisted : ∀ pair' ∈ pair :: more, Inert pair'.1 ∧ Readable pair'.2 := fun pair' hpair =>
        ⟨(hattributes pair' hpair).1, (hattributes pair' hpair).2.readable.1⟩
      have hend (t : Text) : EndsWord (Text.ofString " [" ++ t) := ⟨_, _, rfl, rfl⟩
      have hclosed : tokensFrom .between
          (Text.join (Text.ofString " ") ((pair :: more).map writeAttribute) ++
            (Text.ofString "]" ++ (Text.ofString "\n" ++ rest))) =
          (tokensFrom .between rest).map (listTokens (pair :: more) ++ ·) := by
        have hread := tokensFrom_writeAttributes hlisted rest
        rw [map_asRead hattributes] at hread
        exact hread
      simp only [List.append_assoc]
      rw [hlead (hend _), tokensFrom_openBracket, hclosed, Option.map_map, Option.map_map]
      rfl

/-- The lines of edges are read as their statements, up to the closing brace. -/
theorem statementsFrom_edgeLines (es : List Edge) :
    statementsFrom (es.flatMap edgeLine ++ Text.ofString "\x7d\n") =
      some (es.map edgeStatement) := by
  -- an edge without attributes is complete only if no list of attributes follows
  suffices h : ∃ tokens, tokensFrom .between (es.flatMap edgeLine ++ Text.ofString "\x7d\n") =
      some tokens ∧ tokens.head? ≠ some (.sign .openBracket) ∧
      statements? none tokens = some (es.map edgeStatement) by
    obtain ⟨tokens, htokens, -, hstatements⟩ := h
    rw [statementsFrom, htokens]
    exact hstatements
  induction es with
  | nil => exact ⟨[.sign .closeBrace], rfl, by decide, rfl⟩
  | cons e es ih =>
      obtain ⟨tokens, htokens, hhead, hstatements⟩ := ih
      refine ⟨edgeTokens e ++ tokens, ?_, (by simp [edgeTokens, subjectTokens]), ?_⟩
      · rw [List.flatMap_cons, List.append_assoc, tokensFrom_edgeLine, htokens]
        rfl
      · rw [List.map_cons, edgeStatement, edgeTokens]
        cases edgeAttributes e.kind with
        | nil => rw [List.append_nil, statements?_bareEdge _ _ hhead, hstatements]; rfl
        | cons pair more => rw [statements?_declaration, hstatements]; rfl

/-- The tokens of the lines before the flow nodes. -/
def headerTokens : List Token :=
  [.comment " Regex flow", .keyword "digraph", .sign .openBrace, .id "rankdir", .sign .equals,
    .id rankDirection]

theorem document?_headerTokens (tokens : List Token) :
    document? (headerTokens ++ tokens) = (statements? none tokens).map fun found =>
      ⟨[Text.ofString " Regex flow"], .assignment "rankdir" rankDirection :: found⟩ := by
  have hword : Text.asciiLower "digraph" = Text.ofString "digraph" := by decide
  have hassigned : statements? none
      (.id "rankdir" :: .sign .equals :: .id rankDirection :: tokens) =
      (statements? none tokens).map (.assignment "rankdir" rankDirection :: ·) := rfl
  simp only [headerTokens, List.cons_append, List.nil_append, document?]
  rw [if_pos hword, hassigned, Option.map_map, Option.map_map]
  rfl

/-- What a source says is what its lines of flow nodes and edges say. -/
theorem read?_source (g : Graph) (highlight : List Text) :
    read? (source g highlight) = (statementsFrom
      (g.vertices.toList.flatMap (vertexLine highlight) ++
        (g.edges.toList.flatMap edgeLine ++ Text.ofString "\x7d\n"))).map fun found =>
          ⟨[Text.ofString " Regex flow"], .assignment "rankdir" rankDirection :: found⟩ := by
  have hheader : scan? .between (Text.ofString "// Regex flow\ndigraph \x7b\n\trankdir=" ++
      rankDirection ++ Text.ofString "\n") = some (headerTokens, .between) := by decide
  rw [read?, tokens?, source, List.append_assoc, List.append_assoc, tokensFrom_append hheader,
    statementsFrom]
  cases tokensFrom .between (g.vertices.toList.flatMap (vertexLine highlight) ++
    (g.edges.toList.flatMap edgeLine ++ Text.ofString "\x7d\n")) with
  | none => rfl
  | some tokens => exact document?_headerTokens tokens

/-- The source of a flow graph reads as the graph exactly if the labels of its flow nodes can be
read back. -/
theorem read?_source_iff {g : Graph} (h : ∀ v ∈ g.vertices, Quotable v.label)
    (highlight : List Text) :
    read? (source g highlight) = some (document g highlight) ↔
      ∀ v ∈ g.vertices, endsOdd false v.label = false := by
  simp only [← Array.mem_toList_iff] at h ⊢
  rw [read?_source, ← statementsFrom_vertexLines_iff highlight h
    (statementsFrom_edgeLines g.edges.toList), Option.map_eq_some_iff]
  constructor
  · rintro ⟨found, hfound, heq⟩
    rw [hfound, (List.cons.inj (Document.mk.inj heq).2).2]
  · exact fun hfound => ⟨_, hfound, rfl⟩

end Sources

/-- The identifier of the flow node that a statement declares. -/
def Statement.nodeId? : Statement → Option Text
  | .declaration (.node id) _ => some id
  | _ => none

/-- The attributes that fill a shape. -/
def fillAttributes : List (Text × Text) :=
  [("fillcolor", highlightColour), ("style", "filled")]

/-- The attributes of a statement that fill a shape, in any colour. -/
def Statement.fill : Statement → List (Text × Text)
  | .declaration _ attributes => attributes.filter fun pair =>
      pair.1 = Text.ofString "fillcolor" ∨ pair = (Text.ofString "style", Text.ofString "filled")
  | _ => []

/-- The statements that fill a shape are those of the highlighted flow nodes. -/
theorem fill_of_mem_document {g : Graph} {highlight : List Text} {s : Statement}
    (h : s ∈ (document g highlight).statements) :
    s.fill = if s.nodeId?.any highlight.contains then fillAttributes else [] := by
  rcases List.mem_cons.mp h with rfl | h
  · rfl
  · rcases List.mem_append.mp h with h | h
    · obtain ⟨v, -, rfl⟩ := List.mem_map.mp h
      have hcolour : Text.ofString "label" ≠ Text.ofString "fillcolor" := by decide
      have hstyle : Text.ofString "label" ≠ Text.ofString "style" := by decide
      rw [vertexStatement, Statement.fill,
        List.filter_cons_of_neg (by simp [hcolour, hstyle]), Statement.nodeId?, Option.any_some]
      cases highlight.contains v.id.text <;> cases v.role <;> decide
    · obtain ⟨e, -, rfl⟩ := List.mem_map.mp h
      rw [edgeStatement]
      cases e.kind <;> rfl

end RegexTrace.Flow.Dot
