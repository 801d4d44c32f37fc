import RegexTrace.Flow.Graph
import RegexTrace.Text.Lines
import RegexTrace.Text.Quoted
import RegexTrace.Unicode.Case

/-!
# Flow graphs in the DOT language

A flow graph is written as one statement for each flow node and then one for each edge. An
identifier or a value that the language takes as it is stands without quotes; any other one is
quoted, and a double quote in it is escaped unless a backslash already does so.

Whoever makes a diagram also says which format it will be rendered in. Which formats there are is a
matter of the renderer: its names are given to whatever asks for them.
-/

namespace RegexTrace.Flow

/-- A format that a renderer does not know, with those that it knows. -/
structure UnknownFormat where
  name : Text
  known : List Text
  deriving DecidableEq, Repr

/-- A renderer knows a format by its name in lower case. -/
def isFormat (known : List Text) (name : Text) : Bool := known.contains (name.map Unicode.lower)

/-- The wording for a format that is not known. -/
def UnknownFormat.message (fault : UnknownFormat) : Text :=
  "unknown format: " ++ Text.Quoted.encode fault.name ++ " (must be one of " ++
    Text.Quoted.encodeList fault.known ++ ")"

/-- The formats of the usual renderer, in order. -/
def usualFormats : List Text :=
  List.map Text.ofString
    ["bmp", "canon", "cgimage", "cmap", "cmapx", "cmapx_np", "dot", "dot_json", "eps", "exr", "fig",
      "gd", "gd2", "gif", "gtk", "gv", "ico", "imap", "imap_np", "ismap", "jp2", "jpe", "jpeg",
      "jpg", "json", "json0", "pct", "pdf", "pic", "pict", "plain", "plain-ext", "png", "pov",
      "ps", "ps2", "psd", "sgi", "svg", "svg_inline", "svgz", "tga", "tif", "tiff", "tk", "vml",
      "vmlz", "vrml", "wbmp", "webp", "x11", "xdot", "xdot1.2", "xdot1.4", "xdot_json", "xlib"]

namespace Dot

/-- Text between angle brackets is markup; a newline may follow. -/
def isMarkup (t : Text) : Bool :=
  match t with
  | Ascii.less :: rest => rest.getLast? == some Ascii.greater ||
      (Text.dropFinalNewline rest).getLast? == some Ascii.greater
  | _ => false

/-- A letter, a low line or a digit. -/
def isNameCharacter (c : CodePoint) : Bool :=
  Ascii.isLetter c || Ascii.isDigit c || c == Ascii.lowLine

/-- A name starts with a letter or a low line. -/
def isName : Text → Bool
  | [] => false
  | c :: rest => (Ascii.isLetter c || c == Ascii.lowLine) && rest.all isNameCharacter

/-- Digits with an optional fraction, or a fraction alone. -/
def isUnsignedNumeral (t : Text) : Bool :=
  let whole := t.takeWhile Ascii.isDigit
  match t.drop whole.length with
  | [] => !whole.isEmpty
  | Ascii.dot :: fraction =>
    fraction.all Ascii.isDigit && (!whole.isEmpty || !fraction.isEmpty)
  | _ => false

/-- A numeral with an optional minus sign. -/
def isNumeral : Text → Bool
  | Ascii.hyphen :: t => isUnsignedNumeral t
  | t => isUnsignedNumeral t

/-- A name or a numeral; a newline may follow. -/
def isPlain (t : Text) : Bool :=
  isName t || isNumeral t || isName (Text.dropFinalNewline t) || isNumeral (Text.dropFinalNewline t)

/-- The words that the language keeps for itself. -/
def keywords : List Text := ["node", "edge", "graph", "digraph", "subgraph", "strict"]

/-- Every double quote gets a backslash unless an odd number of backslashes stands before it. The
flag says whether that number is odd. -/
def escapeQuotes (odd : Bool) : Text → Text
  | [] => []
  | c :: rest =>
    if c = Ascii.backslash then c :: escapeQuotes (!odd) rest
    else if c = Ascii.doubleQuote ∧ !odd then Ascii.backslash :: c :: escapeQuotes false rest
    else c :: escapeQuotes false rest

/-- A text as an identifier or a value of the language. -/
def quote (t : Text) : Text :=
  if isMarkup t then t
  else if isPlain t ∧ !keywords.contains (Text.asciiLower t) then t
  else Text.ofString "\"" ++ escapeQuotes false t ++ Text.ofString "\""

/-- The shape of a role. -/
def shape : Role → Text
  | .start => "circle"
  | .finish => "doublecircle"
  | .matching => "box"
  | .loop => "diamond"
  | .group => "box"
  | .alternation => "diamond"

/-- The colour of highlighted flow nodes. -/
def highlightColour : Text := "orange"

/-- Diagrams run from left to right. -/
def rankDirection : Text := "LR"

/-- The attributes of a flow node besides its label, sorted by name. -/
def vertexAttributes (role : Role) (highlighted : Bool) : List (Text × Text) :=
  if highlighted then
    [("fillcolor", highlightColour), ("shape", shape role), ("style", "filled")]
  else
    match role with
    | .group => [("shape", shape role), ("style", "rounded")]
    | role => [("shape", shape role)]

/-- The attributes of an edge, sorted by name. -/
def edgeAttributes : EdgeKind → List (Text × Text)
  | .plain => []
  | .loop => [("constraint", "false"), ("style", "dashed")]
  | .alternation => [("style", "dotted")]

/-- An attribute with its value. -/
def writeAttribute (pair : Text × Text) : Text :=
  quote pair.1 ++ Text.ofString "=" ++ quote pair.2

/-- The statement of a flow node. -/
def vertexLine (highlight : List Text) (v : Vertex) : Text :=
  "\t" ++ quote v.id.text ++ " [" ++
    Text.join (Text.ofString " ")
      ((Text.ofString "label=" ++ quote v.label) ::
        (vertexAttributes v.role (highlight.contains v.id.text)).map writeAttribute) ++ "]\n"

/-- The statement of an edge. -/
def edgeLine (e : Edge) : Text :=
  "\t" ++ quote e.source.text ++ " -> " ++ quote e.target.text ++
    (match edgeAttributes e.kind with
      | [] => []
      | attributes =>
        " [" ++ Text.join (Text.ofString " ") (attributes.map writeAttribute) ++
          Text.ofString "]") ++
    "\n"

/-- A flow graph in the DOT language, with the flow nodes of the given identifiers highlighted. -/
def source (g : Graph) (highlight : List Text) : Text :=
  "// Regex flow\ndigraph \x7b\n\trankdir=" ++ rankDirection ++ Text.ofString "\n" ++
    g.vertices.toList.flatMap (vertexLine highlight) ++ g.edges.toList.flatMap edgeLine ++ "\x7d\n"

end Dot

end RegexTrace.Flow
