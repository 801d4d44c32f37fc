import RegexTrace.Pattern.Repetition

/-!
# Patterns in the host's notation

The host engine spells a few things differently. A named group opens with `(?P<`; outside multiline
mode the end of the text is `\Z`, because the host's `$` also matches before a final newline; and a
brace that opens no bounds is escaped, because the host would read some of them as bounds.
-/

namespace RegexTrace.Host

/-- What may follow `(?<` in a lookbehind. -/
def marksLookbehind (rest : Text) : Bool :=
  match rest with
  | Ascii.equals :: _ | Ascii.bang :: _ => true
  | _ => false

/-- One code point outside brackets that is no backslash and opens no brackets. -/
def respellOne (multiline : Bool) (c : CodePoint) (rest : Text) : Text :=
  if c = Ascii.dollar ∧ !multiline then "\\Z"
  else if c = Ascii.openBrace ∧ (Pattern.Braces.read? (c :: rest)).isNone then "\\\x7b"
  else [c]

/-- The respelled form of a text. The flag says whether the text begins inside brackets; an escaped
code point is copied with its backslash. -/
def respellFrom (multiline : Bool) : Bool → Text → Text
  | _, [] => []
  | inClass, Ascii.backslash :: c :: rest =>
    Ascii.backslash :: c :: respellFrom multiline inClass rest
  | true, c :: rest => c :: respellFrom multiline (c != Ascii.closeBracket) rest
  | false, Ascii.openBracket :: rest => Ascii.openBracket :: respellFrom multiline true rest
  | false, Ascii.openParen :: Ascii.question :: Ascii.less :: rest =>
    Text.ofString (if marksLookbehind rest then "(?<" else "(?P<") ++
      respellFrom multiline false rest
  | false, c :: rest => respellOne multiline c rest ++ respellFrom multiline false rest

/-- A pattern in the host's notation. -/
def respell (multiline : Bool) (pattern : Text) : Text := respellFrom multiline false pattern

end RegexTrace.Host
