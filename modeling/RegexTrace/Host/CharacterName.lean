import RegexTrace.Text.Codec

/-!
# Names of characters

Inside brackets the host takes a character by its name. Which names there are is a matter of the
character database that the host brings along, and it is a parameter of whatever reads a pattern.
-/

namespace RegexTrace.Host

/-- The character names that the host knows. -/
class CharacterNames where
  /-- The code point of a name. -/
  lookup? : Text → Option CodePoint
  lookup?_lt {name : Text} {c : CodePoint} : lookup? name = some c → c < codePointLimit

namespace CharacterNames

/-- The names of the printable ASCII characters up to the digits, in lower case and in order. -/
def lowNames : List Text :=
  List.map Text.ofString
    ["space", "exclamation mark", "quotation mark", "number sign", "dollar sign", "percent sign",
      "ampersand", "apostrophe", "left parenthesis", "right parenthesis", "asterisk", "plus sign",
      "comma", "hyphen-minus", "full stop", "solidus", "digit zero", "digit one", "digit two",
      "digit three", "digit four", "digit five", "digit six", "digit seven", "digit eight",
      "digit nine", "colon", "semicolon", "less-than sign", "equals sign", "greater-than sign",
      "question mark", "commercial at"]

/-- The names of the ASCII letters of one case. -/
def letterNames (size : Text) : List Text :=
  (List.range 26).map fun n =>
    Text.ofString "latin " ++ size ++ Text.ofString " letter " ++ [0x61 + n]

/-- The names of the printable ASCII characters, in lower case and in order. -/
def asciiNames : List Text :=
  lowNames ++ letterNames "capital" ++
    List.map Text.ofString
      ["left square bracket", "reverse solidus", "right square bracket", "circumflex accent",
        "low line", "grave accent"] ++
    letterNames "small" ++
    List.map Text.ofString
      ["left curly bracket", "vertical line", "right curly bracket", "tilde"]

/-- Printable ASCII characters are known by their names, in any case. A host that knows more names
takes the place of this one. -/
instance (priority := low) ascii : CharacterNames where
  lookup? name := (asciiNames.idxOf? (Text.asciiLower name)).map (Ascii.space + ·)
  lookup?_lt h := by
    obtain ⟨n, hn, rfl⟩ := Option.map_eq_some_iff.mp h
    have hlt : n < asciiNames.length := (List.idxOf?_eq_some_iff.mp hn).1
    exact Nat.lt_trans (Nat.add_lt_add_left hlt _) (by decide)

/-- The names reach from the space to the tilde. -/
example : lookup? "SPACE" = some Ascii.space ∧ lookup? "Tilde" = some 0x7E := by decide

end CharacterNames

end RegexTrace.Host
