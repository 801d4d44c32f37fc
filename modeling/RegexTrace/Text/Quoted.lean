import RegexTrace.Text.Ascii
import RegexTrace.Text.Basic
import RegexTrace.Unicode.Printable

/-!
# Quoted texts

A text is quoted with apostrophes, or with double quotes when it holds an apostrophe and no double
quote. The quote in use and the backslash are escaped, tab, newline and carriage return have their
letters, and every other code point that is not printable is written in hexadecimal.
-/

namespace RegexTrace.Text.Quoted

/-- Apostrophes quote a text unless it holds one and no double quote. -/
def delimiter (t : Text) : CodePoint :=
  if t.contains Ascii.apostrophe && !t.contains Ascii.doubleQuote then Ascii.doubleQuote
  else Ascii.apostrophe

/-- A code point in hexadecimal. -/
def hexEscape (c : CodePoint) : Text :=
  if c < 0x100 then Text.ofString "\\x" ++ Text.hex 2 c
  else if c < 0x10000 then Text.ofString "\\u" ++ Text.hex 4 c
  else Text.ofString "\\U" ++ Text.hex 8 c

/-- One code point between quotes. -/
def encodeOne (quote c : CodePoint) : Text :=
  if c = quote ∨ c = Ascii.backslash then [Ascii.backslash, c]
  else if c = Ascii.tab then Text.ofString "\\t"
  else if c = Ascii.newline then Text.ofString "\\n"
  else if c = Ascii.carriageReturn then Text.ofString "\\r"
  else if Unicode.isPrintable c then [c]
  else hexEscape c

/-- The quoted form of a text. -/
def encode (t : Text) : Text :=
  delimiter t :: t.flatMap (encodeOne (delimiter t)) ++ [delimiter t]

/-- Quoted texts between brackets. -/
def encodeList (ts : List Text) : Text :=
  Text.ofString "[" ++ Text.join (Text.ofString ", ") (ts.map encode) ++ Text.ofString "]"

end RegexTrace.Text.Quoted
