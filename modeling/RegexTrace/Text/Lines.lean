import RegexTrace.Text.Ascii
import RegexTrace.Text.Basic
import RegexTrace.Unicode.Category

/-!
# Lines of a text and surrounding blanks

When a file is read, a carriage return, alone or before a newline, becomes a newline. Lines end at
newlines and also at the vertical tab, the form feed, the separators `0x1C` to `0x1E`, the next line
character and the Unicode line and paragraph separators.
-/

namespace RegexTrace.Text

/-- Every line end of a file becomes a newline. -/
def unifyNewlines : Text → Text
  | [] => []
  | Ascii.carriageReturn :: Ascii.newline :: rest => Ascii.newline :: unifyNewlines rest
  | c :: rest => (if c = Ascii.carriageReturn then Ascii.newline else c) :: unifyNewlines rest

/-- The code points that end a line. -/
def endsLine (c : CodePoint) : Bool :=
  (0x0A ≤ c && c ≤ 0x0D) || (0x1C ≤ c && c ≤ 0x1E) || c == 0x85 || c == 0x2028 || c == 0x2029

/-- The lines from here on, where `current` is the beginning of the first one in reverse. A last
line without an end counts only when it is not empty. -/
def linesFrom (current : Text) : Text → List Text
  | [] => if current.isEmpty then [] else [current.reverse]
  | Ascii.carriageReturn :: Ascii.newline :: rest => current.reverse :: linesFrom [] rest
  | c :: rest =>
    if endsLine c then current.reverse :: linesFrom [] rest else linesFrom (c :: current) rest

/-- The lines of a text, without their ends. -/
def lines (t : Text) : List Text := linesFrom [] t

/-- A text without the newline at its end, if it has one there. -/
def dropFinalNewline (t : Text) : Text :=
  match t.getLast? with
  | some Ascii.newline => t.dropLast
  | _ => t

/-- The text without blanks at its start. -/
def trimLeft (t : Text) : Text := t.dropWhile Unicode.isBlank

/-- The text without blanks at its end. -/
def trimRight (t : Text) : Text := (t.reverse.dropWhile Unicode.isBlank).reverse

/-- The text without blanks at both ends. -/
def trim (t : Text) : Text := trimRight (trimLeft t)

end RegexTrace.Text
