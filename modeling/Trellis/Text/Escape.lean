/-!
# Text — Escape

Plain text as markup: the five characters that mean something in markup are written as entities,
all others as they are.
-/

namespace Trellis.Text

/-- The entity of a character, or the character. -/
def escapeChar : Char → List Char
  | '&' => ['&', 'a', 'm', 'p', ';']
  | '<' => ['&', 'l', 't', ';']
  | '>' => ['&', 'g', 't', ';']
  | '\'' => ['&', '#', '3', '9', ';']
  | '"' => ['&', '#', '3', '4', ';']
  | c => [c]

/-- A text with entities for the characters of markup. -/
def escape (s : String) : String :=
  String.ofList (s.toList.flatMap escapeChar)

end Trellis.Text
