import Trellis.Text.Search

/-!
# Tree — Header

The parts of a node's content that are written in a notation of their own: the condition of an
alternative, the names and the collection of a loop, and the expression of a content, with the test
whether it is a format with arguments.

White space and the ends of words are those of `Text.isBlank` and `Text.isAlnum`.
-/

namespace Trellis.Header

open Trellis.Text (isBlank isAlnum dropLeading dropTrailing)

/-- No character of a word stands at the front. -/
def endsWord : List Char → Bool
  | [] => true
  | c :: _ => !isAlnum c

/-- What follows the word `if` at the front, after white space. -/
def condition? (s : List Char) : Option (List Char) :=
  match dropLeading isBlank s with
  | 'i' :: 'f' :: r => if endsWord r then some (dropLeading isBlank r) else none
  | _ => none

/-- What follows an equals sign at the front, after white space. -/
def expression? (s : List Char) : Option (List Char) :=
  match dropLeading isBlank s with
  | '=' :: r => some (dropLeading isBlank r)
  | _ => none

/-- What stands in front of the first whole word `in`, and what behind it.  `inWord` tells whether
the character before `s` is one of a word. -/
def splitAtIn (inWord : Bool) : List Char → Option (List Char × List Char)
  | [] => none
  | 'i' :: 'n' :: r =>
    if !inWord && endsWord r then some ([], r)
    else (splitAtIn true ('n' :: r)).map fun p => ('i' :: p.1, p.2)
  | c :: s => (splitAtIn (isAlnum c) s).map fun p => (c :: p.1, p.2)

/-- The names and the collection of a loop, without the white space around the word between them
and at the front. -/
def loop? (s : List Char) : Option (List Char × List Char) :=
  (splitAtIn false (dropLeading isBlank s)).map fun p =>
    (dropTrailing isBlank p.1, dropLeading isBlank p.2)

/-- The names of a loop, between commas and without the white space around them. -/
def names (targets : List Char) : List String :=
  (Text.splitOn [','] targets).map fun t => String.ofList (Text.strip isBlank t)

/-- A quote. -/
def isQuote (c : Char) : Bool :=
  c = '"' || c = '\''

/-- What stands in front of the first quote that a comma and a blank follow, and what follows them,
all on one line. -/
def upToFormatEnd : List Char → Option (List Char × List Char)
  | [] => none
  | c :: ',' :: ' ' :: r =>
    if isQuote c then some ([], r)
    else if c = '\n' then none
    else (upToFormatEnd (',' :: ' ' :: r)).map fun p => (c :: p.1, p.2)
  | c :: s => if c = '\n' then none else (upToFormatEnd s).map fun p => (c :: p.1, p.2)

/-- The first text in quotes that a comma and a blank follow: what stands in front of it, what is in
the quotes, and what follows the blank.  The quotes need not be alike. -/
def format? : List Char → Option (List Char × List Char × List Char)
  | [] => none
  | c :: s =>
    match if isQuote c then upToFormatEnd s else none with
    | some (t, r) => some ([], t, r)
    | none => (format? s).map fun p => (c :: p.1, p.2)

/-- The expression is a format with arguments. -/
def isFormat (s : List Char) : Bool :=
  (format? s).isSome

end Trellis.Header
