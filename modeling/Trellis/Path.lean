import Trellis.Text.Search

/-!
# Path

Paths of slash-separated components.  `normal` drops empty components and `.`, and lets `..` undo
the component in front of it; at the root `..` is dropped, in front of a relative path it stays.
Two slashes at the front are kept, three or more count as one.
-/

namespace Trellis.Path

/-- The slashes at the front that count: none, one, or exactly two. -/
def rootOf : List Char → List Char
  | '/' :: '/' :: '/' :: _ => ['/']
  | '/' :: '/' :: _ => ['/', '/']
  | '/' :: _ => ['/']
  | _ => []

/-- The components between slashes. -/
def components (s : List Char) : List (List Char) :=
  Text.splitOn ['/'] s

/-- The component that undoes the one in front of it. -/
def up : List Char := ['.', '.']

/-- The components walked so far, last first, and one more. -/
def walk (rooted : Bool) (walked : List (List Char)) (c : List Char) : List (List Char) :=
  if c = [] || c = ['.'] then walked
  else if c = up then
    match walked with
    | [] => if rooted then [] else [up]
    | d :: ds => if d = up then up :: d :: ds else ds
  else c :: walked

/-- The components of a path in normal form. -/
def normalComponents (s : List Char) : List (List Char) :=
  ((components s).foldl (walk (!(rootOf s).isEmpty)) []).reverse

/-- A path in normal form; an empty one stands for the current directory. -/
def normalChars (s : List Char) : List Char :=
  let t := rootOf s ++ ['/'].intercalate (normalComponents s)
  if t.isEmpty then ['.'] else t

/-- A path in normal form. -/
def normal (s : String) : String :=
  String.ofList (normalChars s.toList)

/-- A path that starts at the root. -/
def isAbsolute (s : List Char) : Bool :=
  s.head? = some '/'

/-- A path in a directory. -/
def join (directory s : List Char) : List Char :=
  if isAbsolute s then s
  else if directory.isEmpty || directory.getLast? = some '/' then directory ++ s
  else directory ++ '/' :: s

/-- What stands in front of the last component, without slashes at the end unless there is nothing
else. -/
def parent (s : List Char) : List Char :=
  let front := (s.reverse.dropWhile (· ≠ '/')).reverse
  if front.all (· = '/') then front else Text.dropTrailing (· = '/') front

/-- The path `s` as it is meant in a file at `location`, in normal form.  An empty location counts
as none. -/
def canonical (s : String) (location : Option String) : String :=
  let cs := s.toList
  match location with
  | none => normal s
  | some l =>
    if l.isEmpty || isAbsolute cs then normal s
    else String.ofList (normalChars (join (parent l.toList) cs))

/-- The path without slashes at the front. -/
def relative (s : String) : String :=
  String.ofList (Text.dropLeading (· = '/') s.toList)

end Trellis.Path
