import Trellis.Value.Fault

/-!
# Tree — Symbol

The symbols of tags.  A symbol is cut at each of the marks `.` and `#`: what stands in front of the
first mark is the name of the tag, what follows a dot is a class, what follows a hash the identity.
Empty parts do not count, and of several identities the last one does.
-/

namespace Trellis

/-- A tag as its symbol gives it. -/
structure Tag where
  name : String
  identity : Option String
  classes : List String
  deriving DecidableEq, Repr

namespace Tag

/-- The marks that cut a symbol. -/
def isMark (c : Char) : Bool :=
  c = '.' || c = '#'

/-- What stands in front of the first mark, and every mark with what stands behind it. -/
def cut : List Char → List Char × List (Char × List Char)
  | [] => ([], [])
  | c :: s =>
    let (front, parts) := cut s
    if isMark c then ([], (c, front) :: parts) else (c :: front, parts)

/-- The marks with something behind them. -/
def parts (s : List Char) : List (Char × List Char) :=
  (cut s).2.filter fun p => !p.2.isEmpty

/-- The name of a tag whose symbol gives none. -/
def defaultName : String := "div"

/-- What stands behind a given mark, in order. -/
def behind (mark : Char) (ps : List (Char × List Char)) : List String :=
  (ps.filter fun p => p.1 = mark).map fun p => String.ofList p.2

/-- The tag of a symbol. -/
def ofSymbol (s : String) : Tag :=
  let front := (cut s.toList).1
  let ps := parts s.toList
  { name := if front.isEmpty then defaultName else String.ofList front
    identity := (behind '#' ps).getLast?
    classes := behind '.' ps }

/-- The classes as they are written, if there are any. -/
def classText (t : Tag) : Option String :=
  if t.classes.isEmpty then none else some (" ".intercalate t.classes)

/-- The tag of a symbol that is given as a value; one that is empty in any way counts as an empty
text. -/
def ofValue (v : Value) : Except Cause Tag :=
  match v with
  | .text s => .ok (ofSymbol s)
  | v => if v.truth then .error (.noAttribute v.typeName "find") else .ok (ofSymbol "")

/-- The tags that are never closed. -/
def void : List String :=
  ["area", "base", "br", "col", "embed", "hr", "img", "input", "link", "meta", "param", "source",
    "track", "wbr"]

end Tag
end Trellis
