import Trellis.Tree.Symbol
import Trellis.Tree.Header
import Trellis.Expr.Scope

/-!
# Render — Markup

The pieces of markup.  Pieces are values, since escape functions and plugins may give any; joining
them asks for texts.
-/

namespace Trellis.Markup

/-- Pieces joined, the first of them in position `i`; all have to be texts. -/
def joinFrom (i : Nat) : List Value → Except Cause String
  | [] => .ok ""
  | .text s :: vs => (joinFrom (i + 1) vs).map (s ++ ·)
  | v :: _ => .error (.joinItem i v.typeName)

/-- Pieces joined; all have to be texts. -/
def join (vs : List Value) : Except Cause String :=
  joinFrom 0 vs

/-- A text and a piece, which has to be a text. -/
def appendTo (s : String) : Value → Except Cause Value
  | .text t => .ok (.text (s ++ t))
  | v => .error (.textConcatenation v.typeName)

/-- The content of a node as a text; a search in it asks for one. -/
def searchable : Value → Except Cause (List Char)
  | .text s => .ok s.toList
  | v => .error (.expectedText v.typeName)

/-- The content of a node without white space around it. -/
def stripped : Value → Except Cause String
  | .text s => .ok (Text.stripBlank s)
  | v => .error (.noAttribute v.typeName "strip")

/-- A comment. -/
def comment : Value → Except Cause Value
  | .text s => .ok (.text ("<!--" ++ s ++ "-->"))
  | v => .error (.textConcatenation v.typeName)

/-- The expression of a content, in which a format is put around its arguments. -/
def expression (s : List Char) : String :=
  if Header.isFormat s then Scope.formatName ++ "(" ++ String.ofList s ++ ")" else String.ofList s

/-! ### Attributes -/

/-- An attribute that stands for itself. -/
def flag (key : String) : String :=
  key ++ "=\"" ++ key ++ "\""

/-- An attribute without a value, unless it is the class. -/
def emptyAttribute? (key : String) : Option String :=
  if key = "class" then none else some (key ++ "=\"\"")

/-- An attribute with a value as it is written. -/
def written (key : String) (value : String) : String :=
  key ++ "=" ++ value

/-- The values of such an attribute are escaped. -/
def isData (key : String) : Bool :=
  "data-".toList.isPrefixOf key.toList

/-! ### Tags -/

/-- The pieces of a tag in front of its attributes. -/
def opening (t : Tag) : List Value :=
  [.text "<", .text t.name] ++
  (match t.identity with
    | some i => [.text " id=\"", .text i, .text "\""]
    | none => []) ++
  (match t.classText with
    | some c => [.text " class=\"", .text c, .text "\""]
    | none => [])

/-- The pieces of the attributes and the end of the opening tag. -/
def attributes (as : List String) : List Value :=
  (if as.isEmpty then [] else [.text " ", .text (" ".intercalate as)]) ++ [.text ">"]

/-- A name occurs in a text, among items or among keys. -/
def nameOccurs (name : String) : Value → Except Cause Bool
  | .text s => .ok (Text.occursIn name.toList s.toList)
  | .list vs => .ok (vs.any (Value.sameItem (.text name)))
  | .dict es => .ok (es.any fun e => Value.sameItem (.text name) e.1)
  | v => .error (.container v.typeName)

/-- The pieces of the closing tag, unless the tag is never closed. -/
def closing (voidTags : Value) (t : Tag) : Except Cause (List Value) := do
  if ← nameOccurs t.name voidTags then return [] else return [.text "</", .text t.name, .text ">"]

end Trellis.Markup
