import Trellis.Expr.Eval

/-!
# Expr — Scope

Scopes give values to names.  A scope is a list of entries in the order of their first binding;
extending one binds names anew and leaves the one extended as it is.  A name that the scope does not
bind is looked for among the built-in ones.
-/

namespace Trellis

/-- The entries of a scope; the keys that are texts are names. -/
abbrev Scope := List (Value × Value)

namespace Scope

/-- The value of a name. -/
def lookup? (s : Scope) (name : String) : Option Value :=
  Value.lookup? (.text name) s

/-- The scope with some names bound anew. -/
def extend (s bindings : Scope) : Scope :=
  Value.DictMethod.merge s bindings

/-- The values of names in a scope over built-in ones. -/
def names (s builtins : Scope) : Expr.Names := fun n =>
  match s.lookup? n with
  | some v => some v
  | none => builtins.lookup? n

/-- Serializing and its inverse. -/
def serializer : Value :=
  .object [("stringify", .function .stringify), ("parse", .function .parse)]

/-- The name of the function that formats the content of a node. -/
def formatName : String := "__format"

/-- The built-in names. -/
def builtin : Scope :=
  [(.text formatName, .function .format),
    (.text "JSON", serializer),
    (.text "str", .function .toText),
    (.text "len", .function .length),
    (.text "int", .function .toInt),
    (.text "float", .function .toFloat),
    (.text "range", .function .range),
    (.text "list", .function .list),
    (.text "dict", .function .dict)]

end Scope
end Trellis
