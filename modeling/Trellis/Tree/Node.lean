import Trellis.Value.Heap

/-!
# Tree — Node

The nodes of template trees.  A node has an identity, by which what has been rendered of it is
remembered; nodes of one identity are alike.  Symbol, content and attributes are mostly texts and
truth values, but may be of any type, and each use of them says what it takes.

`Node.assign` gives the node of an identity new fields wherever it occurs.
-/

namespace Trellis

/-- A node of a template tree. -/
structure Node where
  id : Nat
  symbol : Value
  content : Value
  attributes : List (Value × Value)
  children : List Node
  unescaped : Bool
  position : Value
  deriving Inhabited

namespace Node

/-- The form of a node in messages. -/
def shown (n : Node) : String :=
  let symbol := n.symbol.shown
  let content := n.content.shown
  let count := n.children.length
  s!"<Node {symbol} {content} ({count} children)>"

mutual

/-- The node with `f` applied to it and its descendants, from the leaves up. -/
def map (f : Node → Node) : Node → Node
  | ⟨id, symbol, content, attributes, children, unescaped, position⟩ =>
    f ⟨id, symbol, content, attributes, mapAll f children, unescaped, position⟩
termination_by structural n => n

/-- The nodes with `f` applied to them and their descendants. -/
def mapAll (f : Node → Node) : List Node → List Node
  | [] => []
  | n :: ns => n.map f :: mapAll f ns
termination_by structural ns => ns

end

/-- The node with the one of an identity replaced. -/
def assign (n : Node) (id : Nat) (new : Node) : Node :=
  n.map fun m => if m.id = id then new else m

/-- The node at the end of a path of child indices. -/
def at? (n : Node) : List Nat → Option Node
  | [] => some n
  | i :: is =>
    match n.children[i]? with
    | some c => c.at? is
    | none => none

mutual

/-- The node as nested dictionaries. -/
def toValue : Node → Value
  | ⟨_, symbol, content, attributes, children, unescaped, position⟩ =>
    .dict
      ([(.text "tagOrSymbol", symbol),
        (.text "content", content),
        (.text "attributes", .dict attributes),
        (.text "children", .list (allToValue children))] ++
      (if unescaped then [(.text "unescaped", .bool true)] else []) ++
      (match position with
        | .none => []
        | p => [(.text "pos", p)]))
termination_by structural n => n

/-- The nodes as nested dictionaries. -/
def allToValue : List Node → List Value
  | [] => []
  | n :: ns => n.toValue :: allToValue ns
termination_by structural ns => ns

end

end Node
end Trellis
