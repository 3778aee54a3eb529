import Trellis.Tree.Node
import Trellis.Value.Method.Dict

/-!
# Tree — Draft

The external form of trees: nested dictionaries and lists, with finished nodes among them.  A
dictionary is a node whose fields may be missing and may go by either of two names; a list is a
nameless node with the items as children.  `Draft.node` builds the nodes, each with an identity of
its own; finished nodes stay as they are.
-/

namespace Trellis

/-- The external form of a tree. -/
inductive Draft where
  | finished (n : Node)
  /-- What is no dictionary, list or node. -/
  | value (v : Value)
  | list (items : List Draft)
  /-- A dictionary, and the form of its children. -/
  | dict (fields : List (Value × Value)) (children : Draft)

namespace Draft

mutual

/-- The external form that a value is. -/
def ofValue : Value → Draft
  | .list vs => .list (ofValues vs)
  | .tuple vs => .list (ofValues vs)
  | .dict es => .dict es (childrenOf es)
  | v => .value v
termination_by structural v => v

/-- The external forms of items. -/
def ofValues : List Value → List Draft
  | [] => []
  | v :: vs => ofValue v :: ofValues vs
termination_by structural vs => vs

/-- The form of the children in a dictionary. -/
def childrenOf : List (Value × Value) → Draft
  | [] => .value .none
  | e :: es =>
    match childrenIn e with
    | some d => d
    | none => childrenOf es
termination_by structural es => es

/-- The form of the children if the entry has them. -/
def childrenIn : Value × Value → Option Draft
  | (k, v) => if Value.sameItem k (.text "children") then some (ofValue v) else none
termination_by structural e => e

end

/-- The field of one of two names, or a default. -/
def field (fields : List (Value × Value)) (name other : String) (default : Value) : Value :=
  match Value.lookup? (.text name) fields with
  | some v => v
  | none => (Value.lookup? (.text other) fields).getD default

/-- The value, or a default if it is empty in any way. -/
def orElse (v default : Value) : Value :=
  if v.truth then v else default

/-- The attributes that a value stands for. -/
def attributes (v : Value) : Except Fault (List (Value × Value)) :=
  Action.alone do Value.entriesOf (← Value.DictMethod.construct [orElse v (.dict [])])

/-- Building with a supply of identities. -/
abbrev Build := StateT Nat (Except Fault)

/-- An identity that has not been used. -/
def freshId : Build Nat := do
  let n ← get
  set (n + 1)
  return n

/-- A node of given fields and children. -/
def assemble (fields : List (Value × Value)) (children : List Node) : Build Node := do
  let attributes ← attributes (field fields "attributes" "attrs" .none)
  return {
    id := ← freshId
    symbol := field fields "tagOrSymbol" "symbol" (.text "")
    content := orElse (field fields "content" "content" (.text "")) (.text "")
    attributes
    children
    unescaped := (field fields "unescaped" "unescaped" .none).truth
    position := field fields "pos" "pos" .none }

/-- The failure of an item that is no node. -/
def reject {α : Type} (typeName : String) : Build α :=
  throw (.basic (.noAttribute typeName "get"))

/-- The children that a value stands for, which are none. -/
def noChildren (v : Value) : Build (List Node) :=
  match v with
  | .text s => if s.isEmpty then pure [] else reject "str"
  | v => if v.truth then throw (.basic (.notIterable v.typeName)) else pure []

/-- The children that a dictionary with the keys `fields` stands for, which are none. -/
def noChildrenIn (fields : List (Value × Value)) : Build (List Node) :=
  match fields with
  | [] => pure []
  | (k, _) :: _ => reject k.typeName

mutual

/-- The node that a draft describes. -/
def node : Draft → Build Node
  | .finished n => pure n
  | .value v => reject v.typeName
  | .list ds => do assemble [] (← nodes ds)
  | .dict fields children => do assemble fields (← childNodes children)
termination_by structural d => d

/-- The nodes that drafts describe. -/
def nodes : List Draft → Build (List Node)
  | [] => pure []
  | d :: ds => do
    let n ← node d
    return n :: (← nodes ds)
termination_by structural ds => ds

/-- The nodes that the draft of a node's children describes. -/
def childNodes : Draft → Build (List Node)
  | .finished _ => throw (.basic (.notIterable "Node"))
  | .value v => noChildren v
  | .list ds => nodes ds
  | .dict fields _ => noChildrenIn fields
termination_by structural d => d

end

end Draft
end Trellis
