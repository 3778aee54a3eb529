import Trellis.Decimal.Binary

/-!
# Value — Basic

The values that expressions compute with and scopes hold.

Lists and dictionaries come in two forms.  `list` and `dict` hold their content; `ref` points to a
container on a heap, which several values can share and a method can change.  Everything that is
defined by recursion on a value (equality, order, text, serialization) is defined on values that
hold their content, and applied to a value on a heap after the heap has filled it in.

Some values have an identity besides their content.  A number that is not a number carries a mark,
and two of them are the same object iff their marks agree, which matters for membership in
containers alone; so does a view of a dictionary.  A method of a text carries the origin of the text
it was taken from.
-/

namespace Trellis

/-- The functions that a scope can hold. -/
inductive Function where
  | toText
  | length
  | toInt
  | toFloat
  | range
  | list
  | dict
  | format
  | stringify
  | parse
  /-- Returns the list of its arguments. -/
  | collect
  /-- Raises the error that its arguments describe. -/
  | raise
  deriving DecidableEq, Repr

/-- What a view shows of a dictionary. -/
inductive Part where
  | keys
  | values
  | items
  deriving DecidableEq, Repr

/-- The kinds of objects on a heap. -/
inductive Kind where
  | list
  | dict
  /-- Counts its calls up to a bound. -/
  | counter
  /-- Returns the next of its items at each call. -/
  | supply
  deriving DecidableEq, Repr

/-- Where a text comes from. -/
inductive Origin where
  /-- The value of a name. -/
  | name (n : String)
  /-- What stands in a place of a container on a heap. -/
  | item (address place : Nat)
  /-- What stands in a place of another value. -/
  | part (whole : Origin) (place : Nat)
  /-- It was made, and is known by a mark. -/
  | made (mark : Nat)
  deriving DecidableEq, Repr

/-- Values. -/
inductive Value where
  | none
  | bool (b : Bool)
  | int (n : Int)
  | float (x : Float)
  | nan (mark : Nat)
  | text (s : String)
  | list (items : List Value)
  | tuple (items : List Value)
  | dict (entries : List (Value × Value))
  | range (start stop step : Int)
  /-- An object with attributes. -/
  | object (fields : List (String × Value))
  /-- The difference of a view and other items.  The items are distinct, in the order in which they
  are gone through; `size` is that of the table they stand in, or zero if it has gaps. -/
  | set (items : List Value) (size : Nat)
  | view (part : Part) (of : Value) (mark : Nat)
  | function (f : Function)
  /-- A type of containers with the types of what it contains, or one that goes by its items. -/
  | generic (origin : Function) (arguments : List Value) (unpacked : Bool)
  /-- An attribute of a type, apart from a value of the type. -/
  | descriptor (type : Function) (name : String)
  | method (receiver : Value) (name : String) (origin : Origin)
  | ref (kind : Kind) (address : Nat)
  /-- A part that contains itself, by the form that stands for it. -/
  | cut (form : String)
  deriving Inhabited

namespace Value

/-- The name of a function's type. -/
def functionTypeName : Function → String
  | .length => "builtin_function_or_method"
  | .toInt | .toFloat | .range | .list | .dict => "type"
  | .toText | .format | .stringify | .parse | .collect | .raise => "function"

/-- The name of the type of an attribute of a type. -/
def descriptorTypeName : Function → String
  | .toInt | .toFloat => "getset_descriptor"
  | .range => "member_descriptor"
  | _ => "method_descriptor"

/-- The name of a value's type, as messages about types give it. -/
def typeName : Value → String
  | none => "NoneType"
  | bool _ => "bool"
  | int _ => "int"
  | float _ | nan _ => "float"
  | text _ => "str"
  | list _ => "list"
  | tuple _ => "tuple"
  | dict _ => "dict"
  | range _ _ _ => "range"
  | object _ => "types.SimpleNamespace"
  | set _ _ => "set"
  | view .keys _ _ => "dict_keys"
  | view .values _ _ => "dict_values"
  | view .items _ _ => "dict_items"
  | function f => functionTypeName f
  | generic _ _ _ => "types.GenericAlias"
  | descriptor f _ => descriptorTypeName f
  | method (.ref .counter _) _ _ => "method"
  | method _ _ _ => "builtin_function_or_method"
  | ref .list _ => "list"
  | ref .dict _ => "dict"
  | ref .counter _ => "Counter"
  | ref .supply _ => "Seq"
  | cut _ => "object"

/-- The name of a value's type without its module. -/
def shortTypeName : Value → String
  | object _ => "SimpleNamespace"
  | generic _ _ _ => "GenericAlias"
  | v => typeName v

/-- The number of items of a range. -/
def rangeLength (start stop step : Int) : Nat :=
  if 0 < step then ((stop - start + step - 1) / step).toNat
  else if step < 0 then ((start - stop - step - 1) / (-step)).toNat
  else 0

/-- The whole number that a value counts as: truth values count as zero and one. -/
def asInt? : Value → Option Int
  | bool b => some (if b then 1 else 0)
  | int n => some n
  | _ => Option.none

/-- The truth value of a value that holds its content. -/
def truth : Value → Bool
  | none => false
  | bool b => b
  | int n => n != 0
  | float x => x != 0
  | text s => !s.isEmpty
  | list xs | tuple xs | set xs _ => !xs.isEmpty
  | dict es => !es.isEmpty
  | range a b c => rangeLength a b c != 0
  | view _ (dict es) _ => !es.isEmpty
  | _ => true

/-- The number of bytes that there is room for. -/
def roomLimit : Nat := 2 ^ 35

/-- The number that a value counts as in floating point, if it is one already. -/
def asFloat? : Value → Option Float
  | float x => some x
  | nan _ => some (0.0 / 0.0)
  | _ => Option.none

end Value
end Trellis
