import Trellis.Value.Method.Text
import Trellis.Value.Method.List
import Trellis.Value.Method.Dict
import Trellis.Value.Placeholders
import Trellis.Json.Reader

/-!
# Value — Call

Values that can be called: the built-in functions, the methods, and what a scope can hold besides.
-/

namespace Trellis.Value

/-- The only argument of a function whose parameter has a name. -/
def onlyArgument (function parameter : String) (args : List Value) : Action Value :=
  match args with
  | [v] => pure v
  | [] => Action.fail (.missingArgument function parameter)
  | vs => wrongArity function (.positional 1) vs

/-- The range with given bounds and step. -/
def makeRange (args : List Value) : Action Value := do
  expectBetween "range" 1 3 args
  match args with
  | [b] => return .range 0 (← whole b) 1
  | a :: b :: r =>
    let a ← whole a
    let b ← whole b
    let c ←
      match r with
      | c :: _ => whole c
      | [] => pure 1
    if c = 0 then Action.fail .zeroStep else return .range a b c
  | [] => return .none

/-- A whole number. -/
def makeInt (args : List Value) : Action Value :=
  match args with
  | [] => pure (.int 0)
  | [v] => toInt v
  | [v, b] => toIntIn v b
  | vs => wrongArity "int" (.takesMost 2) vs

/-- A floating-point number. -/
def makeFloat (args : List Value) : Action Value := do
  expectBetween "float" 0 1 args
  match args with
  | v :: _ => toFloat v
  | [] => return .float 0

/-- A new list of the items of a collection. -/
def makeList (args : List Value) : Action Value := do
  expectBetween "list" 0 1 args
  match args with
  | v :: _ => Action.newList (← items v)
  | [] => Action.newList []

/-- The result of a function. -/
def callFunction (f : Function) (args : List Value) : Action Value := do
  match f with
  | .toText => return .text (← Action.embedded (← onlyArgument "to_text" "value" args))
  | .length => return .int (← length (← takeOne "len" args))
  | .toInt => makeInt args
  | .toFloat => makeFloat args
  | .range => makeRange args
  | .list => makeList args
  | .dict => DictMethod.construct args
  | .format =>
    match args with
    | [] => Action.fail (.missingArgument "format_string" "fmt")
    | v :: vs => return .text (← Placeholders.format v vs)
  | .stringify =>
    let v ← onlyArgument "json_dumps" "value" args
    return .text (← Action.ofExcept (Json.write (← Action.serial v)))
  | .parse =>
    match ← onlyArgument "loads" "s" args with
    | .text s => Action.store (← Action.ofExcept (Json.read s))
    | v => Action.fail (.jsonInput v.shortTypeName)
  | .collect => Action.newList args
  | .raise => raise args

/-- One more call of the counter at an address: whether its bound holds. -/
def stepCounter (a : Nat) (args : List Value) : Action Value := do
  if !args.isEmpty then
    Action.fail (.arity "Counter.step" (.positional 1) (args.length + 1))
  match (← getThe Heap).cells[a]? with
  | some (.counter bound count) =>
    Action.assign a (.counter bound (count + 1))
    return .bool (← Action.ofExcept (holds .le (.int (count + 1)) (← Action.deep bound)))
  | _ => return .none

/-- The result of a method. -/
def callMethod (receiver : Value) (name : String) (args : List Value) : Action Value :=
  match receiver with
  | .text s => TextMethod.call s name args
  | .ref .list a => ListMethod.call a name args
  | .ref .dict a => DictMethod.call a name args
  | .ref .counter a => stepCounter a args
  | v => Action.fail (.noAttribute v.typeName name)

/-- The result of a method of a type, which is given the value that it is a method of. -/
def callDescriptor (f : Function) (name : String) (args : List Value) : Action Value :=
  match f, args with
  | .list, .ref .list a :: vs => ListMethod.call a name vs
  | .dict, .ref .dict a :: vs => DictMethod.call a name vs
  | .list, [] | .dict, [] => Action.fail (.unboundMethod (functionName f) name)
  | .list, v :: _ | .dict, v :: _ => Action.fail (.foreignMethod (functionName f) name v.typeName)
  | _, _ => Action.fail (.notCallable (typeName (.descriptor f name)))

/-- The result of calling a value. -/
def call (v : Value) (args : List Value) : Action Value :=
  match v with
  | .function f | .generic f _ _ => callFunction f args
  | .descriptor f name => callDescriptor f name args
  | .method r name _ => callMethod r name args
  | .ref .supply a => nextSupply a
  | v => Action.fail (.notCallable v.typeName)

end Trellis.Value
