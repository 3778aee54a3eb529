import Trellis.Value.Arguments

/-!
# Value — Held

What a scope can hold that can be called, apart from the built-in functions: a function that raises
an error by name, one that returns its arguments, and supplies.  An object that holds one of these
under the name `keys` tells its keys by it.
-/

namespace Trellis.Value

/-- A class of causes that can be raised by name. -/
def raisedKind? (name : String) : Option CauseKind :=
  [CauseKind.value, .key, .index, .missingAttribute, .type].find? fun k => k.name == name

/-- The words of an error that was given some values: those of a missing key are shown. -/
def raisedWords (k : CauseKind) : List Value → Action String
  | [] => pure ""
  | [v] => if k = .key then Action.shown v else Action.plain v
  | vs => Action.shown (.tuple vs)

/-- The error of a class of complaints with given words and position. -/
def raiseComplaint (k : ComplaintKind) (args : List Value) : Action Value := do
  if 2 < args.length then
    let given := args.length + 1
    Action.fail (.raised .type
      s!"MintagError.__init__() takes from 1 to 3 positional arguments but {given} were given")
  else
    let words ← Action.writable (args.getD 0 .none)
    let pos ← Action.writable (args.getD 1 .none)
    match k.fault words pos with
    | .ok f => throw f
    | .error c => Action.fail c

/-- The error that the first argument names, with the other arguments. -/
def raise (args : List Value) : Action Value :=
  match args with
  | [] => Action.fail (.missingArgument "fail" "kind")
  | .text name :: vs => do
    match raisedKind? name, ComplaintKind.ofLabel? name with
    | some k, _ => Action.fail (.raised k (← raisedWords k vs))
    | Option.none, some k => raiseComplaint k vs
    | Option.none, Option.none => Action.fail (.noKey (Text.quoted name))
  | v :: _ => do
    let k ← Action.key v
    Action.fail (.noKey (← Action.shown k))

/-- The next item of the supply at an address, and nothing once there is none. -/
def nextSupply (a : Nat) : Action Value := do
  match (← getThe Heap).cells[a]? with
  | some (.supply (v :: vs)) =>
    Action.assign a (.supply vs)
    return v
  | _ => return .none

/-- The result of calling what an object holds, without arguments. -/
def callHeld (v : Value) : Action Value :=
  match v with
  | .function .collect => Action.newList []
  | .function .raise => raise []
  | .ref .supply a => nextSupply a
  | v => Action.fail (.notCallable v.typeName)

/-- The keys that an object tells by what it holds for them. -/
def toldKeys (object held : Value) : Action (List Value) := do
  let told ← callHeld held
  match ← items? told with
  | some ks => return ks
  | Option.none => Action.fail (.keysNotIterable object.typeName told.typeName)

end Trellis.Value
