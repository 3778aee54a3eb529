import Trellis.Value.Arguments
import Trellis.Text.Casing

/-!
# Value — Method — Text

The methods of texts.
-/

namespace Trellis.Value.TextMethod

open Trellis.Text (isBlank)

/-- A mapping of the characters, which takes no arguments. -/
def mapped (name : String) (f : List Char → List Char) (s : List Char) (args : List Value) :
    Action Value := do
  takeNone ("str." ++ name) args
  return .text (String.ofList (f s))

/-- The text has only digits, and at least one. -/
def isdigit (s : List Char) (args : List Value) : Action Value := do
  takeNone "str.isdigit" args
  return .bool (!s.isEmpty && s.all Text.isDigit)

/-- The text without blanks, or given characters, at both ends. -/
def strip (s : List Char) (args : List Value) : Action Value := do
  expectBetween "strip" 0 1 args
  match args with
  | [.text t] =>
    let cs := t.toList
    return .text (String.ofList (Text.strip (fun c => cs.contains c) s))
  | [] | [.none] => return .text (String.ofList (Text.strip isBlank s))
  | _ => Action.fail (.stripArgument "strip")

/-- An argument that has to be a text. -/
def replaceArgument (index : Nat) : Value → Action (List Char)
  | .text t => pure t.toList
  | v => Action.fail (.replaceArgument index v.argumentName)

/-- The text with occurrences of a text replaced. -/
def replace (s : List Char) (args : List Value) : Action Value := do
  expectBetween "replace" 2 3 args
  let old ← replaceArgument 1 (args.getD 0 .none)
  let new ← replaceArgument 2 (args.getD 1 .none)
  let most := s.length + 1
  let limit ←
    match args[2]? with
    | some v => pure (timesUpTo most (← size v))
    | Option.none => pure most
  return .text (String.ofList (Text.replace old new limit s))

/-- The list of the pieces between occurrences of a separator, or of the words. -/
def split (s : List Char) (args : List Value) : Action Value := do
  if 2 < args.length then wrongArity "split" (.takesMost 2) args
  let most := s.length + 1
  let limit ←
    match args[1]? with
    | some v => pure (timesUpTo most (← size v))
    | Option.none => pure most
  let parts ←
    match args.head? with
    | Option.none | some .none => pure (Text.words limit s)
    | some (.text t) =>
      if t.isEmpty then Action.fail .emptySeparator
      else pure (Text.pieces t.toList 0 limit s)
    | some v => Action.fail (.notTextOrNone v.typeName)
  Action.newList (parts.map fun p => .text (String.ofList p))

/-- The texts that are to be joined, from position `i` on. -/
def joinable (i : Nat) : List Value → Action (List String)
  | [] => pure []
  | .text t :: vs => do return t :: (← joinable (i + 1) vs)
  | v :: _ => Action.fail (.joinItem i v.typeName)

/-- The items of a collection with the text between them. -/
def join (s : List Char) (args : List Value) : Action Value := do
  match ← items? (← takeOne "str.join" args) with
  | some vs => return .text ((String.ofList s).intercalate (← joinable 0 vs))
  | Option.none => Action.fail .notJoinable

/-- The arguments of a search: what is searched, and the slice it is searched in. -/
def searchArguments (name : String) (s : List Char) (args : List Value) :
    Action (Value × Slice) := do
  takeBetween name 1 3 args
  return (args.getD 0 .none, ← sliceOf s.length args[1]? args[2]?)

/-- The text `t` stands at the start or at the end of the slice. -/
def hasAffix (atEnd : Bool) (s : List Char) (sl : Slice) (t : List Char) : Bool :=
  let part := (s.take sl.stop).drop sl.start
  sl.start ≤ sl.stop && (if atEnd then t.isSuffixOf part else t.isPrefixOf part)

/-- One of several texts stands at the start or at the end of the slice; the search ends at the
first that does. -/
def hasAnyAffix (name : String) (atEnd : Bool) (s : List Char) (sl : Slice) :
    List Value → Action Bool
  | [] => pure false
  | .text t :: vs =>
    if hasAffix atEnd s sl t.toList then pure true else hasAnyAffix name atEnd s sl vs
  | v :: _ => Action.fail (.affixItem name v.typeName)

/-- A text, or one of a tuple of texts, stands at the start or at the end. -/
def affix (name : String) (atEnd : Bool) (s : List Char) (args : List Value) : Action Value := do
  let (v, sl) ← searchArguments name s args
  match v with
  | .text t => return .bool (hasAffix atEnd s sl t.toList)
  | .tuple ts => return .bool (← hasAnyAffix name atEnd s sl ts)
  | v => Action.fail (.affix name v.typeName)

/-- The arguments of a search for a text. -/
def needleArguments (name : String) (s : List Char) (args : List Value) :
    Action (List Char × Slice) := do
  let (v, sl) ← searchArguments name s args
  match v with
  | .text t => return (t.toList, sl)
  | v => Action.fail (.notText v.typeName)

/-- The offset of the first occurrence in a slice. -/
def offsetIn? (s t : List Char) (sl : Slice) : Option Nat :=
  if sl.start ≤ sl.stop then
    (Text.indexOf? t ((s.take sl.stop).drop sl.start)).map (· + sl.start)
  else Option.none

/-- The offset of the first occurrence, or minus one. -/
def find (s : List Char) (args : List Value) : Action Value := do
  let (t, sl) ← needleArguments "find" s args
  return .int ((offsetIn? s t sl).elim (-1) Int.ofNat)

/-- The offset of the first occurrence, which there has to be. -/
def index (s : List Char) (args : List Value) : Action Value := do
  let (t, sl) ← needleArguments "index" s args
  match offsetIn? s t sl with
  | some n => return .int n
  | Option.none => Action.fail .noSubstring

/-- The number of occurrences that do not overlap. -/
def count (s : List Char) (args : List Value) : Action Value := do
  let (t, sl) ← needleArguments "count" s args
  if sl.start ≤ sl.stop then return .int (Text.countOf t ((s.take sl.stop).drop sl.start))
  else return .int 0

/-- The result of a method. -/
def call (s : String) (name : String) (args : List Value) : Action Value :=
  let cs := s.toList
  match name with
  | "upper" => mapped "upper" Text.upper cs args
  | "lower" => mapped "lower" Text.lower cs args
  | "title" => mapped "title" Text.title cs args
  | "capitalize" => mapped "capitalize" Text.capitalize cs args
  | "isdigit" => isdigit cs args
  | "strip" => strip cs args
  | "replace" => replace cs args
  | "split" => split cs args
  | "join" => join cs args
  | "startswith" => affix "startswith" false cs args
  | "endswith" => affix "endswith" true cs args
  | "find" => find cs args
  | "index" => index cs args
  | "count" => count cs args
  | _ => Action.fail (.noAttribute "str" name)

end Trellis.Value.TextMethod
