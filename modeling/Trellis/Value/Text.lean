import Trellis.Value.Basic
import Trellis.Decimal.Layout
import Trellis.Decimal.Reading
import Trellis.Text.Quoted

/-!
# Value — Text

Three texts of a value that holds its content.

* `shown` is the form inside containers, with texts quoted;
* `plain` is the form of a value on its own, in which a text stands for itself;
* `embedded` is the form inside markup: nothing for the empty value, lower-case truth values,
  whole numbers without a fraction, and `plain` for all else.

`hasLongInt` tells whether a text would need a whole number of more digits than may be written.
-/

namespace Trellis.Value

open Trellis.Decimal (natural digitLimit shape)

/-- The place in memory that forms of functions and methods name: any, since it means nothing. -/
def shownAddress : String := "0x7f0000000000"

/-- The name of a function. -/
def functionName : Function → String
  | .length => "len"
  | .toInt => "int"
  | .toFloat => "float"
  | .range => "range"
  | .list => "list"
  | .dict => "dict"
  | .toText => "to_text"
  | .format => "format_string"
  | .stringify => "json_dumps"
  | .parse => "loads"
  | .collect => "args"
  | .raise => "fail"

/-- The form of a function. -/
def shownFunction (f : Function) : String :=
  let name := functionName f
  match functionTypeName f with
  | "type" => s!"<class '{name}'>"
  | "function" => s!"<function {name} at {shownAddress}>"
  | _ => s!"<built-in function {name}>"

/-- The form of an attribute of a type. -/
def shownDescriptor (f : Function) (name : String) : String :=
  let type := functionName f
  let noun := match descriptorTypeName f with
    | "getset_descriptor" => "attribute"
    | "member_descriptor" => "member"
    | _ => "method"
  s!"<{noun} '{name}' of '{type}' objects>"

/-- The name of a function among the arguments of a type. -/
def genericName : Function → String
  | .toText => "mintag.builtins.to_text"
  | .format => "mintag.builtins.format_string"
  | .stringify => "mintag.builtins.json_dumps"
  | .parse => "json.loads"
  | f => functionName f

mutual

/-- The form of a value inside containers. -/
def shown : Value → String
  | .none => "None"
  | .bool true => "True"
  | .bool false => "False"
  | .int n => toString n
  | .float x => natural.text x
  | .nan _ => "nan"
  | .text s => Text.quoted s
  | .list xs => "[" ++ ", ".intercalate (shownItems xs) ++ "]"
  | .tuple [x] => "(" ++ shown x ++ ",)"
  | .tuple xs => "(" ++ ", ".intercalate (shownItems xs) ++ ")"
  | .dict es => "\x7b" ++ ", ".intercalate (shownEntries es) ++ "\x7d"
  | .range a b 1 => "range(" ++ toString a ++ ", " ++ toString b ++ ")"
  | .range a b c => "range(" ++ toString a ++ ", " ++ toString b ++ ", " ++ toString c ++ ")"
  | .object fs => "namespace(" ++ ", ".intercalate (shownFields fs) ++ ")"
  | .set [] _ => "set()"
  | .set xs _ => "\x7b" ++ ", ".intercalate (shownItems xs) ++ "\x7d"
  | .view .keys (.dict es) _ => "dict_keys([" ++ ", ".intercalate (shownKeys es) ++ "])"
  | .view .values (.dict es) _ => "dict_values([" ++ ", ".intercalate (shownValues es) ++ "])"
  | .view .items (.dict es) _ => "dict_items([" ++ ", ".intercalate (shownPairs es) ++ "])"
  | .view _ _ _ => "dict_view"
  | .function f => shownFunction f
  | .generic f xs u =>
    let arguments := if xs.isEmpty then "()" else ", ".intercalate (shownArguments xs)
    (if u then "*" else "") ++ genericName f ++ "[" ++ arguments ++ "]"
  | .descriptor f name => shownDescriptor f name
  | .method r name _ =>
    "<built-in method " ++ name ++ " of " ++ typeName r ++ " object at " ++ shownAddress ++ ">"
  | .ref .list _ => "[...]"
  | .ref .dict _ => "\x7b...\x7d"
  | .ref .counter _ => "<Counter object at " ++ shownAddress ++ ">"
  | .ref .supply _ => "<Seq object at " ++ shownAddress ++ ">"
  | .cut form => form
termination_by structural v => v

/-- The forms of the arguments of a type; a function goes by its name. -/
def shownArguments : List Value → List String
  | [] => []
  | .function f :: xs => genericName f :: shownArguments xs
  | x :: xs => shown x :: shownArguments xs
termination_by structural xs => xs

/-- The forms of items. -/
def shownItems : List Value → List String
  | [] => []
  | x :: xs => shown x :: shownItems xs
termination_by structural xs => xs

/-- The forms of entries, with a colon between key and value. -/
def shownEntries : List (Value × Value) → List String
  | [] => []
  | e :: es => shownEntry e :: shownEntries es
termination_by structural es => es

/-- The form of an entry. -/
def shownEntry : Value × Value → String
  | (k, v) => shown k ++ ": " ++ shown v
termination_by structural e => e

/-- The forms of keys. -/
def shownKeys : List (Value × Value) → List String
  | [] => []
  | e :: es => shownKey e :: shownKeys es
termination_by structural es => es

/-- The form of a key. -/
def shownKey : Value × Value → String
  | (k, _) => shown k
termination_by structural e => e

/-- The forms of the values of entries. -/
def shownValues : List (Value × Value) → List String
  | [] => []
  | e :: es => shownValue e :: shownValues es
termination_by structural es => es

/-- The form of the value of an entry. -/
def shownValue : Value × Value → String
  | (_, v) => shown v
termination_by structural e => e

/-- The forms of entries as pairs. -/
def shownPairs : List (Value × Value) → List String
  | [] => []
  | e :: es => shownPair e :: shownPairs es
termination_by structural es => es

/-- The form of an entry as a pair. -/
def shownPair : Value × Value → String
  | (k, v) => "(" ++ shown k ++ ", " ++ shown v ++ ")"
termination_by structural e => e

/-- The forms of attributes. -/
def shownFields : List (String × Value) → List String
  | [] => []
  | e :: es => shownField e :: shownFields es
termination_by structural es => es

/-- The form of an attribute. -/
def shownField : String × Value → String
  | (k, v) => k ++ "=" ++ shown v
termination_by structural e => e

end

/-- The form of a value on its own. -/
def plain : Value → String
  | .text s => s
  | v => shown v

/-- The whole number that a floating-point number is. -/
def wholeFloat? (x : Float) : Option Int :=
  match shape x with
  | .finite d => if d.isWhole then some d.truncate else Option.none
  | _ => Option.none

/-- The form of a value inside markup. -/
def embedded : Value → String
  | .none => ""
  | .bool true => "true"
  | .bool false => "false"
  | .float x =>
    match wholeFloat? x with
    | some n => toString n
    | Option.none => natural.text x
  | v => plain v

/-- A whole number that has more digits than may be written. -/
def isLongInt (n : Int) : Bool :=
  10 ^ digitLimit ≤ n.natAbs

mutual

/-- A part of the value is a whole number that has more digits than may be written. -/
def hasLongInt : Value → Bool
  | .int n => isLongInt n
  | .list xs | .tuple xs | .set xs _ | .generic _ xs _ => hasLongIntItem xs
  | .dict es => hasLongIntEntries es
  | .range a b c => isLongInt a || isLongInt b || isLongInt c
  | .object fs => hasLongIntFields fs
  | .view _ d _ => hasLongInt d
  | _ => false
termination_by structural v => v

/-- A part of an item is too long. -/
def hasLongIntItem : List Value → Bool
  | [] => false
  | x :: xs => hasLongInt x || hasLongIntItem xs
termination_by structural xs => xs

/-- A part of an entry is too long. -/
def hasLongIntEntries : List (Value × Value) → Bool
  | [] => false
  | e :: es => hasLongIntEntry e || hasLongIntEntries es
termination_by structural es => es

/-- A part of the entry is too long. -/
def hasLongIntEntry : Value × Value → Bool
  | (k, v) => hasLongInt k || hasLongInt v
termination_by structural e => e

/-- A part of an attribute is too long. -/
def hasLongIntFields : List (String × Value) → Bool
  | [] => false
  | e :: es => hasLongIntField e || hasLongIntFields es
termination_by structural es => es

/-- A part of the attribute is too long. -/
def hasLongIntField : String × Value → Bool
  | (_, v) => hasLongInt v
termination_by structural e => e

end

end Trellis.Value
