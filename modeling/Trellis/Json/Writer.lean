import Trellis.Value.Fault

/-!
# Json — Writer

The serialized text of a value that holds its content, without white space.  Texts keep all
characters but quotes, backslashes and controls.  Tuples are written as lists, keys that are
numbers, truth values or empty as texts, and values of other types as the text of their own form.
-/

namespace Trellis.Json

open Trellis.Decimal (Shape shape natural)

/-- A character inside a text. -/
def writeChar (c : Char) : List Char :=
  if c = '"' then ['\\', '"']
  else if c = '\\' then ['\\', '\\']
  else if c = '\n' then ['\\', 'n']
  else if c = '\r' then ['\\', 'r']
  else if c = '\t' then ['\\', 't']
  else if c.toNat = 0x0c then ['\\', 'f']
  else if c.toNat = 0x08 then ['\\', 'b']
  else if c.toNat < 0x20 then '\\' :: 'u' :: Text.hexDigits 4 c.toNat
  else [c]

/-- A text in quotes. -/
def writeText (s : String) : String :=
  String.ofList ('"' :: s.toList.flatMap writeChar ++ ['"'])

/-- A whole number. -/
def writeInt (n : Int) : Except Cause String :=
  if Value.isLongInt n then .error .digitsWritten else .ok (toString n)

/-- A floating-point number. -/
def writeFloat (x : Float) : String :=
  match shape x with
  | .nan => "NaN"
  | .infinite negative => if negative then "-Infinity" else "Infinity"
  | .finite _ => natural.text x

/-- A key. -/
def writeKey : Value → Except Cause String
  | .text s => .ok (writeText s)
  | .int n => return writeText (← writeInt n)
  | .float x => .ok (writeText (writeFloat x))
  | .nan _ => .ok (writeText "NaN")
  | .bool b => .ok (writeText (if b then "true" else "false"))
  | .none => .ok (writeText "null")
  | k => .error (.jsonKey k.typeName)

/-- A value that has no form of its own. -/
def writeOther (v : Value) : Except Cause String :=
  if v.hasLongInt then .error .digitsWritten else .ok (writeText v.plain)

mutual

/-- The serialized text of a value. -/
def write : Value → Except Cause String
  | .none => .ok "null"
  | .bool b => .ok (if b then "true" else "false")
  | .int n => writeInt n
  | .float x => .ok (writeFloat x)
  | .nan _ => .ok "NaN"
  | .text s => .ok (writeText s)
  | .list xs | .tuple xs => return "[" ++ ",".intercalate (← writeItems xs) ++ "]"
  | .dict es => return "\x7b" ++ ",".intercalate (← writeEntries es) ++ "\x7d"
  | .ref .list _ | .ref .dict _ | .cut _ => .error .circular
  | .range a b c => writeOther (.range a b c)
  | .object fs => writeOther (.object fs)
  | .set xs n => writeOther (.set xs n)
  | .view p d m => writeOther (.view p d m)
  | .function f => writeOther (.function f)
  | .generic f xs u => writeOther (.generic f xs u)
  | .descriptor f n => writeOther (.descriptor f n)
  | .method r n o => writeOther (.method r n o)
  | .ref k a => writeOther (.ref k a)
termination_by structural v => v

/-- The serialized texts of items. -/
def writeItems : List Value → Except Cause (List String)
  | [] => .ok []
  | x :: xs => do
    let t ← write x
    return t :: (← writeItems xs)
termination_by structural xs => xs

/-- The serialized texts of entries. -/
def writeEntries : List (Value × Value) → Except Cause (List String)
  | [] => .ok []
  | e :: es => do
    let t ← writeEntry e
    return t :: (← writeEntries es)
termination_by structural es => es

/-- The serialized text of an entry. -/
def writeEntry : Value × Value → Except Cause String
  | (k, v) => do
    let key ← writeKey k
    return key ++ ":" ++ (← write v)
termination_by structural e => e

end

end Trellis.Json
