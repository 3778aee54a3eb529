import Trellis.Value.Fault

/-!
# Render — Role

What a node is, read off its symbol: one of the fixed directives, or by its first character an
inline code, a plugin, the call of a mixin or the definition of one, or else a tag.
-/

namespace Trellis

/-- What a node is. -/
inductive Role where
  | condition
  | alternative
  | whileLoop
  | forLoop
  | each
  | comment
  | inclusion
  | text
  | inlineCode
  | plugin (name : String)
  | call (name : String)
  | definition (name : String)
  | tag
  deriving DecidableEq, Repr

namespace Role

/-- The directives with their symbols. -/
def directives : List (String × Role) :=
  [("else", alternative), ("if", condition), ("while", whileLoop), ("for", forLoop),
    ("each", each), ("comment", comment), ("include", inclusion), ("|", text)]

/-- What the first character of a symbol says. -/
def ofChars (s : List Char) : Role :=
  match s with
  | [] => tag
  | '-' :: _ => inlineCode
  | ':' :: r => plugin (String.ofList r)
  | '+' :: r => call (String.ofList r)
  | c :: _ => if 'A' ≤ c && c ≤ 'Z' then definition (String.ofList s) else tag

/-- What a symbol says. -/
def ofSymbol (s : String) : Role :=
  match directives.lookup s with
  | some r => r
  | none => ofChars s.toList

/-- What a symbol of any type says: one that is empty in any way counts as an empty text. -/
def ofValue (v : Value) : Except Cause Role :=
  match v with
  | .text s => .ok (ofSymbol s)
  | v =>
    if !v.truth then .ok tag
    else
      match v.unhashable? with
      | some t => .error (.unhashable t)
      | none => .error (.notSubscriptable v.typeName)

/-- The symbol is the one of an alternative. -/
def isAlternative : Value → Bool
  | .text s => ofSymbol s = alternative
  | _ => false

end Role
end Trellis
