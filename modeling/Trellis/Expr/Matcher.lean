import Trellis.Text.Classes

/-!
# Expr — Matcher

Matchers of the front of a text.  A matcher takes the first way that works and never comes back to
another.  Besides what it finds, it replies with the furthest offset at which a named rule was
tried without success, whether or not the whole succeeds; from these the place of a mistake is
told.

Optional and repeated parts are not tried at the end of the text.
-/

namespace Trellis.Expr

/-- A place in a text: the number of characters before it, and the characters from there on. -/
structure Cursor where
  offset : Nat
  rest : List Char
  deriving DecidableEq, Repr

/-- The front of a text. -/
def Cursor.ofText (s : List Char) : Cursor := ⟨0, s⟩

/-- The place after `n` more characters, of which `rest` is left. -/
def Cursor.past (c : Cursor) (n : Nat) (rest : List Char) : Cursor := ⟨c.offset + n, rest⟩

/-- What a matcher finds and where it ends, and the furthest failure of a named rule. -/
structure Reply (α : Type) where
  found : Option (α × Cursor)
  furthest : Nat

/-- Matchers of the front of a text. -/
def Matcher (α : Type) := Cursor → Reply α

namespace Matcher

variable {α β : Type}

/-- Finds `a` without taking anything. -/
def succeed (a : α) : Matcher α := fun c => ⟨some (a, c), 0⟩

/-- Finds nothing. -/
def fail : Matcher α := fun _ => ⟨none, 0⟩

/-- One matcher, and then another. -/
def andThen (m : Matcher α) (f : α → Matcher β) : Matcher β := fun c =>
  let r := m c
  match r.found with
  | none => ⟨none, r.furthest⟩
  | some (a, c') =>
    let r' := f a c'
    ⟨r'.found, max r.furthest r'.furthest⟩

instance : Monad Matcher where
  pure := succeed
  bind := andThen

/-- One matcher, or else another. -/
def orElse (m n : Matcher α) : Matcher α := fun c =>
  let r := m c
  match r.found with
  | some a => ⟨some a, r.furthest⟩
  | none =>
    let r' := n c
    ⟨r'.found, max r.furthest r'.furthest⟩

/-- The first of several matchers that succeeds. -/
def firstOf : List (Matcher α) → Matcher α
  | [] => fail
  | m :: ms => m.orElse (firstOf ms)

/-- A named rule, whose failures count. -/
def named (m : Matcher α) : Matcher α := fun c =>
  let r := m c
  match r.found with
  | some a => ⟨some a, r.furthest⟩
  | none => ⟨none, max r.furthest c.offset⟩

/-- An optional part. -/
def optional (m : Matcher α) : Matcher (Option α) := fun c =>
  if c.rest.isEmpty then ⟨some (none, c), 0⟩
  else
    let r := m c
    match r.found with
    | some (a, c') => ⟨some (some a, c'), r.furthest⟩
    | none => ⟨some (none, c), r.furthest⟩

/-- A part repeated at most `limit` times. -/
def upTo (m : Matcher α) : (limit : Nat) → Matcher (List α)
  | 0 => succeed []
  | limit + 1 => do
    match ← optional m with
    | none => pure []
    | some a => do
      let as ← upTo m limit
      pure (a :: as)

/-- A part, which is never empty, repeated as often as possible. -/
def many (m : Matcher α) : Matcher (List α) := fun c => upTo m c.rest.length c

/-- Succeeds without taking anything where `m` fails.  The failures of `m` count. -/
def absent (m : Matcher α) : Matcher Unit := fun c =>
  let r := m c
  match r.found with
  | some _ => ⟨none, r.furthest⟩
  | none => ⟨some ((), c), r.furthest⟩

end Matcher

/-- Patterns of tokens: what they take from the front of a text, and the rest. -/
abbrev Pattern := List Char → Option (List Char × List Char)

/-- The matcher of a token. -/
def Matcher.token (p : Pattern) : Matcher (List Char) := fun c =>
  match p c.rest with
  | some (t, r) => ⟨some (t, c.past t.length r), 0⟩
  | none => ⟨none, 0⟩

end Trellis.Expr
