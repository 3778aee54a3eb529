import Trellis.Value.Equality

/-!
# Value — Slots

The storage of a dictionary.  Entries stand in slots in the order in which their keys were put.  An
entry that is taken out leaves its slot empty, and a new one takes the next slot behind the last.
When there is no room for it, the entries move up and the storage gets larger; so they do when the
first key that is no text comes in.

The entries of a dictionary are the `live` ones, and on these `put` and `erase` are `Value.insert`
and `Value.erase`.  The slots themselves matter to a walk that goes on while the dictionary changes.
-/

namespace Trellis

/-- The storage of a dictionary. -/
structure Slots where
  slots : List (Option (Value × Value))
  /-- Two thirds of it are the slots that there is room for. -/
  capacity : Nat
  /-- All keys so far were texts. -/
  textual : Bool

namespace Slots

/-- The storage of a dictionary that never had an entry. -/
def empty : Slots := ⟨[], 0, true⟩

/-- The entries. -/
def live (s : Slots) : List (Value × Value) :=
  s.slots.filterMap id

/-- The number of slots that there is room for. -/
def usable (capacity : Nat) : Nat :=
  capacity * 2 / 3

/-- There is no room for another slot. -/
def isFull (s : Slots) : Bool :=
  usable s.capacity ≤ s.slots.length

/-- The least capacity. -/
def leastCapacity : Nat := 8

/-- The capacity that is chosen for a wanted one: a power of two. -/
def capacityFor (wanted : Nat) : Nat :=
  2 ^ (Nat.log2 (((wanted ||| leastCapacity) - 1) ||| (leastCapacity - 1)) + 1)

/-- The entries moved up, with a new capacity. -/
def repack (s : Slots) (wanted : Nat) (textual : Bool) : Slots :=
  ⟨s.live.map some, capacityFor wanted, s.textual && textual⟩

/-- The entries moved up, with room for as many again. -/
def grow (s : Slots) (textual : Bool) : Slots :=
  s.repack (s.live.length * 3) textual

/-- The value is a text. -/
def isText : Value → Bool
  | .text _ => true
  | _ => false

/-- The storage that can take a key that is a text or not. -/
def accept (s : Slots) (textual : Bool) : Slots :=
  if s.textual && !textual then s.grow textual else s

/-- The storage with room for one more slot. -/
def makeRoom (s : Slots) (textual : Bool) : Slots :=
  if s.isFull then s.grow textual else s

/-- The slots with the value of a key that is there replaced. -/
def replace (key value : Value) : List (Option (Value × Value)) → List (Option (Value × Value))
  | [] => []
  | some e :: es =>
    if Value.sameItem key e.1 then some (e.1, value) :: es else some e :: replace key value es
  | none :: es => none :: replace key value es

/-- The key is there. -/
def contains (s : Slots) (key : Value) : Bool :=
  s.live.any fun e => Value.sameItem key e.1

/-- The storage with a key set to a value. -/
def put (key value : Value) (s : Slots) : Slots :=
  if s.contains key then { s with slots := replace key value s.slots }
  else
    let s := (s.accept (isText key)).makeRoom (isText key)
    { s with slots := s.slots ++ [some (key, value)] }

/-- The slots with the one of a key emptied. -/
def clear (key : Value) : List (Option (Value × Value)) → List (Option (Value × Value))
  | [] => []
  | some e :: es => if Value.sameItem key e.1 then none :: es else some e :: clear key es
  | none :: es => none :: clear key es

/-- The storage without a key. -/
def erase (key : Value) (s : Slots) : Slots :=
  { s with slots := clear key s.slots }

/-- Entries put into the storage one by one. -/
def putAll (s : Slots) (es : List (Value × Value)) : Slots :=
  es.foldl (fun s e => s.put e.1 e.2) s

/-- The storage of entries of which the last one of a key counts. -/
def ofList (es : List (Value × Value)) : Slots :=
  empty.putAll es

/-- The storage is taken over as it is by a dictionary without entries. -/
def isCompact (s : Slots) : Bool :=
  s.slots.length == s.live.length &&
    (s.capacity == leastCapacity || usable (s.capacity / 2) < s.live.length)

/-- The storage with room for the entries of another one. -/
def reserve (s t : Slots) : Slots :=
  if usable s.capacity < t.live.length then
    s.repack (((s.live.length + t.live.length) * 3 + 1) / 2) t.textual
  else s

/-- The storage with the entries of another one put into it. -/
def absorb (s t : Slots) : Slots :=
  if t.live.isEmpty then s
  else if s.live.isEmpty && t.isCompact then t
  else (s.reserve t).putAll t.live

/-- The first entry in the slot `n` or behind it, and the slot behind that entry. -/
def next? (s : Slots) (n : Nat) : Option ((Value × Value) × Nat) :=
  ((s.slots.zipIdx.drop n).findSome? fun e => e.1.map fun x => (x, e.2 + 1))

/-! ### Entries -/

@[simp] theorem live_empty : empty.live = [] := rfl

theorem filterMap_replace (key value : Value) (es : List (Option (Value × Value)))
    (h : (es.filterMap id).any fun e => Value.sameItem key e.1) :
    (replace key value es).filterMap id = Value.insert key value (es.filterMap id) := by
  induction es with
  | nil => simp at h
  | cons e es ih =>
    cases e with
    | none => simpa [replace] using ih (by simpa using h)
    | some e =>
      by_cases he : Value.sameItem key e.1
      · simp [replace, he, Value.insert]
      · have h' : (es.filterMap id).any fun e => Value.sameItem key e.1 := by
          simpa [he] using h
        simpa [replace, he, Value.insert] using ih h'

theorem insert_of_not_any (key value : Value) (es : List (Value × Value))
    (h : (es.any fun e => Value.sameItem key e.1) = false) :
    Value.insert key value es = es ++ [(key, value)] := by
  induction es with
  | nil => rfl
  | cons e es ih =>
    simp only [List.any_cons, Bool.or_eq_false_iff] at h
    simp [Value.insert, h.1, ih h.2]

@[simp] theorem live_repack (s : Slots) (n : Nat) (t : Bool) : (s.repack n t).live = s.live := by
  simp [repack, live]

@[simp] theorem live_grow (s : Slots) (t : Bool) : (s.grow t).live = s.live := by
  simp [grow]

@[simp] theorem live_accept (s : Slots) (t : Bool) : (s.accept t).live = s.live := by
  unfold accept
  split <;> simp

@[simp] theorem live_makeRoom (s : Slots) (t : Bool) : (s.makeRoom t).live = s.live := by
  unfold makeRoom
  split <;> simp

theorem live_append (s : Slots) (e : Value × Value) :
    live { s with slots := s.slots ++ [some e] } = s.live ++ [e] := by
  simp only [live, List.filterMap_append]
  rfl

@[simp] theorem live_put (key value : Value) (s : Slots) :
    (s.put key value).live = Value.insert key value s.live := by
  unfold put
  split
  · next h => exact filterMap_replace key value s.slots h
  · next h =>
    rw [insert_of_not_any key value s.live (by simpa [contains] using h), live_append,
      live_makeRoom, live_accept]

@[simp] theorem live_erase (key : Value) (s : Slots) :
    (s.erase key).live = Value.erase key s.live := by
  unfold erase live
  generalize s.slots = es
  induction es with
  | nil => rfl
  | cons e es ih =>
    cases e with
    | none => simpa [clear] using ih
    | some e =>
      by_cases he : Value.sameItem key e.1
      · simp [clear, he, Value.erase]
      · simpa [clear, he, Value.erase] using ih

@[simp] theorem live_putAll (s : Slots) (es : List (Value × Value)) :
    (s.putAll es).live = es.foldl (fun t e => Value.insert e.1 e.2 t) s.live := by
  unfold putAll
  induction es generalizing s with
  | nil => rfl
  | cons e es ih => simp [ih]

end Slots
end Trellis
