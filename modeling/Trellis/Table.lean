/-!
# Table

Tables whose entries keep the order in which their keys were first put.  A key that is put again
keeps its place and gets the new value.
-/

namespace Trellis.Table

variable {κ α : Type} [DecidableEq κ]

/-- The value of a key. -/
def get? (k : κ) : List (κ × α) → Option α
  | [] => none
  | e :: es => if e.1 = k then some e.2 else get? k es

/-- The table with a key set to a value. -/
def put (k : κ) (v : α) : List (κ × α) → List (κ × α)
  | [] => [(k, v)]
  | e :: es => if e.1 = k then (k, v) :: es else e :: put k v es

/-- The table of entries of which the last one of a key counts. -/
def ofList (es : List (κ × α)) : List (κ × α) :=
  es.foldl (fun t e => put e.1 e.2 t) []

@[simp] theorem get?_nil (k : κ) : get? k ([] : List (κ × α)) = none := rfl

@[simp] theorem get?_put_self (k : κ) (v : α) (t : List (κ × α)) : get? k (put k v t) = some v := by
  induction t with
  | nil => simp [put, get?]
  | cons e es ih =>
    simp only [put]
    split <;> simp_all [get?]

theorem get?_put_of_ne {k l : κ} (h : l ≠ k) (v : α) (t : List (κ × α)) :
    get? l (put k v t) = get? l t := by
  induction t with
  | nil => simp [put, get?, Ne.symm h]
  | cons e es ih =>
    simp only [put]
    split
    · next he => simp [get?, he, Ne.symm h]
    · simp only [get?, ih]

theorem mem_of_get? {k : κ} {v : α} {t : List (κ × α)} (h : get? k t = some v) : (k, v) ∈ t := by
  induction t with
  | nil => cases h
  | cons e es ih =>
    rw [get?] at h
    split at h
    · next he =>
      obtain rfl := Option.some.inj h
      exact he ▸ List.mem_cons_self
    · exact List.mem_cons_of_mem _ (ih h)

theorem eq_or_mem_of_mem_put {k : κ} {v : α} {e : κ × α} {t : List (κ × α)} (h : e ∈ put k v t) :
    e = (k, v) ∨ e ∈ t := by
  induction t with
  | nil => exact .inl (List.mem_singleton.mp h)
  | cons d ds ih =>
    rw [put] at h
    split at h
    · exact (List.mem_cons.mp h).imp_right (List.mem_cons_of_mem _)
    · rcases List.mem_cons.mp h with rfl | h
      · exact .inr List.mem_cons_self
      · exact (ih h).imp_right (List.mem_cons_of_mem _)

/-- Values are looked up alike when all of them are replaced. -/
theorem get?_map {β : Type} (f : α → β) (k : κ) (t : List (κ × α)) :
    get? k (t.map fun e => (e.1, f e.2)) = (get? k t).map f := by
  induction t with
  | nil => rfl
  | cons e es ih =>
    simp only [List.map_cons, get?]
    split
    · rfl
    · exact ih

theorem put_map {β : Type} (f : α → β) (k : κ) (v : α) (t : List (κ × α)) :
    put k (f v) (t.map fun e => (e.1, f e.2)) = (put k v t).map fun e => (e.1, f e.2) := by
  induction t with
  | nil => rfl
  | cons e es ih =>
    simp only [List.map_cons, put]
    split
    · rfl
    · rw [ih, List.map_cons]

end Trellis.Table
