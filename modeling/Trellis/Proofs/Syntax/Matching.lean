import Trellis.Expr.Matcher
import Mathlib

/-!
# Proofs — Syntax — Matching

What matchers find, apart from the furthest failure that they reply with.

* `Finds m c a c'`: at the place `c`, `m` finds `a` and ends at `c'`.  The lemmas on it take a
  composed matcher apart.
* `Spans m u a k`: in front of `k`, `m` finds `a` by taking exactly `u`, wherever that is.  The
  lemmas on it put a composed matcher together, without a word on offsets.
* `FailsAt m k`: in front of `k`, `m` finds nothing.
-/

namespace Trellis.Expr

/-- What a pattern takes stands at the front of the text. -/
def Pattern.Exact (p : Pattern) : Prop :=
  ∀ ⦃s t r⦄, p s = some (t, r) → s = t ++ r

/-- The pattern takes exactly `t` in front of `r`. -/
def Pattern.Takes (p : Pattern) (t r : List Char) : Prop :=
  p (t ++ r) = some (t, r)

/-- What an exact pattern takes of a text, it takes. -/
theorem Pattern.Exact.takes {p : Pattern} (hp : p.Exact) {s t r : List Char}
    (h : p s = some (t, r)) : p.Takes t r := by
  rw [Pattern.Takes, ← hp h, h]

namespace Matcher

variable {α β : Type} {m n : Matcher α} {f : α → Matcher β} {c c' : Cursor}

/-- At `c`, the matcher finds `a` and ends at `c'`. -/
def Finds (m : Matcher α) (c : Cursor) (a : α) (c' : Cursor) : Prop :=
  (m c).found = some (a, c')

/-- The matcher finds nothing in front of `k`. -/
def FailsAt (m : Matcher α) (k : List Char) : Prop :=
  ∀ o, (m ⟨o, k⟩).found = none

/-- In front of `k`, the matcher finds `a` by taking exactly `u`. -/
def Spans (m : Matcher α) (u : List Char) (a : α) (k : List Char) : Prop :=
  ∀ o, Finds m ⟨o, u ++ k⟩ a ⟨o + u.length, k⟩

/-! ### What is found -/

@[simp] theorem found_pure (a : α) : ((pure a : Matcher α) c).found = some (a, c) := rfl

/-- A matcher goes on where the one in front of it stopped. -/
@[simp] theorem found_bind :
    ((m >>= f) c).found = (m c).found.bind fun p => (f p.1 p.2).found := by
  show (andThen m f c).found = _
  simp only [andThen]
  cases (m c).found <;> rfl

@[simp] theorem found_named : (named m c).found = (m c).found := by
  simp only [named]
  cases (m c).found <;> simp

@[simp] theorem found_firstOf_nil : (firstOf ([] : List (Matcher α)) c).found = none := rfl

/-- The first of matchers is tried before the others. -/
@[simp] theorem found_firstOf_cons {ms : List (Matcher α)} :
    (firstOf (m :: ms) c).found = (m c).found.or (firstOf ms c).found := by
  simp only [firstOf, orElse]
  cases (m c).found <;> simp

/-- A token is what its pattern takes, and the cursor is past it. -/
@[simp] theorem found_token {p : Pattern} :
    (token p c).found = (p c.rest).map fun q => (q.1, c.past q.1.length q.2) := by
  simp only [token]
  cases p c.rest <;> rfl

/-- A matcher is absent where it finds nothing, and nothing is taken. -/
@[simp] theorem found_absent :
    (absent m c).found = if (m c).found.isSome then none else some ((), c) := by
  simp only [absent]
  cases (m c).found <;> rfl

/-- At the end nothing is tried; elsewhere a matcher that finds nothing is passed over. -/
@[simp] theorem found_optional :
    (optional m c).found =
      if c.rest.isEmpty then some (none, c)
      else some (match (m c).found with
        | some (a, c') => (some a, c')
        | none => (none, c)) := by
  simp only [optional]
  split
  · rfl
  · cases (m c).found <;> rfl

/-! ### Taking matchers apart -/

theorem finds_pure {a b : α} : Finds (pure a) c b c' ↔ a = b ∧ c = c' := by
  simp [Finds]

/-- Matchers in a row find what they find one after the other. -/
theorem finds_bind {b : β} :
    Finds (m >>= f) c b c' ↔ ∃ a c₁, Finds m c a c₁ ∧ Finds (f a) c₁ b c' := by
  simp [Finds, Option.bind_eq_some_iff]

theorem finds_named {a : α} : Finds (named m) c a c' ↔ Finds m c a c' := by
  simp [Finds]

/-- What the first of several matchers finds is found by one of them. -/
theorem finds_firstOf {ms : List (Matcher α)} {a : α} (h : Finds (firstOf ms) c a c') :
    ∃ m ∈ ms, Finds m c a c' := by
  induction ms with
  | nil => cases h
  | cons m ms ih =>
      rw [Finds, found_firstOf_cons, Option.or_eq_some_iff] at h
      rcases h with h | ⟨-, h⟩
      · exact ⟨m, List.mem_cons_self, h⟩
      · obtain ⟨m', hmem, h'⟩ := ih h
        exact ⟨m', List.mem_cons_of_mem _ hmem, h'⟩

/-- What a token finds is what its pattern takes. -/
theorem finds_token {p : Pattern} {t : List Char} :
    Finds (token p) c t c' ↔ ∃ r, p c.rest = some (t, r) ∧ c' = c.past t.length r := by
  simp only [Finds, found_token, Option.map_eq_some_iff, Prod.exists, Prod.mk.injEq]
  constructor
  · rintro ⟨t, r, h, rfl, rfl⟩
    exact ⟨r, h, rfl⟩
  · rintro ⟨r, h, rfl⟩
    exact ⟨t, r, h, rfl, rfl⟩

/-- What may be absent is found, or nothing is taken. -/
theorem finds_optional {o : Option α} (h : Finds (optional m) c o c') :
    (o = none ∧ c' = c) ∨ ∃ a, o = some a ∧ Finds m c a c' := by
  rw [Finds, found_optional] at h
  split at h
  · cases h
    exact .inl ⟨rfl, rfl⟩
  · cases hm : (m c).found with
    | none =>
        rw [hm] at h
        cases h
        exact .inl ⟨rfl, rfl⟩
    | some p =>
        rw [hm] at h
        cases h
        exact .inr ⟨_, rfl, hm⟩

/-- Absence is found where the matcher finds nothing. -/
theorem finds_absent {u : Unit} : Finds (absent m) c u c' ↔ (m c).found = none ∧ c' = c := by
  rw [Finds, found_absent]
  cases (m c).found with
  | none => simp [eq_comm]
  | some q => simp

/-! ### Putting matchers together -/

theorem Spans.pure (a : α) (k : List Char) : Spans (pure a) [] a k := fun _ => rfl

/-- Matchers in a row span the texts that they span one behind the other. -/
theorem Spans.bind {u v k : List Char} {a : α} {b : β} (h : Spans m u a (v ++ k))
    (h' : Spans (f a) v b k) : Spans (m >>= f) (u ++ v) b k := by
  intro o
  refine finds_bind.mpr ⟨a, ⟨o + u.length, v ++ k⟩, ?_, ?_⟩
  · rw [List.append_assoc]
    exact h o
  · rw [List.length_append, ← Nat.add_assoc]
    exact h' (o + u.length)

/-- A matcher, and then a function of what it finds. -/
theorem Spans.map {u k : List Char} {a : α} (h : Spans m u a k) (g : α → β) :
    Spans (m >>= fun x => Pure.pure (g x)) u (g a) k := by
  have h' := h.bind (f := fun x => Pure.pure (g x)) (v := []) (.pure (g a) k)
  rwa [List.append_nil] at h'

theorem Spans.named {u k : List Char} {a : α} (h : Spans m u a k) : Spans (named m) u a k :=
  fun o => finds_named.mpr (h o)

/-- A token spans what its pattern takes. -/
theorem Spans.token {p : Pattern} {t k : List Char} (h : p.Takes t k) : Spans (token p) t t k :=
  fun _ => finds_token.mpr ⟨k, h, rfl⟩

/-- Absence spans no text. -/
theorem Spans.absent {k : List Char} (h : FailsAt m k) : Spans (absent m) [] () k :=
  fun o => finds_absent.mpr ⟨h o, rfl⟩

/-- What may be absent spans a text that is not empty if its matcher does. -/
theorem Spans.some {u k : List Char} {a : α} (h : Spans m u a k) (hu : u ++ k ≠ []) :
    Spans (optional m) u (some a) k := by
  intro o
  rw [Finds, found_optional, if_neg (by simpa using hu), show (m ⟨o, u ++ k⟩).found = _ from h o]

/-- It spans no text where its matcher fails, or at the end. -/
theorem Spans.none {k : List Char} (h : k = [] ∨ FailsAt m k) :
    Spans (optional m) [] none k := by
  intro o
  rcases h with rfl | h
  · rfl
  · rw [Finds, List.nil_append, found_optional]
    split
    · rfl
    · rw [h o]
      rfl

/-- The first matcher that fits decides. -/
theorem Spans.firstOf_head {ms : List (Matcher α)} {u k : List Char} {a : α}
    (h : Spans m u a k) : Spans (firstOf (m :: ms)) u a k := by
  intro o
  rw [Finds, found_firstOf_cons, show (m ⟨o, u ++ k⟩).found = _ from h o, Option.some_or]

/-- Those that fail in front of it are passed over. -/
theorem Spans.firstOf_tail {ms : List (Matcher α)} {u k : List Char} {a : α}
    (hm : FailsAt m (u ++ k)) (h : Spans (firstOf ms) u a k) :
    Spans (firstOf (m :: ms)) u a k := by
  intro o
  rw [Finds, found_firstOf_cons, hm o, Option.none_or]
  exact h o

/-- A matcher repeated as often as possible, if that is found however many times are allowed beyond
the number of characters. -/
theorem Spans.many {u k : List Char} {as : List α}
    (h : ∀ limit, u.length ≤ limit → Spans (upTo m limit) u as k) : Spans (many m) u as k :=
  fun o => h _ (by simp) o

/-- A repetition spans no text where its matcher fails, or at the end. -/
theorem Spans.upTo_nil {k : List Char} (h : k = [] ∨ FailsAt m k) (limit : Nat) :
    Spans (upTo m limit) [] [] k := by
  cases limit with
  | zero => exact .pure [] k
  | succ limit => exact (Spans.none h).bind (v := []) (.pure [] k)

/-- One more time is spanned in front, as long as the limit allows. -/
theorem Spans.upTo_cons {u v k : List Char} {a : α} {as : List α} {limit : Nat} (hu : u ≠ [])
    (hl : (u ++ v).length ≤ limit) (h : Spans m u a (v ++ k))
    (h' : ∀ limit, v.length ≤ limit → Spans (upTo m limit) v as k) :
    Spans (upTo m limit) (u ++ v) (a :: as) k := by
  cases limit with
  | zero => cases u <;> simp at hu hl
  | succ limit =>
      have hv : v.length ≤ limit := by
        have := List.length_pos_iff.mpr hu
        rw [List.length_append] at hl
        omega
      exact (h.some (by simp [hu])).bind ((h' limit hv).map (a :: ·))

/-! ### Failing -/

/-- Matchers in a row fail where the first one does. -/
theorem FailsAt.bind {k : List Char} (h : FailsAt m k) (f : α → Matcher β) :
    FailsAt (m >>= f) k := by
  intro o
  rw [found_bind, h o, Option.bind_none]

/-- A matcher that fails after another that spans the front. -/
theorem FailsAt.after {u k : List Char} {a : α} (h : Spans m u a k) (h' : FailsAt (f a) k) :
    FailsAt (m >>= f) (u ++ k) := by
  intro o
  rw [found_bind, show (m ⟨o, u ++ k⟩).found = _ from h o]
  exact h' _

theorem FailsAt.named {k : List Char} (h : FailsAt m k) : FailsAt (named m) k := by
  intro o
  rw [found_named, h o]

/-- A token fails where its pattern takes nothing. -/
theorem FailsAt.token {p : Pattern} {k : List Char} (h : p k = none) : FailsAt (token p) k := by
  intro o
  rw [found_token, h, Option.map_none]

/-- A choice fails where all its matchers do. -/
theorem FailsAt.firstOf {ms : List (Matcher α)} {k : List Char} (h : ∀ m ∈ ms, FailsAt m k) :
    FailsAt (firstOf ms) k := by
  intro o
  induction ms with
  | nil => rfl
  | cons m ms ih =>
      rw [found_firstOf_cons, h m List.mem_cons_self o, Option.none_or]
      exact ih fun m' hm => h m' (List.mem_cons_of_mem _ hm)

end Matcher
end Trellis.Expr
