import Trellis.Expr.Evaluator
import Mathlib.Data.List.Basic

/-!
# Proofs — Evaluation — Variables

The names that an expression asks for.  `Expr.vars` lists the variables of a compiled
expression: neither the keys of a dictionary nor the names of members are among them.  An expression
has the same value under all names that agree on its variables (`Expr.eval_congr`), and so has a
text (`Expr.evaluation_congr`), whatever the scopes bind besides.

`Scope.Agree x` says that two scopes agree on all names but `x`.  They still do when the same names
are bound in both (`Scope.Agree.extend`).
-/

namespace Trellis

namespace Expr

/-! ### Variables -/

mutual

/-- The variables of an expression, in order. -/
def vars : Expr → List String
  | literal _ => []
  | var n => [n]
  | factor e ts => e.vars ++ varsOfTails ts
  | chain e rest => e.vars ++ varsOfSteps rest
  | neg e => e.vars
  | not e => e.vars
  | conj es => varsOfAll es
  | disj es => varsOfAll es
  | choice a b c => a.vars ++ (b.vars ++ c.vars)
  | list es => varsOfAll es
  | dict ps => varsOfPairs ps
termination_by structural e => e

/-- The variables of expressions. -/
def varsOfAll : List Expr → List String
  | [] => []
  | e :: es => e.vars ++ varsOfAll es
termination_by structural es => es

/-- The variables of operands. -/
def varsOfSteps : List (Operator × Expr) → List String
  | [] => []
  | s :: ss => varsOfStep s ++ varsOfSteps ss
termination_by structural ss => ss

/-- The variables of an operand. -/
def varsOfStep : Operator × Expr → List String
  | (_, e) => e.vars
termination_by structural s => s

/-- The variables of the values of a dictionary. -/
def varsOfPairs : List (Literal × Expr) → List String
  | [] => []
  | p :: ps => varsOfPair p ++ varsOfPairs ps
termination_by structural ps => ps

/-- The variables of a value of a dictionary. -/
def varsOfPair : Literal × Expr → List String
  | (_, e) => e.vars
termination_by structural p => p

/-- The variables of calls, indices and members. -/
def varsOfTails : List Tail → List String
  | [] => []
  | t :: ts => varsOfTail t ++ varsOfTails ts
termination_by structural ts => ts

/-- The variables of a call, an index or a member. -/
def varsOfTail : Tail → List String
  | .call es => varsOfAll es
  | .index e => e.vars
  | .member _ => []
termination_by structural t => t

end

/-! ### Evaluation asks for nothing else -/

/-- The names have the same values. -/
def AgreeOn (xs : List String) (names names' : Names) : Prop :=
  ∀ x ∈ xs, names x = names' x

namespace AgreeOn

variable {xs ys : List String} {names names' : Names}

/-- Scopes that agree on names agree on the first of them. -/
theorem left (h : AgreeOn (xs ++ ys) names names') : AgreeOn xs names names' :=
  fun x hx => h x (List.mem_append_left _ hx)

/-- They agree on the others, too. -/
theorem right (h : AgreeOn (xs ++ ys) names names') : AgreeOn ys names names' :=
  fun x hx => h x (List.mem_append_right _ hx)

end AgreeOn

variable {names names' : Names}

mutual

/-- **The value of an expression depends on its variables only.**  By induction on the
expression. -/
theorem eval_congr : (e : Expr) → AgreeOn e.vars names names' → eval names e = eval names' e
  | literal _, _ => rfl
  | var n, h => by
    have hn : names n = names' n := h n (List.mem_singleton_self n)
    simp only [eval, valueOf, hn]
  | factor e ts, h => by
    have hts (t : Traced) := applyTails_congr t ts h.right
    simp only [eval, eval_congr e h.left, hts]
  | chain e rest, h => by
    have hrest (v : Value) := applySteps_congr v rest h.right
    simp only [eval, eval_congr e h.left, hrest]
  | neg e, h => by simp only [eval, eval_congr e h]
  | not e, h => by simp only [eval, eval_congr e h]
  | conj es, h => untilFalse_congr .none es h
  | disj es, h => untilTrue_congr .none es h
  | choice a b c, h => by
    simp only [eval, eval_congr a h.left, eval_congr b h.right.left, eval_congr c h.right.right]
  | list es, h => by simp only [eval, evalAll_congr es h]
  | dict ps, h => by simp only [eval, evalPairs_congr ps h]
termination_by structural e => e

/-- Expressions in a row see no more than their names. -/
theorem evalAll_congr : (es : List Expr) → AgreeOn (varsOfAll es) names names' →
    evalAll names es = evalAll names' es
  | [], _ => rfl
  | e :: es, h => by simp only [evalAll, eval_congr e h.left, evalAll_congr es h.right]
termination_by structural es => es

/-- So do entries. -/
theorem evalPairs_congr : (ps : List (Literal × Expr)) →
    AgreeOn (varsOfPairs ps) names names' → evalPairs names ps = evalPairs names' ps
  | [], _ => rfl
  | p :: ps, h => by simp only [evalPairs, evalPair_congr p h.left, evalPairs_congr ps h.right]
termination_by structural ps => ps

theorem evalPair_congr : (p : Literal × Expr) → AgreeOn (varsOfPair p) names names' →
    evalPair names p = evalPair names' p
  | (_, e), h => by simp only [evalPair, eval_congr e h]
termination_by structural p => p

/-- So do the operands of `and`. -/
theorem untilFalse_congr (v : Value) : (es : List Expr) →
    AgreeOn (varsOfAll es) names names' → untilFalse names v es = untilFalse names' v es
  | [], _ => rfl
  | e :: es, h => by
    have hes (w : Value) := untilFalse_congr w es h.right
    simp only [untilFalse, eval_congr e h.left, hes]
termination_by structural es => es

/-- So do the operands of `or`. -/
theorem untilTrue_congr (v : Value) : (es : List Expr) →
    AgreeOn (varsOfAll es) names names' → untilTrue names v es = untilTrue names' v es
  | [], _ => rfl
  | e :: es, h => by
    have hes (w : Value) := untilTrue_congr w es h.right
    simp only [untilTrue, eval_congr e h.left, hes]
termination_by structural es => es

/-- So do operators in a row. -/
theorem applySteps_congr (v : Value) : (ss : List (Operator × Expr)) →
    AgreeOn (varsOfSteps ss) names names' → applySteps names v ss = applySteps names' v ss
  | [], _ => rfl
  | s :: ss, h => by
    have hss (w : Value) := applySteps_congr w ss h.right
    simp only [applySteps, applyStep_congr v s h.left, hss]
termination_by structural ss => ss

theorem applyStep_congr (v : Value) : (s : Operator × Expr) →
    AgreeOn (varsOfStep s) names names' → applyStep names v s = applyStep names' v s
  | (_, e), h => by simp only [applyStep, eval_congr e h]
termination_by structural s => s

/-- So do calls, indices and members in a row. -/
theorem applyTails_congr (t : Traced) : (us : List Tail) →
    AgreeOn (varsOfTails us) names names' → applyTails names t us = applyTails names' t us
  | [], _ => rfl
  | u :: us, h => by
    have hus (w : Traced) := applyTails_congr w us h.right
    simp only [applyTails, applyTail_congr t u h.left, hus]
termination_by structural us => us

theorem applyTail_congr (t : Traced) : (u : Tail) →
    AgreeOn (varsOfTail u) names names' → applyTail names t u = applyTail names' t u
  | .call es, h => by simp only [applyTail, evalAll_congr es h]
  | .index e, h => by simp only [applyTail, eval_congr e h]
  | .member _, _ => rfl
termination_by structural u => u

end

/-! ### Texts -/

/-- The variables of what stands in the place of a text.  What is no text, or cannot be compiled,
has none. -/
def varsOf : Value → List String
  | .text s =>
    match compile s with
    | .ok e => e.vars
    | .error _ => []
  | _ => []

/-- A text that is evaluated sees no more than the names in it. -/
theorem evaluate_congr (position : Value) (s : String)
    (h : AgreeOn (varsOf (.text s)) names names') :
    evaluate names position s = evaluate names' position s := by
  unfold evaluate compiled
  simp only [varsOf] at h
  cases hc : compile s with
  | error m => rfl
  | ok e =>
    rw [hc] at h
    show e.evalIn names s position = e.evalIn names' s position
    unfold evalIn
    rw [eval_congr e h]

/-- What is no text has no value: it is refused, or counts as an empty text, which cannot be
compiled. -/
theorem source_bind_congr {v : Value} (hv : ∀ t, v ≠ .text t) (position : Value)
    (f g : String → Action Value) : source v position >>= f = source v position >>= g := by
  unfold source
  split
  · exact absurd rfl (hv _)
  · -- what is true is refused, and what is not is an empty text on both sides
    simp only [bind_assoc]
    refine bind_congr fun w => bind_congr fun isTrue => ?_
    cases isTrue <;> rfl

/-- **The value of what stands in the place of a text depends on its variables only.** -/
theorem evaluation_congr {builtins s s' : Scope} {v : Value} (position : Value)
    (h : AgreeOn (varsOf v) (s.names builtins) (s'.names builtins)) :
    evaluation builtins s position v = evaluation builtins s' position v := by
  by_cases hv : ∃ t, v = .text t
  · obtain ⟨t, rfl⟩ := hv
    exact evaluate_congr position t h
  · exact source_bind_congr (fun t ht => hv ⟨t, ht⟩) position _ _

end Expr

/-! ### Scopes -/

namespace Value

/-- Only a text is the same as a text. -/
theorem sameItem_text_iff {n : String} {v : Value} : sameItem (.text n) v = true ↔ v = .text n := by
  cases v with
  | text m =>
    rw [show sameItem (.text n) (.text m) = (n == m) from rfl, beq_iff_eq, text.injEq]
    exact eq_comm
  | _ => simp [sameItem, eqWith]

/-- A key that is the same item as a text is the text. -/
theorem eq_text_of_sameItem {n : String} {v : Value} (h : sameItem v (.text n) = true) :
    v = .text n := by
  unfold sameItem at h
  cases v with
  | text m => rw [eq_of_beq (a := m) (b := n) h]
  | view p d m => cases p <;> cases d <;> simp [eqWith, isSameView, members?] at h
  | _ => simp [eqWith, members?] at h

/-- The first entry is looked at before the others. -/
theorem lookup?_cons (key : Value) (e : Value × Value) (es : List (Value × Value)) :
    lookup? key (e :: es) = if sameItem key e.1 then some e.2 else lookup? key es := by
  unfold lookup?
  rw [List.find?_cons]
  cases sameItem key e.1 <;> rfl

/-- A key that is put is found under its name, and under no other. -/
theorem lookup?_insert (n : String) (k v : Value) (es : List (Value × Value)) :
    lookup? (.text n) (insert k v es) =
      if sameItem (.text n) k then some v else lookup? (.text n) es := by
  induction es with
  | nil => exact lookup?_cons _ _ _
  | cons e es ih =>
    rw [insert]
    by_cases he : sameItem k e.1 = true
    · -- the entry is replaced, and its key is a text only if the new one is
      rw [if_pos he, lookup?_cons, lookup?_cons]
      by_cases hk : sameItem (.text n) k = true
      · obtain rfl := sameItem_text_iff.mp hk
        simp only [he, hk, if_true]
      · have hn : ¬ sameItem (.text n) e.1 = true := by
          intro hn
          rw [sameItem_text_iff.mp hn] at he
          exact hk (sameItem_text_iff.mpr (eq_text_of_sameItem he))
        simp only [if_neg hn, if_neg hk]
    · rw [if_neg he, lookup?_cons, lookup?_cons, ih]
      by_cases hk : sameItem (.text n) k = true
      · obtain rfl := sameItem_text_iff.mp hk
        simp only [if_neg he, if_pos hk]
      · simp only [if_neg hk]

/-- A value is looked up in the first part, and then in the second. -/
theorem lookup?_append (key : Value) (es fs : List (Value × Value)) :
    lookup? key (es ++ fs) = (lookup? key es).or (lookup? key fs) := by
  induction es with
  | nil => rfl
  | cons e es ih =>
    rw [List.cons_append, lookup?_cons, lookup?_cons, ih]
    split <;> rfl

end Value

namespace Scope

/-- In a scope that was extended, the last binding of a name counts. -/
theorem lookup?_extend (s bindings : Scope) (n : String) :
    (s.extend bindings).lookup? n =
      (Value.lookup? (.text n) bindings.reverse).or (s.lookup? n) := by
  unfold extend Value.DictMethod.merge
  induction bindings generalizing s with
  | nil => rfl
  | cons b bs ih =>
    -- one binding, in front of those of the scope
    have hb : lookup? (Value.insert b.1 b.2 s) n =
        (Value.lookup? (.text n) [b]).or (s.lookup? n) := by
      rw [lookup?, Value.lookup?_insert, Value.lookup?_cons]
      split <;> rfl
    rw [List.foldl_cons, ih, hb, List.reverse_cons, Value.lookup?_append, Option.or_assoc]

/-- The scopes agree on all names but `x`. -/
def Agree (x : String) (s s' : Scope) : Prop :=
  ∀ n, n ≠ x → s.lookup? n = s'.lookup? n

namespace Agree

variable {x : String} {s s' : Scope}

/-- A scope agrees with the one in which `x` is bound. -/
theorem bind (s : Scope) (x : String) (v : Value) : Agree x s (s.extend [(.text x, v)]) := by
  intro n hn
  have hx : ¬ Value.sameItem (.text n) (.text x) = true := by
    intro h
    cases Value.sameItem_text_iff.mp h
    exact hn rfl
  rw [lookup?_extend, List.reverse_singleton, Value.lookup?_cons, if_neg hx]
  rfl

/-- Scopes that agree but on one name do so with the same values bound. -/
theorem extend (h : Agree x s s') (bindings : Scope) :
    Agree x (s.extend bindings) (s'.extend bindings) := by
  intro n hn
  rw [lookup?_extend, lookup?_extend, h n hn]

/-- Names over built-in ones. -/
theorem names (h : Agree x s s') (builtins : Scope) {xs : List String} (hx : x ∉ xs) :
    Expr.AgreeOn xs (s.names builtins) (s'.names builtins) := by
  intro n hn
  have hne : n ≠ x := fun he => hx (he ▸ hn)
  simp only [Scope.names, h n hne]

end Agree

end Scope
end Trellis
