import Trellis.Expr.Evaluator
import Trellis.Proofs.Evaluation.Variables
import Trellis.Proofs.Faults.Calls

/-!
# Proofs — Faults — Expressions

What an expression fails with.  Given tame values of names, the value of an expression is tame, and
all failures on the way are ordinary (`Expr.eval_tames`).  Hence a text in a template fails with a
complaint at its own position, or with a failure that is no complaint's (`Expr.evaluation_fails`).
-/

namespace Trellis

open Value (TameItems TameEntries)

/-- What the scope gives to names is tame. -/
def Scope.Tame (s : Scope) : Prop :=
  ∀ n v, s.lookup? n = some v → v.Tame

namespace Scope.Tame

variable {s : Scope}

/-- A scope of tame values is tame. -/
theorem of_forall (h : ∀ e ∈ s, e.2.Tame) : s.Tame := by
  intro n v hv
  obtain ⟨e, he, rfl⟩ := Option.map_eq_some_iff.mp hv
  exact h e (List.mem_of_find?_eq_some he)

/-- The functions that expressions know are tame. -/
theorem builtin : Scope.builtin.Tame :=
  of_forall (by simp [Scope.builtin, Scope.serializer])

/-- A tame scope with tame values bound is tame. -/
theorem extend (hs : s.Tame) {bindings : Scope} (h : ∀ e ∈ bindings, e.2.Tame) :
    (s.extend bindings).Tame := by
  intro n v hv
  rw [lookup?_extend, Option.or_eq_some_iff] at hv
  obtain hv | ⟨-, hv⟩ := hv
  · exact of_forall (fun e he => h e (List.mem_reverse.mp he)) n v hv
  · exact hs n v hv

/-- What a name stands for is tame. -/
theorem names (hs : s.Tame) (n : String) (v : Value)
    (hv : s.names Scope.builtin n = some v) : v.Tame := by
  unfold Scope.names at hv
  split at hv
  · next w hw => exact Option.some.inj hv ▸ hs n w hw
  · exact builtin n v hv

end Scope.Tame

namespace Expr

open Trellis.Action.Tames (pure)
open Trellis.Action (Tames)

variable {names : Names}

/-- Literals are tame. -/
theorem tame_literal (l : Literal) : l.value.Tame := by
  cases l <;> constructor

/-- The values of names are tame. -/
def TameNames (names : Names) : Prop :=
  ∀ n v, names n = some v → v.Tame

/-- A name gives a tame value, or the complaint that it is not bound. -/
theorem valueOf_tames (hn : TameNames names) (n : String) : Tames Value.Tame (valueOf names n) := by
  unfold valueOf
  split
  · next v hv => exact pure (hn n v hv)
  · exact fun _ hh => .error trivial hh

mutual

/-- **The value of an expression is tame.**  By induction on the expression. -/
theorem eval_tames (hn : TameNames names) : (e : Expr) → Tames Value.Tame (eval names e)
  | literal l => pure (tame_literal l)
  | var n => valueOf_tames hn n
  | factor e ts => by
    refine (eval_tames hn e).bind fun v hv => applyTails_tames hn ts ?_
    unfold traced
    split <;> exact hv
  | chain e rest => (eval_tames hn e).bind fun v hv => applySteps_tames hn rest hv
  | neg e => (eval_tames hn e).bind fun v _ => .neg v
  | not e => (eval_tames hn e).bind fun v _ => (Tames.truth v).bind fun b _ => pure (.bool _)
  | conj es => untilFalse_tames hn es .none
  | disj es => untilTrue_tames hn es .none
  | choice test yes no => by
    refine (eval_tames hn test).bind fun v _ => (Tames.truth v).bind fun b _ => ?_
    exact .ite _ (eval_tames hn yes) (eval_tames hn no)
  | list es => (evalAll_tames hn es).bind fun xs hxs => .newList hxs
  | dict ps => (evalPairs_tames hn ps).bind fun es hes => .newDict (TameEntries.nil.insertAll hes)
termination_by structural e => e

/-- Expressions one after the other give tame values. -/
theorem evalAll_tames (hn : TameNames names) : (es : List Expr) → Tames TameItems (evalAll names es)
  | [] => pure .nil
  | e :: es => (eval_tames hn e).bind fun _ hv => (evalAll_tames hn es).bind fun _ hvs =>
    pure (TameItems.cons.mpr ⟨hv, hvs⟩)
termination_by structural es => es

theorem evalPairs_tames (hn : TameNames names) : (ps : List (Literal × Expr)) →
    Tames TameEntries (evalPairs names ps)
  | [] => pure .nil
  | p :: ps => (evalPair_tames hn p).bind fun _ he => (evalPairs_tames hn ps).bind fun _ hes =>
    pure (TameEntries.cons.mpr ⟨he, hes⟩)
termination_by structural ps => ps

theorem evalPair_tames (hn : TameNames names) : (p : Literal × Expr) →
    Tames (fun e => e.1.Tame ∧ e.2.Tame) (evalPair names p)
  | (k, e) => (eval_tames hn e).bind fun _ hv => pure ⟨tame_literal k, hv⟩
termination_by structural p => p

/-- What `and` gives is the value of one of its operands. -/
theorem untilFalse_tames (hn : TameNames names) : (es : List Expr) → {v : Value} → v.Tame →
    Tames Value.Tame (untilFalse names v es)
  | [], _, hv => pure hv
  | e :: es, _, _ => (eval_tames hn e).bind fun w hw => (Tames.truth w).bind fun _ _ =>
    .ite _ (untilFalse_tames hn es hw) (pure hw)
termination_by structural es => es

/-- What `or` gives is the value of one of its operands. -/
theorem untilTrue_tames (hn : TameNames names) : (es : List Expr) → {v : Value} → v.Tame →
    Tames Value.Tame (untilTrue names v es)
  | [], _, hv => pure hv
  | e :: es, _, _ => (eval_tames hn e).bind fun w hw => (Tames.truth w).bind fun _ _ =>
    .ite _ (pure hw) (untilTrue_tames hn es hw)
termination_by structural es => es

/-- Operators in a row give a tame value. -/
theorem applySteps_tames (hn : TameNames names) : (ss : List (Operator × Expr)) →
    {v : Value} → v.Tame → Tames Value.Tame (applySteps names v ss)
  | [], _, hv => pure hv
  | s :: ss, _, hv => (applyStep_tames hn s hv).bind fun _ hw => applySteps_tames hn ss hw
termination_by structural ss => ss

theorem applyStep_tames (hn : TameNames names) : (s : Operator × Expr) → {v : Value} → v.Tame →
    Tames Value.Tame (applyStep names v s)
  | (o, e), _, hv => (eval_tames hn e).bind fun _ hw => .apply o hv hw
termination_by structural s => s

/-- Calls, indices and members in a row give a tame value. -/
theorem applyTails_tames (hn : TameNames names) : (us : List Tail) → {t : Traced} → t.value.Tame →
    Tames Value.Tame (applyTails names t us)
  | [], _, ht => pure ht
  | u :: us, _, ht => (applyTail_tames hn u ht).bind fun _ ht => applyTails_tames hn us ht
termination_by structural us => us

theorem applyTail_tames (hn : TameNames names) : (u : Tail) → {t : Traced} → t.value.Tame →
    Tames (fun t => t.value.Tame) (applyTail names t u)
  | .call es, _, ht => (evalAll_tames hn es).bind fun _ hvs =>
    (Tames.call ht hvs).bind fun _ hw => pure hw
  | .index e, t, ht => (eval_tames hn e).bind fun i _ => (Tames.index ht i).bind fun _ hw =>
    .part t i hw
  | .member n, t, ht => (Tames.member ht t.origin n).bind fun _ hw => .part t (.text n) hw
termination_by structural u => u

end

/-- A complaint at the position, or a failure that does not become one. -/
def FailsAt (position : Value) (f : Fault) : Prop :=
  (∃ c, f = .template c position) ∨ (∃ c, f = .basic c ∧ isComplained c.kind = false) ∨
    f = .unreadableLiteral

/-- An ordinary fault is located at the position, or is none that is complained about. -/
theorem failsAt_located {f : Fault} (hf : f.IsOrdinary) (text : String) (position : Value) :
    FailsAt position (located text position f) := by
  cases f with
  | basic c =>
    cases hc : isComplained c.kind with
    | true => exact .inl ⟨.failed c text, if_pos hc⟩
    | false => exact .inr (.inl ⟨c, if_neg (Bool.eq_false_iff.mp hc), hc⟩)
  | template c p =>
    cases c with
    | unbound n => exact .inl ⟨.unbound n, rfl⟩
    | _ => exact hf.elim
  | unreadableLiteral => exact .inr (.inr rfl)
  | exhausted => exact hf.elim

/-- **What a text fails with.**  In a tame scope and on a tame heap its value is tame, or there is a
complaint at its position, or a failure that is not of the classes of which complaints are made.  The
heap stays tame. -/
theorem evaluation_fails {s : Scope} (hs : s.Tame) {h : Heap} (hh : h.Tame) (position : Value)
    (text : String) :
    (∃ f h', (Expr.evaluation Scope.builtin s position (.text text)).run.run h = (.error f, h') ∧
        FailsAt position f ∧ h'.Tame) ∨
      ∃ v h', (Expr.evaluation Scope.builtin s position (.text text)).run.run h = (.ok v, h') ∧
        v.Tame ∧ h'.Tame := by
  have hrun : (Expr.evaluation Scope.builtin s position (.text text)).run.run h =
      (Expr.evaluate (s.names Scope.builtin) position text).run.run h := rfl
  rw [hrun]
  unfold Expr.evaluate compiled
  cases compile text with
  | error m =>
    refine .inl ⟨_, _, rfl, ?_, hh⟩
    cases m with
    | empty => exact .inl ⟨_, rfl⟩
    | invalid column => exact .inl ⟨_, rfl⟩
    | unreadable => exact .inr (.inr rfl)
  | ok e =>
    have hr := eval_tames hs.names e h hh
    dsimp only
    rw [pure_bind, evalIn, Action.run_tryCatch]
    generalize (eval (s.names Scope.builtin) e).run.run h = r at hr ⊢
    cases hr with
    | ok hv hh => exact .inr ⟨_, _, rfl, hv, hh⟩
    | error hf hh => exact .inl ⟨_, _, rfl, failsAt_located hf text position, hh⟩

end Expr
end Trellis
