import Trellis.Expr.Eval
import Trellis.Proofs.Interpretation.Coupling

/-!
# Proofs — Evaluation — Recorded

Evaluation with a record of its calls.  `Expr.record` evaluates an expression as `Expr.eval` does
and lists what is called on the way, and with which arguments; what is called is listed even if the
call fails.

The calls are those of the evaluation itself: the recorded evaluation ends as the other one does,
with the same value or failure and the same heap (`Expr.record_follows`).
-/

namespace Trellis

/-- A call: what is called, and the arguments. -/
structure Called where
  callee : Value
  arguments : List Value

/-- Computations on a heap that also list calls. -/
abbrev Recording := ExceptT Fault (StateM (Heap × List Called))

namespace Recording

variable {α β : Type}

/-- What a computation does with a heap and a list of calls. -/
def exec (x : Recording α) (s : Heap × List Called) : Except Fault α × Heap × List Called :=
  (ExceptT.run x : StateM (Heap × List Called) (Except Fault α)).run s

@[simp] theorem exec_pure (a : α) (s : Heap × List Called) :
    exec (pure a) s = (.ok a, s) := rfl

/-- Recordings in a row go on with what the first one leaves, unless it fails. -/
theorem exec_bind (x : Recording α) (f : α → Recording β) (s : Heap × List Called) :
    exec (x >>= f) s =
      match exec x s with
      | (.ok a, s') => exec (f a) s'
      | (.error e, s') => (.error e, s') := by
  rw [exec, ExceptT.run_bind, StateT.run_bind, exec]
  rcases StateT.run (ExceptT.run x) s with ⟨_ | _, _⟩ <;> rfl

/-- One more call is listed. -/
def list (c : Called) : Recording Unit :=
  modify fun s => (s.1, s.2 ++ [c])

end Recording

/-- The action, which lists nothing. -/
def Action.recorded {α : Type} (x : Action α) : Recording α :=
  ExceptT.mk fun s => ((x.run.run s.1).1, (x.run.run s.1).2, s.2)

namespace Expr

mutual

/-- The value of an expression, with a record of the calls. -/
def record (names : Names) : Expr → Recording Value
  | literal l => pure l.value
  | var n => (valueOf names n).recorded
  | factor e ts => do recordTails names (traced e (← record names e)) ts
  | chain e rest => do recordSteps names (← record names e) rest
  | neg e => do (Operation.neg (← record names e)).recorded
  | not e => do return .bool (!(← (Action.truth (← record names e)).recorded))
  | conj es => recordUntilFalse names .none es
  | disj es => recordUntilTrue names .none es
  | choice test yes no => do
    if ← (Action.truth (← record names test)).recorded then record names yes else record names no
  | list es => do (Action.newList (← recordAll names es)).recorded
  | dict ps => do (Action.newDict (Value.DictMethod.merge [] (← recordPairs names ps))).recorded
termination_by structural e => e

/-- The values of expressions, in order. -/
def recordAll (names : Names) : List Expr → Recording (List Value)
  | [] => pure []
  | e :: es => do
    let v ← record names e
    return v :: (← recordAll names es)
termination_by structural es => es

/-- The entries of a dictionary, in order. -/
def recordPairs (names : Names) : List (Literal × Expr) → Recording (List (Value × Value))
  | [] => pure []
  | p :: ps => do
    let q ← recordPair names p
    return q :: (← recordPairs names ps)
termination_by structural ps => ps

/-- An entry of a dictionary. -/
def recordPair (names : Names) : Literal × Expr → Recording (Value × Value)
  | (k, e) => do return (k.value, ← record names e)
termination_by structural p => p

/-- The value of the first false expression, of the last if there is none, or `v` if there are no
expressions. -/
def recordUntilFalse (names : Names) (v : Value) : List Expr → Recording Value
  | [] => pure v
  | e :: es => do
    let w ← record names e
    if ← (Action.truth w).recorded then recordUntilFalse names w es else return w
termination_by structural es => es

/-- The value of the first true expression, of the last if there is none, or `v` if there are no
expressions. -/
def recordUntilTrue (names : Names) (v : Value) : List Expr → Recording Value
  | [] => pure v
  | e :: es => do
    let w ← record names e
    if ← (Action.truth w).recorded then return w else recordUntilTrue names w es
termination_by structural es => es

/-- The value of operators with their right operands, applied to `v` from left to right. -/
def recordSteps (names : Names) (v : Value) : List (Operator × Expr) → Recording Value
  | [] => pure v
  | s :: ss => do recordSteps names (← recordStep names v s) ss
termination_by structural ss => ss

/-- The value of an operator with its right operand, applied to `v`. -/
def recordStep (names : Names) (v : Value) : Operator × Expr → Recording Value
  | (o, e) => do (Operation.apply o v (← record names e)).recorded
termination_by structural s => s

/-- The value of calls, indices and members, applied to a value from left to right. -/
def recordTails (names : Names) (t : Traced) : List Tail → Recording Value
  | [] => pure t.value
  | u :: us => do recordTails names (← recordTail names t u) us
termination_by structural us => us

/-- The value of a call, which is listed, an index or a member, applied to a value. -/
def recordTail (names : Names) (t : Traced) : Tail → Recording Traced
  | .call es => do
    let args ← recordAll names es
    Recording.list ⟨t.value, args⟩
    return .fresh (← (Value.call t.value args).recorded)
  | .index e => do (t.index (← record names e)).recorded
  | .member n => (t.member n).recorded
termination_by structural u => u

end

/-- The calls of an evaluation that starts with a heap, in order. -/
def calls (names : Names) (e : Expr) (h : Heap) : List Called :=
  ((e.record names).exec (h, [])).2.2

/-- What an evaluation that starts with a heap comes to: a value or a failure, the heap that it
leaves, and its calls. -/
def outcome (names : Names) (e : Expr) (h : Heap) : Except Fault Value × Heap × List Called :=
  (((e.eval names).run.run h).1, ((e.eval names).run.run h).2, e.calls names h)

/-! ### The record and the evaluation -/

/-- The recorded computation ends as the other one does, and only adds to the calls. -/
def FollowedBy {α : Type} (x : Action α) (y : Recording α) : Prop :=
  ∀ h, ∃ new, ∀ cs, y.exec (h, cs) = ((x.run.run h).1, (x.run.run h).2, cs ++ new)

namespace FollowedBy

variable {α β : Type}

theorem pure (a : α) : FollowedBy (Pure.pure a) (Pure.pure a) :=
  fun _ => ⟨[], fun cs => by rw [List.append_nil]; rfl⟩

/-- An action is followed by itself, with nothing recorded. -/
theorem recorded (x : Action α) : FollowedBy x x.recorded :=
  fun _ => ⟨[], fun cs => by rw [List.append_nil]; rfl⟩

/-- Actions that are followed step by step are followed. -/
theorem bind {x : Action α} {y : Recording α} {f : α → Action β} {g : α → Recording β}
    (hx : FollowedBy x y) (hf : ∀ a, FollowedBy (f a) (g a)) : FollowedBy (x >>= f) (y >>= g) := by
  intro h
  obtain ⟨new, hy⟩ := hx h
  rcases hr : x.run.run h with ⟨e | a, h'⟩
  · refine ⟨new, fun cs => ?_⟩
    rw [Recording.exec_bind, hy, Action.run_bind, hr]
  · -- the second part adds to the calls that the first one has listed
    obtain ⟨more, hg⟩ := hf a h'
    refine ⟨new ++ more, fun cs => ?_⟩
    rw [Recording.exec_bind, hy, Action.run_bind, hr]
    simp only [hg, List.append_assoc]

/-- What is listed makes no difference. -/
theorem list (c : Called) {x : Action α} {f : Unit → Recording α} (h : FollowedBy x (f ())) :
    FollowedBy x (Recording.list c >>= f) := by
  intro h₀
  obtain ⟨new, hf⟩ := h h₀
  refine ⟨c :: new, fun cs => ?_⟩
  show (f ()).exec (h₀, cs ++ [c]) = _
  rw [hf, List.append_assoc]
  rfl

/-- A choice by the same condition is followed if both ways are. -/
theorem ite (b : Bool) {x x' : Action α} {y y' : Recording α} (h : FollowedBy x y)
    (h' : FollowedBy x' y') : FollowedBy (if b then x else x') (if b then y else y') := by
  cases b with
  | true => exact h
  | false => exact h'

end FollowedBy

variable {names : Names}

mutual

/-- **The record is one of the evaluation.**  By induction on the expression. -/
theorem record_follows : (e : Expr) → FollowedBy (eval names e) (record names e)
  | literal _ => .pure _
  | var _ => .recorded _
  | factor e ts => (record_follows e).bind fun _ => recordTails_follows _ ts
  | chain e rest => (record_follows e).bind fun v => recordSteps_follows v rest
  | neg e => (record_follows e).bind fun _ => .recorded _
  | not e => (record_follows e).bind fun _ => (FollowedBy.recorded _).bind fun _ => .pure _
  | conj es => recordUntilFalse_follows .none es
  | disj es => recordUntilTrue_follows .none es
  | choice test yes no => (record_follows test).bind fun _ => (FollowedBy.recorded _).bind fun b =>
      .ite b (record_follows yes) (record_follows no)
  | list es => (recordAll_follows es).bind fun _ => .recorded _
  | dict ps => (recordPairs_follows ps).bind fun _ => .recorded _
termination_by structural e => e

/-- Recorded expressions in a row do what the expressions do. -/
theorem recordAll_follows : (es : List Expr) → FollowedBy (evalAll names es) (recordAll names es)
  | [] => .pure _
  | e :: es => (record_follows e).bind fun _ => (recordAll_follows es).bind fun _ => .pure _
termination_by structural es => es

/-- So do recorded entries. -/
theorem recordPairs_follows : (ps : List (Literal × Expr)) →
    FollowedBy (evalPairs names ps) (recordPairs names ps)
  | [] => .pure _
  | p :: ps => (recordPair_follows p).bind fun _ => (recordPairs_follows ps).bind fun _ => .pure _
termination_by structural ps => ps

theorem recordPair_follows : (p : Literal × Expr) →
    FollowedBy (evalPair names p) (recordPair names p)
  | (_, e) => (record_follows e).bind fun _ => .pure _
termination_by structural p => p

/-- So do the operands of `and`. -/
theorem recordUntilFalse_follows (v : Value) : (es : List Expr) →
    FollowedBy (untilFalse names v es) (recordUntilFalse names v es)
  | [] => .pure v
  | e :: es => (record_follows e).bind fun w => (FollowedBy.recorded _).bind fun b =>
      .ite b (recordUntilFalse_follows w es) (.pure w)
termination_by structural es => es

/-- So do the operands of `or`. -/
theorem recordUntilTrue_follows (v : Value) : (es : List Expr) →
    FollowedBy (untilTrue names v es) (recordUntilTrue names v es)
  | [] => .pure v
  | e :: es => (record_follows e).bind fun w => (FollowedBy.recorded _).bind fun b =>
      .ite b (.pure w) (recordUntilTrue_follows w es)
termination_by structural es => es

/-- So do operators in a row. -/
theorem recordSteps_follows (v : Value) : (ss : List (Operator × Expr)) →
    FollowedBy (applySteps names v ss) (recordSteps names v ss)
  | [] => .pure v
  | s :: ss => (recordStep_follows v s).bind fun w => recordSteps_follows w ss
termination_by structural ss => ss

theorem recordStep_follows (v : Value) : (s : Operator × Expr) →
    FollowedBy (applyStep names v s) (recordStep names v s)
  | (_, e) => (record_follows e).bind fun _ => .recorded _
termination_by structural s => s

/-- So do calls, indices and members in a row. -/
theorem recordTails_follows (t : Traced) : (us : List Tail) →
    FollowedBy (applyTails names t us) (recordTails names t us)
  | [] => .pure _
  | u :: us => (recordTail_follows t u).bind fun t => recordTails_follows t us
termination_by structural us => us

theorem recordTail_follows (t : Traced) : (u : Tail) →
    FollowedBy (applyTail names t u) (recordTail names t u)
  | .call es => (recordAll_follows es).bind fun _ => .list _ ((FollowedBy.recorded _).bind fun _ =>
      .pure _)
  | .index e => (record_follows e).bind fun _ => .recorded _
  | .member _ => .recorded _
termination_by structural u => u

end

end Expr
end Trellis
