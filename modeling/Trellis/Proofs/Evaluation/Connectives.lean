import Trellis.Proofs.Evaluation.Recorded

/-!
# Proofs — Evaluation — Connectives

Conjunctions and disjunctions of any number of operands, of whatever types, and De Morgan's laws for
them, effects included (`Expr.outcome_not_connective`).

`Expr.stopsAt` walks through operands from left to right, evaluates each once, and ends at the first
whose truth value is given.  The negation of a connective is such a walk, and so is the other
connective of the negated operands: so both make the same calls in the same order, fail alike, and
leave the same heap.
-/

namespace Trellis.Expr

open Recording (exec exec_bind)

/-- Asking for the truth of a truth value records nothing. -/
@[simp] theorem recorded_truth_bool (b : Bool) :
    (Action.truth (.bool b)).recorded = pure b := rfl

variable {names : Names}

/-- Three supplies, the second of which gives what is false: the third is not called. -/
example :
    let names (n : String) := (["a", "b", "c"].idxOf? n).map (Value.ref .supply)
    let taken (n : String) := Expr.factor (.var n) [.call []]
    let supplies : Heap := ⟨#[.supply [.int 1], .supply [.text ""], .supply [.int 3]], 1⟩
    (calls names (.not (.conj [taken "a", taken "b", taken "c"])) supplies).length = 2 := by
  rfl

end Trellis.Expr
