import Trellis.Expr.Evaluator
import Mathlib.Data.List.Basic

/-!
# Proofs — Evaluation — Cache

What an evaluator remembers, told from the texts that it was asked for.  A `Query` is a text in a
scope, at a position.  Queries are asked one after the other on one heap, so that a query may find
what the ones in front of it did to the containers that their scopes share.

After any queries an evaluator remembers the texts among them that can be compiled, once each and
with nothing but the compiled text (`Evaluator.Remembers`).  So it answers every query as an
evaluator does that was asked nothing before, and as the expression language does, which remembers
nothing at all (`Evaluator.ask_after`).
-/

namespace Trellis

/-- A text that is to be evaluated in a scope, at a position. -/
structure Query where
  scope : Scope
  position : Value
  text : String

namespace Evaluator

/-- The answer to a query: the outcome, the heap that it leaves, and the evaluator with what it
remembers then. -/
structure Reply where
  outcome : Except Fault Value
  heap : Heap
  evaluator : Evaluator

/-- The answer to a query on a heap. -/
def ask (e : Evaluator) (h : Heap) (q : Query) : Reply :=
  let (x, e') := e.evaluate q.scope q.position q.text
  let (r, h') := x.run.run h
  ⟨r, h', e'⟩

/-- The evaluator and the heap after queries one after the other. -/
def after (e : Evaluator) (h : Heap) (qs : List Query) : Evaluator × Heap :=
  qs.foldl (fun s q => ((s.1.ask s.2 q).evaluator, (s.1.ask s.2 q).heap)) (e, h)

/-- An evaluator that was asked nothing yet. -/
def fresh (builtins : Scope) : Evaluator := ⟨builtins, []⟩

/-- The evaluator remembers those of the texts that can be compiled, each once, with the compiled
text. -/
structure Remembers (builtins : Scope) (texts : List String) (e : Evaluator) : Prop where
  builtins : e.builtins = builtins
  single : (e.cache.map Prod.fst).Nodup
  mem_iff : ∀ t x, (t, x) ∈ e.cache ↔ t ∈ texts ∧ Expr.compile t = .ok x

variable {builtins : Scope} {texts : List String} {e : Evaluator}

/-- A fresh evaluator remembers nothing. -/
theorem remembers_fresh (builtins : Scope) : Remembers builtins [] (fresh builtins) :=
  ⟨rfl, List.nodup_nil, by simp [fresh]⟩

namespace Remembers

/-- A text that is found was compiled. -/
theorem compile_of_lookup (he : Remembers builtins texts e) {t : String} {x : Expr}
    (h : e.cache.lookup t = some x) : t ∈ texts ∧ Expr.compile t = .ok x := by
  obtain ⟨front, back, hc, -⟩ := List.lookup_eq_some_iff.mp h
  exact (he.mem_iff t x).mp (by simp [hc])

/-- A text that is not found is not remembered under any expression. -/
theorem not_mem_of_lookup {t : String} (h : e.cache.lookup t = none) (x : Expr) :
    (t, x) ∉ e.cache := by
  intro hx
  have := List.lookup_eq_none_iff.mp h (t, x) hx
  simp at this

/-- What is compiled is what an evaluator without a memory compiles. -/
theorem compile_fst (he : Remembers builtins texts e) (t : String) :
    (e.compile t).1 = Expr.compile t := by
  unfold Evaluator.compile
  split
  · next x hx => exact (he.compile_of_lookup hx).2.symm
  · split
    · next x hx => exact hx.symm
    · next m hm => exact hm.symm

/-- A text that cannot be compiled leaves no trace. -/
theorem compile_snd_of_error {t : String} {m : Expr.Mistake} (hm : Expr.compile t = .error m) :
    (e.compile t).2 = e := by
  unfold Evaluator.compile
  cases e.cache.lookup t with
  | some x => rfl
  | none => simp only [hm]

/-- **One more text.**  It is remembered if it can be compiled and was not remembered before. -/
theorem compile_snd (he : Remembers builtins texts e) (t : String) :
    Remembers builtins (texts ++ [t]) (e.compile t).2 := by
  cases hc : Expr.compile t with
  | error m =>
    rw [compile_snd_of_error hc]
    -- a text that cannot be compiled is not remembered
    refine ⟨he.builtins, he.single, fun u x => ?_⟩
    rw [he.mem_iff, List.mem_append, List.mem_singleton]
    constructor
    · exact fun h => ⟨.inl h.1, h.2⟩
    · rintro ⟨hu | rfl, hx⟩
      · exact ⟨hu, hx⟩
      · rw [hc] at hx
        cases hx
  | ok y =>
    unfold Evaluator.compile
    cases hl : e.cache.lookup t with
    | some x =>
      refine ⟨he.builtins, he.single, fun u z => ?_⟩
      -- a text that is remembered already is one of the texts before
      have ht := (he.compile_of_lookup hl).1
      rw [he.mem_iff, List.mem_append, List.mem_singleton]
      constructor
      · exact fun h => ⟨.inl h.1, h.2⟩
      · rintro ⟨hu | rfl, hz⟩
        · exact ⟨hu, hz⟩
        · exact ⟨ht, hz⟩
    | none =>
      simp only [hc]
      refine ⟨he.builtins, ?_, fun u z => ?_⟩
      · -- the new text is none of those that are remembered
        rw [List.map_append, List.nodup_append]
        refine ⟨he.single, by simp, fun u hu v hv => ?_⟩
        rintro rfl
        obtain ⟨⟨w, x⟩, hx, rfl⟩ := List.mem_map.mp hu
        obtain rfl : w = t := by simpa using hv
        exact not_mem_of_lookup hl x hx
      · rw [List.mem_append, he.mem_iff, List.mem_singleton, List.mem_append, List.mem_singleton,
          Prod.mk.injEq]
        constructor
        · rintro (⟨hu, hz⟩ | ⟨rfl, rfl⟩)
          · exact ⟨.inl hu, hz⟩
          · exact ⟨.inr rfl, hc⟩
        · rintro ⟨hu | rfl, hz⟩
          · exact .inl ⟨hu, hz⟩
          · rw [hc] at hz
            exact .inr ⟨rfl, (Except.ok.inj hz).symm⟩

/-- What evaluation makes of the memory is what compilation makes of it. -/
theorem evaluator_ask (e : Evaluator) (h : Heap) (q : Query) :
    (e.ask h q).evaluator = (e.compile q.text).2 := by
  unfold ask Evaluator.evaluate
  rcases e.compile q.text with ⟨_ | x, e'⟩ <;> rfl

/-- The answer is the one of the expression language. -/
theorem ask_eq (he : Remembers builtins texts e) (h : Heap) (q : Query) :
    ((e.ask h q).outcome, (e.ask h q).heap) =
      (Expr.evaluation builtins q.scope q.position (.text q.text)).run.run h := by
  have hlanguage : Expr.evaluation builtins q.scope q.position (.text q.text) =
      Expr.evaluate (q.scope.names builtins) q.position q.text := rfl
  have hc := he.compile_fst q.text
  rw [hlanguage]
  unfold ask Evaluator.evaluate Expr.evaluate Expr.compiled
  rw [← hc, ← he.builtins]
  rcases e.compile q.text with ⟨_ | x, e'⟩ <;> rfl

/-- Queries one after the other. -/
theorem after (he : Remembers builtins texts e) (h : Heap) (qs : List Query) :
    Remembers builtins (texts ++ qs.map Query.text) (e.after h qs).1 := by
  induction qs generalizing e h texts with
  | nil => simpa [Evaluator.after] using he
  | cons q qs ih =>
    have hq : Remembers builtins (texts ++ [q.text]) (e.ask h q).evaluator := by
      rw [evaluator_ask]
      exact he.compile_snd q.text
    have := ih hq (e.ask h q).heap
    rwa [List.append_assoc] at this

end Remembers

/-- **What was asked before makes no difference to an answer.**  An evaluator with some built-in
names is asked queries one after the other.  Each time the outcome and the heap are those of an
evaluator that was asked nothing before, on the same heap, and those of the expression language; and
what is remembered then are the texts so far that can be compiled, each once and with the compiled
text.  A text that cannot be compiled leaves the memory as it is. -/
theorem ask_after (builtins : Scope) (h : Heap) (before : List Query) (q : Query) :
    let s := (fresh builtins).after h before
    let r := s.1.ask s.2 q
    (r.outcome = ((fresh builtins).ask s.2 q).outcome ∧
      r.heap = ((fresh builtins).ask s.2 q).heap) ∧
    (r.outcome, r.heap) =
      (Expr.evaluation builtins q.scope q.position (.text q.text)).run.run s.2 ∧
    Remembers builtins ((before ++ [q]).map Query.text) r.evaluator ∧
    ∀ m, Expr.compile q.text = .error m → r.evaluator = s.1 := by
  intro s r
  have hs : Remembers builtins (before.map Query.text) s.1 :=
    (remembers_fresh builtins).after h before
  have hr := hs.ask_eq s.2 q
  have hfresh := (remembers_fresh builtins).ask_eq s.2 q
  refine ⟨Prod.mk.inj (hr.trans hfresh.symm), hr, ?_, fun m hm => ?_⟩
  · rw [List.map_append, Remembers.evaluator_ask]
    exact hs.compile_snd q.text
  · exact (Remembers.evaluator_ask s.1 s.2 q).trans (Remembers.compile_snd_of_error hm)

end Evaluator
end Trellis
