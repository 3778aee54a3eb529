import Trellis.Expr.Scope
import Trellis.Proofs.Json.Contents
import Trellis.Proofs.Json.Spacing

/-!
# Proofs — Json — Inverse

Serializing in expressions, and its inverse (`Json.parse_stringify`).
-/

namespace Trellis.Json

open Trellis.Expr (Names)

/-- A call of a function of the serializer. -/
def callOf (function : String) (e : Expr) : Expr :=
  .factor (.var "JSON") [.member function, .call [e]]

/-- The serialized text of an expression's value. -/
def stringify (e : Expr) : Expr :=
  callOf "stringify" e

/-- What an expression's value is the serialized text of. -/
def parse (e : Expr) : Expr :=
  callOf "parse" e

/-- The functions of the serializer. -/
def functions : List (String × Value) :=
  [("stringify", .function .stringify), ("parse", .function .parse)]

variable {names : Names} {e : Expr} {h₀ h : Heap} {v : Value} {f : String} {g : Function}

/-- A function of the serializer is found by its name. -/
theorem run_member (hf : functions.lookup f = some (.function g)) (o : Origin) (h : Heap) :
    ((Traced.mk Scope.serializer (some o)).member f).run.run h =
      (.ok ⟨.function g, Value.originAt? h (some o) Scope.serializer (.text f)⟩, h) := by
  have hfound : Value.attributeOf? h Scope.serializer o f = some (.function g) := hf
  have hknown : (Value.knownOrigin (some o)).run.run h = (.ok o, h) := rfl
  have hheap : (get : Action Heap).run.run h = (.ok h, h) := rfl
  have hattribute : (Value.attributeOf Scope.serializer (some o) f).run.run h =
      (.ok (.function g), h) := by
    rw [Value.attributeOf, Action.run_bind_ok hknown, Action.run_bind_ok hheap, hfound]
    rfl
  have hmember : (Scope.serializer.member (some o) f).run.run h = (.ok (.function g), h) :=
    hattribute
  rw [Traced.member, Action.run_bind_ok hmember]
  rfl

/-- A function of the serializer is called with the value. -/
theorem run_callOf (hnames : names "JSON" = some Scope.serializer)
    (hf : functions.lookup f = some (.function g)) (he : (e.eval names).run.run h₀ = (.ok v, h)) :
    ((callOf f e).eval names).run.run h₀ = (Value.callFunction g [v]).run.run h := by
  have hvar : ((Expr.var "JSON").eval names).run.run h₀ = (.ok Scope.serializer, h₀) := by
    rw [Expr.eval, Expr.valueOf, hnames]
    rfl
  have hargs : (Expr.evalAll names [e]).run.run h₀ = (.ok [v], h) := by
    rw [Expr.evalAll, Action.run_bind_ok he]
    rfl
  rw [callOf, Expr.eval, Action.run_bind_ok hvar, Expr.applyTails, Expr.applyTail, Expr.traced,
    Action.run_bind_ok (run_member hf _ _), Expr.applyTails, Expr.applyTail, Action.run_bind,
    Action.run_bind_ok hargs, Value.call, Action.run_bind]
  rcases (Value.callFunction g [v]).run.run h with ⟨_ | w, h'⟩ <;> rfl

/-- Data is serialized as its content. -/
theorem eval_stringify (hnames : names "JSON" = some Scope.serializer)
    (he : (e.eval names).run.run h₀ = (.ok v, h)) (hv : Lossless (h.deep v)) {t : String}
    (ht : write (h.deep v) = .ok t) :
    ((stringify e).eval names).run.run h₀ = (.ok (.text t), h) := by
  have hserial : (Action.serial v).run.run h = (.ok (h.deep v), h) :=
    congrArg (fun v => (Except.ok v, h)) (serial_eq_deep hv)
  have hwritten : (Action.ofExcept (write (h.deep v))).run.run h = (.ok t, h) := by
    rw [ht]
    rfl
  have honly : (Value.onlyArgument "json_dumps" "value" [v]).run.run h = (.ok v, h) := rfl
  rw [stringify, run_callOf hnames rfl he, Value.callFunction, Action.run_bind_ok honly,
    Action.run_bind_ok hserial, Action.run_bind_ok hwritten]
  rfl

/-- A text is read, and what it stands for is stored. -/
theorem eval_parse (hnames : names "JSON" = some Scope.serializer) {t : String}
    (he : (e.eval names).run.run h₀ = (.ok (.text t), h)) (ht : read t = .ok v) :
    ((parse e).eval names).run.run h₀ = (Action.store v).run.run h := by
  have hread : (Action.ofExcept (read t)).run.run h = (.ok v, h) := by
    rw [ht]
    rfl
  have honly : (Value.onlyArgument "loads" "s" [.text t]).run.run h = (.ok (.text t), h) := rfl
  rw [parse, run_callOf hnames rfl he, Value.callFunction, Action.run_bind_ok honly]
  exact Action.run_bind_ok hread

/-- **Parsing undoes serializing.**  The value of an expression is data, at any depth.  Then its
serialized text is compact and stands for no other data; what is parsed of it has the content of the
value, keys in order, and leaves what is on the heap as it is. -/
theorem parse_stringify (hnames : names "JSON" = some Scope.serializer)
    (he : (e.eval names).run.run h₀ = (.ok v, h)) (hv : Lossless (h.deep v)) :
    ∃ t w h', ((stringify e).eval names).run.run h₀ = (.ok (.text t), h) ∧ Compact t.toList ∧
      ((parse (stringify e)).eval names).run.run h₀ = (.ok w, h') ∧ h.LeadsTo h' ∧
      h'.deep w = h.deep v ∧
      ∀ {e₁ : Expr} {h₁ h₂ : Heap} {v₁ : Value}, (e₁.eval names).run.run h₁ = (.ok v₁, h₂) →
        Lossless (h₂.deep v₁) → ((stringify e₁).eval names).run.run h₁ = (.ok (.text t), h₂) →
        h₂.deep v₁ = h.deep v := by
  obtain ⟨t, ht⟩ := exists_write hv
  have hwritten := eval_stringify hnames he hv ht
  obtain ⟨w, h', hstore, hh, hdeep⟩ := store_deep hv h
  have hparsed := (eval_parse hnames hwritten (read_write hv ht)).trans hstore
  refine ⟨t, w, h', hwritten, compact_write hv.plain ht, hparsed, hh, hdeep, ?_⟩
  intro e₁ h₁ h₂ v₁ he₁ hv₁ ht₁
  obtain ⟨u, hu⟩ := exists_write hv₁
  have hsame : u = t := by
    have hruns := (eval_stringify hnames he₁ hv₁ hu).symm.trans ht₁
    exact Value.text.inj (Except.ok.inj (Prod.mk.inj hruns).1)
  exact write_injective hv hv₁ ht (hu.trans (hsame ▸ ht.symm))

/-- A list with a control character and a quote in a text, and a dictionary of a number. -/
theorem parse_stringify_list :
    let names := Scope.names [] Scope.builtin
    let e := Expr.list [.literal (.text "\x07\""), .dict [(.text "b", .neg (.literal (.whole 12)))]]
    let v := Value.ref .list 1
    let h : Heap := ⟨#[.dict (Slots.ofList [(.text "b", .int (-12))]),
      .list [.text "\x07\"", .ref .dict 0]], 1⟩
    (e.eval names).run.run Heap.empty = (.ok v, h) ∧
      h.deep v = .list [.text "\x07\"", .dict [(.text "b", .int (-12))]] ∧
      ∃ t w h', ((stringify e).eval names).run.run Heap.empty = (.ok (.text t), h) ∧
        ((parse (stringify e)).eval names).run.run Heap.empty = (.ok w, h') ∧
        h'.deep w = h.deep v := by
  intro names e v h
  have he : (e.eval names).run.run Heap.empty = (.ok v, h) := rfl
  have hdeep : h.deep v = .list [.text "\x07\"", .dict [(.text "b", .int (-12))]] := rfl
  have hshort : (-12 : Int).natAbs < 10 ^ Decimal.digitLimit :=
    Nat.lt_of_lt_of_le (by decide : 12 < 10 ^ 2) (Nat.pow_le_pow_right (by decide) (by decide))
  have hdict : Lossless (.dict [(.text "b", .int (-12))]) :=
    .dict (List.forall_mem_singleton.mpr ⟨_, rfl⟩) (List.nodup_singleton _)
      (List.forall_mem_singleton.mpr (.int hshort))
  have hv : Lossless (h.deep v) :=
    .list (List.forall_mem_cons.mpr ⟨.text _, List.forall_mem_singleton.mpr hdict⟩)
  have hnames : names "JSON" = some Scope.serializer := rfl
  obtain ⟨t, w, h', ht, -, hw, -, hdeep', -⟩ := parse_stringify hnames he hv
  exact ⟨he, hdeep, t, w, h', ht, hw, hdeep'⟩

end Trellis.Json
