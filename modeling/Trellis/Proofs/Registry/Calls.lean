import Trellis.Proofs.Evaluation.Variables
import Trellis.Proofs.Registry.Executed

/-!
# Proofs — Registry — Calls

The calls of mixins.  A call of a name that the engine has no mixin of is complained about before
anything is done, and only such a call is (`Engine.call_unknown_iff`): wherever the name is known,
it stays known, and a complaint about it can only come from a part of the rendering that has left an
event, such as a plugin (`Calls.Discreet`).

A call of a known name evaluates the keys of its attributes in order, in the scope of the caller,
and renders the children of the body in that scope with the parameters bound, as many as there are
arguments (`Engine.exec_call`, `Mixin.lookup?_bind_param`).
-/

namespace Trellis

open Rendering (exec exec_bind Quiet Grows closed_quiet closed_grows)

namespace Calls

variable {eng : Engine} {name : String} {α β : Type}

variable (eng name) in
/-- The engine has a mixin of the name. -/
def Known (w : World) : Prop :=
  (Table.get? name (w.mixinsOf eng.id)).isSome

/-- Whether a mixin is known is told by the mixins alone. -/
theorem Known.congr {w w' : World} (h : Known eng name w) (hm : w'.mixins = w.mixins) :
    Known eng name w' := by
  simpa only [Known, World.mixinsOf, hm] using h

variable (eng name) in
/-- Where the name is known it stays so, and a complaint that it is not comes with an event. -/
def Discreet (R : α → α → Prop) (x _y : Rendering α) : Prop :=
  ∀ w, Known eng name w →
    Known eng name (exec x w).2 ∧ w.events.size ≤ (exec x w).2.events.size ∧
    (∀ position, (exec x w).1 = .error (.template (.unknownMixin name) position) →
      w.events.size < (exec x w).2.events.size) ∧
    ∀ a, (exec x w).1 = .ok a → ∃ b, R a b

namespace Discreet

variable {R : α → α → Prop} {Q : β → β → Prop}

/-- What leaves the mixins alone and never complains about one. -/
theorem of_quiet {x y : Rendering α} (hq : Quiet x) (hg : Grows x)
    (hx : ∀ w f, (exec x w).1 = .error f → ¬ f.IsUnknownMixin)
    (hR : ∀ w a, (exec x w).1 = .ok a → ∃ b, R a b) : Discreet eng name R x y := by
  intro w hw
  refine ⟨hw.congr (hq w), hg.size_le w, fun position hp => ?_, hR w⟩
  exact absurd ⟨name, position, rfl⟩ (hx w _ hp)

/-- The same if nothing is to be said of the results. -/
theorem same {x y : Rendering α} (hq : Quiet x) (hg : Grows x)
    (hx : ∀ w f, (exec x w).1 = .error f → ¬ f.IsUnknownMixin) : Discreet eng name Eq x y :=
  of_quiet hq hg hx fun _ a _ => ⟨a, rfl⟩

/-- What leaves an event first may complain about anything. -/
theorem of_note (e : Event) {f : Unit → Rendering α} {y : Rendering α} (hq : Quiet (f ()))
    (hg : Grows (f ())) (hR : ∀ a, ∃ b, R a b) :
    Discreet eng name R (Rendering.note e >>= f) y := by
  intro w hw
  have hrun : exec (Rendering.note e >>= f) w =
      exec (f ()) { w with events := w.events.push e } := rfl
  have hlt : w.events.size < (exec (Rendering.note e >>= f) w).2.events.size := by
    have hgrow := hg.size_le { w with events := w.events.push e }
    rw [Array.size_push] at hgrow
    rw [hrun]
    exact Nat.lt_of_succ_le hgrow
  refine ⟨?_, Nat.le_of_lt hlt, fun _ _ => hlt, fun a _ => hR a⟩
  rw [hrun]
  exact hw.congr (hq _)

theorem pure {a b : α} (h : R a b) : Discreet eng name R (Pure.pure a) (Pure.pure b) := by
  refine of_quiet (closed_quiet.pure a) (closed_grows.pure a) (fun w f he => ?_) fun w c hc => ?_
  · cases he
  · obtain rfl := Except.ok.inj hc
    exact ⟨b, h⟩

theorem throw {f : Fault} (hf : ¬ f.IsUnknownMixin) (y : Rendering α) :
    Discreet eng name R (throw f) y := by
  refine of_quiet (closed_quiet.throw f) (closed_grows.throw f) (fun w e he => ?_) fun w a ha => ?_
  · obtain rfl := Except.error.inj he
    exact hf
  · cases ha

/-- Computations in a row are discreet if each is. -/
theorem bind {x y : Rendering α} {f g : α → Rendering β} (hx : Discreet eng name R x y)
    (hf : ∀ a b, R a b → Discreet eng name Q (f a) (g b)) :
    Discreet eng name Q (x >>= f) (y >>= g) := by
  intro w hw
  obtain ⟨hknown, hle, hcomplaint, hR⟩ := hx w hw
  rw [exec_bind]
  rcases hr : exec x w with ⟨e | a, w₁⟩ <;> rw [hr] at hknown hle hcomplaint hR
  · refine ⟨hknown, hle, fun position hp => hcomplaint position ?_, fun b hb => by cases hb⟩
    obtain rfl := Except.error.inj hp
    rfl
  · obtain ⟨b, hb⟩ := hR a rfl
    obtain ⟨hknown', hle', hcomplaint', hQ⟩ := hf a b hb w₁ hknown
    refine ⟨hknown', Nat.le_trans hle hle', fun position hp => ?_, hQ⟩
    exact Nat.lt_of_le_of_lt hle (hcomplaint' position hp)

/-- What is more closely discreet is discreet. -/
theorem mono {S : α → α → Prop} {x y : Rendering α} (hx : Discreet eng name R x y)
    (h : ∀ a b, R a b → S a b) : Discreet eng name S x y := by
  intro w hw
  obtain ⟨hknown, hle, hcomplaint, hR⟩ := hx w hw
  refine ⟨hknown, hle, hcomplaint, fun a ha => ?_⟩
  obtain ⟨b, hb⟩ := hR a ha
  exact ⟨b, h a b hb⟩

/-- A complaint about another name. -/
theorem mixin (other : String) (position : Value) :
    Discreet eng name Eq (eng.mixin other position) (eng.mixin other position) := by
  intro w hw
  have hfind : exec (eng.mixin? other) w = (.ok (Table.get? other (w.mixinsOf eng.id)), w) := rfl
  rw [Engine.mixin, Rendering.exec_bind_ok hfind]
  cases hd : Table.get? other (w.mixinsOf eng.id) with
  | some d =>
    refine ⟨hw, Nat.le_refl _, fun q hq => ?_, fun a _ => ⟨a, rfl⟩⟩
    cases hq
  | none =>
    refine ⟨hw, Nat.le_refl _, fun q hq => ?_, fun a _ => ⟨a, rfl⟩⟩
    cases hq
    -- the name is known, so the complaint is about another one
    rw [Known, hd] at hw
    cases hw

/-- A definition makes a name known, and forgets none. -/
theorem define (other : String) (d : Mixin) (y : Rendering Unit) :
    Discreet eng name Eq (eng.define other d) y := by
  intro w hw
  have hok : (exec (eng.define other d) w).1 = .ok () := rfl
  refine ⟨?_, ?_, fun position hp => ?_, fun a _ => ⟨a, rfl⟩⟩
  · show (Table.get? name (World.mixinsOf { w with
      mixins := w.mixins.setIfInBounds eng.id (Table.put other d (w.mixinsOf eng.id)) }
      eng.id)).isSome
    rw [Engine.mixinsOf_set]
    split
    · by_cases hn : name = other
      · rw [hn, Table.get?_put_self]
        rfl
      · rw [Table.get?_put_of_ne hn]
        exact hw
    · exact hw
  · show w.events.size ≤ (w.events.push _).size
    rw [Array.size_push]
    exact Nat.le_succ _
  · rw [hok] at hp
    cases hp

/-- A request leaves an event, unless there is no loader to ask. -/
theorem request (path : String) (location : Option String) (wanted : Wanted)
    {f : Loaded → Rendering β} {y : Rendering β} (hq : ∀ l, Quiet (f l)) (hg : ∀ l, Grows (f l))
    (hQ : ∀ b, ∃ c, Q b c) :
    Discreet eng name Q (eng.request path location wanted >>= f) y := by
  unfold Engine.request
  cases eng.loader with
  | none =>
    refine throw ?_ y
    rintro ⟨_, _, h⟩
    cases h
  | some number =>
    have hload := closed_quiet.load number path location wanted
    rw [bind_assoc]
    exact of_note _ (hload.bind hq) ((closed_grows.load number path location wanted).bind hg) hQ

end Discreet

/-- **All that an engine does is discreet** about a name that it knows. -/
def coupling (eng : Engine) (name : String) :
    Coupling eng.interpretation eng.interpretation where
  node _ := True
  scope := Eq
  location := Eq
  Rel := Discreet eng name
  children _ _ _ := trivial
  extend := Coupling.extend_eq
  pure := Discreet.pure
  bind := Discreet.bind
  fail hf := .throw hf _
  onHeap {α a} ha := by
    refine .same (closed_quiet.onHeap _) (closed_grows.onHeap _) fun w f he => ?_
    have hrun := congrArg Prod.fst (Rendering.exec_onHeap a w)
    obtain ⟨c, rfl⟩ := ha w.heap f (hrun.symm.trans he)
    rintro ⟨_, _, h⟩
    cases h
  enter _ _ _ := .pure rfl
  define _ _ _ := .define _ _ _
  evaluate {_ _ _ _} _ _ _ :=
    .of_note _ (closed_quiet.onHeap _) (closed_grows.onHeap _) fun a => ⟨a, rfl⟩
  mixin other position := by
    refine (Discreet.mixin other position).mono ?_
    rintro d _ rfl
    exact ⟨rfl, trivial⟩
  plugin other position := by
    refine .same (closed_quiet.plugin _ _) (closed_grows.plugin _ _) fun w f he => ?_
    have hrun := congrArg Prod.fst (eng.exec_plugin other position w)
    have hload := hrun.symm.trans he
    unfold Registry.load at hload
    split at hload
    · cases hload
    · cases hload
      rintro ⟨_, _, h⟩
      cases h
  transform other q source attributes :=
    .of_note _ (closed_quiet.ofExcept _) (closed_grows.ofExcept _) fun a => ⟨a, rfl⟩
  text path _ _ _ := by
    refine .request path _ .text (fun l => ?_) (fun l => ?_) fun a => ⟨a, rfl⟩
    · cases l with
      | text s => exact closed_quiet.pure s
      | tree d l => exact closed_quiet.throw _
    · cases l with
      | text s => exact closed_grows.pure s
      | tree d l => exact closed_grows.throw _
  tree path _ _ _ := by
    refine .request path _ .tree (fun l => ?_) (fun l => ?_) fun a => ⟨a, rfl, trivial, rfl⟩
    · cases l with
      | text s => exact closed_quiet.throw _
      | tree d l => exact (closed_quiet.build _).bind fun _ => closed_quiet.pure _
    · cases l with
      | text s => exact closed_grows.throw _
      | tree d l => exact (closed_grows.build _).bind fun _ => closed_grows.pure _
  track path l l' _ := by
    refine .same (closed_quiet.track _ _) (closed_grows.track _ _) fun w f he => ?_
    have hok : (exec (eng.track l path) w).1 = .ok () := by
      unfold Engine.track
      cases eng.tracker <;> rfl
    cases hok.symm.trans he
  including wanted path _ _ _ := by
    refine .same (closed_quiet.including _ _ _) (closed_grows.including _ _ _) fun w f he => ?_
    cases wanted <;> cases he
  remembered? _ :=
    .same (closed_quiet.remembered? _) (closed_grows.remembered? _) fun w f he => by cases he
  remember html _ :=
    .same (closed_quiet.remember _ _) (closed_grows.remember _ _) fun w f he => by cases he

end Calls

namespace Engine

variable {eng : Engine} {name : String} {p : Place} {n : Node} (g : Group)

/-- A call of an unknown mixin complains, and does nothing before. -/
theorem exec_call_unknown {body : Body} {w : World}
    (h : Table.get? name (w.mixinsOf eng.id) = none) :
    exec (Render.call eng body name p n g) w =
      (.error (.template (.unknownMixin name) n.position), w) := by
  have hfind : exec (eng.mixin? name) w = (.ok none, w) := by
    rw [← h]
    rfl
  rw [Render.call, Rendering.exec_bind_ok hfind]
  rfl

/-- **A call is complained about before it does anything just if the name is unknown.** -/
theorem call_unknown_iff (hn : Role.ofValue n.symbol = .ok (.call name)) (depth : Nat)
    (w : World) :
    exec (Render.call eng (Render.body eng depth) name p n g) w =
        (.error (.template (.unknownMixin name) n.position), w) ↔
      Table.get? name (w.mixinsOf eng.id) = none := by
  refine ⟨fun h => ?_, exec_call_unknown g⟩
  by_contra hd
  -- a known name stays known, and the complaint would have come with an event
  have hknown : Calls.Known eng name w := Option.isSome_iff_ne_none.mpr hd
  have hcall := (Calls.coupling eng name).call g (n := n) (p := p) (q := p) trivial ⟨rfl, rfl⟩
    ((Calls.coupling eng name).body depth) hn
  rw [eng.interpretation_body, eng.interpretation_call] at hcall
  obtain ⟨-, -, hevent, -⟩ := hcall w hknown
  have hlt := hevent n.position (by rw [h])
  rw [h] at hlt
  exact Nat.lt_irrefl _ hlt

/-- A call of a known name: the arguments in order, then the body as a group of its own. -/
theorem exec_call {w : World} {d : Mixin} (h : Table.get? name (w.mixinsOf eng.id) = some d)
    (depth : Nat) :
    exec (Render.call eng (Render.body eng (depth + 1)) name p n g) w =
      exec (do
        let args ← (n.attributes.map (·.1)).mapM (eng.evaluate p.scope n.position)
        let r ← Render.group eng (Render.body eng depth) depth
          { p with scope := d.bind p.scope args } d.body.children
        return (.text r.1, g.dynamic)) w := by
  have hfind : exec (eng.mixin? name) w = (.ok (some d), w) := by
    rw [← h]
    rfl
  have hall (es : List Value) :
      Render.evaluateAll eng p n es = es.mapM (eng.evaluate p.scope n.position) := by
    induction es with
    | nil => rfl
    | cons e es ih =>
      rw [List.mapM_cons, ← ih]
      rfl
  rw [Render.call, Rendering.exec_bind_ok hfind]
  simp only [hall, Render.inside, Render.body, bind_assoc, pure_bind]

end Engine

/-! ### The scope of a body -/

namespace Value

/-- All entries of a name agree on a value, and there is one. -/
theorem lookup?_of_forall {q : String} {v : Value} {es : List (Value × Value)}
    (hmem : ∃ e ∈ es, e.1 = .text q) (hall : ∀ e ∈ es, e.1 = .text q → e.2 = v) :
    lookup? (.text q) es = some v := by
  obtain ⟨e, he, hq⟩ := hmem
  unfold lookup?
  cases hf : es.find? fun e => sameItem (.text q) e.1 with
  | none => exact absurd (sameItem_text_iff.mpr hq) (List.find?_eq_none.mp hf e he)
  | some f =>
    have hkey := List.find?_some hf
    have hv := hall f (List.mem_of_find?_eq_some hf) (sameItem_text_iff.mp hkey)
    rw [Option.map_some, hv]

/-- A name that no entry has is not found. -/
theorem lookup?_eq_none {q : String} {es : List (Value × Value)}
    (hall : ∀ e ∈ es, e.1 ≠ .text q) : lookup? (.text q) es = Option.none := by
  unfold lookup?
  rw [List.find?_eq_none.mpr fun e he => mt sameItem_text_iff.mp (hall e he)]
  rfl

/-- Distinct keys stand in different places. -/
theorem Distinct.eq_of_getElem? {keys : List Value} (h : Distinct keys) {i j : Nat} {q : String}
    (hi : keys[i]? = some (.text q)) (hj : keys[j]? = some (.text q)) : i = j := by
  have hne {i j : Nat} (hi : keys[i]? = some (.text q)) (hj : keys[j]? = some (.text q)) :
      ¬ i < j := by
    intro hlt
    obtain ⟨hi, hki⟩ := List.getElem?_eq_some_iff.mp hi
    obtain ⟨hj, hkj⟩ := List.getElem?_eq_some_iff.mp hj
    have hsame := List.pairwise_iff_getElem.mp h i j hi hj hlt
    rw [hki, hkj, sameItem_text_iff.mpr rfl] at hsame
    cases hsame
  exact Nat.le_antisymm (Nat.le_of_not_lt (hne hj hi)) (Nat.le_of_not_lt (hne hi hj))

end Value

namespace Mixin

variable (d : Mixin) (scope : Scope) (args : List Value) {q : String}

/-- In the body a parameter with an argument is bound to it, whatever the caller's scope says. -/
theorem lookup?_bind_param (hd : Value.Distinct d.params) {j : Nat} {v : Value}
    (hq : d.params[j]? = some (.text q)) (hv : args[j]? = some v) :
    (d.bind scope args).lookup? q = some v := by
  -- the entry that binds the parameter is the only one of its name
  have hmem : (.text q, v) ∈ d.params.zip args :=
    List.mem_of_getElem? (List.getElem?_zip_eq_some.mpr ⟨hq, hv⟩)
  have hsame : ∀ e ∈ d.params.zip args, e.1 = .text q → e.2 = v := by
    intro e he hkey
    obtain ⟨i, hi⟩ := List.mem_iff_getElem?.mp he
    obtain ⟨hp, ha⟩ := List.getElem?_zip_eq_some.mp hi
    obtain rfl := hd.eq_of_getElem? (hkey ▸ hp) hq
    exact Option.some.inj (ha.symm.trans hv)
  rw [bind, Scope.lookup?_extend, Value.lookup?_of_forall]
  · rfl
  · exact ⟨_, List.mem_reverse.mpr hmem, rfl⟩
  · exact fun e he => hsame e (List.mem_reverse.mp he)

/-- All other names, also of parameters without an argument, are those of the caller's scope. -/
theorem lookup?_bind_other (hq : ∀ j < args.length, d.params[j]? ≠ some (.text q)) :
    (d.bind scope args).lookup? q = scope.lookup? q := by
  rw [bind, Scope.lookup?_extend, Value.lookup?_eq_none]
  · rfl
  · intro e he hkey
    obtain ⟨j, hj⟩ := List.mem_iff_getElem?.mp (List.mem_reverse.mp he)
    obtain ⟨hp, ha⟩ := List.getElem?_zip_eq_some.mp hj
    obtain ⟨hlt, -⟩ := List.getElem?_eq_some_iff.mp ha
    exact hq j hlt (hkey ▸ hp)

end Mixin

end Trellis
