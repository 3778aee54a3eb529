import Trellis.Proofs.Interpretation.Answers
import Trellis.Proofs.Interpretation.Coupling
import Trellis.Proofs.Interpretation.Throughout
import Trellis.Proofs.Registry.Keys
import Trellis.Proofs.Sharing.Sessions

/-!
# Proofs — Registry — Executed

Which nodes a rendering executes, and what that makes of the mixins.  `Engine.tracing` renders as
the engine does and lists the nodes on the way, each when it is executed in its role; what is
skipped, what stands in a loop without rounds or in a mixin that nobody calls, and what is taken
from a memo, is not listed.

The list is told of the rendering of the engine itself: the traced rendering ends as that one does
(`Engine.exec_traceWithin`).  Of the nodes in it the definitions count (`Node.definition?`): after a
rendering, failed or not, the mixins are those from before with the definitions put in one after the
other (`Engine.Records`).
-/

namespace Trellis

open Rendering (exec exec_bind Matched Maintains)
open World.Throughout

/-! ### Definitions -/

/-- The definition that a node is: the name and the mixin. -/
def Node.definition? (n : Node) : Option (String × Mixin) :=
  match Role.ofValue n.symbol with
  | .ok (.definition name) => some (name, ⟨n, n.attributes.map (·.1)⟩)
  | _ => none

/-- The definitions among nodes, in order. -/
def Node.definitions (ns : List Node) : List (String × Mixin) :=
  ns.filterMap Node.definition?

namespace Role

/-- A capital letter of the alphabet stands at the front. -/
def IsCapitalized (s : String) : Prop :=
  ∃ c r, s.toList = c :: r ∧ 'A' ≤ c ∧ c ≤ 'Z'

/-- No directive is capitalized, and none is a definition. -/
theorem directives_lookup {s : String} {r : Role} (h : directives.lookup s = some r) :
    ¬ IsCapitalized s ∧ ∀ name, r ≠ .definition name := by
  obtain ⟨front, back, hd, -⟩ := List.lookup_eq_some_iff.mp h
  have hm : (s, r) ∈ directives := by simp [hd]
  have hcheck : ∀ e ∈ directives, (e.1.toList.head?.all fun c => !('A' ≤ c && c ≤ 'Z')) = true ∧
      ∀ name, e.2 ≠ .definition name := by
    simp [directives]
  obtain ⟨hhead, hr⟩ := hcheck _ hm
  refine ⟨?_, hr⟩
  rintro ⟨c, t, hs, hc⟩
  simp [hs, hc] at hhead

/-- A symbol defines a mixin just if it begins with a capital letter. -/
theorem ofChars_eq_definition_iff {cs : List Char} {name : String} :
    ofChars cs = .definition name ↔
      String.ofList cs = name ∧ ∃ c r, cs = c :: r ∧ 'A' ≤ c ∧ c ≤ 'Z' := by
  unfold ofChars
  split
  case h_5 c r _ _ _ =>
    by_cases hc : 'A' ≤ c ∧ c ≤ 'Z'
    · simp [hc]
    · simp [hc]
  all_goals simp

/-- The definitions are told by capital letters. -/
theorem ofSymbol_eq_definition_iff {s name : String} :
    ofSymbol s = .definition name ↔ s = name ∧ IsCapitalized name := by
  unfold ofSymbol
  cases hl : directives.lookup s with
  | some r =>
    obtain ⟨hs, hr⟩ := directives_lookup hl
    constructor
    · exact fun h => absurd h (hr name)
    · rintro ⟨rfl, hc⟩
      exact absurd hc hs
  | none =>
    rw [ofChars_eq_definition_iff, String.ofList_toList]
    constructor
    · rintro ⟨rfl, hc⟩
      exact ⟨rfl, hc⟩
    · rintro ⟨rfl, hc⟩
      exact ⟨rfl, hc⟩

/-- So does the symbol of a node. -/
theorem ofValue_eq_definition_iff {v : Value} {name : String} :
    ofValue v = .ok (.definition name) ↔ v = .text name ∧ IsCapitalized name := by
  unfold ofValue
  split
  · rw [Except.ok.injEq, ofSymbol_eq_definition_iff, Value.text.injEq]
  · next hv =>
    constructor
    · intro h
      split at h
      · cases h
      · split at h <;> cases h
    · rintro ⟨rfl, -⟩
      exact absurd rfl (hv _)

end Role

/-- Definitions are the nodes whose symbols are capitalized: they define the symbol, with themselves
as the body and the keys of their attributes as the parameters. -/
theorem Node.definition?_eq_some_iff {n : Node} {name : String} {d : Mixin} :
    n.definition? = some (name, d) ↔
      (n.symbol = .text name ∧ Role.IsCapitalized name) ∧ d = ⟨n, n.attributes.map (·.1)⟩ := by
  rw [← Role.ofValue_eq_definition_iff]
  unfold Node.definition?
  constructor
  · intro h
    split at h
    · next m hm =>
      cases h
      exact ⟨hm, rfl⟩
    · cases h
  · rintro ⟨hr, rfl⟩
    rw [hr]

namespace Table

variable {κ α : Type} [DecidableEq κ]

/-- The table with entries put in one after the other. -/
def putAll (es t : List (κ × α)) : List (κ × α) :=
  es.foldl (fun t e => put e.1 e.2 t) t

theorem putAll_append (es fs t : List (κ × α)) : putAll (es ++ fs) t = putAll fs (putAll es t) :=
  List.foldl_append

end Table

/-! ### Tracing -/

/-- Renderings that also list nodes. -/
abbrev Tracing := ExceptT Fault (StateM (World × List Node))

namespace Tracing

variable {α β : Type}

/-- What a computation does with a world and a list. -/
def exec (x : Tracing α) (s : World × List Node) : Except Fault α × World × List Node :=
  (ExceptT.run x : StateM (World × List Node) (Except Fault α)).run s

/-- Computations in a row go on with the trace that the first one leaves. -/
theorem exec_bind (x : Tracing α) (f : α → Tracing β) (s : World × List Node) :
    exec (x >>= f) s =
      match exec x s with
      | (.ok a, s') => exec (f a) s'
      | (.error e, s') => (.error e, s') := by
  rw [exec, ExceptT.run_bind, StateT.run_bind, exec]
  rcases StateT.run (ExceptT.run x) s with ⟨_ | _, _⟩ <;> rfl

/-- One more node. -/
def list (n : Node) : Tracing Unit :=
  modify fun s => (s.1, s.2 ++ [n])

end Tracing

/-- The computation, which lists nothing. -/
def Rendering.traced {α : Type} (x : Rendering α) : Tracing α :=
  ExceptT.mk fun s => ((exec x s.1).1, (exec x s.1).2, s.2)

theorem Rendering.exec_traced {α : Type} (x : Rendering α) (w : World) (ns : List Node) :
    x.traced.exec (w, ns) = ((exec x w).1, (exec x w).2, ns) := rfl

namespace Engine

/-- What the engine answers, with the nodes listed that are executed. -/
def tracing (eng : Engine) : Interpretation eng Tracing where
  fail f := (eng.interpretation.fail f).traced
  onHeap a := (eng.interpretation.onHeap a).traced
  enter n _ := Tracing.list n
  evaluate s position text := (eng.evaluate s position text).traced
  mixin name position := (eng.mixin name position).traced
  define name d := (eng.define name d).traced
  plugin name position := (eng.plugin name position).traced
  transform name q source attributes := (transform name q source attributes).traced
  text path location := (eng.text path location).traced
  tree path location := (eng.tree path location).traced
  track location path := (eng.track location path).traced
  including wanted path location := (including wanted path location).traced
  remembered? n := (eng.remembered? n).traced
  remember n html := (eng.remember n html).traced

/-- The traced rendering of a draft, within a depth. -/
def traceWithin (eng : Engine) (depth : Nat) (d : Draft) (scope : Scope)
    (location : Option String) : Tracing String := do
  match d with
  | .value .none => (Rendering.complain .noTree .none : Rendering String).traced
  | d => do
    let n ← (Rendering.build d.node).traced
    return (← eng.tracing.body depth n ⟨scope, location⟩).1

/-- The nodes that are executed in a rendering of a draft. -/
def executed (eng : Engine) (depth : Nat) (d : Draft) (scope : Scope) (location : Option String)
    (w : World) : List Node :=
  ((eng.traceWithin depth d scope location).exec (w, [])).2.2

/-! ### What is recorded -/

/-- Between two worlds the engine has executed some nodes, all with distinct keys: their definitions
are put into its mixins one after the other, and the mixins of other engines are left alone. -/
structure Records (eng : Engine) (w w' : World) (ns : List Node) : Prop where
  mixins : w'.mixinsOf eng.id = Table.putAll (Node.definitions ns) (w.mixinsOf eng.id)
  others : ∀ j, j ≠ eng.id → w'.mixinsOf j = w.mixinsOf j
  size : w'.mixins.size = w.mixins.size
  keyed : ∀ n ∈ ns, n.Keyed

variable {eng : Engine}

namespace Records

variable {w w' w'' : World} {ns ns' : List Node}

/-- What leaves mixins alone records no definitions. -/
theorem of_eq (h : w'.mixins = w.mixins) : eng.Records w w' [] :=
  ⟨by simp only [World.mixinsOf, h]; rfl, fun j _ => by simp only [World.mixinsOf, h], by rw [h],
    fun _ hn => absurd hn List.not_mem_nil⟩

/-- Definitions of two steps are recorded one after the other. -/
theorem trans (h : eng.Records w w' ns) (h' : eng.Records w' w'' ns') :
    eng.Records w w'' (ns ++ ns') := by
  refine ⟨?_, fun j hj => (h'.others j hj).trans (h.others j hj), h'.size.trans h.size, ?_⟩
  · rw [h'.mixins, h.mixins, Node.definitions, Node.definitions, Node.definitions,
      List.filterMap_append, Table.putAll_append]
  · intro n hn
    rcases List.mem_append.mp hn with hn | hn
    · exact h.keyed n hn
    · exact h'.keyed n hn

end Records

end Engine

/-! ### What leaves the mixins alone -/

namespace Rendering

variable {α β : Type}

/-- The computation leaves all mixins alone. -/
def Quiet (x : Rendering α) : Prop :=
  ∀ w, (exec x w).2.mixins = w.mixins

namespace Quiet

theorem bind {x : Rendering α} {f : α → Rendering β} (hx : Quiet x) (hf : ∀ a, Quiet (f a)) :
    Quiet (x >>= f) :=
  Rendering.exec_bind_trans (R := fun w w' => w'.mixins = w.mixins)
    (fun h h' => h'.trans h) hx hf

end Quiet

/-- **Only definitions change mixins.** -/
theorem closed_quiet : Closed fun _ => Quiet :=
  closed_leaves World.mixins fun _ _ _ _ _ _ _ => rfl

end Rendering

open Rendering (Quiet closed_quiet)

/-! ### The engine and its trace -/

namespace Executed

variable {eng : Engine} {α β : Type}

/-- All nodes that renderings can come to have attributes with distinct keys. -/
abbrev Orderly (w : World) : Prop :=
  w.Throughout Node.Keyed Set.univ Set.univ

variable (eng) in
/-- The traced computation ends as the other one does, and lists the nodes whose definitions make
the difference to the mixins. -/
def Follows (R : α → α → Prop) (x : Rendering α) (y : Tracing α) : Prop :=
  ∀ w ns, Orderly w → eng.id < w.mixins.size → ∃ r new,
    y.exec (w, ns) = (r, (exec x w).2, ns ++ new) ∧ Matched R (exec x w).1 r ∧
    eng.Records w (exec x w).2 new ∧ Orderly (exec x w).2

namespace Follows

variable {R : α → α → Prop} {Q : β → β → Prop}

theorem pure {a b : α} (h : R a b) : Follows eng R (Pure.pure a) (Pure.pure b) :=
  fun _ ns hw _ => ⟨.ok b, [], by rw [List.append_nil]; rfl, .ok h, .of_eq rfl, hw⟩

/-- What leaves the mixins alone and lists nothing. -/
theorem of_quiet {x : Rendering α} (hq : Quiet x) {P : α → Prop} (hm : Maintains Orderly P x) :
    Follows eng (fun a b => a = b ∧ P a) x x.traced := by
  intro w ns hw _
  obtain ⟨h, hP⟩ := hm w hw
  refine ⟨(exec x w).1, [], ?_, ?_, .of_eq (hq w), h⟩
  · rw [Rendering.exec_traced, List.append_nil]
  · exact ((Matched.same _).and hP).mono fun _ _ h => ⟨h.2, h.1⟩

theorem mono {S : α → α → Prop} {x : Rendering α} {y : Tracing α} (hx : Follows eng R x y)
    (h : ∀ a b, R a b → S a b) : Follows eng S x y := by
  intro w ns hw hsize
  obtain ⟨r, new, hy, hr, hrec⟩ := hx w ns hw hsize
  exact ⟨r, new, hy, hr.mono h, hrec⟩

/-- The same if nothing is to be said of the results. -/
theorem same {x : Rendering α} (hq : Quiet x) {P : α → Prop} (hm : Maintains Orderly P x) :
    Follows eng Eq x x.traced :=
  (of_quiet hq hm).mono fun _ _ h => h.1

theorem throw (f : Fault) : Follows eng R (throw f) (throw f : Rendering α).traced :=
  fun _ ns hw _ => ⟨.error f, [], by rw [List.append_nil]; rfl, .error f, .of_eq rfl, hw⟩

/-- Computations that are followed step by step are followed. -/
theorem bind {x : Rendering α} {y : Tracing α} {f : α → Rendering β} {g : α → Tracing β}
    (hx : Follows eng R x y) (hf : ∀ a b, R a b → Follows eng Q (f a) (g b)) :
    Follows eng Q (x >>= f) (y >>= g) := by
  intro w ns hw hsize
  obtain ⟨r, new, hy, hm, hrec, hw₁⟩ := hx w ns hw hsize
  rw [Tracing.exec_bind, exec_bind, hy]
  generalize exec x w = o at hm hrec hw₁ ⊢
  obtain ⟨r', w₁⟩ := o
  cases hm with
  | error e => exact ⟨.error e, new, rfl, .error e, hrec, hw₁⟩
  | @ok a b hR =>
    have hsize₁ : eng.id < w₁.mixins.size := hrec.size ▸ hsize
    -- the second part goes on with the list that the first one has left
    obtain ⟨r, more, hg, hm, hrec₁, hw₂⟩ := hf a b hR w₁ (ns ++ new) hw₁ hsize₁
    refine ⟨r, new ++ more, ?_, hm, hrec.trans hrec₁, hw₂⟩
    rw [← List.append_assoc]
    exact hg

/-- A node that is no definition makes no difference. -/
theorem enter {n : Node} (hn : n.Keyed)
    (hr : ∀ name, Role.ofValue n.symbol ≠ .ok (.definition name)) :
    Follows eng Eq (Pure.pure () : Rendering Unit) (Tracing.list n) := by
  intro w ns hw _
  refine ⟨.ok (), [n], rfl, .ok rfl, ⟨?_, fun _ _ => rfl, rfl, ?_⟩, hw⟩
  · have hno : n.definition? = none := by
      unfold Node.definition?
      split
      · next name hname => exact absurd hname (hr name)
      · rfl
    simp only [Node.definitions, List.filterMap_cons, hno]
    rfl
  · simpa using hn

/-- A definition is put into the mixins as it is listed. -/
theorem define {n : Node} (hn : n.Throughout Node.Keyed) {name : String}
    (hr : Role.ofValue n.symbol = .ok (.definition name)) :
    Follows eng Eq
      (do (Pure.pure () : Rendering Unit); eng.define name ⟨n, n.attributes.map (·.1)⟩)
      (do Tracing.list n; (eng.define name ⟨n, n.attributes.map (·.1)⟩).traced) := by
  intro w ns hw hsize
  have hdefinition : Node.definitions [n] = [(name, ⟨n, n.attributes.map (·.1)⟩)] := by
    simp only [Node.definitions, List.filterMap_cons, Node.definition?, hr, List.filterMap_nil]
  have horderly := (maintains_define (Set.mem_univ eng.id) name
    (d := ⟨n, n.attributes.map (·.1)⟩) hn w hw).1
  -- the table of the engine is the one that is replaced
  have hset (j : Nat) := Engine.mixinsOf_set w eng.id j
    (Table.put name ⟨n, n.attributes.map (·.1)⟩ (w.mixinsOf eng.id))
  refine ⟨.ok (), [n], rfl, .ok rfl, ⟨?_, fun j hj => ?_, ?_, ?_⟩, horderly⟩
  · rw [hdefinition]
    exact (hset eng.id).trans (if_pos ⟨rfl, hsize⟩)
  · exact (hset j).trans (if_neg fun h => hj h.1)
  · exact Array.size_setIfInBounds
  · simpa using hn.self

end Follows

open Follows (of_quiet) in
/-- **The trace of an engine follows its rendering.** -/
def coupling (eng : Engine) : Coupling eng.interpretation eng.tracing where
  node := Node.Throughout Node.Keyed
  scope := Eq
  location := Eq
  Rel := Follows eng
  children := Node.Throughout.children
  extend := Coupling.extend_eq
  pure := Follows.pure
  bind := Follows.bind
  fail _ := .throw _
  onHeap _ := .same (closed_quiet.onHeap _) (maintains_onHeap _)
  enter hn _ hr := .enter hn.self hr
  define hn _ hr := .define hn hr
  evaluate _ _ hs := by
    obtain rfl := hs
    exact .same (.bind (fun _ => rfl) fun _ => closed_quiet.onHeap _)
      ((maintains_note _).bind fun _ _ => maintains_onHeap _)
  mixin name position :=
    .of_quiet (closed_quiet.mixin name position) (maintains_mixin (Set.mem_univ _) name position)
  plugin name position := .same (closed_quiet.plugin _ _) (maintains_plugin name position)
  transform name q source attributes :=
    .same (closed_quiet.transform _ _ _ _) (maintains_transform name q source attributes)
  text path _ _ hl := by
    obtain rfl := hl
    exact .same (closed_quiet.text _ _) (maintains_text (fun _ _ => Set.mem_univ _) path _)
  tree path _ _ hl := by
    obtain rfl := hl
    refine (of_quiet (closed_quiet.tree path _)
      (maintains_tree (fun _ _ => Set.mem_univ _) path _)).mono ?_
    rintro r _ ⟨rfl, hn⟩
    exact ⟨rfl, hn, rfl⟩
  track path _ _ hl := by
    obtain rfl := hl
    exact .same (closed_quiet.track _ _) (maintains_track _ path)
  including wanted path _ _ hl := by
    obtain rfl := hl
    exact .same (closed_quiet.including _ _ _) (maintains_including wanted path _)
  remembered? _ := .same (closed_quiet.remembered? _) (maintains_remembered? _)
  remember html _ := .same (closed_quiet.remember _ _) (maintains_remember _ html)

/-- The trace of a rendering of a draft. -/
theorem traceWithin_follows {d : Draft} (hd : d.Throughout Node.Keyed) (depth : Nat)
    (scope : Scope) (location : Option String) :
    Follows eng Eq (eng.renderWithin depth d scope location)
      (eng.traceWithin depth d scope location) := by
  by_cases hno : d = .value .none
  · subst hno
    exact .throw _
  · have htrace : eng.traceWithin depth d scope location = (do
        let n ← (Rendering.build d.node).traced
        return (← eng.tracing.body depth n ⟨scope, location⟩).1) := by
      unfold Engine.traceWithin
      split
      · exact absurd rfl hno
      · rfl
    rw [Session.renderWithin_eq hno, htrace]
    refine (Follows.of_quiet (closed_quiet.build d.node) (maintains_build hd)).bind ?_
    rintro n _ ⟨rfl, hn⟩
    have hbody := (coupling eng).body depth n ⟨scope, location⟩ ⟨scope, location⟩ hn ⟨rfl, rfl⟩
    rw [eng.interpretation_body] at hbody
    refine hbody.bind fun _ _ hr => ?_
    rw [hr]
    exact .pure rfl

end Executed

namespace Engine

variable {eng : Engine} {d : Draft} {w : World}

/-- The trace ends as the rendering does, and beside it lists the nodes that are executed. -/
theorem exec_traceWithin (hd : d.Throughout Node.Keyed) (hw : Executed.Orderly w)
    (hsize : eng.id < w.mixins.size) (depth : Nat) (scope : Scope) (location : Option String) :
    (eng.traceWithin depth d scope location).exec (w, []) =
      ((exec (eng.renderWithin depth d scope location) w).1,
        (exec (eng.renderWithin depth d scope location) w).2,
        eng.executed depth d scope location w) := by
  obtain ⟨r, new, hy, hm, -⟩ :=
    Executed.traceWithin_follows hd depth scope location w [] hw hsize
  rw [executed, hy, hm.eq]

/-- **What a rendering makes of the mixins.**  Failed or not, it has put in the definitions among
the nodes that it has executed. -/
theorem records_renderWithin (hd : d.Throughout Node.Keyed) (hw : Executed.Orderly w)
    (hsize : eng.id < w.mixins.size) (depth : Nat) (scope : Scope) (location : Option String) :
    eng.Records w (exec (eng.renderWithin depth d scope location) w).2
        (eng.executed depth d scope location w) ∧
      Executed.Orderly (exec (eng.renderWithin depth d scope location) w).2 := by
  obtain ⟨r, new, hy, -, hrec, horderly⟩ :=
    Executed.traceWithin_follows hd depth scope location w [] hw hsize
  have hnew : eng.executed depth d scope location w = new := by
    rw [executed, hy]
    rfl
  rw [hnew]
  exact ⟨hrec, horderly⟩

end Engine
end Trellis
