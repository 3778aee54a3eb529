import Trellis.Proofs.Registry.Calls

/-!
# Proofs — Plugins — Installed

Renderings and the plugins that they find.  No rendering changes a registry
(`Engine.registries_renderWithin`).  A node that names a plugin which is not installed is complained
about, with its position, before a source is asked for, and only such a node is
(`Engine.node_not_installed_iff`): a complaint of the kind about any other node comes from a loader
or from a plugin itself, after an event.
-/

namespace Trellis

open Rendering (exec exec_bind exec_bind_ok Grows Closed closed_grows)

/-! ### What leaves the registries alone -/

namespace Rendering

variable {α β : Type}

/-- The computation leaves all registries alone. -/
def Spares (x : Rendering α) : Prop :=
  ∀ w, (exec x w).2.registries = w.registries

theorem Spares.bind {x : Rendering α} {f : α → Rendering β} (hx : Spares x)
    (hf : ∀ a, Spares (f a)) : Spares (x >>= f) :=
  exec_bind_trans (R := fun w w' => w'.registries = w.registries) (fun h h' => h'.trans h) hx hf

/-- **No answer of an engine changes a registry.** -/
theorem closed_spares : Closed fun _ => Spares :=
  closed_leaves World.registries fun _ _ _ _ _ _ _ => rfl

end Rendering

open Rendering (Spares closed_spares)

namespace Installed

variable {eng : Engine} {α β : Type} {R : α → α → Prop} {Q : β → β → Prop}

/-- The computation leaves the registries alone, and its results are related to some. -/
def Keeps (R : α → α → Prop) (x _y : Rendering α) : Prop :=
  Spares x ∧ ∀ w a, (exec x w).1 = .ok a → ∃ b, R a b

theorem Keeps.of_spares {x y : Rendering α} (hx : Spares x) (hR : ∀ a, ∃ b, R a b) :
    Keeps R x y :=
  ⟨hx, fun _ a _ => hR a⟩

theorem Keeps.same {x y : Rendering α} (hx : Spares x) : Keeps Eq x y :=
  .of_spares hx fun a => ⟨a, rfl⟩

theorem Keeps.bind {x y : Rendering α} {f g : α → Rendering β} (hx : Keeps R x y)
    (hf : ∀ a b, R a b → Keeps Q (f a) (g b)) : Keeps Q (x >>= f) (y >>= g) := by
  have hstep (w : World) : (exec (x >>= f) w).2.registries = w.registries ∧
      ∀ c, (exec (x >>= f) w).1 = .ok c → ∃ d, Q c d := by
    have hspares := hx.1 w
    have hresult := hx.2 w
    rw [exec_bind]
    rcases hr : exec x w with ⟨e | a, w'⟩ <;> rw [hr] at hspares hresult
    · exact ⟨hspares, nofun⟩
    · obtain ⟨b, hb⟩ := hresult a rfl
      exact ⟨((hf a b hb).1 w').trans hspares, (hf a b hb).2 w'⟩
  exact ⟨fun w => (hstep w).1, fun w => (hstep w).2⟩

/-- **Nothing that an engine does changes a registry.** -/
def coupling (eng : Engine) : Coupling eng.interpretation eng.interpretation where
  node _ := True
  scope := Eq
  location := Eq
  Rel := Keeps
  children _ _ _ := trivial
  extend := Coupling.extend_eq
  pure {_ _ _ b} h := by
    refine ⟨closed_spares.pure _, fun w a ha => ?_⟩
    obtain rfl := Except.ok.inj ha
    exact ⟨b, h⟩
  bind := .bind
  fail {_ _ f} _ := ⟨closed_spares.throw f, nofun⟩
  onHeap _ := .same (closed_spares.onHeap _)
  enter _ _ _ := .same (closed_spares.pure ())
  define _ _ _ := .same fun _ => rfl
  evaluate _ _ _ := .same (.bind (fun _ => rfl) fun _ => closed_spares.onHeap _)
  mixin name position := .of_spares (closed_spares.mixin name position) fun d => ⟨d, rfl, trivial⟩
  plugin name position := .same (closed_spares.plugin name position)
  transform name q source attributes := .same (closed_spares.transform name q source attributes)
  text path _ _ _ := .same (closed_spares.text path _)
  tree path _ _ _ := .of_spares (closed_spares.tree path _) fun r => ⟨r, rfl, trivial, rfl⟩
  track path _ _ _ := .same (closed_spares.track _ path)
  including wanted path _ _ _ := .same (closed_spares.including wanted path _)
  remembered? n := .same (closed_spares.remembered? _)
  remember html n := .same (closed_spares.remember _ html)

end Installed

namespace Engine

/-- No rendering changes a registry. -/
theorem registries_renderWithin (eng : Engine) (depth : Nat) (d : Draft) (scope : Scope)
    (location : Option String) : Spares (eng.renderWithin depth d scope location) := by
  by_cases hno : d = .value .none
  · subst hno
    exact closed_spares.throw _
  · rw [Session.renderWithin_eq hno]
    refine (closed_spares.build d.node).bind fun n => ?_
    have hbody := (Installed.coupling eng).body depth n ⟨scope, location⟩ ⟨scope, location⟩ trivial
      ⟨rfl, rfl⟩
    rw [eng.interpretation_body] at hbody
    exact hbody.1.bind fun _ => closed_spares.pure _

end Engine

/-! ### Nodes that name plugins -/

namespace Role

/-- No directive begins with a colon. -/
theorem directives_lookup_colon (name : String) : directives.lookup (":" ++ name) = none := by
  cases hl : directives.lookup (":" ++ name) with
  | none => rfl
  | some r =>
    obtain ⟨front, back, hd, -⟩ := List.lookup_eq_some_iff.mp hl
    have hmem : (":" ++ name, r) ∈ directives := by simp [hd]
    have hheads : ∀ e ∈ directives, e.1.toList.head? ≠ some ':' := by simp [directives]
    exact absurd (by simp) (hheads _ hmem)

theorem ofSymbol_colon (name : String) : ofSymbol (":" ++ name) = .plugin name := by
  unfold ofSymbol
  rw [directives_lookup_colon]
  simp [ofChars]

theorem isAlternative_colon (name : String) : isAlternative (.text (":" ++ name)) = false := by
  simp [isAlternative, ofSymbol_colon]

end Role

namespace Engine

variable {eng : Engine} {body : Body} {limit : Nat} {p : Place} {n : Node} {g : Group}
  {name : String} {w : World}

/-- The plugin of a name in a world. -/
def plugin? (eng : Engine) (w : World) (name : String) : Option Plugin :=
  Table.get? name (eng.registryIn w).plugins

/-- The node is executed as it comes up: no alternative is waited for, and no markup of it is
remembered. -/
structure ComesUp (eng : Engine) (w : World) (n : Node) (g : Group) : Prop where
  pending : g.pending = none
  forgotten : exec (eng.remembered? n) w = (.ok none, w)

theorem exec_node_colon (hn : n.symbol = .text (":" ++ name)) (hup : eng.ComesUp w n g) :
    exec (Render.node eng body limit p n g) w = exec (Render.plugin eng name p n g) w := by
  have hpending : g.pending.isSome = false := by rw [hup.pending]; rfl
  have hrole : exec (Rendering.ofCause (Role.ofValue n.symbol)) w = (.ok (.plugin name), w) := by
    rw [hn, Role.ofValue, Role.ofSymbol_colon]
    rfl
  rw [Render.node, hn, Role.isAlternative_colon, hpending]
  simp only [Bool.false_eq_true, if_false]
  rw [← hn, exec_bind_ok hup.forgotten]
  exact exec_bind_ok hrole _

/-- A node that is passed over, or whose markup is remembered, is not complained about. -/
theorem exec_node_of_not_comesUp (hn : n.symbol = .text (":" ++ name))
    (hup : ¬ eng.ComesUp w n g) : ∃ r, exec (Render.node eng body limit p n g) w = (.ok r, w) := by
  rw [Render.node, hn, Role.isAlternative_colon]
  simp only [Bool.false_eq_true, if_false]
  cases hpending : g.pending with
  | some m => exact ⟨_, rfl⟩
  | none =>
    obtain ⟨memo, hmemo⟩ : ∃ memo, exec (eng.remembered? n) w = (.ok memo, w) := ⟨_, rfl⟩
    cases memo with
    | none => exact absurd ⟨hpending, hmemo⟩ hup
    | some html =>
      refine ⟨(html, g), ?_⟩
      simp only [Option.isSome_none, Bool.false_eq_true, if_false]
      rw [exec_bind_ok hmemo]
      rfl

/-- A plugin that is not installed is complained about at once. -/
theorem exec_plugin_missing (h : eng.plugin? w name = none) :
    exec (Render.plugin eng name p n g) w =
      (.error (.template (.pluginNotInstalled ((eng.registryIn w).package name)) n.position),
        w) := by
  have hload : exec (eng.plugin name n.position) w =
      (.error (.template (.pluginNotInstalled ((eng.registryIn w).package name)) n.position),
        w) := by
    rw [exec_plugin, Registry.load, show Table.get? name (eng.registryIn w).plugins = none from h]
  rw [Render.plugin, Rendering.exec_bind_error hload]

/-- Where a source is asked for, there is a loader, and an event is left first. -/
theorem text_bind_grows {α : Type} (eng : Engine) (path : String) (l : Option String)
    {f : String → Rendering α} (hf : ∀ s, Grows (f s)) (w : World) :
    exec (eng.text path l >>= f) w = (.error (.template (.noLoader path) .none), w) ∨
      w.events.size < (exec (eng.text path l >>= f) w).2.events.size := by
  cases hl : eng.loader with
  | none =>
    refine .inl (Rendering.exec_bind_error ?_ _)
    rw [text, request, hl]
    rfl
  | some number =>
    have hrequest : eng.request path l .text =
        Rendering.note (.requested path l .text) >>= fun _ => load number path l .text := by
      simp only [request, hl]
    rw [text, hrequest, bind_assoc, bind_assoc, exec_bind_ok (Rendering.exec_note _ _)]
    have hsize (y : Rendering α) (hy : Grows y) := hy.size_le
      { w with events := w.events.push (.requested path l .text) }
    simp only [Array.size_push] at hsize
    refine .inr (Nat.lt_of_succ_le (hsize _ ?_))
    refine (closed_grows.load number path l .text).bind fun r => Grows.bind ?_ hf
    cases r with
    | text s => exact closed_grows.pure s
    | tree d l => exact closed_grows.throw _

/-- With a plugin that is installed, the same complaint can only come after an event. -/
theorem events_of_plugin_installed {q : Plugin} (h : eng.plugin? w name = some q)
    {package : String} {position : Value} (hfault : (exec (Render.plugin eng name p n g) w).1 =
      .error (.template (.pluginNotInstalled package) position)) :
    w.events.size < (exec (Render.plugin eng name p n g) w).2.events.size := by
  have hload : exec (eng.plugin name n.position) w = (.ok q, w) := by
    rw [exec_plugin, Registry.load, show Table.get? name (eng.registryIn w).plugins = some q from h]
  rw [Render.plugin, exec_bind_ok hload] at hfault ⊢
  cases hpath : Markup.stripped n.content with
  | error c =>
    rw [hpath] at hfault
    cases hfault
  | ok path =>
    rw [hpath] at hfault
    have hrest (s : String) : Grows (do
        Rendering.note (.transformed name s n.attributes)
        return (← Rendering.ofExcept (q.call s n.attributes), g.dynamic)) :=
      (Grows.note _).bind fun _ => (closed_grows.ofExcept _).bind fun _ => closed_grows.pure _
    rcases text_bind_grows eng path p.location hrest w with hnone | hlt
    · cases hfault.symm.trans (congrArg Prod.fst hnone)
    · exact hlt

/-- **A node that names a plugin complains at once just if it comes up and the plugin is not
installed.** -/
theorem node_not_installed_iff (hn : n.symbol = .text (":" ++ name)) :
    (∃ package position,
      (exec (Render.node eng body limit p n g) w).1 =
          .error (.template (.pluginNotInstalled package) position) ∧
        (exec (Render.node eng body limit p n g) w).2.events = w.events) ↔
      eng.ComesUp w n g ∧ eng.plugin? w name = none := by
  constructor
  · rintro ⟨package, position, hfault, hevents⟩
    have hup : eng.ComesUp w n g := by
      by_contra hup
      obtain ⟨r, hr⟩ : ∃ r, exec (Render.node eng body limit p n g) w = (.ok r, w) :=
        exec_node_of_not_comesUp hn hup
      rw [hr] at hfault
      cases hfault
    rw [exec_node_colon hn hup] at hfault hevents
    refine ⟨hup, ?_⟩
    cases hq : eng.plugin? w name with
    | none => rfl
    | some q =>
      have hlt := events_of_plugin_installed hq hfault
      rw [hevents] at hlt
      exact absurd hlt (Nat.lt_irrefl _)
  · rintro ⟨hup, hnone⟩
    rw [exec_node_colon hn hup, exec_plugin_missing hnone]
    exact ⟨_, _, rfl, rfl⟩

end Engine

end Trellis
