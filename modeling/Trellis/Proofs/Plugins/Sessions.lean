import Trellis.Proofs.Plugins.Installed
import Trellis.Proofs.Plugins.Registrations
import Trellis.Samples

/-!
# Proofs — Plugins — Sessions

The registries of plugins over any turns (`Plugin.Turn`): registries and engines are made, plugins
are registered and discovered, and templates are rendered in between, with any failures.  A ledger
lists, for each registry, what has been registered with it in the order in which that was done
(`Plugin.ledger`); it is kept of the turns alone.

The tables of the world are those of the ledger (`Plugin.Turn.shelves_run`), so that a name has the
plugin that was registered last, for all engines that share a registry (`Plugin.Tells.plugin?`).
-/

namespace Trellis

open Rendering (exec exec_bind exec_bind_ok exec_bind_error)

/-- An engine that is used for nothing but the plugins of a registry. -/
def Engine.ofRegistry (k : Nat) : Engine :=
  { id := 0
    config := Config.default
    evaluation := Expr.evaluation Scope.builtin
    loader := none
    registry := k
    tracker := none }

theorem Registry.plugins_empty (v : Value) : (Registry.empty v).plugins = [] := by
  unfold empty
  split <;> rfl

namespace Setup

/-- What an engine registers when it is made. -/
def registering (s : Setup) (eng : Engine) : Rendering Engine := do
  eng.registerAll (offers s.plugins)
  eng.discover s.discovered
  return eng

/-- Where a new engine finds its plugins, and the tables with a new one if it has none yet. -/
def place (s : Setup) (shelves : List (List (String × Plugin))) :
    Nat × List (List (String × Plugin)) :=
  match s.plugins with
  | .shared k => (k, shelves)
  | .fresh _ => (shelves.length, shelves ++ [[]])

/-- A new registry has an empty table, behind the others. -/
theorem exec_placeRegistry_fresh (v : Value) (os : List (String × Offer)) (w : World) :
    ∃ w', exec (placeRegistry v (.fresh os)) w = (.ok w.shelves.length, w') ∧
      w'.shelves = w.shelves ++ [[]] := by
  have hempty := Registry.plugins_empty v
  refine ⟨{ w with registries := w.registries.push (Registry.empty v) }, ?_, ?_⟩
  · simp only [World.shelves, List.length_map, Array.length_toList]
    rfl
  · simp [World.shelves, hempty]

theorem exists_placeRegistry (s : Setup) (w : World) : ∃ k w',
    exec (placeRegistry s.config.packagePrefix s.plugins) w = (.ok k, w') ∧
      (k, w'.shelves) = s.place w.shelves := by
  unfold place
  cases s.plugins with
  | shared k => exact ⟨k, w, rfl, rfl⟩
  | fresh os =>
    obtain ⟨w', hrun, hshelves⟩ := exec_placeRegistry_fresh s.config.packagePrefix os w
    exact ⟨_, w', hrun, congrArg _ hshelves⟩

theorem exec_create_unknown {s : Setup} (hs : s.unknown ≠ []) (w : World) :
    exec s.create w = (.error (.basic (.unknownParameters (Text.sorted s.unknown))), w) := by
  have hunknown : (!s.unknown.isEmpty) = true := by simpa using hs
  rw [create, if_pos hunknown]
  rfl

/-- A new engine has its place before anything is registered. -/
theorem exec_create {s : Setup} (hs : s.unknown = []) (w : World) :
    ∃ eng w', exec s.create w = exec (s.registering eng) w' ∧
      (eng.registry, w'.shelves) = s.place w.shelves := by
  obtain ⟨l, w₁, hloader, h₁⟩ : ∃ l w₁, exec (placeLoader s.loader) w = (.ok l, w₁) ∧
      w₁.registries = w.registries := by
    cases s.loader <;> exact ⟨_, _, rfl, rfl⟩
  obtain ⟨k, w₂, hregistry, h₂⟩ : ∃ k w₂,
      exec (placeRegistry s.config.packagePrefix s.plugins) w₁ = (.ok k, w₂) ∧
        (k, w₂.shelves) = s.place w₁.shelves :=
    exists_placeRegistry s w₁
  obtain ⟨t, w₃, htracker, h₃⟩ : ∃ t w₃, exec (placeTracker s.tracked) w₂ = (.ok t, w₃) ∧
      w₃.registries = w₂.registries := by
    cases s.tracked <;> exact ⟨_, _, rfl, rfl⟩
  have hunknown : (!s.unknown.isEmpty) = false := by simp [hs]
  have hmixins : exec placeMixins w₃ =
      (.ok w₃.mixins.size, { w₃ with mixins := w₃.mixins.push [] }) := rfl
  refine ⟨⟨w₃.mixins.size, s.config, s.evaluation, l, k, t⟩,
    { w₃ with mixins := w₃.mixins.push [] }, ?_, ?_⟩
  · rw [create, hunknown]
    simp only [Bool.false_eq_true, if_false]
    rw [exec_bind_ok hloader, exec_bind_ok hregistry, exec_bind_ok htracker, exec_bind_ok hmixins]
    rfl
  · rw [← World.shelves_congr h₁, ← h₂]
    exact congrArg _ (World.shelves_congr h₃)

end Setup

namespace Plugin

/-! ### Turns -/

/-- What is done with plugins. -/
inductive Turn where
  /-- A registry is made, with plugins under names. -/
  | registry (packagePrefix : Value) (offers : List (String × Offer))
  | engine (s : Setup)
  | register (eng : Engine) (o : Offer) (given : Option String)
  | discover (eng : Engine) (found : List (String × String × Offer))
  | render (eng : Engine) (depth : Nat) (d : Draft) (scope : Scope) (location : Option String)

/-- Offers under names. -/
def named (os : List (String × Offer)) : List (Option String × Offer) :=
  os.map fun e => (some e.1, e.2)

/-- Offers that are found under names. -/
def foundAs (found : List (String × String × Offer)) : List (Option String × Offer) :=
  found.map fun e => (some e.1, e.2.2)

namespace Turn

/-- What is done in a turn. -/
def run : Turn → Rendering Unit
  | registry packagePrefix os => do
    let k ← Setup.placeRegistry packagePrefix (.fresh os)
    (Engine.ofRegistry k).registerAll os
  | engine s => do
    let _ ← s.create
  | register eng o given => do
    let _ ← eng.register o given
  | discover eng found => eng.discover found
  | render eng depth d scope location => do
    let _ ← eng.renderWithin depth d scope location

/-- What is offered in a turn. -/
def offers : Turn → List (Option String × Offer)
  | registry _ os => named os
  | engine s => named (Setup.offers s.plugins) ++ foundAs s.discovered
  | register _ o given => [(given, o)]
  | discover _ found => foundAs found
  | render .. => []

/-- The turn is no rendering. -/
def Configures : Turn → Prop
  | render .. => False
  | _ => True

/-- Nothing is refused in the turn: no parameter, and no offer. -/
def Passes (t : Turn) : Prop :=
  (∀ s, t = engine s → s.unknown = []) ∧ Accepted t.offers

/-- Where a turn registers, and the lists with a new one if it makes a registry.  An engine with
unknown parameters is not made. -/
def place (t : Turn) (book : List (List (String × Plugin))) :
    Option (Nat × List (List (String × Plugin))) :=
  match t with
  | registry .. => some (book.length, book ++ [[]])
  | engine s => if s.unknown = [] then some (s.place book) else none
  | register eng .. | discover eng .. => some (eng.registry, book)
  | render .. => none

/-- What a turn adds to the ledger. -/
def enter (t : Turn) (book : List (List (String × Plugin))) : List (List (String × Plugin)) :=
  match t.place book with
  | some (k, book) => book.modify k (· ++ registrations t.offers)
  | none => book

end Turn

/-- What turns have registered, for each registry and in order. -/
def ledger (ts : List Turn) : List (List (String × Plugin)) :=
  ts.foldl (fun book t => t.enter book) []

/-- The world after turns, whatever they have come to. -/
def after (ts : List Turn) (w : World) : World :=
  ts.foldl (fun w t => (exec t.run w).2) w

/-! ### Tables and ledgers -/

variable {book : List (List (String × Plugin))} {es : List (String × Plugin)} {w : World}

/-- The tables are those of the lists in a ledger. -/
def Tells (book : List (List (String × Plugin))) (w : World) : Prop :=
  w.shelves = book.map Table.ofList

/-- To put more into one table is to add it to one list. -/
theorem modify_tables (k : Nat) : (book.map Table.ofList).modify k (Table.putAll es) =
    (book.modify k (· ++ es)).map Table.ofList := by
  refine List.ext_getElem? fun i => ?_
  rw [List.getElem?_modify, List.getElem?_map, List.getElem?_map, List.getElem?_modify]
  cases book[i]? with
  | none => rfl
  | some fs =>
    by_cases hik : k = i
    · simp [hik, Table.ofList_append]
    · simp [hik]

namespace Turn

/-- A turn has its place in the tables as in the ledger. -/
theorem place_tables (t : Turn) (book : List (List (String × Plugin))) :
    t.place (book.map Table.ofList) = (t.place book).map fun e => (e.1, e.2.map Table.ofList) := by
  have hnew : book.map Table.ofList ++ [[]] = (book ++ [[]]).map Table.ofList := by
    rw [List.map_append]
    rfl
  cases t with
  | registry v os => simp only [place, List.length_map, hnew, Option.map_some]
  | engine s =>
    simp only [place, Setup.place]
    split
    · cases s.plugins with
      | shared k => rfl
      | fresh os => simp only [List.length_map, hnew, Option.map_some]
    · rfl
  | register eng o given => rfl
  | discover eng found => rfl
  | render eng depth d scope location => rfl

/-- A place is among the lists that there are, or there is a new one. -/
theorem place_lists {t : Turn} {e : Nat × List (List (String × Plugin))}
    (h : t.place book = some e) : e.2 = book ∨ e.2 = book ++ [[]] := by
  cases t with
  | registry v os => exact .inr (congrArg Prod.snd (Option.some.inj h)).symm
  | engine s =>
    rw [place] at h
    split_ifs at h
    obtain rfl := Option.some.inj h
    unfold Setup.place
    cases s.plugins with
    | shared k => exact .inl rfl
    | fresh os => exact .inr rfl
  | register eng o given => exact .inl (congrArg Prod.snd (Option.some.inj h)).symm
  | discover eng found => exact .inl (congrArg Prod.snd (Option.some.inj h)).symm
  | render eng depth d scope location => cases h

theorem place_engine {s : Setup} : (engine s).place book = none ↔ s.unknown ≠ [] := by
  by_cases hs : s.unknown = [] <;> simp [place, hs]

theorem discard {α : Type} {k : Nat} {accepted : Prop} {x : Rendering α}
    (hx : Registers k es accepted x) : Registers k es accepted (x >>= fun _ => pure ()) := by
  intro w
  obtain ⟨hshelves, hok⟩ := hx w
  rw [exec_bind]
  rcases hr : exec x w with ⟨f | a, w'⟩ <;> rw [hr] at hshelves hok
  · exact ⟨hshelves, (iff_of_false nofun nofun).trans hok⟩
  · exact ⟨hshelves, (iff_of_true ⟨(), rfl⟩ ⟨a, rfl⟩).trans hok⟩

/-- A turn with a place registers there what is offered in it. -/
theorem exec_run {t : Turn} {w : World} {k : Nat} {shelves : List (List (String × Plugin))}
    (h : t.place w.shelves = some (k, shelves)) : ∃ (x : Rendering Unit) (w' : World),
      exec t.run w = exec x w' ∧ w'.shelves = shelves ∧
        Registers k (registrations t.offers) (Accepted t.offers) x := by
  have hend (k : Nat) : Registers k (registrations []) (Accepted []) (pure () : Rendering Unit) :=
    Engine.registers_nil k (Rendering.exec_pure ())
  cases t with
  | registry v os =>
    obtain ⟨rfl, rfl⟩ := Prod.mk.inj (Option.some.inj h)
    obtain ⟨w', hrun, hshelves⟩ := Setup.exec_placeRegistry_fresh v os w
    have hall := Engine.registers_registerAll (Engine.ofRegistry w.shelves.length) os (hend _)
    rw [List.append_nil] at hall
    exact ⟨_, w', (exec_bind_ok hrun _).trans (congrArg (exec · w') (bind_pure _).symm),
      hshelves, hall⟩
  | engine s =>
    -- an engine with unknown settings is refused, and has no place
    by_cases hs : s.unknown = []
    · obtain ⟨eng, w', hrun, hplace⟩ := Setup.exec_create hs w
      rw [place, if_pos hs, ← hplace] at h
      obtain ⟨rfl, rfl⟩ := Prod.mk.inj (Option.some.inj h)
      refine ⟨_, w', ?_, rfl, discard (x := s.registering eng) ?_⟩
      · rw [run, exec_bind, hrun, ← exec_bind]
      · exact Engine.registers_registerAll eng _
          (Engine.registers_discover eng _ (Rendering.exec_pure eng))
    · rw [place, if_neg hs] at h
      cases h
  | register eng o given =>
    obtain ⟨rfl, rfl⟩ := Prod.mk.inj (Option.some.inj h)
    exact ⟨_, w, rfl, rfl, discard (Engine.registers_register eng o given)⟩
  | discover eng found =>
    obtain ⟨rfl, rfl⟩ := Prod.mk.inj (Option.some.inj h)
    exact ⟨_, w, congrArg (exec · w) (bind_pure _).symm, rfl,
      Engine.registers_discover eng found (Rendering.exec_pure ())⟩
  | render eng depth d scope location => cases h

/-- A turn without a place leaves the tables alone. -/
theorem shelves_run {t : Turn} {w : World} (h : t.place w.shelves = none) :
    (exec t.run w).2.shelves = w.shelves := by
  cases t with
  | engine s => rw [run, exec_bind_error (Setup.exec_create_unknown (place_engine.mp h) w)]
  | render eng depth d scope location =>
    have hspares : Rendering.Spares (run (render eng depth d scope location)) :=
      (eng.registries_renderWithin depth d scope location).bind fun _ =>
        Rendering.closed_spares.pure ()
    exact World.shelves_congr (hspares w)
  | _ => cases h

/-- **One turn.**  The tables are those of the ledger again. -/
theorem tells_run (t : Turn) (hw : Tells book w) : Tells (t.enter book) (exec t.run w).2 := by
  have hplace := place_tables t book
  rw [← hw] at hplace
  unfold enter
  cases hb : t.place book with
  | none =>
    rw [hb] at hplace
    exact (shelves_run hplace).trans hw
  | some e =>
    rw [hb] at hplace
    obtain ⟨x, w', hrun, hshelves, hx⟩ := exec_run hplace
    rw [Tells, hrun, (hx w').1, hshelves, modify_tables]

/-- A turn ends well just if nothing is refused in it. -/
theorem run_passes_iff (t : Turn) (ht : t.Configures) (w : World) :
    (∃ a, (exec t.run w).1 = .ok a) ↔ t.Passes := by
  cases hp : t.place w.shelves with
  | some e =>
    obtain ⟨x, w', hrun, -, hx⟩ := exec_run hp
    rw [hrun, (hx w').2]
    refine ⟨fun h => ⟨?_, h⟩, And.right⟩
    rintro s rfl
    by_contra hs
    cases hp.symm.trans (place_engine.mpr hs)
  | none =>
    cases t with
    | engine s =>
      have hs := place_engine.mp hp
      rw [run, exec_bind_error (Setup.exec_create_unknown hs w)]
      exact iff_of_false nofun fun h => hs (h.1 s rfl)
    | render eng depth d scope location => exact ht.elim
    | _ => cases hp

end Turn

/-! ### After turns -/

/-- **The tables are those of the ledger.**  By induction on the turns, from the last one. -/
theorem tells_after (ts : List Turn) (hw : w.registries = #[]) :
    Tells (ledger ts) (after ts w) := by
  induction ts using List.reverseRecOn with
  | nil =>
    rw [Tells, World.shelves, after, List.foldl_nil, hw]
    rfl
  | append_singleton ts t ih =>
    rw [ledger, after, List.foldl_append, List.foldl_append]
    exact t.tells_run ih

theorem plugins_registryIn (eng : Engine) (w : World) :
    (eng.registryIn w).plugins = w.shelves.getD eng.registry [] := by
  rw [World.shelves, List.getD_eq_getElem?_getD, List.getElem?_map, Array.getElem?_toList,
    Engine.registryIn, Array.getD_eq_getD_getElem?]
  cases w.registries[eng.registry]? with
  | none => exact Registry.plugins_empty _
  | some r => rfl

/-- What was registered last under a name. -/
def last? (name : String) (es : List (String × Plugin)) : Option Plugin :=
  ((es.filter fun e => e.1 = name).getLast?).map (·.2)

/-- What an engine finds under a name is what was registered last. -/
theorem Tells.plugin? (hw : Tells book w) (eng : Engine) (name : String) :
    eng.plugin? w name = last? name (book.getD eng.registry []) := by
  have htable : (eng.registryIn w).plugins = Table.ofList (book.getD eng.registry []) := by
    rw [plugins_registryIn, hw, List.getD_eq_getElem?_getD, List.getD_eq_getElem?_getD,
      List.getElem?_map]
    cases book[eng.registry]? <;> rfl
  rw [Engine.plugin?, htable, Table.get?_ofList]
  rfl

/-- The entry has a name, and its plugin does something. -/
def Sound (e : String × Plugin) : Prop :=
  e.1 ≠ "" ∧ e.2.transform.isSome

theorem sound_enter (t : Turn) (hbook : ∀ es ∈ book, ∀ e ∈ es, Sound e) :
    ∀ es ∈ t.enter book, ∀ e ∈ es, Sound e := by
  unfold Turn.enter
  cases hp : t.place book with
  | none => exact hbook
  | some p =>
    have hplace : ∀ es ∈ p.2, ∀ e ∈ es, Sound e := by
      rcases Turn.place_lists hp with hlists | hlists <;> rw [hlists]
      · exact hbook
      · exact List.forall_mem_append.mpr ⟨hbook, by simp⟩
    intro es hes
    obtain ⟨i, hi⟩ := List.mem_iff_getElem?.mp hes
    rw [List.getElem?_modify] at hi
    obtain ⟨fs, hfs, rfl⟩ := Option.map_eq_some_iff.mp hi
    have hfs := hplace fs (List.mem_of_getElem? hfs)
    split
    · exact List.forall_mem_append.mpr ⟨hfs, fun e he => of_mem_registrations he⟩
    · exact hfs

/-- All in the ledger has been registered. -/
theorem sound_ledger (ts : List Turn) : ∀ es ∈ ledger ts, ∀ e ∈ es, Sound e := by
  induction ts using List.reverseRecOn with
  | nil => exact List.forall_mem_nil _
  | append_singleton ts t ih =>
    rw [ledger, List.foldl_append]
    exact sound_enter t ih

theorem Tells.sound {ts : List Turn} (hw : Tells (ledger ts) w) :
    ∀ r ∈ w.registries, ∀ e ∈ r.plugins, Sound e := by
  intro r hr e he
  have hmem : r.plugins ∈ w.shelves := List.mem_map_of_mem (Array.mem_toList_iff.mpr hr)
  rw [hw] at hmem
  obtain ⟨es, hes, htable⟩ := List.mem_map.mp hmem
  rw [← htable] at he
  exact sound_ledger ts es hes e (Table.mem_ofList he)

/-- A turn in which an offer is refused fails, and registers exactly what is offered before. -/
theorem enter_of_refused {t : Turn} (ht : t.Configures) {k : Nat}
    {book' : List (List (String × Plugin))} (hplace : t.place book = some (k, book'))
    {os ps : List (Option String × Offer)} {given : Option String} {o : Offer}
    (hoffers : t.offers = os ++ (given, o) :: ps) (hos : Accepted os)
    (ho : o.registration? given = none) (w : World) :
    (∃ f, (exec t.run w).1 = .error f) ∧
      t.enter book = book'.modify k (· ++ os.filterMap fun e => e.2.registration? e.1) := by
  constructor
  · have hfails : ¬ t.Passes := by
      rintro ⟨-, hall⟩
      have hrefused := hall (given, o) (by simp [hoffers])
      rw [ho] at hrefused
      cases hrefused
    cases hr : (exec t.run w).1 with
    | error f => exact ⟨f, rfl⟩
    | ok a => exact absurd ((t.run_passes_iff ht w).mp ⟨a, hr⟩) hfails
  · rw [Turn.enter, hplace, hoffers, registrations_of_refused hos ho]

/-! ### The laws -/

/-- What holds of the plugins in a world after turns. -/
structure RegistryLaws (ts : List Turn) (w : World) : Prop where
  /-- Every engine finds under a name the plugin that was registered last with its registry. -/
  last : ∀ (eng : Engine) (name : String),
    eng.plugin? w name = last? name ((ledger ts).getD eng.registry [])
  /-- No name is empty, and every plugin does something. -/
  sound : ∀ r ∈ w.registries, ∀ e ∈ r.plugins, e.1 ≠ "" ∧ e.2.transform.isSome
  /-- The name is the one given or, if there is none or it is empty, the plugin's own; what is
  registered of a class is the plugin that is made of it. -/
  registration : ∀ (o : Offer) (given : Option String) (n : String) (p : Plugin),
    o.registration? given = some (n, p) ↔
      o.plugin = .ok p ∧ p.transform.isSome ∧ n ≠ "" ∧
        (given = some n ∨ (given = none ∨ given = some "") ∧ p.name = some n)
  /-- A registration that fails changes nothing. -/
  refused : ∀ (eng : Engine) (o : Offer) (given : Option String), o.registration? given = none →
    ∃ f, exec (eng.register o given) w = (.error f, w)
  /-- A turn fails just if a parameter or an offer is refused. -/
  outcome : ∀ t : Turn, t.Configures → ((∃ a, (exec t.run w).1 = .ok a) ↔ t.Passes)
  /-- A turn that fails at an offer leaves the registrations of the offers before it. -/
  partly : ∀ (t : Turn) (k : Nat) (book : List (List (String × Plugin)))
    (os ps : List (Option String × Offer)) (given : Option String) (o : Offer), t.Configures →
    t.place (ledger ts) = some (k, book) → t.offers = os ++ (given, o) :: ps → Accepted os →
    o.registration? given = none →
    (∃ f, (exec t.run w).1 = .error f) ∧
      ledger (ts ++ [t]) = book.modify k (· ++ os.filterMap fun e => e.2.registration? e.1)
  /-- A node that names a plugin and is not passed over is complained about before a source is
  asked for, with its position, just if nothing is registered under the name, whatever the world has
  come to in a rendering. -/
  missing : ∀ (u : World), u.registries = w.registries → ∀ (eng : Engine) (body : Body)
    (limit : Nat) (p : Place) (n : Node) (g : Group) (name : String),
    n.symbol = .text (":" ++ name) →
    ((∃ package position,
      (exec (Render.node eng body limit p n g) u).1 =
          .error (.template (.pluginNotInstalled package) position) ∧
        (exec (Render.node eng body limit p n g) u).2.events = u.events) ↔
      eng.ComesUp u n g ∧ last? name ((ledger ts).getD eng.registry []) = none) ∧
    (eng.ComesUp u n g → last? name ((ledger ts).getD eng.registry []) = none →
      exec (Render.node eng body limit p n g) u =
        (.error (.template (.pluginNotInstalled ((eng.registryIn u).package name)) n.position), u))

/-- **Registries over whole runs.** -/
theorem registry_laws (ts : List Turn) {w : World} (hw : w.registries = #[]) :
    RegistryLaws ts (after ts w) where
  last eng name := (tells_after ts hw).plugin? eng name
  sound := (tells_after ts hw).sound
  registration _ _ _ _ := Offer.registration?_eq_some_iff
  refused eng _ _ h := eng.exec_register_of_none h _
  outcome t ht := t.run_passes_iff ht _
  partly t k book os ps given o ht hplace hoffers hos ho := by
    rw [ledger, List.foldl_append]
    exact enter_of_refused ht hplace hoffers hos ho _
  missing u hu eng body limit p n g name hn := by
    have hsame : eng.plugin? u name = last? name ((ledger ts).getD eng.registry []) := by
      rw [← (tells_after ts hw).plugin? eng name, Engine.plugin?, Engine.plugin?,
        Engine.registryIn, Engine.registryIn, hu]
    rw [← hsame]
    refine ⟨Engine.node_not_installed_iff hn, fun hup hnone => ?_⟩
    rw [Engine.exec_node_colon hn hup, Engine.exec_plugin_missing hnone]

/-! ### A shared registry, and an engine that cannot be made -/

/-- A registry is made with a plugin, and an engine that shares it finds three more, of which the
second is refused; so it is not made, but the first of them stays. -/
def workshop : List Turn :=
  [.registry (.text "mt-") [("upper", .ready Samples.repeating)],
    .engine { Setup.plain with
      plugins := .shared 0
      discovered :=
        [("", "a", .made Samples.upper), ("idle", "b", .ready Samples.idle),
          ("late", "c", .ready Samples.repeating)] }]

theorem registry_laws_workshop :
    World.empty.registries = #[] ∧
      (Engine.ofRegistry 0).plugin? (after workshop World.empty) "upper" = some Samples.upper ∧
      (Engine.ofRegistry 0).plugin? (after workshop World.empty) "late" = none := by
  have h := registry_laws workshop (w := World.empty) rfl
  exact ⟨rfl, (h.last _ _).trans rfl, (h.last _ _).trans rfl⟩

end Plugin
end Trellis
