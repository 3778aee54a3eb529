import Trellis.Proofs.Registry.Sessions

/-!
# Proofs — Plugins — Registrations

What is registered of the plugins that are offered.  A plugin goes by the name that it is offered
under or, if there is none or it is empty, by its own; it is refused if it has no name then, if it
does nothing, or if no plugin can be had in the first place (`Offer.registration?_eq_some_iff`).  Of
several offers, those before the first one that is refused are registered
(`Plugin.registrations_of_refused`).

Registering puts a name and a plugin into the table of one registry, or leaves the world as it is;
all registering of an engine is told of the tables in the world (`Registers`).
-/

namespace Trellis

open Rendering (exec exec_bind exec_bind_ok exec_bind_error exec_ofExcept)

namespace Offer

/-- The name and the plugin that are registered of an offer under a given name, unless it is
refused. -/
def registration? (o : Offer) (given : Option String) : Option (String × Plugin) :=
  match o.plugin with
  | .error _ => none
  | .ok p =>
    if p.transform.isSome then ([given, p.name].reduceOption.find? (· ≠ "")).map fun n => (n, p)
    else none

variable {o : Offer} {given : Option String} {n : String} {p : Plugin}

/-- The name is the first that is not empty. -/
theorem find?_names_eq_some_iff {own : Option String} :
    [given, own].reduceOption.find? (· ≠ "") = some n ↔
      n ≠ "" ∧ (given = some n ∨ (given = none ∨ given = some "") ∧ own = some n) := by
  have hown : [own].reduceOption.find? (· ≠ "") = some n ↔ n ≠ "" ∧ own = some n := by
    cases own with
    | none => simp [List.reduceOption]
    | some m =>
      by_cases hm : m = ""
      · simp only [List.reduceOption, hm]
        grind
      · simp only [List.reduceOption]
        grind
  cases given with
  | none => simpa [List.reduceOption] using hown
  | some m =>
    by_cases hm : m = ""
    · rw [List.reduceOption_cons_of_some, List.find?_cons_of_neg (by simpa using hm), hown, hm]
      grind
    · rw [List.reduceOption_cons_of_some, List.find?_cons_of_pos (by simpa using hm)]
      grind

theorem registration?_eq_some_iff : o.registration? given = some (n, p) ↔
    o.plugin = .ok p ∧ p.transform.isSome ∧ n ≠ "" ∧
      (given = some n ∨ (given = none ∨ given = some "") ∧ p.name = some n) := by
  unfold registration?
  rcases o.plugin with f | q
  · simp
  · by_cases hq : q.transform.isSome
    · simp only [hq, if_true, Option.map_eq_some_iff, Prod.mk.injEq, Except.ok.injEq]
      constructor
      · rintro ⟨m, hm, rfl, rfl⟩
        exact ⟨rfl, hq, find?_names_eq_some_iff.mp hm⟩
      · rintro ⟨rfl, -, hn⟩
        exact ⟨n, find?_names_eq_some_iff.mpr hn, rfl, rfl⟩
    · simp only [hq, Bool.false_eq_true, if_false, reduceCtorEq, false_iff, Except.ok.injEq]
      rintro ⟨rfl, hp, -⟩
      exact hq hp

/-- The name of an offer is the one that the registry takes. -/
theorem nameFor_eq_some_iff : (Registry.nameFor given p = some n ∧ n ≠ "") ↔
    n ≠ "" ∧ (given = some n ∨ (given = none ∨ given = some "") ∧ p.name = some n) := by
  unfold Registry.nameFor
  cases given with
  | none => grind
  | some m =>
    simp only [String.isEmpty_iff]
    by_cases hm : m = "" <;> grind

end Offer

namespace Registry

variable {r : Registry} {o : Offer} {given : Option String} {e : String × Plugin}

/-- An offer that is not refused is put into the table. -/
theorem register_of_some (h : o.registration? given = some e) :
    r.register o given = .ok ({ r with plugins := Table.put e.1 e.2 r.plugins }, e) := by
  obtain ⟨n, p⟩ := e
  obtain ⟨ho, hp, hn⟩ := Offer.registration?_eq_some_iff.mp h
  obtain ⟨hname, hne⟩ := Offer.nameFor_eq_some_iff.mpr hn
  have hinert : p.transform.isNone = false := by simpa using hp
  simp [register, ho, Bind.bind, Except.bind, hname, hne, hinert]

theorem registration?_of_register {x : Registry × String × Plugin}
    (h : r.register o given = .ok x) : o.registration? given = some x.2 := by
  unfold register at h
  rcases ho : o.plugin with f | p <;> rw [ho] at h
  · cases h
  · simp only [Bind.bind, Except.bind] at h
    split at h
    · cases h
    · next n hname =>
      split_ifs at h with hne hp
      obtain rfl := Except.ok.inj h
      have hn : n ≠ "" := by simpa using hne
      have hdoes : p.transform.isSome := Option.isSome_iff_ne_none.mpr (by simpa using hp)
      exact Offer.registration?_eq_some_iff.mpr
        ⟨ho, hdoes, Offer.nameFor_eq_some_iff.mp ⟨hname, hn⟩⟩

/-- An offer that is refused is complained about. -/
theorem register_of_none (h : o.registration? given = none) :
    ∃ f, r.register o given = .error f := by
  cases hr : r.register o given with
  | error f => exact ⟨f, rfl⟩
  | ok x => cases h.symm.trans (registration?_of_register hr)

end Registry

/-! ### Several offers -/

namespace Plugin

/-- What is registered of offers with the names given to them: all up to the first that is
refused. -/
def registrations : List (Option String × Offer) → List (String × Plugin)
  | [] => []
  | (given, o) :: os =>
    match o.registration? given with
    | some e => e :: registrations os
    | none => []

/-- None of the offers is refused. -/
def Accepted (os : List (Option String × Offer)) : Prop :=
  ∀ e ∈ os, (e.2.registration? e.1).isSome

variable {os ps : List (Option String × Offer)} {given : Option String} {o : Offer}

theorem registrations_append (hos : Accepted os) :
    registrations (os ++ ps) =
      os.filterMap (fun e => e.2.registration? e.1) ++ registrations ps := by
  induction os with
  | nil => rfl
  | cons e os ih =>
    obtain ⟨he, hos⟩ := List.forall_mem_cons.mp hos
    obtain ⟨d, hd⟩ := Option.isSome_iff_exists.mp he
    rw [List.cons_append, registrations, hd, List.filterMap_cons, hd, ih hos]
    rfl

/-- Of offers one of which is refused, exactly those before it are registered. -/
theorem registrations_of_refused (hos : Accepted os) (ho : o.registration? given = none) :
    registrations (os ++ (given, o) :: ps) = os.filterMap fun e => e.2.registration? e.1 := by
  rw [registrations_append hos, registrations, ho, List.append_nil]

/-- All that is registered has a name, and does something. -/
theorem of_mem_registrations {e : String × Plugin} (he : e ∈ registrations os) :
    e.1 ≠ "" ∧ e.2.transform.isSome := by
  induction os with
  | nil => cases he
  | cons d os ih =>
    obtain ⟨given, o⟩ := d
    rw [registrations] at he
    split at he
    · next f hf =>
      rcases List.mem_cons.mp he with rfl | he
      · obtain ⟨-, hp, hn, -⟩ := Offer.registration?_eq_some_iff.mp hf
        exact ⟨hn, hp⟩
      · exact ih he
    · cases he

end Plugin

/-! ### The tables of a world -/

/-- The tables of plugins, by the numbers of the registries. -/
def World.shelves (w : World) : List (List (String × Plugin)) :=
  w.registries.toList.map (·.plugins)

theorem World.shelves_congr {w w' : World} (h : w'.registries = w.registries) :
    w'.shelves = w.shelves := by
  rw [shelves, h, shelves]

/-- A table is changed by changing the one registry that it is of. -/
theorem World.shelves_set (w : World) (k : Nat) (d : Registry)
    (f : List (String × Plugin) → List (String × Plugin)) :
    World.shelves { w with
        registries := w.registries.setIfInBounds k
          { w.registries.getD k d with plugins := f (w.registries.getD k d).plugins } } =
      w.shelves.modify k f := by
  unfold shelves
  refine List.ext_getElem? fun i => ?_
  rw [List.getElem?_map, List.getElem?_modify, List.getElem?_map, Array.getElem?_toList,
    Array.getElem?_toList, Array.getElem?_setIfInBounds]
  by_cases hik : k = i
  · subst hik
    by_cases hk : k < w.registries.size
    · simp [hk, Array.getD]
    · simp [hk]
  · simp [hik]

/-! ### What an engine registers -/

/-- The computation puts plugins into one table, and succeeds if nothing is refused. -/
def Registers {α : Type} (k : Nat) (es : List (String × Plugin)) (accepted : Prop)
    (x : Rendering α) : Prop :=
  ∀ w, (exec x w).2.shelves = w.shelves.modify k (Table.putAll es) ∧
    ((∃ a, (exec x w).1 = .ok a) ↔ accepted)

namespace Engine

open Plugin (registrations Accepted)

variable {eng : Engine} {o : Offer} {given : Option String} {e : String × Plugin}

theorem exec_register_of_some (h : o.registration? given = some e) (w : World) :
    exec (eng.register o given) w = (.ok e.2,
      { w with
        registries := w.registries.setIfInBounds eng.registry
          { w.registries.getD eng.registry (.empty eng.config.packagePrefix) with
            plugins := Table.put e.1 e.2
              (w.registries.getD eng.registry (.empty eng.config.packagePrefix)).plugins }
        events := w.events.push (.registered e.1 e.2.shown) }) := by
  have hplugins : exec eng.plugins w =
      (.ok (w.registries.getD eng.registry (.empty eng.config.packagePrefix)), w) := rfl
  rw [register, exec_bind_ok hplugins, Registry.register_of_some h]
  rfl

/-- What is refused leaves the world as it is. -/
theorem exec_register_of_none (h : o.registration? given = none) (w : World) :
    ∃ f, exec (eng.register o given) w = (.error f, w) := by
  have hplugins : exec eng.plugins w =
      (.ok (w.registries.getD eng.registry (.empty eng.config.packagePrefix)), w) := rfl
  obtain ⟨f, hf⟩ := Registry.register_of_none
    (r := w.registries.getD eng.registry (.empty eng.config.packagePrefix)) h
  refine ⟨f, ?_⟩
  rw [register, exec_bind_ok hplugins, hf]
  rfl

/-- An offer before others. -/
theorem registers_cons {α : Type} {os : List (Option String × Offer)} {y : Plugin → Rendering α}
    (hy : ∀ p, Registers eng.registry (registrations os) (Accepted os) (y p)) :
    Registers eng.registry (registrations ((given, o) :: os)) (Accepted ((given, o) :: os))
      (eng.register o given >>= y) := by
  intro w
  cases ho : o.registration? given with
  | none =>
    obtain ⟨f, hf⟩ := eng.exec_register_of_none ho w
    rw [exec_bind_error hf, registrations, ho]
    refine ⟨(List.modify_id _ _).symm, iff_of_false nofun fun h => ?_⟩
    have hfirst := h _ List.mem_cons_self
    rw [ho] at hfirst
    cases hfirst
  | some e =>
    obtain ⟨hshelves, hok⟩ := hy e.2 _
    rw [exec_bind_ok (exec_register_of_some ho w), registrations, ho]
    refine ⟨hshelves.trans ?_, hok.trans ?_⟩
    · have hput := World.shelves_set w eng.registry (.empty eng.config.packagePrefix)
        (Table.put e.1 e.2)
      exact (congrArg (List.modify · eng.registry _) hput).trans (List.modify_modify_eq _ _ _ _)
    · simp [Accepted, ho]

theorem registers_nil {α : Type} {x : Rendering α} (k : Nat) {a : α}
    (hx : ∀ w, exec x w = (.ok a, w)) : Registers k (registrations []) (Accepted []) x := by
  intro w
  rw [hx]
  exact ⟨(List.modify_id _ _).symm, iff_of_true ⟨a, rfl⟩ (List.forall_mem_nil _)⟩

/-- A single offer. -/
theorem registers_register (eng : Engine) (o : Offer) (given : Option String) :
    Registers eng.registry (registrations [(given, o)]) (Accepted [(given, o)])
      (eng.register o given) := by
  have hnone (p : Plugin) : Registers eng.registry (registrations []) (Accepted [])
      (pure p : Rendering Plugin) :=
    registers_nil eng.registry (Rendering.exec_pure p)
  rw [← bind_pure (eng.register o given)]
  exact registers_cons hnone

theorem registers_registerAll (eng : Engine) (os : List (String × Offer)) {α : Type}
    {ps : List (Option String × Offer)} {y : Rendering α}
    (hy : Registers eng.registry (registrations ps) (Accepted ps) y) :
    Registers eng.registry (registrations (os.map (fun e => (some e.1, e.2)) ++ ps))
      (Accepted (os.map (fun e => (some e.1, e.2)) ++ ps)) (eng.registerAll os >>= fun _ => y) := by
  induction os with
  | nil => exact hy
  | cons e os ih =>
    obtain ⟨n, o⟩ := e
    have hbind : (eng.registerAll ((n, o) :: os) >>= fun _ => y) =
        eng.register o (some n) >>= fun _ => eng.registerAll os >>= fun _ => y := by
      rw [registerAll, bind_assoc]
    rw [hbind]
    exact registers_cons fun _ => ih

theorem registers_discover (eng : Engine) (found : List (String × String × Offer)) {α : Type}
    {y : Rendering α} {a : α} (hy : ∀ w, exec y w = (.ok a, w)) :
    Registers eng.registry (registrations (found.map fun e => (some e.1, e.2.2)))
      (Accepted (found.map fun e => (some e.1, e.2.2))) (eng.discover found >>= fun _ => y) := by
  induction found with
  | nil => exact registers_nil _ hy
  | cons e found ih =>
    obtain ⟨n, origin, o⟩ := e
    intro w
    have hbind : exec (eng.discover ((n, origin, o) :: found) >>= fun _ => y) w =
        exec (eng.register o (some n) >>= fun _ => eng.discover found >>= fun _ => y)
          { w with events := w.events.push (.discovered n origin) } := by
      rw [discover, bind_assoc, exec_bind_ok (Rendering.exec_note _ _), bind_assoc]
    rw [hbind]
    exact registers_cons (fun _ => ih) _

end Engine
end Trellis
