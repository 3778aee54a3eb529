import Trellis.Proofs.Interpretation.Throughout
import Trellis.Proofs.Loading.Confinement
import Trellis.Proofs.Loading.Paths
import Trellis.Proofs.Sharing.Sessions
import Trellis.Samples

/-!
# Proofs — Loading — Relocation

Sources that move into a directory together.  When every source of a loader is put into a directory,
and a template is rendered at its new place, the rendering ends as before, as long as it asks for
relative paths (`Engine.render_relocated`): all that it asks for has moved along
(`Path.canonical_relocate`), and two sources are never moved to one place (`Path.relocate_inj`).

The worlds differ in the places of sources and in the locations that were tracked
(`World.relocate`); what keeps away from loaders and trackers does the same in both
(`Rendering.inner_commutes`).
-/

namespace Trellis

open Rendering (exec exec_bind exec_bind_ok Commutes inner_commutes)

/-! ### Tables with other keys -/

namespace Table

variable {κ κ' α : Type} [DecidableEq κ] [DecidableEq κ'] {f : κ → κ'} {k : κ} {t : List (κ × α)}
  (hf : ∀ e ∈ t, f e.1 = f k → e.1 = k)
include hf

/-- What is found under a moved key was there under the key. -/
theorem get?_map_keys : get? (f k) (t.map fun e => (f e.1, e.2)) = get? k t := by
  induction t with
  | nil => rfl
  | cons e es ih =>
    obtain ⟨he, hes⟩ := List.forall_mem_cons.mp hf
    by_cases hk : e.1 = k
    · simp [get?, hk]
    · have hfk : ¬ f e.1 = f k := fun h => hk (he h)
      simp only [List.map_cons, get?, if_neg hk, if_neg hfk]
      exact ih hes

/-- Putting in and moving keys commute. -/
theorem put_map_keys (v : α) :
    put (f k) v (t.map fun e => (f e.1, e.2)) = (put k v t).map fun e => (f e.1, e.2) := by
  induction t with
  | nil => rfl
  | cons e es ih =>
    obtain ⟨he, hes⟩ := List.forall_mem_cons.mp hf
    by_cases hk : e.1 = k
    · simp [put, hk]
    · have hfk : ¬ f e.1 = f k := fun h => hk (he h)
      simp only [List.map_cons, put, if_neg hk, if_neg hfk]
      rw [ih hes]

end Table

/-! ### Sources in a directory -/

namespace Sources

/-- All sources are stored under paths inside. -/
def Inside (t : Sources) : Prop :=
  ∀ e ∈ t, Path.Inside e.1

/-- The sources in a directory. -/
def relocate (directory : String) (t : Sources) : Sources :=
  t.map fun e => (Path.relocate directory e.1, e.2)

variable {directory : String} {t u : Sources} {path : String}

/-- A source under a path inside may be put in. -/
theorem Inside.put (ht : t.Inside) (hp : Path.Inside path) (s : Source) :
    Sources.Inside (Table.put path s t) := by
  intro e he
  rcases Table.eq_or_mem_of_mem_put he with rfl | he
  · exact hp
  · exact ht e he

/-- Sources under local paths are inside. -/
theorem Inside.ofList {es : List (String × Source)}
    (hes : ∀ e ∈ es, Path.Local (Path.normal e.1)) : (ofList es).Inside := by
  induction es using List.reverseRecOn with
  | nil => exact fun e he => nomatch he
  | append_singleton es e ih =>
    obtain ⟨hes, he⟩ := List.forall_mem_append.mp hes
    rw [Sources.ofList, List.foldl_append]
    exact (ih hes).put (he e (List.mem_singleton_self e)).inside e.2

section

variable (hd : Path.Directory directory)
include hd

/-- Paths inside stay distinct when they are moved. -/
theorem inj (ht : t.Inside) (hp : Path.Inside path) :
    ∀ e ∈ t, Path.relocate directory e.1 = Path.relocate directory path → e.1 = path :=
  fun e he => Path.relocate_inj hd (ht e he) hp

/-- Putting in and moving sources commute. -/
theorem put_relocate (ht : t.Inside) (hp : Path.Inside path) (s : Source) :
    Table.put (Path.relocate directory path) s (t.relocate directory) =
      Sources.relocate directory (Table.put path s t) :=
  Table.put_map_keys (inj hd ht hp) s

/-- **To put every source into the directory is to put the loader there.** -/
theorem ofList_relocate {es : List (String × Source)}
    (hes : ∀ e ∈ es, Path.Local (Path.normal e.1)) :
    ofList (es.map fun e => (Path.relocate directory e.1, e.2)) =
      (ofList es).relocate directory := by
  induction es using List.reverseRecOn with
  | nil => rfl
  | append_singleton es e ih =>
    obtain ⟨hes, he⟩ := List.forall_mem_append.mp hes
    have he := he e (List.mem_singleton_self e)
    rw [List.map_append, Sources.ofList, Sources.ofList, List.foldl_append, List.foldl_append]
    show Sources.assign (ofList _) (Path.relocate directory e.1) e.2 =
      Sources.relocate directory (Sources.assign (ofList es) e.1 e.2)
    rw [ih hes, assign, assign, Path.normal_relocate hd he]
    exact put_relocate hd (.ofList hes) he.inside e.2

end

/-- What is found under a relative path is stored under this very path. -/
theorem stored?_of_find? {s : Source} (hp : Path.isAbsolute path.toList = false)
    (h : t.find? path = some s) : t.stored? path = some s := by
  have hrelative : Path.relative path = path := by
    unfold Path.relative Text.dropLeading
    cases hs : path.toList with
    | nil => rw [List.dropWhile_nil, ← hs, String.ofList_toList]
    | cons c cs =>
      have hc : c ≠ '/' := by simpa [hs, Path.isAbsolute] using hp
      rw [List.dropWhile_cons_of_neg (by simpa using hc), ← hs, String.ofList_toList]
  unfold find? at h
  rw [hrelative] at h
  split at h
  · next v hv => exact h ▸ hv
  · exact h

/-- What is found at a path inside is found at its new place. -/
theorem find?_relocate (hd : Path.Directory directory) (ht : t.Inside) {s : Source}
    (hp : Path.isAbsolute path.toList = false) (h : t.find? path = some s) :
    Path.Inside path ∧
      (t.relocate directory).find? (Path.relocate directory path) = some s := by
  have hstored := stored?_of_find? hp h
  have hinside := ht _ (Table.mem_of_get? (Option.filter_eq_some_iff.mp hstored).1)
  have hmoved : (t.relocate directory).stored? (Path.relocate directory path) = some s := by
    unfold stored? relocate
    rw [Table.get?_map_keys (inj hd ht hinside)]
    exact hstored
  refine ⟨hinside, ?_⟩
  unfold find?
  rw [hmoved]

/-- **What is loaded of a path is loaded of its new place.** -/
theorem load_relocate (hd : Path.Directory directory) (ht : t.Inside)
    (hp : Path.isAbsolute path.toList = false) {i j : Nat} {s : Source}
    (h : (t.load path).run i = .ok ((s, u), j)) :
    Path.Inside path ∧ u.Inside ∧
      ((t.relocate directory).load (Path.relocate directory path)).run i =
        .ok ((s, u.relocate directory), j) := by
  unfold load at h ⊢
  cases hfound : t.find? path with
  | none =>
    rw [hfound] at h
    cases h
  | some r =>
    obtain ⟨hinside, hmoved⟩ := find?_relocate hd ht hp hfound
    rw [hfound] at h
    rw [hmoved]
    refine ⟨hinside, ?_⟩
    cases r with
    -- a draft takes identities in both, and is put back where it was found
    | draft v =>
      dsimp only at h ⊢
      rw [StateT.run_bind] at h ⊢
      cases hr : (Draft.ofValue v).node.run i with
      | error f =>
        rw [hr] at h
        cases h
      | ok r =>
        rw [hr] at h
        cases h
        refine ⟨ht.put hinside _, ?_⟩
        rw [← put_relocate hd ht hinside]
        rfl
    | text _ | node _ | other _ =>
      cases h
      exact ⟨ht, rfl⟩

end Sources

/-! ### Worlds with sources in a directory -/

/-- The loader with its sources in a directory. -/
def Loader.relocate (directory : String) : Loader → Loader
  | sources t => sources (t.relocate directory)
  | l => l

/-- The tracker with the locations in a directory. -/
def Tracker.relocate (directory : String) (t : Tracker) : Tracker :=
  ⟨t.dependencies.map fun e => (e.1.map (Path.relocate directory), e.2)⟩

/-- All locations that were tracked are inside. -/
def Tracker.Inside (t : Tracker) : Prop :=
  ∀ e ∈ t.dependencies, ∃ s, Path.Inside s ∧ e.1 = some s

theorem Tracker.Inside.record {t : Tracker} (ht : t.Inside) {s : String} (hs : Path.Inside s)
    (path : String) : (t.record (some s) path).Inside := by
  intro e he
  rcases Table.eq_or_mem_of_mem_put he with rfl | he
  · exact ⟨s, hs, rfl⟩
  · exact ht e he

/-- The event at locations in a directory. -/
def Event.relocate (directory : String) : Event → Event
  | tracked location path => tracked (location.map (Path.relocate directory)) path
  | requested path location wanted =>
    requested path (location.map (Path.relocate directory)) wanted
  | resolving path location canonical =>
    resolving path (location.map (Path.relocate directory)) (Path.relocate directory canonical)
  | includingText path location => includingText path (location.map (Path.relocate directory))
  | includingTree path location => includingTree path (location.map (Path.relocate directory))
  | e => e

/-- The world with all sources and all locations in a directory. -/
def World.relocate (directory : String) : World → World :=
  World.around (·.map (Loader.relocate directory)) (·.map (Tracker.relocate directory))
    (·.map (Event.relocate directory))

namespace World

variable {directory : String} (w : World)

/-- The loaders of a moved world are moved. -/
theorem loader_relocate (number : Nat) :
    (w.relocate directory).loader number = (w.loader number).relocate directory := by
  unfold loader relocate around
  simp only [Array.getD_eq_getD_getElem?, Array.getElem?_map]
  cases w.loaders[number]? <;> rfl

/-- So are its trackers. -/
theorem tracker_relocate (number : Nat) :
    (w.relocate directory).trackers.getD number Tracker.empty =
      (w.trackers.getD number Tracker.empty).relocate directory := by
  unfold relocate around
  simp only [Array.getD_eq_getD_getElem?, Array.getElem?_map]
  cases w.trackers[number]? <;> rfl

/-- A moved event goes behind moved events. -/
theorem relocate_push (e : Event) :
    World.relocate directory { w with events := w.events.push e } =
      { w.relocate directory with
        events := (w.relocate directory).events.push (e.relocate directory) } := by
  simp only [relocate, around, Array.map_push]

end World

namespace Relocation

/-- The location is inside, and the other one is its new place. -/
def Location (directory : String) (l l' : Option String) : Prop :=
  ∃ s, Path.Inside s ∧ l = some s ∧ l' = some (Path.relocate directory s)

/-- The engine's loader has sources, all inside, and so are the locations that it has tracked. -/
structure Settled (eng : Engine) (w : World) : Prop where
  loader : ∀ k, eng.loader = some k → ∃ t, w.loader k = .sources t ∧ t.Inside
  tracker : ∀ k, eng.tracker = some k → (w.trackers.getD k Tracker.empty).Inside

/-- Whether a world is settled is told by loaders and trackers. -/
theorem Settled.congr {eng : Engine} {w w' : World} (h : Settled eng w)
    (hl : w'.loaders = w.loaders) (ht : w'.trackers = w.trackers) : Settled eng w' := by
  refine ⟨?_, ?_⟩
  · simpa only [World.loader, hl] using h.loader
  · simpa only [ht] using h.tracker

variable {eng : Engine} {directory : String} {α β : Type}

variable (eng directory) in
/-- If the first computation ends well, the second one does among the sources in the directory. -/
def Moves (R : α → α → Prop) (x y : Rendering α) : Prop :=
  ∀ w, Settled eng w → ∀ a, (exec x w).1 = .ok a →
    ∃ b, exec y (w.relocate directory) = (.ok b, (exec x w).2.relocate directory) ∧
      R a b ∧ Settled eng (exec x w).2

namespace Moves

variable {R : α → α → Prop} {Q : β → β → Prop}

theorem pure {a b : α} (h : R a b) : Moves eng directory R (Pure.pure a) (Pure.pure b) := by
  intro w hw c hc
  obtain rfl := Except.ok.inj hc
  exact ⟨b, rfl, h, hw⟩

theorem throw (f : Fault) (y : Rendering α) : Moves eng directory R (throw f) y :=
  fun w _ a ha => by cases ha

/-- Computations in a row move as each does. -/
theorem bind {x y : Rendering α} {f g : α → Rendering β} (hx : Moves eng directory R x y)
    (hf : ∀ a b, R a b → Moves eng directory Q (f a) (g b)) :
    Moves eng directory Q (x >>= f) (y >>= g) := by
  intro w hw c hc
  have h := hx w hw
  rcases hr : exec x w with ⟨e | a, w₁⟩ <;> rw [hr] at h
  · rw [exec_bind, hr] at hc
    cases hc
  · obtain ⟨b, hy, hR, hw₁⟩ := h a rfl
    rw [exec_bind_ok hr] at hc ⊢
    rw [exec_bind_ok hy]
    exact hf a b hR w₁ hw₁ c hc

/-- A moved event is noted in the place of an event. -/
theorem note {e e' : Event} (h : e.relocate directory = e') :
    Moves eng directory Eq (Rendering.note e) (Rendering.note e') := by
  rintro w hw ⟨⟩ -
  refine ⟨(), ?_, rfl, hw.congr rfl rfl⟩
  rw [Rendering.exec_note, Rendering.exec_note, World.relocate_push, h]

/-- What keeps away from loaders and trackers. -/
theorem self {x : Rendering α}
    (hx : ∀ ls ts es, Event.Passes es → Commutes (World.around ls ts es) x) :
    Moves eng directory Eq x x := by
  intro w hw a ha
  refine ⟨a, ?_, rfl, ?_⟩
  · rw [← ha]
    exact hx _ _ _ (fun _ _ _ _ => Array.map_push) w
  · -- a world is as good as any other with its loaders and trackers, so these are what they were
    have hsame : (exec x w).2 =
        World.around (fun _ => w.loaders) (fun _ => w.trackers) id (exec x w).2 :=
      congrArg Prod.snd
        (hx (fun _ => w.loaders) (fun _ => w.trackers) id (fun _ _ _ _ => rfl) w)
    rw [hsame]
    exact hw.congr rfl rfl

/-- Nodes are built alike, since both worlds have the same identities left. -/
theorem build (b : Draft.Build α) :
    Moves eng directory Eq (Rendering.build b) (Rendering.build b) := by
  intro w hw a ha
  have hnext : (w.relocate directory).nextNode = w.nextNode := rfl
  rw [Rendering.exec_build] at ha ⊢
  rw [Rendering.exec_build, hnext]
  cases hr : b.run w.nextNode with
  | error f =>
    rw [hr] at ha
    cases ha
  | ok r =>
    rw [hr] at ha
    exact ⟨a, Prod.ext ha rfl, rfl, hw.congr rfl rfl⟩

/-- What moves more closely moves. -/
theorem mono {S : α → α → Prop} {x y : Rendering α} (hx : Moves eng directory R x y)
    (h : ∀ a b, R a b → S a b) : Moves eng directory S x y := by
  intro w hw a ha
  obtain ⟨b, hy, hR, hw'⟩ := hx w hw a ha
  exact ⟨b, hy, h a b hR, hw'⟩

end Moves

/-! ### Requests -/

/-- What is loaded, and what is loaded of the new place. -/
def LoadedMoves (directory : String) : Loaded → Loaded → Prop
  | .text s, .text s' => s = s'
  | .tree d l, .tree d' l' => d = d' ∧ Location directory l l'
  | _, _ => False

/-- A source is served alike under a moved path. -/
theorem serve_moves (directory : String) {path c : String} (hc : Path.Inside c)
    {wanted : Wanted} {s : Source} {a : Loaded} (h : Loader.serve path wanted c s = .ok a) :
    ∃ b, Loader.serve path wanted (Path.relocate directory c) s = .ok b ∧
      LoadedMoves directory a b := by
  cases s <;> cases wanted <;> cases h
  · exact ⟨_, rfl, rfl⟩
  · exact ⟨_, rfl, rfl, c, hc, rfl, rfl⟩

/-- A loader with sources inside may be put in the place of another. -/
theorem Settled.setSources {w : World} (hw : Settled eng w) (number : Nat) {u : Sources}
    (hu : u.Inside) :
    Settled eng { w with loaders := w.loaders.setIfInBounds number (.sources u) } := by
  refine ⟨fun k hk => ?_, hw.tracker⟩
  show ∃ t, (w.loaders.setIfInBounds number (.sources u)).getD k .empty = .sources t ∧ t.Inside
  rw [getD_setIfInBounds]
  split
  · exact ⟨u, rfl, hu⟩
  · exact hw.loader k hk

theorem Settled.record {w : World} (hw : Settled eng w) {number : Nat}
    (hnumber : eng.tracker = some number) {s : String} (hs : Path.Inside s) (path : String) :
    Settled eng { w with
      trackers := w.trackers.setIfInBounds number
        ((w.trackers.getD number Tracker.empty).record (some s) path) } := by
  refine ⟨hw.loader, fun k hk => ?_⟩
  show Tracker.Inside ((w.trackers.setIfInBounds number _).getD k Tracker.empty)
  rw [getD_setIfInBounds]
  split
  · exact (hw.tracker number hnumber).record hs path
  · exact hw.tracker k hk

variable (hd : Path.Directory directory)
include hd

/-- What is loaded from a moved location is the same, with its location moved. -/
theorem load_moves {number : Nat} (hnumber : eng.loader = some number) {path : String}
    (hpath : Path.isAbsolute path.toList = false) {l l' : Option String}
    (hl : Location directory l l') (wanted : Wanted) :
    Moves eng directory (LoadedMoves directory) (Engine.load number path l wanted)
      (Engine.load number path l' wanted) := by
  intro w hw a ha
  obtain ⟨t, ht, hinside⟩ := hw.loader number hnumber
  obtain ⟨s, hs, rfl, rfl⟩ := hl
  have hmoved : (w.relocate directory).loader number = .sources (t.relocate directory) := by
    rw [World.loader_relocate, ht]
    rfl
  rw [Engine.exec_load ht] at ha ⊢
  cases hr : (t.load (Path.canonical path (some s))).run w.nextNode with
  | error f =>
    rw [hr] at ha
    cases ha
  | ok r =>
    obtain ⟨⟨source, u⟩, j⟩ := r
    rw [hr] at ha
    -- what was found is inside, so the path that is looked up there has moved along with it
    obtain ⟨hc, hu, hload⟩ :=
      Sources.load_relocate hd hinside (Path.canonical_relative hs hpath) hr
    obtain ⟨b, hb, hab⟩ := serve_moves directory hc ha
    refine ⟨b, ?_, hab, (hw.setSources number hu).congr rfl rfl⟩
    rw [Engine.exec_load hmoved, Path.canonical_relocate hd hs hpath hc]
    have hnext : (w.relocate directory).nextNode = w.nextNode := rfl
    rw [hnext, hload]
    dsimp only
    rw [hb]
    simp only [World.relocate, World.around, Array.map_push, Array.map_setIfInBounds]
    rfl

/-- So is what is requested. -/
theorem request_moves {path : String} (hpath : Path.isAbsolute path.toList = false)
    {l l' : Option String} (hl : Location directory l l') (wanted : Wanted) :
    Moves eng directory (LoadedMoves directory) (eng.request path l wanted)
      (eng.request path l' wanted) := by
  unfold Engine.request
  cases hloader : eng.loader with
  | none => exact .throw _ _
  | some number =>
    refine (Moves.note ?_).bind fun _ _ _ => load_moves hd hloader hpath hl wanted
    obtain ⟨s, -, rfl, rfl⟩ := hl
    rfl

/-- The text of an include is the same. -/
theorem text_moves (path : String) {l l' : Option String} (hl : Location directory l l') :
    Moves eng directory Eq (eng.confined.text path l) (eng.text path l') := by
  show Moves eng directory Eq (if Path.isAbsolute path.toList then _ else _) _
  by_cases hpath : Path.isAbsolute path.toList = true
  · rw [if_pos hpath]
    exact .throw _ _
  · rw [if_neg hpath]
    refine (request_moves hd (Bool.eq_false_iff.mpr hpath) hl .text).bind fun a b hab => ?_
    match a, b, hab with
    | .text _, .text _, rfl => exact .pure rfl
    | .tree _ _, .tree _ _, _ => exact .throw _ _

/-- Its tree is the same, with its location moved. -/
theorem tree_moves (path : String) {l l' : Option String} (hl : Location directory l l') :
    Moves eng directory (fun r r' => r.1 = r'.1 ∧ True ∧ Location directory r.2 r'.2)
      (eng.confined.tree path l) (eng.tree path l') := by
  show Moves eng directory _ (if Path.isAbsolute path.toList then _ else _) _
  by_cases hpath : Path.isAbsolute path.toList = true
  · rw [if_pos hpath]
    exact .throw _ _
  · rw [if_neg hpath]
    refine (request_moves hd (Bool.eq_false_iff.mpr hpath) hl .tree).bind fun a b hab => ?_
    match a, b, hab with
    | .text _, .text _, _ => exact .throw _ _
    | .tree d l, .tree _ _, ⟨rfl, hl⟩ =>
      refine (Moves.build d.node).bind fun n _ hn => ?_
      exact .pure ⟨hn, trivial, hl⟩

/-- An include that is tracked at the new place. -/
theorem record_relocate {t : Tracker} (ht : t.Inside) {s : String} (hs : Path.Inside s)
    (path : String) :
    (t.relocate directory).record (some (Path.relocate directory s)) path =
      (t.record (some s) path).relocate directory := by
  have hinj : ∀ e ∈ t.dependencies, e.1.map (Path.relocate directory) =
      (some s).map (Path.relocate directory) → e.1 = some s := by
    intro e he h
    obtain ⟨r, hr, hre⟩ := ht e he
    rw [hre] at h ⊢
    exact congrArg some (Path.relocate_inj hd hr hs (Option.some.inj h))
  have hfrom : (t.relocate directory).from? (some (Path.relocate directory s)) =
      t.from? (some s) :=
    congrArg (·.getD []) (Table.get?_map_keys hinj)
  unfold Tracker.record
  rw [hfrom]
  exact congrArg Tracker.mk (Table.put_map_keys hinj _)

/-- The tracker records the same path for the moved location. -/
theorem track_moves (path : String) {l l' : Option String} (hl : Location directory l l') :
    Moves eng directory Eq (eng.track l path) (eng.track l' path) := by
  obtain ⟨s, hs, rfl, rfl⟩ := hl
  unfold Engine.track
  cases htracker : eng.tracker with
  | none => exact .pure rfl
  | some number =>
    refine (Moves.note rfl).bind fun _ _ _ w hw a ha => ⟨a, ?_, rfl, ?_⟩
    · rw [← ha, Rendering.exec_modify, Rendering.exec_modify]
      have hrecord := record_relocate hd (hw.tracker number htracker) hs path
      rw [World.tracker_relocate, hrecord]
      simp only [World.relocate, World.around, Array.map_setIfInBounds]
    · exact hw.record htracker hs path

/-! ### Renderings -/

variable (eng) in
/-- **Renderings move along with the sources.** -/
def coupling : Coupling eng.confined eng.interpretation where
  node _ := True
  scope := Eq
  location := Location directory
  Rel := Moves eng directory
  children _ _ _ := trivial
  extend := Coupling.extend_eq
  pure := Moves.pure
  bind := Moves.bind
  fail _ := .throw _ _
  onHeap a := .self fun _ _ _ hes => (inner_commutes _ _ hes).onHeap _
  enter _ _ _ := .pure rfl
  define _ _ _ := by
    refine (Moves.pure rfl).bind fun _ _ _ => ?_
    refine (Moves.self fun _ _ _ hes => (inner_commutes _ _ hes).mixin? _).bind ?_
    rintro known _ rfl
    refine (Moves.note ?_).bind fun _ _ _ => .self fun _ _ _ _ => .modify fun _ => rfl
    split <;> rfl
  evaluate _ _ hs := by
    obtain rfl := hs
    exact (Moves.note rfl).bind fun _ _ _ =>
      .self fun _ _ _ hes => (inner_commutes _ _ hes).onHeap _
  mixin name position := by
    refine (Moves.self fun _ _ _ hes => (inner_commutes _ _ hes).mixin name position).mono ?_
    rintro d _ rfl
    exact ⟨rfl, trivial⟩
  plugin name position := .self fun _ _ _ hes => (inner_commutes _ _ hes).plugin name position
  transform name q source attributes :=
    .self fun _ _ _ hes => (inner_commutes _ _ hes).transform name q source attributes
  text path _ _ hl := text_moves hd path hl
  tree path _ _ hl := tree_moves hd path hl
  track path _ _ hl := track_moves hd path hl
  including wanted path _ _ hl := by
    obtain ⟨s, -, rfl, rfl⟩ := hl
    cases wanted <;> exact Moves.note rfl
  remembered? _ := .self fun _ _ _ hes => (inner_commutes _ _ hes).remembered? _
  remember html _ := .self fun _ _ _ hes => (inner_commutes _ _ hes).remember _ html

/-- A rendering of a draft that ends well and never asks for an absolute path ends alike at its new
place. -/
theorem exec_renderWithin {s : String} (hs : Path.Inside s) {w w' : World} (hw : Settled eng w)
    {depth : Nat} {d : Draft} {scope : Scope} {html : String}
    (h : exec (eng.renderWithin depth d scope (some s)) w = (.ok html, w'))
    (hstray : ¬ w'.Strayed) :
    exec (eng.renderWithin depth d scope (some (Path.relocate directory s)))
      (w.relocate directory) = (.ok html, w'.relocate directory) := by
  have hno : d ≠ .value .none := by
    rintro rfl
    cases h
  rw [Session.renderWithin_eq hno] at h ⊢
  rcases hn : exec (Rendering.build d.node) w with ⟨f | n, w₁⟩
  · rw [exec_bind, hn] at h
    cases h
  · rw [exec_bind_ok hn, Engine.render] at h
    rcases hr : exec (Render.body eng depth n ⟨scope, some s⟩) w₁ with ⟨f | r, w₂⟩
    · rw [exec_bind, hr] at h
      cases h
    · rw [exec_bind_ok hr] at h
      cases h
      -- the run at the old place is one of the confined engine, which the new place follows
      have hconfined := Confinement.exec_body hr hstray
      have hbuild : Moves eng directory Eq _ _ := .build d.node
      obtain ⟨_, hn', rfl, hw₁⟩ := hbuild w hw n (by rw [hn])
      rw [hn] at hn' hw₁
      have hbody := (coupling eng hd).body depth n ⟨scope, some s⟩
        ⟨scope, some (Path.relocate directory s)⟩ trivial ⟨rfl, s, hs, rfl, rfl⟩
      rw [eng.interpretation_body] at hbody
      obtain ⟨_, hr', rfl, -⟩ := hbody w₁ hw₁ r (by rw [hconfined])
      rw [hconfined] at hr'
      rw [exec_bind_ok hn', Engine.render, exec_bind_ok hr']
      rfl

end Relocation

/-- The world with nothing but these sources and a fresh tracker to load from and to write to. -/
def World.supplied (w : World) (es : List (String × Source)) : World :=
  { w with loaders := #[.sources (.ofList es)], trackers := #[.empty], events := #[] }

/-- **Relocation of a directory of templates.**  A loader has sources that are stored inside, and a
draft is rendered at the place of one of them.  The rendering ends well, and all that it asks for,
for texts or trees, are relative paths.  Then it ends with the same markup when every source is put
into a directory and the draft is rendered at its new place: the mixins are the same, and the same
paths are tracked at the new locations. -/
theorem Engine.render_relocated {eng : Engine} (hloader : eng.loader = some 0)
    {es : List (String × Source)} (hes : ∀ e ∈ es, Path.Local (Path.normal e.1))
    {directory : String} (hd : Path.Directory directory) {location : String}
    (hlocation : ∃ e ∈ es, Path.normal e.1 = location) {w w' : World} {depth : Nat} {d : Draft}
    {scope : Scope} {html : String}
    (hok : exec (eng.renderWithin depth d scope (some location)) (w.supplied es) = (.ok html, w'))
    (hrelative : ∀ path l wanted, Event.requested path l wanted ∈ w'.events →
      Path.isAbsolute path.toList = false) :
    ∃ v, exec (eng.renderWithin depth d scope (some (Path.relocate directory location)))
        (w.supplied (es.map fun e => (Path.relocate directory e.1, e.2))) = (.ok html, v) ∧
      v.mixinsOf eng.id = w'.mixinsOf eng.id ∧
      v.trackers = w'.trackers.map (Tracker.relocate directory) ∧
      v.events = w'.events.map (Event.relocate directory) := by
  have hinside : Path.Inside location := by
    obtain ⟨e, he, rfl⟩ := hlocation
    exact (hes e he).inside
  have hsettled : Relocation.Settled eng (w.supplied es) := by
    refine ⟨fun k hk => ?_, fun k _ => ?_⟩
    · obtain rfl := Option.some.inj (hloader.symm.trans hk)
      exact ⟨.ofList es, rfl, .ofList hes⟩
    · intro e he
      cases k <;> cases he
  have hstray : ¬ w'.Strayed := by
    rintro ⟨path, l, wanted, hm, habsolute⟩
    rw [hrelative path l wanted hm] at habsolute
    cases habsolute
  -- moving a fresh world is supplying it with sources that have moved
  have hsupplied : (w.supplied es).relocate directory =
      w.supplied (es.map fun e => (Path.relocate directory e.1, e.2)) := by
    unfold World.supplied
    rw [Sources.ofList_relocate hd hes]
    simp [World.relocate, World.around, Loader.relocate, Tracker.relocate, Tracker.empty]
  have hmoved := Relocation.exec_renderWithin hd hinside hsettled hok hstray
  rw [hsupplied] at hmoved
  exact ⟨_, hmoved, rfl, rfl, rfl⟩

/-! ### A note that is shared -/

namespace Relocation

/-- An engine with a loader and a tracker. -/
def guide : Engine :=
  { Samples.engine 0 with loader := some 0, tracker := some 0 }

/-- A description of an include of a path. -/
def including (path : String) : Value :=
  .list [Samples.inclusion path]

/-- A page, a frame that includes a note, and the note. -/
def templates : List (String × Source) :=
  [("pages/./index.min", .text ""), ("shared/frame.min", .draft (including "./note.txt")),
    ("shared//note.txt", .text "hi")]

/-- The paths of the templates are local. -/
theorem local_templates : ∀ e ∈ templates, Path.Local (Path.normal e.1) := by
  have hkeys : templates.map (fun e => Path.normal e.1) =
      ["pages/index.min", "shared/frame.min", "shared/note.txt"] := by rfl
  intro e he
  have hm := List.mem_map_of_mem (f := fun e => Path.normal e.1) he
  rw [hkeys] at hm
  simp only [List.mem_cons, List.not_mem_nil, or_false] at hm
  rcases hm with h | h | h <;> rw [h] <;> exact ⟨by decide, by decide, by decide⟩

/-- The path that an event asks for. -/
def request? : Event → Option String
  | .requested path _ _ => some path
  | _ => none

/-- How a rendering ends, what it tracks, and what it asks for. -/
def report (o : Except Fault String × World) :
    Except Fault String × Array Tracker × List String :=
  (o.1, o.2.trackers, o.2.events.toList.filterMap request?)

/-- The page includes the frame, and the frame the note, wherever all of them are. -/
theorem render_relocated_templates :
    ∃ v, exec (guide.renderWithin 3 (.ofValue (including "../shared/frame.min")) []
          (some "www/pages/index.min"))
        (World.empty.supplied (templates.map fun e => (Path.relocate "www" e.1, e.2))) =
          (.ok "hi", v) ∧
      v.trackers = #[⟨[(some "www/pages/index.min", ["../shared/frame.min"]),
        (some "www/shared/frame.min", ["./note.txt"])]⟩] := by
  have hdirectory : Path.Directory "www" := ⟨by rfl, by decide, by decide⟩
  have hlocation : ∃ e ∈ templates, Path.normal e.1 = "pages/index.min" :=
    ⟨("pages/./index.min", .text ""), List.mem_cons_self, by rfl⟩
  have hindex : Path.relocate "www" "pages/index.min" = "www/pages/index.min" := by rfl
  have hframe : Path.relocate "www" "shared/frame.min" = "www/shared/frame.min" := by rfl
  -- the run where the templates are is computed, the other one follows from it
  have hreport : report (exec (guide.renderWithin 3 (.ofValue (including "../shared/frame.min")) []
        (some "pages/index.min")) (World.empty.supplied templates)) =
      (.ok "hi", #[⟨[(some "pages/index.min", ["../shared/frame.min"]),
        (some "shared/frame.min", ["./note.txt"])]⟩], ["../shared/frame.min", "./note.txt"]) := by
    rfl
  rcases hrun : exec (guide.renderWithin 3 (.ofValue (including "../shared/frame.min")) []
    (some "pages/index.min")) (World.empty.supplied templates) with ⟨r, w'⟩
  rw [hrun] at hreport
  obtain ⟨rfl, htrackers, hrequests⟩ :
      r = .ok "hi" ∧ w'.trackers = _ ∧ w'.events.toList.filterMap request? = _ := by
    simpa [report] using hreport
  have hrelative : ∀ path l wanted, Event.requested path l wanted ∈ w'.events →
      Path.isAbsolute path.toList = false := by
    intro path l wanted h
    have hm : path ∈ w'.events.toList.filterMap request? :=
      List.mem_filterMap.mpr ⟨_, Array.mem_toList_iff.mpr h, rfl⟩
    rw [hrequests] at hm
    simp only [List.mem_cons, List.not_mem_nil, or_false] at hm
    rcases hm with rfl | rfl <;> decide
  obtain ⟨v, hv, -, hmoved, -⟩ :=
    Engine.render_relocated rfl local_templates hdirectory hlocation hrun hrelative
  rw [hindex] at hv
  refine ⟨v, hv, ?_⟩
  rw [hmoved, htrackers]
  simp [Tracker.relocate, hindex, hframe]

end Relocation
end Trellis
