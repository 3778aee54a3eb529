import Trellis.Proofs.Dependencies.Ledger
import Trellis.Proofs.Sharing.Descriptions
import Trellis.Samples

/-!
# Proofs — Dependencies — Sessions

What a tracker tells after any turns of a session.  Engines that share the tracker render, others
render as well, and between renderings trees are built, fields are assigned and engines are created
(`Session.Turn`).  After each turn the tracker tells of the pairs of the includes that the engines
have executed by then, whatever the renderings have come to (`Session.dependencies_exact`).

Memos make no difference to this: what a rendering takes from memos hides no include
(`Session.plain_pairs`).
-/

namespace Trellis

open Rendering (exec exec_bind)

/-! ### Engines are created -/

/-- The trackers of a world stay under their numbers while a computation adds others. -/
def Rendering.Extends {α : Type} (x : Rendering α) : Prop :=
  ∀ w, w.trackers.toList <+: (exec x w).2.trackers.toList

namespace Rendering.Extends

variable {α β : Type}

theorem of_eq {x : Rendering α} (h : ∀ w, (exec x w).2.trackers = w.trackers) : Extends x :=
  fun w => h w ▸ List.prefix_rfl

/-- Computations in a row add trackers as each does. -/
theorem bind {x : Rendering α} {f : α → Rendering β} (hx : Extends x) (hf : ∀ a, Extends (f a)) :
    Extends (x >>= f) :=
  exec_bind_trans (R := fun w w' => w.trackers.toList <+: w'.trackers.toList)
    List.IsPrefix.trans hx hf

theorem ofExcept (r : Except Fault α) : Extends (Rendering.ofExcept r) :=
  of_eq fun w => by rw [exec_ofExcept]

theorem plugins (eng : Engine) : Extends eng.plugins :=
  of_eq fun _ => rfl

theorem register (eng : Engine) (o : Offer) (name : Option String) :
    Extends (eng.register o name) := by
  refine (plugins eng).bind fun r => (ofExcept _).bind fun (_, _, _) => ?_
  exact of_eq fun _ => rfl

theorem registerAll (eng : Engine) (os : List (String × Offer)) :
    Extends (eng.registerAll os) := by
  induction os with
  | nil => exact of_eq fun _ => rfl
  | cons o os ih => exact (register eng _ _).bind fun _ => ih

/-- Discovering plugins adds no trackers. -/
theorem discover (eng : Engine) (os : List (String × String × Offer)) :
    Extends (eng.discover os) := by
  induction os with
  | nil => exact of_eq fun _ => rfl
  | cons o os ih =>
    exact (of_eq fun _ => rfl).bind fun _ => (register eng _ _).bind fun _ => ih

/-- A new engine may bring a new tracker. -/
theorem create (s : Setup) : Extends s.create := by
  have hloader : Extends (Setup.placeLoader s.loader) := of_eq fun _ => by
    cases s.loader <;> rfl
  have hregistry (v : Value) : Extends (Setup.placeRegistry v s.plugins) := of_eq fun _ => by
    cases s.plugins <;> rfl
  have htracker : Extends (Setup.placeTracker s.tracked) := by
    intro w
    cases s.tracked with
    | false => exact List.prefix_rfl
    | true =>
      show w.trackers.toList <+: (w.trackers.push Tracker.empty).toList
      rw [Array.toList_push]
      exact List.prefix_append _ _
  -- only the step of the tracker touches the trackers, and it adds one at the end
  have hcreate : Extends do
      let loader ← Setup.placeLoader s.loader
      let registry ← Setup.placeRegistry s.config.packagePrefix s.plugins
      let tracker ← Setup.placeTracker s.tracked
      let id ← Setup.placeMixins
      let eng : Engine := ⟨id, s.config, s.evaluation, loader, registry, tracker⟩
      eng.registerAll (Setup.offers s.plugins)
      eng.discover s.discovered
      return eng := by
    refine hloader.bind fun _ => (hregistry _).bind fun _ => htracker.bind fun _ => ?_
    refine (of_eq fun _ => rfl).bind fun _ => (registerAll _ _).bind fun _ => ?_
    exact (discover _ _).bind fun _ => of_eq fun _ => rfl
  unfold Setup.create
  split
  · exact (of_eq fun _ => rfl : Extends (Rendering.fail _)).bind fun _ => hcreate
  · exact hcreate

end Rendering.Extends

/-- A tracker that was there is as it was if trackers are only added. -/
theorem World.tracker_of_prefix {w w' : World} (h : w.trackers.toList <+: w'.trackers.toList)
    {k : Nat} (hk : k < w.trackers.size) : w'.tracker k = w.tracker k := by
  obtain ⟨ts, hts⟩ := h
  have hget : w'.trackers[k]? = w.trackers[k]? := by
    rw [← Array.getElem?_toList, ← hts, List.getElem?_append_left hk, Array.getElem?_toList]
  rw [tracker, tracker, Array.getD_eq_getD_getElem?, Array.getD_eq_getD_getElem?, hget]

namespace Session

/-! ### Turns -/

/-- What happens in a session: a rendering, or anything else that leaves the trackers alone which
are there. -/
inductive Turn where
  | render (depth : Nat) (c : Call)
  | between (f : Session → Session)
    (h : ∀ s, s.world.trackers.toList <+: (f s).world.trackers.toList)

/-- An engine is created. -/
def Turn.create (setup : Setup) : Turn :=
  .between (fun s => { s with world := (exec setup.create s.world).2 }) fun s =>
    Rendering.Extends.create setup s.world

/-- What is left of a call: the location that it starts from, and its journal. -/
structure Account where
  location : Option String
  journal : List Entry

/-- The pairs of the includes that are executed in a call. -/
def Account.pairs (a : Account) : List (Option String × String) :=
  Journal.pairs [a.location] a.journal

variable (team : Nat → Engine) (k : Nat)

/-- The account of a call in a session. -/
def account (depth : Nat) (s : Session) (c : Call) : Account :=
  ⟨c.location, (team c.engine).journalOf depth c.draft c.scope c.location (s.enter c.engine)⟩

/-- The session after a turn, and the accounts of the calls with tracker `k` by then. -/
def turn (s : Session × List Account) : Turn → Session × List Account
  | .render depth c =>
    (s.1.leave c.engine (call team depth s.1 c).2,
      s.2 ++ if (team c.engine).tracker = some k then [account team depth s.1 c] else [])
  | .between f _ => (f s.1, s.2)

/-- The session after turns one after the other, and the accounts of the calls with tracker `k`. -/
def inTurn (s : Session) (ts : List Turn) : Session × List Account :=
  ts.foldl (turn team k) (s, [])

/-- The pairs of the includes that are executed in turns by engines with tracker `k`. -/
def included (s : Session) (ts : List Turn) : List (Option String × String) :=
  (inTurn team k s ts).2.flatMap Account.pairs

/-- Tracker `k` after turns. -/
def recorded (s : Session) (ts : List Turn) : Tracker :=
  (inTurn team k s ts).1.world.tracker k

variable {team k}

/-- Tracker `k` tells of the accounts, and all that was asked for is among their pairs. -/
structure Tracks (k : Nat) (s : Session × List Account) : Prop where
  number : k < s.1.world.trackers.size
  tells : (s.1.world.tracker k).Tells (s.2.flatMap Account.pairs)
  asked : ∀ a ∈ s.2, ∀ path l, .asked path l ∈ a.journal → (l, path) ∈ a.pairs

/-- **One turn.**  What is included in it is recorded. -/
theorem Tracks.turn {s : Session × List Account} (hs : Tracks k s) (t : Turn) :
    Tracks k (turn team k s t) := by
  obtain ⟨s, as⟩ := s
  cases t with
  | between f h =>
    refine ⟨Nat.lt_of_lt_of_le hs.number (h s).length_le, ?_, hs.asked⟩
    show Tracker.Tells ((f s).world.tracker k) _
    rw [World.tracker_of_prefix (h s) hs.number]
    exact hs.tells
  | render depth c =>
    -- the journal of a call has what the call adds to the trackers
    have hkeeps := (team c.engine).keeps_journalOf depth c.draft c.scope c.location
      (s.enter c.engine)
    have htrackers : (call team depth s c).2.trackers = Tracker.recordIn (team c.engine).tracker
        (account team depth s c).pairs s.world.trackers := hkeeps.trackers
    have htracker : (call team depth s c).2.tracker k = Tracker.recordAll
        (if (team c.engine).tracker = some k then (account team depth s c).pairs else [])
        (s.world.tracker k) := by
      rw [World.tracker, htrackers]
      exact Tracker.getD_recordIn _ _ _ hs.number
    refine ⟨?_, ?_, ?_⟩
    · show k < (call team depth s c).2.trackers.size
      rw [htrackers, Tracker.size_recordIn]
      exact hs.number
    · show Tracker.Tells ((call team depth s c).2.tracker k) (List.flatMap _ (as ++ _))
      rw [htracker, List.flatMap_append]
      have h := hs.tells.recordAll
        (if (team c.engine).tracker = some k then (account team depth s c).pairs else [])
      split
      · next htk => simpa [htk] using h
      · next htk => simpa [htk] using h
    · intro a ha path l hm
      rcases List.mem_append.mp ha with ha | ha
      · exact hs.asked a ha path l hm
      · split at ha
        · obtain rfl := List.mem_singleton.mp ha
          exact hkeeps.asked path l hm
        · cases ha

/-- Turns one after the other. -/
theorem Tracks.foldl (ts : List Turn) :
    ∀ s, Tracks k s → Tracks k (ts.foldl (Session.turn team k) s) := by
  induction ts with
  | nil => exact fun s hs => hs
  | cons t ts ih => exact fun s hs => ih _ (hs.turn t)

/-- A tracker that is there and has nothing recorded. -/
theorem Tracks.start {s : Session} (hk : k < s.world.trackers.size)
    (hempty : s.world.tracker k = Tracker.empty) : Tracks k (s, []) :=
  ⟨hk, hempty ▸ .empty, fun _ ha => nomatch ha⟩

/-! ### Memos -/

variable {S : Set Node} {s : Session} {c : Call} {depth : Nat}

/-- What is tracked in a call are the pairs of its account. -/
theorem tracked_call (team : Nat → Engine) (depth : Nat) (s : Session) (c : Call)
    (htracker : (team c.engine).tracker.isSome) :
    (call team depth s c).2.tracked = (account team depth s c).pairs := by
  have hkeeps := (team c.engine).keeps_journalOf depth c.draft c.scope c.location
    (s.enter c.engine)
  have h := hkeeps.tracked
  rw [if_pos htracker] at h
  exact h

/-- **Memos hide no includes.**  The pairs of a call are those of the plain engine, which takes
nothing from memos. -/
theorem plain_pairs (hteam : ∀ i, (team i).id = i) (hs : Reached team S s)
    (hc : c.draft.Within S) (hend : (call team depth s c).1 ≠ .error .exhausted)
    (htracker : (team c.engine).tracker.isSome) :
    ∃ least, ∀ m ≥ least,
      (account (plainTeam team) m s c).pairs = (account team depth s c).pairs := by
  obtain ⟨T, hST, hT⟩ := hs.exists_sound hteam
  obtain ⟨o, ⟨least, ho⟩, _, -, -, hr, -⟩ :=
    call_ends (hteam _) hT (Apart.refl _ s) rfl rfl (Draft.Within.mono hST _ hc) hend
  refine ⟨least, fun m hm => ?_⟩
  rw [← tracked_call team depth s c htracker, ← tracked_call (plainTeam team) m s c htracker,
    ho m hm, World.tracked, World.tracked, hr.events]

/-! ### What is recorded -/

/-- What holds of tracker `k` and of what engines have included after turns with it. -/
structure DependencyLaws (team : Nat → Engine) (k : Nat) (s : Session) (ts : List Turn) : Prop where
  /-- The tracker tells of the pairs of the includes that the engines have executed, and of no
  others: of each, the location in force and the content without spaces around it. -/
  tells : (recorded team k s ts).Tells (included team k s ts)
  /-- Its paths are those of the pairs. -/
  paths : ∀ path, path ∈ (recorded team k s ts).paths ↔ ∃ l, (l, path) ∈ included team k s ts
  /-- Every path that was to be resolved for an include is in one of these pairs, with the location
  that it was to be resolved from. -/
  asked : ∀ a ∈ (inTurn team k s ts).2, ∀ path l, .asked path l ∈ a.journal →
    (l, path) ∈ included team k s ts
  /-- A tracker that has been used for the same pairs, in any order and any number of times, tells
  the same: it has the same locations, and the same paths for each. -/
  orderless : ∀ (team' : Nat → Engine) (k' : Nat) (s' : Session) (ts' : List Turn),
    k' < s'.world.trackers.size → s'.world.tracker k' = Tracker.empty →
    (∀ e, e ∈ included team k s ts ↔ e ∈ included team' k' s' ts') →
    ((recorded team k s ts).dependencies.map (·.1)).Perm
        ((recorded team' k' s' ts').dependencies.map (·.1)) ∧
      ∀ l, ((recorded team k s ts).from? l).Perm ((recorded team' k' s' ts').from? l)
  /-- The journal from which the pairs of a call are read is that of the call itself. -/
  journal : ∀ (depth : Nat) (c : Call) (u : Session),
    ((team c.engine).journalWithin depth c.draft c.scope c.location).exec (u.enter c.engine, []) =
      ((call team depth u c).1, (call team depth u c).2, (account team depth u c).journal)
  /-- What a call takes from memos hides no pairs. -/
  memos : ∀ (depth : Nat) (c : Call) (u : Session) (S : Set Node), (∀ i, (team i).id = i) →
    Reached team S u → c.draft.Within S → (call team depth u c).1 ≠ .error .exhausted →
    (team c.engine).tracker = some k →
    ∃ least, ∀ m ≥ least, (account (plainTeam team) m u c).pairs = (account team depth u c).pairs

/-- The invariant of the turns, from a session in which nothing has been recorded. -/
theorem tracks_inTurn (team : Nat → Engine) {k : Nat} {s : Session}
    (hk : k < s.world.trackers.size) (hempty : s.world.tracker k = Tracker.empty)
    (ts : List Turn) : Tracks k (inTurn team k s ts) :=
  Tracks.foldl ts (s, []) (.start hk hempty)

/-- **Dependencies are recorded exactly.**  Engines take turns with tracker `k`, in which nothing
has been recorded before.  After any turns, whatever they have come to, the tracker tells of the
includes that the engines have executed, and of nothing else. -/
theorem dependencies_exact (team : Nat → Engine) {k : Nat} {s : Session}
    (hk : k < s.world.trackers.size) (hempty : s.world.tracker k = Tracker.empty)
    (ts : List Turn) : DependencyLaws team k s ts where
  tells := (tracks_inTurn team hk hempty ts).tells
  paths := (tracks_inTurn team hk hempty ts).tells.mem_paths_iff
  asked a ha path l hm :=
    List.mem_flatMap.mpr ⟨a, ha, (tracks_inTurn team hk hempty ts).asked a ha path l hm⟩
  orderless team' k' s' ts' hk' hempty' hsame := by
    -- the invariant of the turns holds in both sessions, and pairs alone decide what is told
    have htells := (tracks_inTurn team hk hempty ts).tells
    exact (htells.congr hsame).same (tracks_inTurn team' hk' hempty' ts').tells
  journal depth c u :=
    (team c.engine).exec_journalWithin depth c.draft c.scope c.location (u.enter c.engine)
  memos depth c u S hteam hu hc hend htracker :=
    plain_pairs hteam hu hc hend (by rw [htracker]; rfl)

/-! ### A page that fails, and an engine without a loader -/

open Samples (inclusion)

/-- A description of a node around others. -/
def around (symbol : String) (children : List Value) : Value :=
  .dict [(.text "symbol", .text symbol), (.text "children", .list children)]

/-- A note as a text, and every tree as a frame around the note. -/
def answer (path : String) (_ : Option String) : Wanted → Except Fault Loaded
  | .tree => .ok (.tree (.ofValue (.list [inclusion "note"])) (some path))
  | .text =>
    if path = "note" then .ok (.text "") else .error (.template (.pathNotFound path) .none)

/-- Engines that share a tracker, of which only number zero has a loader.  Conditions fail. -/
def guides (i : Nat) : Engine :=
  { Samples.engine i with
    evaluation := fun _ _ _ => pure (.bool false)
    loader := if i = 0 then some 0 else none
    tracker := some 0 }

/-- A session of two of them. -/
def library : Session :=
  ⟨{ World.empty with
      loaders := #[.custom answer], trackers := #[.empty], mixins := #[[], []] },
    fun _ => Heap.empty⟩

/-- A branch that is skipped, a frame, a mixin with a note, and a path that is not found. -/
def guidebook : Value :=
  .list [around "Box" [inclusion " note "], around "if" [inclusion "never"],
    around "else" [inclusion "frame.min"], around "+Box" [], inclusion "gone"]

/-- The page is rendered, an engine with a tracker of its own is created, and an engine without a
loader renders. -/
def tour : List Turn :=
  [.render 4 ⟨0, .ofValue guidebook, [], some "page"⟩,
    .create { Setup.plain with tracked := true },
    .render 4 ⟨1, .ofValue (.list [inclusion "any"]), [], none⟩]

theorem dependencies_exact_tour :
    included guides 0 library tour =
      [(some "page", "frame.min"), (some "frame.min", "note"), (some "page", "note"),
        (some "page", "gone"), (none, "any")] ∧
    (recorded guides 0 library tour).dependencies =
      [(some "page", ["gone", "note", "frame.min"]), (some "frame.min", ["note"]),
        (none, ["any"])] ∧
    (recorded guides 0 library tour).Tells (included guides 0 library tour) :=
  ⟨by decide +kernel, by decide +kernel,
    (dependencies_exact guides (k := 0) (s := library) (by decide) rfl tour).tells⟩

end Session
end Trellis
