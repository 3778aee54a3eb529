import Trellis.Proofs.Sharing.Groups
import Trellis.Samples

/-!
# Proofs — Sharing — Sessions

Any number of engines render in one world, in any order: they may share loaders, registries and
trees, and remember in the same nodes.  Each engine has a heap of its own, since scopes with
containers in them are not shared.

What can be told of a call is its outcome, everything it asked for on the way, and the mixins of the
engine afterwards.  In a session, the calls of an engine are told apart in nothing from the calls of
its plain engine that runs alone, in a world of its own and on copies of all trees
(`Session.memoization_invisible`).
-/

namespace Trellis

open Rendering (exec exec_bind_ok Matched)
open World (Sound Alike Frame)

/-- A call: the engine and what it renders. -/
structure Call where
  engine : Nat
  draft : Draft
  scope : Scope
  location : Option String

/-- The call without identities. -/
def Call.bare (c : Call) : Call :=
  { c with draft := c.draft.bare }

/-- What can be told of a call: how it ended, what was asked of the evaluator, the loader, the
plugins and the tracker in turn, and the mixins of the engine afterwards, without identities. -/
structure Observation where
  engine : Nat
  outcome : Except Fault String
  events : Array Event
  mixins : List (String × Mixin)

/-- What lasts between calls: the world, and the heap of every engine. -/
structure Session where
  world : World
  heaps : Nat → Heap

namespace Session

/-- The world that a call of an engine finds. -/
def enter (s : Session) (i : Nat) : World :=
  { s.world with heap := s.heaps i, events := #[] }

/-- What a call of an engine leaves. -/
def leave (s : Session) (i : Nat) (w : World) : Session :=
  ⟨w, fun j => if j = i then w.heap else s.heaps j⟩

/-- What can be told of a call that leaves a world. -/
def observe (i : Nat) (o : Except Fault String × World) : Observation :=
  ⟨i, o.1, o.2.events, o.2.bareMixins i⟩

/-- What a call does in a session. -/
def call (team : Nat → Engine) (depth : Nat) (s : Session) (c : Call) :
    Except Fault String × World :=
  exec ((team c.engine).renderWithin depth c.draft c.scope c.location) (s.enter c.engine)

/-- What can be told of calls one after the other. -/
def run (team : Nat → Engine) (depth : Nat) : Session → List Call → List Observation
  | _, [] => []
  | s, c :: cs =>
    let o := call team depth s c
    observe c.engine o :: run team depth (s.leave c.engine o.2) cs

/-- A session may begin: the nodes in the world and in the calls are in use, so that an identity
stands for one node, and nothing is remembered of them. -/
structure Begins (S : Set Node) (s : Session) (calls : List Call) : Prop where
  census : Census S s.world.nextNode
  memos : s.world.memos = []
  mixins : ∀ i, ∀ e ∈ s.world.mixinsOf i, e.2.body ∈ S
  loaders : ∀ k, (s.world.loader k).Within S
  calls : ∀ c ∈ calls, c.draft.Within S

/-- Where a session begins, the memos are as they should be: there are none. -/
theorem Begins.sound {S : Set Node} {s : Session} {calls : List Call} (h : Begins S s calls)
    (team : Nat → Engine) : Sound team S s.world := by
  refine ⟨h.census, fun id m hm => ?_, h.mixins, h.loaders⟩
  rw [h.memos] at hm
  cases hm

/-! ### One call -/

variable {team : Nat → Engine} {i : Nat} {S : Set Node}

/-- The rendering of a tree is followed by the plain one of a copy. -/
theorem render_sim (hi : (team i).id = i) (depth : Nat) {n n' : Node} (hn : n ∈ S)
    (hc : n'.bare = n.bare) (scope : Scope) (location : Option String) :
    Sim team i S Same ((team i).render depth n scope location) fun d =>
      (team i).plain.render d n' scope location :=
  (Render.body_sim hi depth S n n' _ hn hc).bind_same fun _ _ _ => Sim.pure rfl

/-- Only no draft at all is a copy of none. -/
theorem bare_eq_noTree_iff {d : Draft} : d.bare = .value .none ↔ d = .value .none := by
  cases d <;> simp [Draft.bare]

/-- What is no tree is complained about; anything else is built first. -/
theorem renderWithin_eq {d : Draft} (hd : d ≠ .value .none) (eng : Engine) (depth : Nat)
    (scope : Scope) (location : Option String) :
    eng.renderWithin depth d scope location =
      Rendering.build d.node >>= fun n => eng.render depth n scope location := by
  unfold Engine.renderWithin
  split
  · exact absurd rfl hd
  · rfl

/-- The rendering of a draft is followed by the plain one of a copy. -/
theorem renderWithin_sim (hi : (team i).id = i) (depth : Nat) {d d' : Draft} (hd : d.Within S)
    (hc : d'.bare = d.bare) (scope : Scope) (location : Option String) :
    Sim team i S Same ((team i).renderWithin depth d scope location) fun m =>
      (team i).plain.renderWithin m d' scope location := by
  by_cases hno : d = .value .none
  · subst hno
    obtain rfl := bare_eq_noTree_iff.mp hc
    exact Sim.throw _
  · have hno' : d' ≠ .value .none := fun h => by
      rw [h] at hc
      exact hno (bare_eq_noTree_iff.mp hc.symm)
    simp only [renderWithin_eq hno, renderWithin_eq hno']
    exact (Sim.node hd hc).bind fun T n n' _ hn => render_sim hi depth hn.1 hn.2 scope location

/-- Engine `i` finds the same in a session and in one of its own, up to identities. -/
structure Apart (i : Nat) (s u : Session) : Prop where
  world : Alike i s.world u.world
  heap : u.heaps i = s.heaps i

theorem Apart.refl (i : Nat) (s : Session) : Apart i s s :=
  ⟨⟨rfl, fun _ => rfl, rfl, rfl⟩, rfl⟩

/-- The plain engines of a team. -/
def plainTeam (team : Nat → Engine) : Nat → Engine :=
  fun i => (team i).plain

/-- **A call, shared and alone.**  Unless it runs out of steps, a call in a session ends as the same
call does in a session that the engine has for its own, and there at all large depths alike. -/
theorem call_ends (hi : (team i).id = i) {s u : Session} (hs : Sound team S s.world)
    (hu : Apart i s u) {c c' : Call} (hci : c.engine = i) (hc : c'.bare = c.bare)
    (hd : c.draft.Within S) {depth : Nat}
    (hend : (call team depth s c).1 ≠ .error .exhausted) :
    ∃ o, (∃ least, ∀ m ≥ least, call (plainTeam team) m u c' = o) ∧
      Ends team i S Same (s.enter i) (call team depth s c) o := by
  subst hci
  obtain ⟨engine, d, scope, location⟩ := c
  obtain ⟨engine', d', scope', location'⟩ := c'
  simp only [Call.bare, Call.mk.injEq] at hc
  obtain ⟨rfl, hc, rfl, rfl⟩ := hc
  have hr : Related team engine' S (s.enter engine') (u.enter engine') :=
    ⟨⟨hs.1, hs.2, hs.3, hs.4⟩, ⟨hu.1.1, hu.1.2, hu.1.3, hu.1.4⟩, hu.heap, rfl⟩
  exact (renderWithin_sim hi depth hd hc scope' location' _ _ hr).resolve_left hend

/-! ### Sessions -/

/-- The session that an engine has for its own goes on alike. -/
theorem Apart.own {s u : Session} {w : World} {o o' : Except Fault String × World}
    (h : Ends team i S Same w o o') : Apart i (s.leave i o.2) (u.leave i o'.2) := by
  obtain ⟨T, -, -, hr, -⟩ := h
  refine ⟨hr.alike, ?_⟩
  simp only [leave, if_true]
  exact hr.heap

/-- A call of another engine makes no difference. -/
theorem Apart.other {j : Nat} {s u : Session} (h : Apart i s u) {w : World}
    (hf : Frame j (s.enter j) w) (hij : i ≠ j) : Apart i (s.leave j w) u := by
  have hw : Alike i (s.enter j) u.world := ⟨h.1.1, h.1.2, h.1.3, h.1.4⟩
  refine ⟨hw.frame hf hij, ?_⟩
  simp only [leave, if_neg hij]
  exact h.heap

/-- The same session observed on its way, with memos that are as they should be. -/
theorem run_alone (hteam : ∀ i, (team i).id = i) (depth : Nat) (i : Nat) (calls : List Call) :
    ∀ (S : Set Node) (s u : Session) (copies : List Call), Sound team S s.world → Apart i s u →
      (∀ c ∈ calls, c.draft.Within S) →
      (∀ o ∈ run team depth s calls, o.outcome ≠ .error .exhausted) →
      copies.map Call.bare = (calls.filter (·.engine = i)).map Call.bare →
      ∃ least, ∀ m ≥ least,
        run (plainTeam team) m u copies = (run team depth s calls).filter (·.engine = i) := by
  induction calls with
  | nil =>
      intro S s u copies _ _ _ _ h
      obtain rfl : copies = [] := by simpa using h
      exact ⟨0, fun _ _ => rfl⟩
  | cons c cs ih =>
      intro S s u copies hs hu hcs hend h
      obtain ⟨hc, hcs⟩ := List.forall_mem_cons.mp hcs
      simp only [run] at hend ⊢
      obtain ⟨hend, hends⟩ := List.forall_mem_cons.mp hend
      by_cases hci : c.engine = i
      · subst hci
        rw [List.filter_cons_of_pos (by simp)] at h
        rw [List.filter_cons_of_pos (by simp [observe])]
        match copies, h with
        | c' :: copies, h =>
          simp only [List.map_cons, List.cons.injEq] at h
          obtain ⟨hc', h⟩ := h
          obtain ⟨o, ⟨m, ho⟩, he⟩ := call_ends (hteam _) hs hu rfl hc' hc hend
          have hown : Apart c.engine _ (u.leave c.engine o.2) := Apart.own (s := s) he
          obtain ⟨T, hST, hm, hr, -⟩ := he
          have hT : ∀ d ∈ cs, d.draft.Within T := fun d hd => Draft.Within.mono hST _ (hcs d hd)
          obtain ⟨k, hk⟩ := ih T _ _ copies hr.sound hown hT hends h
          have hobs : observe c.engine o = observe c.engine (call team depth s c) := by
            simp only [observe, World.bareMixins, hm.eq, hr.events]
            exact congrArg _ hr.alike.mixins
          have hci' : c'.engine = c.engine :=
            (congrArg Call.engine hc' : c'.bare.engine = c.bare.engine)
          refine ⟨max m k, fun d hd => ?_⟩
          simp only [run, hci', ho d (Nat.le_trans (Nat.le_max_left _ _) hd), hobs]
          rw [hk d (Nat.le_trans (Nat.le_max_right _ _) hd)]
      · rw [List.filter_cons_of_neg (by simp [hci])] at h
        rw [List.filter_cons_of_neg (by simp [observe, hci])]
        -- the other engine's call is followed in the session itself
        obtain ⟨o, -, T, hST, -, hr, hf⟩ :=
          call_ends (hteam _) hs (Apart.refl _ s) rfl rfl hc hend
        have hT : ∀ d ∈ cs, d.draft.Within T := fun d hd => Draft.Within.mono hST _ (hcs d hd)
        exact ih T _ u copies hr.sound (hu.other hf (Ne.symm hci)) hT hends h

/-- What is observed is observed of one of the calls. -/
theorem engine_of_mem_run {depth : Nat} {o : Observation} (calls : List Call) :
    ∀ s, o ∈ run team depth s calls → ∃ c ∈ calls, c.engine = o.engine := by
  induction calls with
  | nil => intro s ho; cases ho
  | cons c cs ih =>
      intro s ho
      rcases List.mem_cons.mp ho with rfl | ho
      · exact ⟨c, List.mem_cons_self, rfl⟩
      · obtain ⟨d, hd, he⟩ := ih _ ho
        exact ⟨d, List.mem_cons_of_mem _ hd, he⟩

/-- A plain engine that ends its calls at some depth ends them alike at all larger ones. -/
theorem run_plain_stable (hteam : ∀ i, (team i).id = i) {u : Session} {calls : List Call}
    (hu : Begins S u calls) (hi : ∀ c ∈ calls, c.engine = i) {depth : Nat}
    (hend : ∀ o ∈ run (plainTeam team) depth u calls, o.outcome ≠ .error .exhausted) :
    ∃ least, ∀ m ≥ least,
      run (plainTeam team) m u calls = run (plainTeam team) depth u calls := by
  have hf : calls.filter (·.engine = i) = calls :=
    List.filter_eq_self.mpr fun c hc => by simpa using hi c hc
  have hr : (run (plainTeam team) depth u calls).filter (·.engine = i) =
      run (plainTeam team) depth u calls := by
    refine List.filter_eq_self.mpr fun o ho => ?_
    obtain ⟨c, hc, he⟩ := engine_of_mem_run calls u ho
    simpa [← he] using hi c hc
  have h := @run_alone (plainTeam team) hteam depth i calls S u u calls (hu.sound _)
    (Apart.refl i u) hu.calls hend (by rw [hf])
  rwa [hr] at h

/-- **Memoization is invisible, and engines are isolated.**  Engines render in one session, in any
order; they may share trees, loaders and registries, and none of the calls runs out of steps.  Then
the calls of each engine are observed as in a session of its own, in which its plain engine, which
remembers nothing, makes only these calls, on copies of all trees: they end alike, ask the same of
evaluators, loaders, plugins and trackers in the same order, and leave the same mixins.  They do at
all depths that are large enough, and at every depth at which they do not run out of steps. -/
theorem memoization_invisible (hteam : ∀ i, (team i).id = i) {s u : Session}
    {calls copies : List Call} (hs : Begins S s calls) {T : Set Node} (hu : Begins T u copies)
    {depth : Nat} (hend : ∀ o ∈ run team depth s calls, o.outcome ≠ .error .exhausted)
    (i : Nat) (hi : Apart i s u)
    (hcopies : copies.map Call.bare = (calls.filter (·.engine = i)).map Call.bare) :
    (∃ least, ∀ m ≥ least,
      run (plainTeam team) m u copies = (run team depth s calls).filter (·.engine = i)) ∧
    ∀ m, (∀ o ∈ run (plainTeam team) m u copies, o.outcome ≠ .error .exhausted) →
      run (plainTeam team) m u copies = (run team depth s calls).filter (·.engine = i) := by
  have halone := run_alone hteam depth i calls S s u copies (hs.sound team) hi hs.calls hend hcopies
  refine ⟨halone, fun m hm => ?_⟩
  have hengine : ∀ c ∈ copies, c.engine = i := by
    intro c hc
    have hb : c.bare ∈ (calls.filter (·.engine = i)).map Call.bare :=
      hcopies ▸ List.mem_map_of_mem hc
    obtain ⟨d, hd, he⟩ := List.mem_map.mp hb
    have hd : d.engine = i := by simpa using (List.mem_filter.mp hd).2
    exact (congrArg Call.engine he).symm.trans hd
  -- both at one depth that is large enough for the two
  obtain ⟨l, hl⟩ := halone
  obtain ⟨k, hk⟩ := run_plain_stable hteam hu hengine hm
  rw [← hk (max l k) (Nat.le_max_right _ _), hl (max l k) (Nat.le_max_left _ _)]

/-! ### Two engines and a page -/

open Samples (engine node leaf)

/-- A tag `x` that occurs twice, and an expression. -/
def page (root tag text : Nat) : Node :=
  node root "" "" [leaf tag "x" "", leaf tag "x" "", leaf text "|" "= v"]

/-- Engines of which number one never closes the tag `x`. -/
def printers (i : Nat) : Engine :=
  { engine i with
    config := { Config.default with voidTags := .list (if i = 1 then [.text "x"] else []) }
    evaluation := fun _ _ _ => pure (.text "<") }

/-- A session in which some identities have been handed out. -/
def fresh (next : Nat) : Session :=
  ⟨{ World.empty with nextNode := next }, fun _ => Heap.empty⟩

/-- Engines that render a page in turn. -/
def turns (n : Node) (engines : List Nat) : List Call :=
  engines.map fun i => ⟨i, .finished n, [], none⟩

/-- A fresh session may begin with calls whose nodes are all in use. -/
theorem begins_fresh {S : Set Node} {next : Nat} {calls : List Call} (hS : Census S next)
    (hcalls : ∀ c ∈ calls, c.draft.Within S) : Begins S (fresh next) calls := by
  refine ⟨hS, rfl, fun i e he => ?_, fun k => ?_, hcalls⟩
  · simp [fresh, World.empty, World.mixinsOf] at he
  · simp [fresh, World.empty, World.loader, Loader.Within]

/-- A page whose nodes have increasing identities may be rendered. -/
theorem begins_page {a b c : Nat} (hab : a < b) (hbc : b < c) (engines : List Nat) :
    Begins {n | n = page a b c ∨ n = leaf b "x" "" ∨ n = leaf c "|" "= v"} (fresh (c + 1))
      (turns (page a b c) engines) := by
  refine begins_fresh ⟨fun n hn => ?_, fun n hn m hm => ?_, fun m hm n hn h => ?_⟩ fun d hd => ?_
  · show n.id < c + 1
    rcases hn with rfl | rfl | rfl <;> simp only [page, leaf, node] <;> omega
  · rcases hn with rfl | rfl | rfl
    · have hm : m = leaf b "x" "" ∨ m = leaf c "|" "= v" := by simpa [page, node] using hm
      exact .inr hm
    · cases hm
    · cases hm
  · rcases hm with rfl | rfl | rfl <;> rcases hn with rfl | rfl | rfl <;>
      simp only [page, leaf, node] at h ⊢ <;> omega
  · obtain ⟨i, -, rfl⟩ := List.mem_map.mp hd
    exact .inl rfl

theorem memoization_invisible_void_tag :
    (run printers 3 (fresh 3) (turns (page 0 1 2) [0, 1, 0, 1])).map (·.outcome) =
      [.ok "<x></x><x></x> &lt;", .ok "<x><x> &lt;", .ok "<x></x><x></x> &lt;",
        .ok "<x><x> &lt;"] ∧
    ∃ least, ∀ m ≥ least, run (plainTeam printers) m (fresh 9) (turns (page 4 6 8) [1, 1]) =
      (run printers 3 (fresh 3) (turns (page 0 1 2) [0, 1, 0, 1])).filter (·.engine = 1) := by
  have ho : (run printers 3 (fresh 3) (turns (page 0 1 2) [0, 1, 0, 1])).map (·.outcome) =
      [.ok "<x></x><x></x> &lt;", .ok "<x><x> &lt;", .ok "<x></x><x></x> &lt;",
        .ok "<x><x> &lt;"] := by cbv
  have hs := begins_page (a := 0) (b := 1) (c := 2) (by decide) (by decide) [0, 1, 0, 1]
  have hu := begins_page (a := 4) (b := 6) (c := 8) (by decide) (by decide) [1, 1]
  have hend : ∀ o ∈ run printers 3 (fresh 3) (turns (page 0 1 2) [0, 1, 0, 1]),
      o.outcome ≠ .error .exhausted := by
    intro o hr h
    have hm := List.mem_map_of_mem (f := Observation.outcome) hr
    rw [ho, h] at hm
    simp at hm
  have hi : Apart 1 (fresh 3) (fresh 9) := ⟨⟨rfl, fun _ => rfl, rfl, rfl⟩, rfl⟩
  exact ⟨ho, (memoization_invisible (fun _ => rfl) hs hu hend 1 hi rfl).1⟩

end Session

end Trellis
