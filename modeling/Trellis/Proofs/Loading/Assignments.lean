import Trellis.Proofs.Sharing.Collaborators
import Trellis.Samples

/-!
# Proofs — Loading — Assignments

What a loader of sources serves, told from what was done with it (`History`).

A loader that only looked up would serve a path what was last assigned under it, or else under the
path without slashes at the front (`History.answer`).  But the tree that is built of a draft is
stored under the path that was asked for.  Where the draft was found under this very path, that
makes no difference; where it was found without the slashes at the front, the tree stays *pinned*
to the longer path (`History.pinned?`), also when something else is assigned under the shorter one.

Whatever is done with a loader, each answer is the one that was to be expected, unless the path is
stale: then it is the pinned tree (`History.load_answer`).
-/

namespace Trellis

open Rendering (exec exec_bind exec_bind_ok)

/-- What is done with a loader of sources. -/
inductive Loader.Step where
  | assign (path : String) (s : Source)
  | resolve (path : String) (location : Option String) (wanted : Wanted)

/-- What has been done with a loader, the latest first. -/
abbrev History := List Loader.Step

namespace Source

/-- The source is a draft of which a tree can be built. -/
def tree? : Option Source → Option Value
  | some (draft v) =>
    match (draft v).given with
    | .ok _ => some v
    | .error _ => none
  | _ => none

theorem tree?_eq_some_iff {o : Option Source} {v : Value} :
    tree? o = some v ↔ o = some (draft v) ∧ ∃ s, (draft v).given = .ok s := by
  unfold tree?
  split
  · next u => cases hg : (draft u).given <;> grind
  · next ho =>
    constructor
    · intro h
      cases h
    · intro h
      exact (ho v h.1).elim

/-- What the draft of a tree comes to, whatever identities are handed out. -/
theorem run_of_given {v : Value} {s : Source} (h : (draft v).given = .ok s) (i : Nat) :
    ∃ n j, (Draft.ofValue v).node.run i = .ok (n, j) ∧ (node n).given = (draft v).given := by
  have hi := (draft v).taken_bare i
  rw [taken, StateT.run_map, h] at hi
  cases hr : (Draft.ofValue v).node.run i with
  | error f => simp [hr, Except.map] at hi
  | ok r =>
    refine ⟨r.1, r.2, rfl, ?_⟩
    rw [h, ← hi, hr]
    rfl

/-- What cannot be built fails whatever identities are next. -/
theorem run_of_given_error {v : Value} {f : Fault} (h : (draft v).given = .error f) (i : Nat) :
    (Draft.ofValue v).node.run i = .error f := by
  have hi := (draft v).taken_bare i
  rw [taken, StateT.run_map, h] at hi
  cases hr : (Draft.ofValue v).node.run i with
  | error f' => simpa [hr, Except.map] using hi
  | ok r => simp [hr, Except.map] at hi

end Source

namespace History

/-- A new loader has its sources assigned one after the other. -/
def construction (es : List (String × Source)) : History :=
  (es.map fun e => .assign e.1 e.2).reverse

/-- What was assigned last under exactly this path. -/
def assigned? : History → (path : String) → Option Source
  | [], _ => none
  | .assign p s :: h, path => if Path.normal p = path then some s else assigned? h path
  | .resolve .. :: h, path => assigned? h path

/-- The same, unless it counts as absent. -/
def last? (h : History) (path : String) : Option Source :=
  (h.assigned? path).filter fun s => !s.isAbsent

/-- What was assigned last under a path, or else under the path without slashes at the front. -/
def source? (h : History) (path : String) : Option Source :=
  match h.last? path with
  | some s => some s
  | none => h.last? (Path.relative path)

/-- The answer with a source, or that there is none, to a request; without identities. -/
def served (o : Option Source) (path canonical : String) (wanted : Wanted) :
    Except Fault Loaded := do
  match o with
  | none => throw (.template (.pathNotFound canonical) .none)
  | some s => Loader.serve path wanted canonical (← s.given)

/-- The answer of a loader that does not change by being asked. -/
def answer (h : History) (path : String) (location : Option String) (wanted : Wanted) :
    Except Fault Loaded :=
  let canonical := Path.canonical path location
  served (h.source? canonical) path canonical wanted

/-- A tree has been built of the draft under a path, and stored there. -/
def isBuilt : History → (path : String) → Bool
  | [], _ => false
  | .assign p _ :: h, path => if Path.normal p = path then false else isBuilt h path
  | .resolve p l _ :: h, path =>
    isBuilt h path || (Path.canonical p l = path && (Source.tree? (last? h path)).isSome)

/-- The draft whose tree is stored under a path though the draft was assigned without the slashes
at its front. -/
def pinned? : History → (path : String) → Option Value
  | [], _ => none
  | .assign p _ :: h, path => if Path.normal p = path then none else pinned? h path
  | .resolve p l _ :: h, path =>
    match pinned? h path with
    | some v => some v
    | none =>
      if Path.canonical p l = path && (last? h path).isNone && !isBuilt h (Path.relative path) then
        Source.tree? (last? h (Path.relative path))
      else none

/-- A tree is pinned to a path that is no longer what was last assigned. -/
def Stale (h : History) (path : String) (v : Value) : Prop :=
  h.pinned? path = some v ∧ h.source? path ≠ some (.draft v)

/-- What is found under a path: the pinned tree, or what is to be expected. -/
def found? (h : History) (path : String) : Option Source :=
  match h.pinned? path with
  | some v => some (.draft v)
  | none => h.source? path

/-- What is not stale is found as it was given last. -/
theorem found?_of_not_stale {h : History} {path : String} (hs : ∀ v, ¬ h.Stale path v) :
    h.found? path = h.source? path := by
  unfold found?
  cases hp : h.pinned? path with
  | none => rfl
  | some v => exact (not_not.mp fun hne => hs v ⟨hp, Ne.symm hne⟩)

/-! ### What is stored -/

/-- What is stored under a path. -/
inductive Kept (h : History) (path : String) : Option Source → Prop where
  /-- The tree of a draft that was found without the slashes at the front. -/
  | pinned {v : Value} {n : Node} (hp : h.pinned? path = some v) (hl : h.last? path = none)
      (hn : (Source.node n).given = (Source.draft v).given) : Kept h path (some (.node n))
  /-- The tree of the draft that was assigned. -/
  | built {v : Value} {n : Node} (hp : h.pinned? path = none) (hb : h.isBuilt path = true)
      (hl : h.last? path = some (.draft v))
      (hn : (Source.node n).given = (Source.draft v).given) : Kept h path (some (.node n))
  /-- What was assigned. -/
  | plain (hp : h.pinned? path = none) (hb : h.isBuilt path = false) : Kept h path (h.last? path)

/-- The history tells what is stored under every path. -/
def Tells (h : History) (t : Sources) : Prop :=
  ∀ path, Kept h path (t.stored? path)

/-- A path without slashes at the front has no other to be pinned to. -/
theorem pinned?_of_relative {path : String} (hr : Path.relative path = path) (h : History) :
    h.pinned? path = none := by
  induction h with
  | nil => rfl
  | cons step h ih =>
    cases step with
    | assign p s => simp only [pinned?, ih, ite_self]
    | resolve p l wanted =>
      simp only [pinned?, ih, hr]
      cases hl : last? h path with
      | none => simp [Source.tree?]
      | some s => simp

/-- What is served is what is found. -/
theorem Tells.answer? {h : History} {t : Sources} (ht : h.Tells t) (path : String) :
    t.answer? path = (h.found? path).map Source.given := by
  have hk := ht path
  unfold Sources.answer? Sources.find? found? source?
  generalize t.stored? path = o at hk
  cases hk with
  | pinned hp hl hn => simp [hp, hn]
  | built hp hb hl hn => simp [hp, hl, hn]
  | plain hp hb =>
    rw [hp]
    cases hl : h.last? path with
    | some s => rfl
    | none =>
      have hk' := ht (Path.relative path)
      generalize t.stored? (Path.relative path) = o' at hk'
      cases hk' with
      | pinned hp' hl' hn' =>
        rw [pinned?_of_relative (Sources.relative_relative path)] at hp'
        cases hp'
      | built hp' hb' hl' hn' => simp [hl', hn']
      | plain hp' hb' => rfl

/-! ### One step -/

/-- What is kept is told by what is pinned, built and assigned last. -/
theorem Kept.congr {h h' : History} {path : String} {o : Option Source} (hk : Kept h path o)
    (hp : h'.pinned? path = h.pinned? path) (hb : h'.isBuilt path = h.isBuilt path)
    (hl : h'.last? path = h.last? path) : Kept h' path o := by
  cases hk with
  | pinned hp' hl' hn => exact .pinned (hp.trans hp') (hl.trans hl') hn
  | built hp' hb' hl' hn => exact .built (hp.trans hp') (hb.trans hb') (hl.trans hl') hn
  | plain hp' hb' =>
    rw [← hl]
    exact .plain (hp.trans hp') (hb.trans hb')

/-- An assignment is told. -/
theorem Tells.assign {h : History} {t : Sources} (ht : h.Tells t) (p : String) (s : Source) :
    Tells (.assign p s :: h) (t.assign p s) := by
  intro path
  by_cases hq : Path.normal p = path
  · subst hq
    have hs : Sources.stored? (t.assign p s) (Path.normal p) =
        History.last? (.assign p s :: h) (Path.normal p) := by
      simp [Sources.stored?, Sources.assign, last?, assigned?]
    rw [hs]
    exact .plain (by simp [pinned?]) (by simp [isBuilt])
  · have hs : Sources.stored? (t.assign p s) path = t.stored? path := by
      simp only [Sources.stored?, Sources.assign, Table.get?_put_of_ne (Ne.symm hq)]
    rw [hs]
    exact (ht path).congr (by simp [pinned?, hq]) (by simp [isBuilt, hq])
      (by simp [last?, assigned?, hq])

end History

namespace Sources

/-- What is stored after a path was asked for. -/
def left (t : Sources) (path : String) (i : Nat) : Sources :=
  match (t.load path).run i with
  | .ok ((_, u), _) => u
  | .error _ => t

/-- The tree of a draft that is found is stored under the path that was asked for. -/
theorem left_of_tree {t : Sources} {path : String} {v : Value}
    (hf : Source.tree? (t.find? path) = some v) (i : Nat) :
    ∃ n, (Source.node n).given = (Source.draft v).given ∧
      t.left path i = Table.put path (.node n) t := by
  obtain ⟨ho, s, hg⟩ := Source.tree?_eq_some_iff.mp hf
  obtain ⟨n, j, hr, hn⟩ := Source.run_of_given hg i
  refine ⟨n, hn, ?_⟩
  simp only [left, load, ho, StateT.run_bind, hr]
  rfl

/-- Otherwise nothing is stored. -/
theorem left_of_no_tree {t : Sources} {path : String} (hf : Source.tree? (t.find? path) = none)
    (i : Nat) : t.left path i = t := by
  unfold left load
  split
  · next s u j hr =>
    split at hr
    · cases hr
    · next v ho =>
      cases hg : (Source.draft v).given with
      | ok s' => rw [Source.tree?_eq_some_iff.mpr ⟨ho, s', hg⟩] at hf; cases hf
      | error f =>
        rw [StateT.run_bind, Source.run_of_given_error hg] at hr
        cases hr
    · cases hr
      rfl
  · rfl

end Sources

namespace History

/-- The history tells what is stored under the path that was asked for. -/
theorem Tells.resolve_self {h : History} {t : Sources} (ht : h.Tells t) {p : String}
    {l : Option String} (wanted : Wanted) (i : Nat) {c : String} (hc : Path.canonical p l = c) :
    Kept (.resolve p l wanted :: h) c ((t.left c i).stored? c) := by
  have hk := ht c
  generalize ho : t.stored? c = o at hk
  cases hk with
  | @pinned v n hp hl hn =>
    have hf : t.find? c = some (.node n) := by rw [Sources.find?, ho]
    rw [Sources.left_of_no_tree (by rw [hf]; rfl), ho]
    exact .pinned (by simp [pinned?, hp]) hl hn
  | @built v n hp hb hl hn =>
    have hf : t.find? c = some (.node n) := by rw [Sources.find?, ho]
    rw [Sources.left_of_no_tree (by rw [hf]; rfl), ho]
    exact .built (by simp [pinned?, hp, hl]) (by simp [isBuilt, hb]) hl hn
  | plain hp hb =>
    cases hl : h.last? c with
    | some s =>
      have hf : t.find? c = some s := by rw [Sources.find?, ho, hl]
      have hp' : History.pinned? (.resolve p l wanted :: h) c = none := by simp [pinned?, hp, hl]
      cases hs : Source.tree? (some s) with
      | none =>
        rw [Sources.left_of_no_tree (by rw [hf, hs]), ho]
        exact .plain hp' (by simp [isBuilt, hb, hl, hs])
      | some v =>
        obtain ⟨n, hn, hu⟩ := Sources.left_of_tree (hf.symm ▸ hs) i
        rw [hu, Sources.stored?_put_self]
        refine .built hp' (by simp [isBuilt, hc, hl, hs]) ?_ hn
        exact hl.trans (Source.tree?_eq_some_iff.mp hs).1
    | none =>
      have hf : t.find? c = t.stored? (Path.relative c) := by rw [Sources.find?, ho, hl]
      have hb' : History.isBuilt (.resolve p l wanted :: h) c = false := by
        simp [isBuilt, hb, hl, Source.tree?]
      have hk' := ht (Path.relative c)
      generalize ho' : t.stored? (Path.relative c) = o' at hk'
      -- a tree is pinned only if the draft has not been built where it is
      have hplain (hs : Source.tree? o' = none) (hp' : h.isBuilt (Path.relative c) = false →
          Source.tree? (h.last? (Path.relative c)) = none) :
          Kept (.resolve p l wanted :: h) c ((t.left c i).stored? c) := by
        rw [Sources.left_of_no_tree (by rw [hf, ho', hs]), ho]
        refine .plain ?_ hb'
        cases hr : h.isBuilt (Path.relative c) with
        | true => simp [pinned?, hp, hr]
        | false => simp [pinned?, hp, hp' hr]
      cases hk' with
      | pinned hp' hl' hn' =>
        rw [pinned?_of_relative (Sources.relative_relative c)] at hp'
        cases hp'
      | built hp' hr hl' hn' => exact hplain rfl fun hr' => by rw [hr] at hr'; cases hr'
      | plain hp' hr =>
        cases hs : Source.tree? (h.last? (Path.relative c)) with
        | none => exact hplain hs fun _ => hs
        | some v =>
          have hd : Source.tree? (t.find? c) = some v := by rw [hf, ho', hs]
          obtain ⟨n, hn, hu⟩ := Sources.left_of_tree hd i
          rw [hu, Sources.stored?_put_self]
          exact .pinned (by simp [pinned?, hp, hc, hl, hr, hs]) hl hn

/-- A request is told. -/
theorem Tells.resolve {h : History} {t : Sources} (ht : h.Tells t) (p : String)
    (l : Option String) (wanted : Wanted) (i : Nat) :
    Tells (.resolve p l wanted :: h) (t.left (Path.canonical p l) i) := by
  intro path
  by_cases hq : Path.canonical p l = path
  · rw [hq]
    exact ht.resolve_self wanted i hq
  · have hs : (t.left (Path.canonical p l) i).stored? path = t.stored? path := by
      cases hf : Source.tree? (t.find? (Path.canonical p l)) with
      | none => rw [Sources.left_of_no_tree hf]
      | some v =>
        obtain ⟨n, -, hn⟩ := Sources.left_of_tree hf i
        rw [hn, Sources.stored?_put_of_ne t (Ne.symm hq)]
    rw [hs]
    refine (ht path).congr ?_ (by simp [isBuilt, hq]) rfl
    simp only [pinned?, hq]
    cases h.pinned? path <;> simp

end History

/-! ### Many steps -/

namespace Loader

/-- What a step makes of a world, with the loader of a number. -/
def Step.perform (number : Nat) (w : World) : Step → World
  | .assign p s =>
    match w.loader number with
    | .sources t => { w with loaders := w.loaders.setIfInBounds number (.sources (t.assign p s)) }
    | _ => w
  | .resolve p l wanted => (exec (Engine.load number p l wanted) w).2

/-- A loader that is put in its place is there. -/
theorem loader_set {w : World} {number : Nat} {t : Sources} (hw : w.loader number = .sources t)
    (u : Sources) :
    World.loader { w with loaders := w.loaders.setIfInBounds number (.sources u) } number =
      .sources u := by
  have hin : number < w.loaders.size := by
    by_contra hn
    rw [World.loader, Array.getD_eq_getD_getElem?, Array.getElem?_eq_none (Nat.not_lt.mp hn)] at hw
    cases hw
  simp [World.loader, hin]

/-- What a loader of sources answers, and what it stores then. -/
theorem load_left {w : World} {number : Nat} {t : Sources} (hw : w.loader number = .sources t)
    (p : String) (l : Option String) (wanted : Wanted) :
    (exec (Engine.load number p l wanted) w).1 =
        ((t.load (Path.canonical p l)).run w.nextNode).bind
          (fun r => serve p wanted (Path.canonical p l) r.1.1) ∧
      (exec (Engine.load number p l wanted) w).2.loader number =
        .sources (t.left (Path.canonical p l) w.nextNode) := by
  rw [Engine.exec_load hw, Sources.left]
  cases hr : (t.load (Path.canonical p l)).run w.nextNode with
  | error f => exact ⟨rfl, hw⟩
  | ok r =>
    obtain ⟨⟨s, u⟩, j⟩ := r
    exact ⟨rfl, loader_set hw u⟩

end Loader

namespace History

/-- A step of a loader is told by the history with the step in front. -/
theorem Tells.perform {h : History} {t : Sources} (ht : h.Tells t) {w : World} {number : Nat}
    (hw : w.loader number = .sources t) (step : Loader.Step) :
    ∃ u, (step.perform number w).loader number = .sources u ∧ Tells (step :: h) u := by
  cases step with
  | assign p s =>
    refine ⟨t.assign p s, ?_, ht.assign p s⟩
    simp only [Loader.Step.perform, hw]
    exact Loader.loader_set hw _
  | resolve p l wanted =>
    exact ⟨_, (Loader.load_left hw p l wanted).2, ht.resolve p l wanted w.nextNode⟩

/-- So are steps one after the other. -/
theorem Tells.steps {number : Nat} (steps : List Loader.Step) :
    ∀ {h : History} {t : Sources} {w : World}, h.Tells t → w.loader number = .sources t →
      ∃ u, (steps.foldl (Loader.Step.perform number) w).loader number = .sources u ∧
        Tells (steps.reverse ++ h) u := by
  induction steps with
  | nil => exact fun ht hw => ⟨_, hw, ht⟩
  | cons step steps ih =>
    intro h t w ht hw
    obtain ⟨u, hu, ht'⟩ := ht.perform hw step
    rw [List.foldl_cons, List.reverse_cons, List.append_assoc]
    exact ih ht' hu

/-- A new loader is told by its construction. -/
theorem tells_construction (es : List (String × Source)) :
    Tells (construction es) (Sources.ofList es) := by
  have hfold (h : History) (t : Sources) (ht : h.Tells t) :
      Tells (construction es ++ h) (es.foldl (fun t e => t.assign e.1 e.2) t) := by
    induction es generalizing h t with
    | nil => exact ht
    | cons e es ih =>
      have := ih _ _ (ht.assign e.1 e.2)
      simpa [construction] using this
  have hnil : Tells [] [] := fun path => .plain rfl rfl
  simpa [Sources.ofList] using hfold [] [] hnil

/-- What is answered is what is found. -/
theorem Tells.load {h : History} {t : Sources} (ht : h.Tells t) {w : World} {number : Nat}
    (hw : w.loader number = .sources t) (path : String) (location : Option String)
    (wanted : Wanted) :
    (exec (Engine.load number path location wanted) w).1.map Loaded.bare =
      served (h.found? (Path.canonical path location)) path (Path.canonical path location)
        wanted := by
  rw [(Loader.load_left hw path location wanted).1]
  have hb := t.load_bare (Path.canonical path location) w.nextNode
  rw [ht.answer?] at hb
  have hserve (r : Except Fault ((Source × Sources) × Nat)) :
      (r.bind fun x => Loader.serve path wanted (Path.canonical path location) x.1.1).map
          Loaded.bare =
        (r.map fun x => x.1.1.bare).bind
          (Loader.serve path wanted (Path.canonical path location)) := by
    cases r with
    | error f => rfl
    | ok x => exact (Loader.serve_bare _ _ _ _).symm
  rw [hserve, hb]
  cases h.found? (Path.canonical path location) <;> rfl

/-- **What a loader serves.**  Whatever is done with a loader of sources, a request is then answered
with what was assigned last under its path, or else under the path without slashes at the front, as
by a loader that does not change by being asked; unless the path is stale, and then the answer is
the tree that is pinned to it. -/
theorem load_answer {w : World} {number : Nat} {es : List (String × Source)}
    (hw : w.loader number = .sources (Sources.ofList es)) (steps : List Loader.Step)
    (path : String) (location : Option String) (wanted : Wanted) :
    let h : History := steps.reverse ++ construction es
    let canonical := Path.canonical path location
    let given := (exec (Engine.load number path location wanted)
      (steps.foldl (Loader.Step.perform number) w)).1.map Loaded.bare
    ((∀ v, ¬ h.Stale canonical v) → given = h.answer path location wanted) ∧
    ∀ v, h.Stale canonical v → given = served (some (.draft v)) path canonical wanted := by
  intro h canonical given
  obtain ⟨u, hu, ht⟩ := Tells.steps steps (tells_construction es) hw
  have hgiven : given = served (h.found? canonical) path canonical wanted :=
    ht.load hu path location wanted
  refine ⟨fun hs => ?_, fun v hs => ?_⟩
  · rw [hgiven, found?_of_not_stale hs]
    rfl
  · rw [hgiven, found?, hs.1]

/-! ### A page under a shorter path -/

/-- The draft of a page with one paragraph. -/
def paragraph (words : String) : Source :=
  .draft (.list [Samples.entry "p" words])

/-- The page as a tree. -/
def page (words : String) : Node :=
  Samples.node 0 "" "" [Samples.leaf 0 "p" words]

/-- A world with a loader that has the page under a path. -/
def shelf (path words : String) : World :=
  { World.empty with loaders := #[.sources (Sources.ofList [(path, paragraph words)])] }

/-- The page is asked for with a slash at the front of its path, and another takes its place. -/
def exchange : List Loader.Step :=
  [.resolve "/a" none .tree, .assign "a" (paragraph "new")]

theorem load_answer_exchange :
    (shelf "a" "old").loader 0 = .sources (Sources.ofList [("a", paragraph "old")]) ∧
    (exec (Engine.load 0 "a" none .tree)
      (exchange.foldl (Loader.Step.perform 0) (shelf "a" "old"))).1.map Loaded.bare =
        .ok (.tree (.finished (page "new")) (some "a")) ∧
    (exec (Engine.load 0 "/a" none .tree)
      (exchange.foldl (Loader.Step.perform 0) (shelf "a" "old"))).1.map Loaded.bare =
        .ok (.tree (.finished (page "old")) (some "/a")) := by
  have hw : (shelf "a" "old").loader 0 = .sources (Sources.ofList [("a", paragraph "old")]) := rfl
  refine ⟨hw, ?_, ?_⟩
  · have hp : pinned? (exchange.reverse ++ construction [("a", paragraph "old")])
        (Path.canonical "a" none) = none := by cbv
    have hs (v : Value) : ¬ Stale (exchange.reverse ++ construction [("a", paragraph "old")])
        (Path.canonical "a" none) v := by
      intro h
      exact absurd (hp.symm.trans h.1) (by simp)
    rw [(load_answer hw exchange "a" none .tree).1 hs]
    cbv
  · have hs : Stale (exchange.reverse ++ construction [("a", paragraph "old")])
        (Path.canonical "/a" none)
        (.list [Samples.entry "p" "old"]) := by
      refine ⟨by cbv, fun h => ?_⟩
      have hn : source? (exchange.reverse ++ construction [("a", paragraph "old")])
          (Path.canonical "/a" none) = some (paragraph "new") := by cbv
      rw [hn] at h
      simp [paragraph, Samples.entry] at h
    rw [(load_answer hw exchange "/a" none .tree).2 _ hs]
    cbv

/-- A stale path is not answered with what was assigned last. -/
theorem answer_ne_exchange :
    (exec (Engine.load 0 "/a" none .tree)
      (exchange.foldl (Loader.Step.perform 0) (shelf "a" "old"))).1.map Loaded.bare ≠
        answer (exchange.reverse ++ construction [("a", paragraph "old")]) "/a" none .tree := by
  have hold : (exec (Engine.load 0 "/a" none .tree)
      (exchange.foldl (Loader.Step.perform 0) (shelf "a" "old"))).1.map Loaded.bare =
        .ok (.tree (.finished (page "old")) (some "/a")) := by cbv
  have hnew : answer (exchange.reverse ++ construction [("a", paragraph "old")]) "/a" none .tree =
      .ok (.tree (.finished (page "new")) (some "/a")) := by cbv
  rw [hold, hnew]
  intro h
  simp [page, Samples.node, Samples.leaf] at h

end History
end Trellis
