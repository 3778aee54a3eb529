import Trellis.Proofs.Dependencies.Journal
import Trellis.Proofs.Sharing.Sessions

/-!
# Proofs — Dependencies — Ledger

What the journal of a rendering says of trackers.  Whatever a rendering comes to, the tracker of its
engine has got the pairs of the journal in order, the other trackers are left alone, and every
resolution that was attempted is one of a pair (`Journal.Keeps`).

Computations that leave the trackers alone keep an empty journal (`Rendering.Still`): these are all
answers of an engine but one.  An include is the exception, and is followed by hand: it is tracked as
soon as it is written down, and before anything is asked for it (`Journal.inclusion_follows`).  All
other nodes are rendered by an engine that does not track (`Interpretation.sheltered`) as by their own.
-/

namespace Trellis

open Rendering (exec exec_bind Matched)

/-! ### Trackers in a world -/

/-- The pair that is tracked. -/
def Event.tracked? : Event → Option (Option String × String)
  | tracked l path => some (l, path)
  | _ => none

namespace World

/-- The tracker with a number. -/
def tracker (w : World) (k : Nat) : Tracker :=
  w.trackers.getD k Tracker.empty

/-- The pairs that are tracked in the events. -/
def tracked (w : World) : List (Option String × String) :=
  w.events.toList.filterMap Event.tracked?

/-- An event that tracks puts its pair behind those before. -/
theorem tracked_push (w : World) (e : Event) :
    tracked { w with events := w.events.push e } = w.tracked ++ e.tracked?.toList := by
  simp only [tracked, Array.toList_push, List.filterMap_append, List.filterMap_cons,
    List.filterMap_nil]
  cases e.tracked? <;> rfl

end World

namespace Tracker

/-- The trackers, after pairs have been recorded in one of them, if any. -/
def recordIn (number : Option Nat) (ps : List (Option String × String)) (ts : Array Tracker) :
    Array Tracker :=
  match number with
  | none => ts
  | some k => ts.modify k (recordAll ps)

variable (number : Option Nat) (ps qs : List (Option String × String)) (ts : Array Tracker)

theorem recordIn_nil : recordIn number [] ts = ts := by
  cases number with
  | none => rfl
  | some k =>
    refine Array.ext (by simp [recordIn]) fun i _ _ => ?_
    simp [recordIn, Array.getElem_modify, recordAll]

/-- Pairs are recorded one after the other. -/
theorem recordIn_append :
    recordIn number (ps ++ qs) ts = recordIn number qs (recordIn number ps ts) := by
  cases number with
  | none => rfl
  | some k =>
    refine Array.ext (by simp [recordIn]) fun i _ _ => ?_
    simp only [recordIn, Array.getElem_modify]
    split
    · exact recordAll_append ps qs _
    · rfl

/-- No tracker comes or goes. -/
theorem size_recordIn : (recordIn number ps ts).size = ts.size := by
  cases number <;> simp [recordIn]

/-- Only the tracker of the number records. -/
theorem getD_recordIn {k : Nat} (hk : k < ts.size) :
    (recordIn number ps ts).getD k Tracker.empty =
      recordAll (if number = some k then ps else []) (ts.getD k Tracker.empty) := by
  cases number with
  | none => rfl
  | some i =>
    simp only [recordIn, Array.getD_eq_getD_getElem?, Array.getElem?_modify,
      Array.getElem?_eq_getElem hk, Option.some.injEq]
    by_cases hi : i = k
    · simp [hi]
    · simp [hi, recordAll]

end Tracker

/-- Recording one pair is one step of the tracker. -/
theorem Tracker.recordIn_some (k : Nat) (l : Option String) (path : String)
    (ts : Array Tracker) :
    recordIn (some k) [(l, path)] ts =
      ts.setIfInBounds k ((ts.getD k Tracker.empty).record l path) := by
  refine Array.ext (by simp [recordIn]) fun i hi _ => ?_
  have hi : i < ts.size := by simpa [recordIn] using hi
  simp only [recordIn, Array.getElem_modify, Array.getElem_setIfInBounds hi]
  by_cases hk : k = i
  · subst hk
    simp [recordAll, hi]
  · simp [hk]

/-- Tracking records the pair and is noted, if the engine has a tracker. -/
theorem Engine.exec_track (eng : Engine) (l : Option String) (path : String) (w : World) :
    ∃ w', exec (eng.track l path) w = (.ok (), w') ∧
      w'.trackers = Tracker.recordIn eng.tracker [(l, path)] w.trackers ∧
      w'.tracked = w.tracked ++ if eng.tracker.isSome then [(l, path)] else [] := by
  unfold Engine.track
  cases eng.tracker with
  | none => exact ⟨w, rfl, rfl, (List.append_nil _).symm⟩
  | some k =>
    refine ⟨_, rfl, (Tracker.recordIn_some k l path w.trackers).symm, ?_⟩
    exact w.tracked_push (.tracked l path)

/-! ### Computations that record nothing -/

namespace Rendering

variable {α β : Type}

/-- The computation leaves the trackers alone. -/
def Still (x : Rendering α) : Prop :=
  ∀ w, (exec x w).2.trackers = w.trackers ∧ (exec x w).2.tracked = w.tracked

namespace Still

theorem of_eq {x : Rendering α} (h : ∀ w, (exec x w).2.trackers = w.trackers ∧
    (exec x w).2.events = w.events) : Still x :=
  fun w => ⟨(h w).1, congrArg (·.toList.filterMap Event.tracked?) (h w).2⟩

theorem pure (a : α) : Still (Pure.pure a) :=
  of_eq fun _ => ⟨rfl, rfl⟩

theorem throw (f : Fault) : Still (throw f : Rendering α) :=
  of_eq fun _ => ⟨rfl, rfl⟩

theorem get : Still (MonadState.get : Rendering World) :=
  of_eq fun _ => ⟨rfl, rfl⟩

/-- An event that tracks nothing keeps still. -/
theorem note {e : Event} (he : e.tracked? = none) : Still (Rendering.note e) := by
  refine fun w => ⟨rfl, ?_⟩
  show World.tracked { w with events := w.events.push e } = _
  rw [World.tracked_push, he]
  exact List.append_nil _

theorem bind {x : Rendering α} {f : α → Rendering β} (hx : Still x) (hf : ∀ a, Still (f a)) :
    Still (x >>= f) :=
  exec_bind_trans (R := fun w w' => w'.trackers = w.trackers ∧ w'.tracked = w.tracked)
    (fun h h' => ⟨h'.1.trans h.1, h'.2.trans h.2⟩) hx hf

theorem onHeap (a : Action α) : Still (Rendering.onHeap a) := by
  refine of_eq fun w => ?_
  rw [exec_onHeap]
  exact ⟨rfl, rfl⟩

theorem build (b : Draft.Build α) : Still (Rendering.build b) := by
  refine of_eq fun w => ?_
  rw [exec_build]
  cases b.run w.nextNode <;> exact ⟨rfl, rfl⟩

theorem ofExcept (r : Except Fault α) : Still (Rendering.ofExcept r) := by
  cases r with
  | ok a => exact pure a
  | error f => exact throw f

end Still

/-- What looks at the world only keeps still. -/
theorem inner_still : Inner fun _ => Still where
  pure := .pure
  throw := .throw
  bind := .bind
  onHeap := .onHeap
  ask hf _ := .bind .get hf
  transformed _ _ _ := .note rfl
  setMemo _ _ := .of_eq fun _ => ⟨rfl, rfl⟩

end Rendering

open Rendering (Still inner_still)

namespace Engine

variable {eng : Engine}

theorem evaluate_still (scope : Scope) (position text : Value) :
    Still (eng.evaluate scope position text) :=
  (Still.note rfl).bind fun _ => .onHeap _

/-- A definition keeps still. -/
theorem define_still (name : String) (d : Mixin) : Still (eng.define name d) := by
  refine (inner_still.mixin? name).bind fun known => ?_
  refine .bind (.note ?_) fun _ => .of_eq fun _ => ⟨rfl, rfl⟩
  cases known <;> rfl

theorem including_still (wanted : Wanted) (path : String) (location : Option String) :
    Still (including wanted path location) := by
  cases wanted <;> exact .note rfl

/-- Loading keeps still: it does not track. -/
theorem load_still (number : Nat) (path : String) (location : Option String) (wanted : Wanted) :
    Still (load number path location wanted) := by
  refine .bind .get fun w => ?_
  cases w.loaders.getD number .empty with
  | custom answer => exact .ofExcept _
  | empty => exact (Still.note rfl).bind fun _ => .throw _
  | sources t =>
    refine (Still.note rfl).bind fun _ => (Still.build _).bind fun r => ?_
    exact .bind (.of_eq fun _ => ⟨rfl, rfl⟩) fun _ => .ofExcept _

/-- So does a request. -/
theorem request_still (path : String) (location : Option String) (wanted : Wanted) :
    Still (eng.request path location wanted) := by
  unfold Engine.request
  cases eng.loader with
  | none => exact .throw _
  | some number => exact (Still.note rfl).bind fun _ => load_still number path location wanted

/-- So does the text of an include. -/
theorem text_still (path : String) (location : Option String) :
    Still (eng.text path location) := by
  refine (request_still path location .text).bind fun l => ?_
  cases l with
  | text s => exact .pure s
  | tree d l => exact .throw _

/-- So does its tree. -/
theorem tree_still (path : String) (location : Option String) :
    Still (eng.tree path location) := by
  refine (request_still path location .tree).bind fun l => ?_
  cases l with
  | text s => exact .throw _
  | tree d l => exact (Still.build _).bind fun _ => .pure _

end Engine

/-! ### What a journal tells -/

namespace Journal

variable {eng : Engine} {α β : Type}

/-- What the journal of a rendering, which starts with the locations `st` in force, tells of the
worlds before and behind it.  The pairs in `known` have been recorded before. -/
structure Keeps (eng : Engine) (st : List (Option String)) (known : List (Option String × String))
    (w w' : World) (new : List Entry) : Prop where
  trackers : w'.trackers = Tracker.recordIn eng.tracker (pairs st new) w.trackers
  tracked : w'.tracked = w.tracked ++ if eng.tracker.isSome then pairs st new else []
  asked : ∀ path l, .asked path l ∈ new → (l, path) ∈ known ++ pairs st new

namespace Keeps

variable {st : List (Option String)} {known : List (Option String × String)} {w w' w'' : World}
  {new new' : List Entry}

/-- What leaves trackers and events alone keeps what has been recorded. -/
theorem still (ht : w'.trackers = w.trackers) (he : w'.tracked = w.tracked) :
    Keeps eng st known w w' [] :=
  ⟨by rw [ht, pairs, Tracker.recordIn_nil], by simp [he, pairs], by simp⟩

/-- Journals one behind the other are kept one after the other. -/
theorem append (h : Keeps eng st known w w' new)
    (h' : Keeps eng (final st new) (known ++ pairs st new) w' w'' new') :
    Keeps eng st known w w'' (new ++ new') where
  trackers := by rw [h'.trackers, h.trackers, pairs_append, Tracker.recordIn_append]
  tracked := by
    rw [h'.tracked, h.tracked, pairs_append, List.append_assoc]
    split <;> simp
  asked path l hm := by
    rw [pairs_append, ← List.append_assoc]
    rcases List.mem_append.mp hm with hm | hm
    · exact List.mem_append_left _ (h.asked path l hm)
    · exact h'.asked path l hm

/-- What is kept is kept when more is known. -/
theorem weaken {known' : List (Option String × String)} (h : Keeps eng st known w w' new)
    (hk : known ⊆ known') : Keeps eng st known' w w' new where
  trackers := h.trackers
  tracked := h.tracked
  asked path l hm := by
    rcases List.mem_append.mp (h.asked path l hm) with hm | hm
    · exact List.mem_append_left _ (hk hm)
    · exact List.mem_append_right _ hm

end Keeps

/-- The journaling computation ends as the other one does, and its journal tells what it has done.
It starts with the locations `st` in force, and if it does not fail it ends with `st'`. -/
def Follows (eng : Engine) (st st' : List (Option String))
    (known : List (Option String × String)) (R : α → α → Prop) (x : Rendering α)
    (y : Journaling α) : Prop :=
  ∀ w js, ∃ r new, y.exec (w, js) = (r, (exec x w).2, js ++ new) ∧ Matched R (exec x w).1 r ∧
    Keeps eng st known w (exec x w).2 new ∧ ∀ a, r = .ok a → final st new = st'

namespace Follows

variable {st st' st'' : List (Option String)} {known known' : List (Option String × String)}
  {R : α → α → Prop} {Q : β → β → Prop}

/-- Nothing is written down of what leaves the trackers alone. -/
theorem quiet {x : Rendering α} (h : Still x) : Follows eng st st known Eq x x.journaled :=
  fun w js => ⟨(exec x w).1, [], by rw [List.append_nil]; rfl, .same _, .still (h w).1 (h w).2,
    fun _ _ => rfl⟩

/-- What is followed more closely is followed. -/
theorem mono {S : α → α → Prop} {x : Rendering α} {y : Journaling α}
    (hx : Follows eng st st' known R x y) (h : ∀ a b, R a b → S a b) :
    Follows eng st st' known S x y := by
  intro w js
  obtain ⟨r, new, hy, hm, hk, hf⟩ := hx w js
  exact ⟨r, new, hy, hm.mono h, hk, hf⟩

theorem pure {a b : α} (h : R a b) : Follows eng st st known R (Pure.pure a) (Pure.pure b) :=
  fun w js => ⟨.ok b, [], by rw [List.append_nil]; rfl, .ok h, .still rfl rfl, fun _ _ => rfl⟩

theorem throw (f : Fault) :
    Follows eng st st' known R (throw f) (throw f : Rendering α).journaled :=
  fun w js => ⟨.error f, [], by rw [List.append_nil]; rfl, .error f, .still rfl rfl,
    fun _ h => nomatch h⟩

theorem weaken {x : Rendering α} {y : Journaling α} (hx : Follows eng st st' known R x y)
    (hk : known ⊆ known') : Follows eng st st' known' R x y := by
  intro w js
  obtain ⟨r, new, hy, hm, hkeeps, hf⟩ := hx w js
  exact ⟨r, new, hy, hm, hkeeps.weaken hk, hf⟩

/-- Computations that are followed step by step are followed. -/
theorem bind {x : Rendering α} {y : Journaling α} {f : α → Rendering β} {g : α → Journaling β}
    (hx : Follows eng st st' known R x y)
    (hf : ∀ a b, R a b → Follows eng st' st'' known Q (f a) (g b)) :
    Follows eng st st'' known Q (x >>= f) (y >>= g) := by
  intro w js
  obtain ⟨r, new, hy, hm, hk, hfinal⟩ := hx w js
  rw [exec_bind, Journaling.exec_bind, hy]
  generalize exec x w = o at hm hk ⊢
  obtain ⟨r', w'⟩ := o
  cases hm with
  | error e => exact ⟨.error e, new, rfl, .error e, hk, fun _ h => nomatch h⟩
  | ok hab =>
    obtain ⟨r, new', hy', hm', hk', hfinal'⟩ := hf _ _ hab w' (js ++ new)
    obtain rfl := hfinal _ rfl
    refine ⟨r, new ++ new', ?_, hm', hk.append (hk'.weaken (List.subset_append_left _ _)),
      fun a ha => ?_⟩
    · rw [← List.append_assoc]
      exact hy'
    · rw [final_append]
      exact hfinal' a ha

/-- After equal results, what follows is about one of them. -/
theorem andThen {x : Rendering α} {y : Journaling α} {f : α → Rendering β} {g : α → Journaling β}
    (hx : Follows eng st st' known Eq x y)
    (hf : ∀ a, Follows eng st' st'' known Q (f a) (g a)) :
    Follows eng st st'' known Q (x >>= f) (y >>= g) := by
  refine bind hx fun a b hab => ?_
  obtain rfl := hab
  exact hf a

theorem ofCause (r : Except Cause α) :
    Follows eng st st known Eq (eng.interpretation.ofCause r) (eng.quietly.ofCause r) := by
  cases r with
  | ok a => exact .pure rfl
  | error c => exact .throw _

/-- An entry that is no include, in front. -/
theorem write {e : Entry} (he : pairOf st e = [])
    (hasked : ∀ path l, .asked path l = e → (l, path) ∈ known) {x : Rendering α}
    {g : Unit → Journaling α} (hx : Follows eng (moved st e) st' known R x (g ())) :
    Follows eng st st' known R x (Journaling.write e >>= g) := by
  intro w js
  obtain ⟨r, new, hy, hm, hk, hf⟩ := hx w (js ++ [e])
  have hnew : Keeps eng st known w w [e] :=
    ⟨by simp [pairs, he, Tracker.recordIn_nil], by simp [pairs, he], fun path l hm =>
      List.mem_append_left _ (hasked path l (List.mem_singleton.mp hm))⟩
  refine ⟨r, [e] ++ new, ?_, hm, hnew.append (hk.weaken (List.subset_append_left _ _)), hf⟩
  rw [← List.append_assoc]
  exact hy

/-- An include is recorded as soon as it is written down. -/
theorem recorded {n : Node} {l : Option String} {path : String}
    (hn : Markup.stripped n.content = .ok path) {f : Unit → Rendering β} {g : Unit → Journaling β}
    (hf : Follows eng (l :: st) st' [(l, path)] Q (f ()) (g ())) :
    Follows eng (l :: st) st' [] Q (eng.track l path >>= f)
      (Journaling.write (.inclusion n) >>= fun _ => (eng.track l path).journaled >>= g) := by
  intro w js
  obtain ⟨w₁, htrack, htrackers, htracked⟩ := eng.exec_track l path w
  obtain ⟨r, new, hy, hm, hk, hfinal⟩ := hf w₁ (js ++ [.inclusion n])
  have hpairs : pairs (l :: st) [.inclusion n] = [(l, path)] := by
    simp [pairs, pairOf, hn]
  have hnew : Keeps eng (l :: st) [] w w₁ [.inclusion n] :=
    ⟨by rw [htrackers, hpairs], by rw [htracked, hpairs], by simp⟩
  rw [Rendering.exec_bind_ok htrack]
  refine ⟨r, [.inclusion n] ++ new, ?_, hm, hnew.append ?_, hfinal⟩
  · have hexec : (eng.track l path).journaled.exec (w, js ++ [.inclusion n]) =
        (.ok (), w₁, js ++ [.inclusion n]) := by
      show ((exec (eng.track l path) w).1, (exec (eng.track l path) w).2, _) = _
      rw [htrack]
    rw [Journaling.exec_bind]
    show Journaling.exec (_ >>= g) (w, js ++ [.inclusion n]) = _
    rw [Journaling.exec_bind, hexec, ← List.append_assoc]
    exact hy
  · rw [hpairs]
    exact hk

end Follows

end Journal

/-! ### Nodes that are no includes -/

namespace Interpretation

variable {eng : Engine} {m : Type → Type} [Monad m] (I : Interpretation eng m)

/-- The same answers, but nothing is tracked and no trees are given. -/
def sheltered : Interpretation eng m :=
  { I with tree := fun _ _ => I.fail .exhausted, track := fun _ _ => I.fail .exhausted }

variable (inner : Node → Place → m (String × Bool)) (limit : Nat) (p : Place) (n : Node) (g : Group)

/-- Sheltering an interpretation does not change the rounds of a loop. -/
theorem sheltered_whileHolds (written : String) :
    I.sheltered.whileHolds inner p n limit written = I.whileHolds inner p n limit written := by
  induction limit generalizing written with
  | zero => rfl
  | succ limit ih =>
    unfold whileHolds
    simp only [ih]
    rfl

/-- Nor those of a loop over a collection. -/
theorem sheltered_forEach (names : List String) (w : Walk) (written : String) :
    I.sheltered.forEach inner p n names limit w written =
      I.forEach inner p n names limit w written := by
  induction limit generalizing w written with
  | zero => rfl
  | succ limit ih =>
    unfold forEach
    simp only [ih]
    rfl

/-- Nor evaluations in a row. -/
theorem sheltered_evaluateAll (es : List Value) :
    I.sheltered.evaluateAll p n es = I.evaluateAll p n es := by
  induction es with
  | nil => rfl
  | cons e es ih =>
    unfold evaluateAll
    rw [ih]
    rfl

/-- Nor the attributes of a tag. -/
theorem sheltered_attributesOf (as : List (Value × Value)) :
    I.sheltered.attributesOf p n as g = I.attributesOf p n as g := by
  induction as generalizing g with
  | nil => rfl
  | cons a as ih =>
    unfold attributesOf
    simp only [ih]
    rfl

/-- Trees and tracking are for includes only. -/
theorem sheltered_inRole {r : Role} (hr : r ≠ .inclusion) :
    I.sheltered.inRole inner limit p n g r = I.inRole inner limit p n g r := by
  cases r with
  | inclusion => exact absurd rfl hr
  | whileLoop =>
    unfold inRole whileLoop
    rw [sheltered_whileHolds]
  | forLoop =>
    unfold inRole forLoop
    simp only [sheltered_forEach]
    rfl
  | call name =>
    unfold inRole call
    simp only [sheltered_evaluateAll]
    rfl
  | tag =>
    unfold inRole tag tagMarkup
    simp only [sheltered_attributesOf]
    rfl
  | _ => rfl

variable {n} in
/-- Nor a node that is no include. -/
theorem sheltered_node [LawfulMonad m] (hn : n.isInclusion = false)
    (hfail : ∀ {α β : Type} (f : Fault) (k : α → m β), I.fail f >>= k = I.fail f) :
    I.sheltered.node inner limit p n g = I.node inner limit p n g := by
  have hrole (k k' : Role → m (Value × Group)) (hk : ∀ r ≠ .inclusion, k r = k' r) :
      I.ofCause (Role.ofValue n.symbol) >>= k = I.ofCause (Role.ofValue n.symbol) >>= k' := by
    cases hr : Role.ofValue n.symbol with
    | error c => exact (hfail _ k).trans (hfail _ k').symm
    | ok r =>
      have hne : r ≠ .inclusion := by
        rintro rfl
        rw [Node.isInclusion_iff.mpr hr] at hn
        cases hn
      show pure r >>= k = pure r >>= k'
      rw [pure_bind, pure_bind, hk r hne]
  unfold node
  refine congrArg (ite _ _) (congrArg (ite _ _) (bind_congr fun html => ?_))
  cases html with
  | some html => rfl
  | none =>
    refine hrole _ _ fun r hr => ?_
    rw [sheltered_inRole I inner limit p n g hr]
    rfl

end Interpretation

namespace Journal

open Engine

variable {eng : Engine} {l : Option String} {st : List (Option String)}

/-- An engine that does not track keeps an empty journal. -/
def coupling (eng : Engine) (l : Option String) (st : List (Option String)) :
    Coupling eng.interpretation.sheltered eng.quietly.sheltered where
  node _ := True
  scope := Eq
  location a b := a = l ∧ b = l
  Rel R x y := Follows eng (l :: st) (l :: st) [] R x y
  children _ _ _ := trivial
  extend := Coupling.extend_eq
  pure := .pure
  bind := .bind
  fail _ := .throw _
  onHeap _ := .quiet (.onHeap _)
  enter _ _ _ := .quiet (.pure _)
  define _ _ _ := .andThen (.quiet (.pure _)) fun _ => .quiet (define_still _ _)
  evaluate _ _ hs := hs ▸ .quiet (evaluate_still _ _ _)
  mixin name position :=
    (Follows.quiet (inner_still.mixin name position)).mono fun _ _ h => ⟨h, trivial⟩
  plugin name position := .quiet (inner_still.plugin name position)
  transform name q source attributes := .quiet (inner_still.transform name q source attributes)
  text _ _ _ hl := hl.1.trans hl.2.symm ▸ .quiet (text_still _ _)
  tree _ _ _ _ := .throw _
  track _ _ _ _ := .throw _
  including _ _ _ _ hl := hl.1.trans hl.2.symm ▸ .quiet (including_still _ _ _)
  remembered? _ := .quiet (inner_still.remembered? _)
  remember html _ := .quiet (inner_still.remember _ html)

/-- The bodies go together, whatever other locations are in force. -/
def BodiesFollow (eng : Engine) (b : Body) (b' : Node → Place → Journaling (String × Bool)) :
    Prop :=
  ∀ st n p, Follows eng (p.location :: st) (p.location :: st) [] Eq (b n p) (b' n p)

section

variable {b : Body} {b' : Node → Place → Journaling (String × Bool)} (hb : BodiesFollow eng b b')
  (limit : Nat) (p : Place) {n : Node} (g : Group)
include hb

/-- A node that is no include writes nothing into the journal of its own. -/
theorem quietly_follows (hn : n.isInclusion = false) :
    Follows eng (p.location :: st) (p.location :: st) [] Eq (eng.interpretation.node b limit p n g)
      (eng.quietly.node b' limit p n g) := by
  have hbodies : (coupling eng p.location st).Bodies b b' := by
    rintro n ⟨_, _⟩ ⟨_, _⟩ - ⟨rfl, hl, hl'⟩
    obtain rfl := hl.trans hl'.symm
    exact hl ▸ hb st n _
  have h := (coupling eng p.location st).node_same g (n := n) trivial
    (p := p) (q := p) ⟨rfl, rfl, rfl⟩ hbodies limit
  rwa [eng.interpretation.sheltered_node b limit p g hn fun _ _ => rfl,
    eng.quietly.sheltered_node b' limit p g hn fun _ _ => rfl] at h

omit hb in
/-- The text of an include asks for a path that is known. -/
theorem text_follows {path : String} {known : List (Option String × String)}
    (hknown : (l, path) ∈ known) :
    Follows eng (l :: st) (l :: st) known Eq (eng.text path l) (eng.journal.text path l) := by
  refine .write (e := .asked path l) rfl ?_ (.quiet (text_still path l))
  rintro _ _ ⟨⟩
  exact hknown

omit hb in
/-- A tree is rendered at the location that is returned for it. -/
theorem tree_follows {α : Type} {Q : α → α → Prop} {path : String}
    {known : List (Option String × String)} (hknown : (l, path) ∈ known)
    {st' : List (Option String)} {f : Node × Option String → Rendering α}
    {f' : Node × Option String → Journaling α}
    (hf : ∀ t l', Follows eng (l' :: l :: st) st' known Q (f (t, l')) (f' (t, l'))) :
    Follows eng (l :: st) st' known Q (eng.tree path l >>= f) (eng.journal.tree path l >>= f') := by
  have hask : eng.journal.tree path l >>= f' = (do
      Journaling.write (.asked path l)
      let r ← (eng.tree path l).journaled
      Journaling.write (.entered r.2)
      f' r) := by
    unfold Engine.journal
    simp only [bind_assoc, pure_bind]
  rw [hask]
  refine .write (e := .asked path l) rfl ?_ ?_
  · rintro _ _ ⟨⟩
    exact hknown
  · refine .andThen (.quiet (tree_still path l)) fun (t, l') => ?_
    exact .write (e := .entered l') rfl nofun (hf t l')

/-- The tree that was entered is left at its end. -/
theorem throughTree_follows (n : Node) :
    Follows eng (p.location :: st) st [] Eq (b n p) (throughTree b' n p) := by
  rw [← bind_pure (b n p)]
  exact .andThen (hb st n p) fun r => .write (e := .left) rfl nofun (.pure rfl)

/-- An include is written into the journal, and followed. -/
theorem inclusion_follows :
    Follows eng (p.location :: st) (p.location :: st) [] Eq (eng.interpretation.inclusion b p n g)
      (Journaling.write (.inclusion n) >>= fun _ =>
        eng.journal.inclusion (throughTree b') p n g) := by
  unfold Interpretation.inclusion
  cases hpath : Markup.stripped n.content with
  | error c =>
    refine .write (e := .inclusion n) ?_ nofun (.throw _)
    simp only [pairOf, hpath]
  | ok path =>
    have hknown : (p.location, path) ∈ [(p.location, path)] := List.mem_singleton.mpr rfl
    refine .recorded hpath (.andThen (.ofCause _) fun isTree => ?_)
    cases isTree with
    | true =>
      refine tree_follows hknown fun t l' => ?_
      refine .andThen (.quiet (including_still .tree path p.location)) fun _ => ?_
      refine .andThen ?_ fun v => .pure rfl
      refine .andThen ?_ fun r => .pure rfl
      exact (throughTree_follows hb { p with location := l' } t).weaken (List.nil_subset _)
    | false =>
      rw [if_neg Bool.false_ne_true, if_neg Bool.false_ne_true]
      refine .andThen (.quiet (including_still .text path p.location)) fun _ => ?_
      exact .andThen (text_follows hknown) fun s => .pure rfl

/-- Keeping a journal does to a node what rendering it does. -/
theorem node_follows :
    Follows eng (p.location :: st) (p.location :: st) [] Eq (Render.node eng b limit p n g)
      (eng.nodeJournaled b' limit p n g) := by
  rw [← eng.interpretation_node]
  unfold nodeJournaled
  by_cases hn : n.isInclusion = true
  · rw [if_pos hn]
    unfold Interpretation.node
    have hr := Node.isInclusion_iff.mp hn
    have halternative : ¬ Role.isAlternative n.symbol = true := by
      rw [Role.isAlternative_iff, hr]
      nofun
    rw [if_neg halternative, if_neg halternative]
    by_cases hg : g.pending.isSome = true
    · rw [if_pos hg, if_pos hg]
      exact .pure rfl
    · rw [if_neg hg, if_neg hg]
      refine .andThen (.quiet (inner_still.remembered? n)) fun html => ?_
      cases html with
      | some html => exact .pure rfl
      | none =>
        rw [hr]
        exact inclusion_follows hb p g
  · rw [if_neg hn]
    exact quietly_follows hb limit p g (Bool.eq_false_iff.mpr hn)

/-- The same, for siblings one after the other. -/
theorem nodes_follow (ns : List Node) :
    Follows eng (p.location :: st) (p.location :: st) [] Eq (Render.nodes eng b limit p ns g)
      (eng.nodesJournaled b' limit p ns g) := by
  induction ns generalizing g with
  | nil => exact .pure rfl
  | cons n ns ih =>
    refine .andThen (node_follows hb limit p g) fun (v, g) => ?_
    exact .andThen (ih g) fun _ => .pure rfl

/-- The same, for a group. -/
theorem group_follows (ns : List Node) :
    Follows eng (p.location :: st) (p.location :: st) [] Eq (Render.group eng b limit p ns)
      (eng.groupJournaled b' limit p ns) := by
  refine .andThen (nodes_follow hb limit p Group.start ns) ?_
  rintro ⟨vs, isDynamic, pending⟩
  cases pending with
  | some n => exact .throw _
  | none =>
    show Follows eng _ _ [] Eq (Rendering.ofCause (Markup.join vs) >>= _)
      (eng.quietly.ofCause (Markup.join vs) >>= _)
    cases Markup.join vs with
    | ok s => exact .pure rfl
    | error c => exact .throw _

end

/-- By induction on the depth. -/
theorem bodies_follow (depth : Nat) :
    BodiesFollow eng (Render.body eng depth) (eng.bodyJournaled depth) := by
  induction depth with
  | zero => exact fun _ _ _ => .throw _
  | succ depth ih => exact fun st n p => group_follows ih depth p n.children

/-- The same, for a whole rendering of a draft. -/
theorem journalWithin_follows (eng : Engine) (depth : Nat) (d : Draft) (scope : Scope)
    (location : Option String) :
    Follows eng [location] [location] [] Eq (eng.renderWithin depth d scope location)
      (eng.journalWithin depth d scope location) := by
  by_cases hno : d = .value .none
  · subst hno
    exact .throw _
  · have hjournal : eng.journalWithin depth d scope location = (do
        let n ← (Rendering.build d.node).journaled
        return (← eng.bodyJournaled depth n ⟨scope, location⟩).1) := by
      unfold Engine.journalWithin
      split
      · exact absurd rfl hno
      · rfl
    rw [Session.renderWithin_eq hno, hjournal]
    refine .andThen (.quiet (.build _)) fun n => ?_
    exact .andThen (bodies_follow depth [] n _) fun _ => .pure rfl

end Journal

namespace Engine

variable (eng : Engine) (depth : Nat) (d : Draft) (scope : Scope) (location : Option String)
  (w : World)

/-- Keeping a journal ends as the rendering does. -/
theorem exec_journalWithin :
    (eng.journalWithin depth d scope location).exec (w, []) =
      ((exec (eng.renderWithin depth d scope location) w).1,
        (exec (eng.renderWithin depth d scope location) w).2,
        eng.journalOf depth d scope location w) := by
  obtain ⟨r, new, hy, hm, -, -⟩ :=
    Journal.journalWithin_follows eng depth d scope location w []
  rw [journalOf, hy, hm.eq]

/-- **What a rendering records is told by its journal.** -/
theorem keeps_journalOf :
    Journal.Keeps eng [location] [] w (exec (eng.renderWithin depth d scope location) w).2
      (eng.journalOf depth d scope location w) := by
  obtain ⟨r, new, hy, -, hk, -⟩ :=
    Journal.journalWithin_follows eng depth d scope location w []
  rw [journalOf, hy]
  exact hk

end Engine
end Trellis
