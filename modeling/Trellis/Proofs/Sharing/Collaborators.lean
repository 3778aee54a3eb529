import Trellis.Proofs.Sharing.Simulation

/-!
# Proofs — Sharing — Collaborators

What an engine asks of others, followed in a world of its own: evaluation, mixins, loaders, plugins
and trackers.  The answers are the same up to identities, and what they change, the world's own copy
changes alike.
-/

namespace Trellis

open Rendering (exec exec_bind exec_bind_ok exec_bind_error Matched)
open Draft (Build Counts)
open World (Sound Alike Frame)

/-- An array with another element in a place has it there, if there is such a place. -/
theorem getD_setIfInBounds {α : Type} (xs : Array α) (i j : Nat) (a d : α) :
    (xs.setIfInBounds i a).getD j d = if j = i ∧ i < xs.size then a else xs.getD j d := by
  simp only [Array.getD_eq_getD_getElem?, Array.getElem?_setIfInBounds]
  grind

/-- What holds of the first outcome may be used as well. -/
theorem Rendering.Matched.and {α β : Type} {R : α → β → Prop} {P : α → Prop} {r : Except Fault α}
    {r' : Except Fault β} (h : Matched R r r') (hP : ∀ a, r = .ok a → P a) :
    Matched (fun a b => P a ∧ R a b) r r' := by
  cases h with
  | ok h => exact .ok ⟨hP _ rfl, h⟩
  | error f => exact .error f

variable {team : Nat → Engine} {i : Nat} {S : Set Node} {α β : Type}

namespace Sim

/-- What is built of copies, with whatever identities. -/
theorem build {P : Set Node → α → Prop} {Q : α → β → Prop} {b : Build α} {b' : Build β}
    (hc : Counts S P b)
    (hm : ∀ j j', Matched (fun r r' => Q r.1 r'.1) (b.run j) (b'.run j')) :
    Sim team i S (fun T a a' => P T a ∧ Q a a') (Rendering.build b) fun _ =>
      Rendering.build b' := by
  refine of_ends fun w v hw => ?_
  rw [Rendering.exec_build, Rendering.exec_build]
  have hm := hm w.nextNode v.nextNode
  generalize hr : b.run w.nextNode = r at hm ⊢
  generalize b'.run v.nextNode = r' at hm ⊢
  cases hm with
  | error f => exact .of_matched hw (.error f)
  | @ok a a' h =>
      obtain ⟨T, hST, hT, hP⟩ := hc _ a.1 a.2 hw.sound.census hr
      exact ⟨T, hST, .ok ⟨hP, h⟩, ⟨hw.sound.grow hST hT, ⟨hw.alike.1, hw.alike.2, hw.alike.3,
        hw.alike.4⟩, hw.heap, hw.events⟩, rfl, fun _ => rfl, rfl, fun _ _ => rfl⟩

/-- The nodes of drafts that are copies. -/
theorem node {d d' : Draft} (hd : d.Within S) (h : d'.bare = d.bare) :
    Sim team i S Copy (Rendering.build d.node) fun _ => Rendering.build d'.node :=
  build (d.node_counts S hd) (d.node_bare d' h)

end Sim

namespace Engine

/-! ### Evaluation -/

/-- Evaluations are the same: they see the heap and the scope. -/
theorem evaluate_sim (scope : Scope) (position text : Value) :
    Sim team i S Same ((team i).evaluate scope position text) fun _ =>
      (team i).plain.evaluate scope position text :=
  (Sim.note _).bind_same fun _ _ _ => Sim.onHeap _

/-- Escape functions see neither. -/
theorem escape_sim (v : Value) :
    Sim team i S Same ((team i).escape v) fun _ => (team i).plain.escape v :=
  Sim.ofCause _

/-! ### Mixins -/

variable (hi : (team i).id = i)
include hi

/-- A mixin is found by both, up to identities. -/
theorem mixin?_sim (name : String) :
    Sim team i S
      (fun T m m' => m'.map Mixin.bare = m.map Mixin.bare ∧ ∀ d, m = some d → d.body ∈ T)
      ((team i).mixin? name) fun _ => (team i).plain.mixin? name := by
  refine Sim.of_outcome (r := fun w => .ok (Table.get? name (w.mixinsOf (team i).id)))
    (fun _ => rfl) (fun _ => rfl) fun w v hw => .ok ⟨?_, fun d hd => ?_⟩
  · show Option.map _ (Table.get? name (v.mixinsOf (team i).id)) = _
    rw [hi, ← Table.get?_map, ← Table.get?_map]
    exact congrArg (Table.get? name) hw.alike.mixins
  · rw [hi] at hd
    exact hw.sound.mixins i _ (Table.mem_of_get? hd)

omit hi in
/-- Only the mixins that are put in change. -/
theorem mixinsOf_set (w : World) (k j : Nat) (t : List (String × Mixin)) :
    World.mixinsOf { w with mixins := w.mixins.setIfInBounds k t } j =
      if j = k ∧ k < w.mixins.size then t else w.mixinsOf j :=
  getD_setIfInBounds _ _ _ _ _

/-- Both tables of mixins get the definition, and stay copies of each other. -/
theorem define_sim (name : String) {m m' : Mixin} (hm : m'.bare = m.bare) (hS : m.body ∈ S) :
    Sim team i S Same ((team i).define name m) fun _ => (team i).plain.define name m' := by
  have hp : m'.params = m.params := (Mixin.bare_eq_iff.mp hm).2
  refine (mixin?_sim hi name).bind fun T k k' hST hk => ?_
  -- whether the name is defined again is noted, and is the same for both
  have hk' : k'.isSome = k.isSome := by
    have := congrArg Option.isSome hk.1
    simpa using this
  rw [hk', hp]
  refine (Sim.note _).bind_same fun U _ hTU => Sim.of_ends fun w v hw => ?_
  rw [Rendering.exec_modify, Rendering.exec_modify]
  show Ends team i U Same w (_, { w with mixins := w.mixins.setIfInBounds (team i).id _ })
    (_, { v with
      mixins := v.mixins.setIfInBounds (team i).id (Table.put name m' (v.mixinsOf (team i).id)) })
  rw [hi]
  have hs := hw.sound
  have ha := hw.alike
  refine ⟨U, fun _ hn => hn, .ok rfl, ⟨⟨hs.census, hs.memos, fun j e he => ?_, hs.loaders⟩,
    ⟨ha.registries, ha.loaders, ?_, ?_⟩, hw.heap, hw.events⟩, rfl, fun _ => rfl, ?_, fun j hj => ?_⟩
  · rw [mixinsOf_set] at he
    split at he
    · rcases Table.eq_or_mem_of_mem_put he with rfl | he
      · exact hTU (hST hS)
      · exact hs.mixins i e he
    · exact hs.mixins j e he
  · simpa using ha.size
  · simp only [World.bareMixins, mixinsOf_set, ha.size, true_and]
    split
    · rw [← Table.put_map, ← Table.put_map, hm]
      exact congrArg _ ha.mixins
    · exact ha.mixins
  · simp
  · rw [mixinsOf_set, if_neg fun h => hj h.1]

/-! ### Loading -/

omit hi

/-- A loader that is set to one of the same answers leaves all answers as they are. -/
theorem answers_set {ls : Array Loader} {k : Nat} {l : Loader}
    (h : l.answers = (ls.getD k .empty).answers) (j : Nat) :
    ((ls.setIfInBounds k l).getD j .empty).answers = (ls.getD j .empty).answers := by
  rw [getD_setIfInBounds]
  split
  · next hj => rw [h, hj.1]
  · rfl

/-- What a loader gives: with nodes in use, and of which the other gives a copy. -/
abbrev Given : Set Node → Loaded → Loaded → Prop :=
  fun T l l' => l.Within T ∧ l'.bare = l.bare

/-- From sources of the same answers, the same is loaded up to identities, and the answers stay. -/
theorem loadFrom_ends {w v : World} (hw : Related team i S w v) {number : Nat} {t t' : Sources}
    (ht : w.loader number = .sources t) (ht' : v.loader number = .sources t')
    (path canonical : String) (wanted : Wanted) :
    Ends team i S Given w (exec (loadFrom number t path canonical wanted) w)
      (exec (loadFrom number t' path canonical wanted) v) := by
  have ha : t'.answer? = t.answer? := by
    have := hw.alike.loaders number
    rw [ht, ht'] at this
    exact Loader.Answers.stored.inj this
  have hin : t.Within S := by
    have := hw.sound.loaders number
    rwa [ht] at this
  -- the two differ in the identities that are next, and so in those that are given
  have hm := Sources.load_matched (congrFun ha canonical) w.nextNode v.nextNode
  simp only [loadFrom, exec_bind, Rendering.exec_build]
  generalize hr : (t.load canonical).run w.nextNode = r at hm ⊢
  generalize hr' : (t'.load canonical).run v.nextNode = r' at hm ⊢
  cases hm with
  | error f => exact .of_matched hw (.error f)
  | @ok a a' h =>
      obtain ⟨⟨s, u⟩, j⟩ := a
      obtain ⟨⟨s', u'⟩, j'⟩ := a'
      obtain ⟨T, hST, hT, hs, hu⟩ := Sources.load_counts hin canonical _ _ _ hw.sound.census hr
      -- a draft that is built in its place is answered as it was before
      have hk : Loader.answers (.sources u) = (w.loader number).answers := by
        rw [ht]
        exact congrArg Loader.Answers.stored (funext (Sources.load_answer? hr))
      have hk' : Loader.answers (.sources u') = (v.loader number).answers := by
        rw [ht']
        exact congrArg Loader.Answers.stored (funext (Sources.load_answer? hr'))
      have hserved : Matched (Given T) (Loader.serve path wanted canonical s)
          (Loader.serve path wanted canonical s') := by
        refine Matched.and (.of_map_eq ?_) fun l hl => Loader.serve_within hs hl
        rw [← Loader.serve_bare, ← Loader.serve_bare, h]
      have hg := hw.sound.grow hST hT
      simp only [Rendering.exec_modify, Rendering.exec_ofExcept]
      refine ⟨T, hST, hserved, ⟨⟨hg.census, hg.memos, hg.mixins, fun k => ?_⟩,
        ⟨hw.alike.registries, fun k => ?_, hw.alike.size, hw.alike.mixins⟩, hw.heap, hw.events⟩,
        rfl, answers_set hk, rfl, fun _ _ => rfl⟩
      · show ((w.loaders.setIfInBounds number (.sources u)).getD k .empty).Within T
        rw [getD_setIfInBounds]
        split
        · exact hu
        · exact hg.loaders k
      · exact (answers_set hk' k).trans ((hw.alike.loaders k).trans (answers_set hk k).symm)

/-- Loaders answer alike, and their trees are copies. -/
theorem load_sim (number : Nat) (path : String) (location : Option String) (wanted : Wanted) :
    Sim team i S Given (load number path location wanted) fun _ =>
      load number path location wanted := by
  intro w v hw
  simp only [load, exec_bind, Rendering.exec_get]
  have ha := hw.alike.loaders number
  have hs := hw.sound.loaders number
  unfold World.loader at ha hs
  generalize hl : w.loaders.getD number .empty = l at ha hs ⊢
  generalize hl' : v.loaders.getD number .empty = l' at ha ⊢
  -- loaders of the same answers are of the same kind
  cases l with
  | sources t =>
      cases l' with
      | sources t' =>
          refine .inr ⟨_, ⟨0, fun _ _ => rfl⟩, ?_⟩
          exact (loadFrom_ends (hw.note _) hl hl' _ _ _).later (fun _ hn => hn)
            ⟨rfl, fun _ => rfl, rfl, fun _ _ => rfl⟩
      | _ => cases ha
  | empty =>
      cases l' with
      | empty => exact ((Sim.note _).bind_same fun _ _ _ => Sim.throw _) w v hw
      | _ => cases ha
  | custom answer =>
      cases l' with
      | custom answer' =>
          have h := congrFun (congrFun (congrFun (Loader.Answers.custom.inj ha) path) location) wanted
          exact Sim.ofExcept ((Matched.of_map_eq h).and fun l hl => hs _ _ _ l hl) w v hw
      | _ => cases ha

/-- So do requests. -/
theorem request_sim (path : String) (location : Option String) (wanted : Wanted) :
    Sim team i S Given ((team i).request path location wanted) fun _ =>
      (team i).plain.request path location wanted := by
  have hl : (team i).plain.loader = (team i).loader := rfl
  unfold request
  rw [hl]
  cases (team i).loader with
  | none => exact Sim.throw _
  | some number => exact (Sim.note _).bind_same fun _ _ _ => load_sim number path location wanted

/-- The same text is included. -/
theorem text_sim (path : String) (location : Option String) :
    Sim team i S Same ((team i).text path location) fun _ =>
      (team i).plain.text path location := by
  refine (request_sim path location .text).bind fun T a a' _ ha => ?_
  cases a with
  | text s =>
      cases a' with
      | text s' => exact Sim.pure (Loaded.text.inj ha.2).symm
      | tree d' l' => cases ha.2
  | tree d l =>
      cases a' with
      | text s' => cases ha.2
      | tree d' l' => exact Sim.throw _

/-- The same tree is included, up to identities. -/
theorem tree_sim (path : String) (location : Option String) :
    Sim team i S (fun T r r' => r.1 ∈ T ∧ r'.1.bare = r.1.bare ∧ r'.2 = r.2)
      ((team i).tree path location) fun _ => (team i).plain.tree path location := by
  refine (request_sim path location .tree).bind fun T a a' _ ha => ?_
  cases a with
  | text s =>
      cases a' with
      | text s' => exact Sim.throw _
      | tree d' l' => cases ha.2
  | tree d l =>
      cases a' with
      | text s' => cases ha.2
      | tree d' l' =>
          obtain ⟨hd, hl⟩ := Loaded.tree.inj ha.2
          refine (Sim.node ha.1 hd).bind fun U n n' _ hn => ?_
          exact Sim.pure ⟨hn.1, hn.2, hl⟩

/-- Tracking is the same. -/
theorem track_sim (location : Option String) (path : String) :
    Sim team i S Same ((team i).track location path) fun _ =>
      (team i).plain.track location path := by
  have ht : (team i).plain.tracker = (team i).tracker := rfl
  unfold track
  rw [ht]
  cases (team i).tracker with
  | none => exact Sim.pure rfl
  | some number =>
      refine (Sim.note _).bind_same fun T _ _ => Sim.of_ends fun w v hw => ?_
      exact ⟨T, fun _ hn => hn, .ok rfl, ⟨⟨hw.sound.1, hw.sound.2, hw.sound.3, hw.sound.4⟩,
        ⟨hw.alike.1, hw.alike.2, hw.alike.3, hw.alike.4⟩, hw.heap, hw.events⟩, rfl, fun _ => rfl,
        rfl, fun _ _ => rfl⟩

/-! ### Plugins -/

/-- The same plugins are found. -/
theorem plugin_sim (name : String) (position : Value) :
    Sim team i S Same ((team i).plugin name position) fun _ =>
      (team i).plain.plugin name position := by
  let found (w : World) : Except Fault Plugin :=
    (w.registries.getD (team i).registry (Registry.empty (team i).config.packagePrefix)).load
      name position
  have hf (w v : World) (hw : Related team i S w v) :
      Matched (Same S) (found w) (found v) := by
    have h : found v = found w := by simp only [found, hw.alike.registries]
    rw [h]
    exact Matched.same _
  refine Sim.of_outcome (fun w => ?_) (fun v => ?_) hf
  · simp only [plugin, plugins, exec_bind, Rendering.exec_get, Rendering.exec_pure,
      Rendering.exec_ofExcept, found]
  · simp only [plugin, plugins, exec_bind, Rendering.exec_get, Rendering.exec_pure,
      Rendering.exec_ofExcept, found]
    rfl

end Engine
end Trellis
