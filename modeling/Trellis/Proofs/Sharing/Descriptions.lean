import Trellis.Proofs.Sharing.DictForm
import Trellis.Proofs.Sharing.Sessions
import Trellis.Samples

/-!
# Proofs — Sharing — Descriptions

One tree in several forms.  A draft describes a tree if copies of the tree are built of it
(`Draft.Describes`): the draft that the tree was built of does, the tree itself and the form of the
tree as nested dictionaries.  Drafts that describe one tree are rendered alike, by whatever has been
rendered and remembered before (`Session.dict_form_survives`).

What has happened before is any number of calls and of trees built outside of calls
(`Session.Reached`).
-/

namespace Trellis

open Rendering (exec Matched)
open World (Sound Alike)

/-! ### Drafts of one tree -/

namespace Draft

variable {d : Draft} {t t' : Node}

/-- Copies of the tree are built of the draft, whatever identities are handed out. -/
def Describes (d : Draft) (t : Node) : Prop :=
  ∀ i, ∃ n j, d.node.run i = .ok (n, j) ∧ n.bare = t.bare

/-- A draft describes what is built of it. -/
theorem describes_of_run {i j : Nat} (h : d.node.run i = .ok (t, j)) : d.Describes t := by
  intro k
  have hm := d.node_bare d rfl i k
  rw [h] at hm
  rcases hr : d.node.run k with f | ⟨n, l⟩ <;> rw [hr] at hm
  · cases hm
  · cases hm with
    | ok hbare => exact ⟨n, l, rfl, hbare⟩

/-- A finished copy describes the tree. -/
theorem describes_finished (h : t'.bare = t.bare) : (finished t').Describes t :=
  fun i => ⟨t', i, rfl, h⟩

/-- What describes a tree is one. -/
theorem Describes.ne_noTree (h : d.Describes t) : d ≠ .value .none := by
  rintro rfl
  obtain ⟨n, j, hrun, -⟩ := h 0
  cases hrun

end Draft

namespace Session

variable {team : Nat → Engine} {i : Nat} {S : Set Node} {d : Draft} {t : Node}

/-- A draft is rendered as the plain engine renders the tree that it describes. -/
theorem describes_sim (hi : (team i).id = i) (depth : Nat) (hd : d.Within S) (h : d.Describes t)
    (scope : Scope) (location : Option String) :
    Sim team i S Same ((team i).renderWithin depth d scope location) fun m =>
      (team i).plain.render m t scope location := by
  have hbuild : Sim team i S Copy (Rendering.build d.node) fun _ =>
      Rendering.build (pure t : Draft.Build Node) := by
    refine Sim.build (d.node_counts S hd) fun j j' => ?_
    obtain ⟨n, k, hrun, hbare⟩ := h j
    rw [hrun]
    exact .ok hbare.symm
  rw [renderWithin_eq h.ne_noTree]
  exact hbuild.bind fun T n n' _ hn => render_sim hi depth hn.1 hn.2 scope location

/-- What can be told of a call can be told of what it is followed by. -/
theorem observe_eq_of_ends {w : World} {o o' : Except Fault String × World}
    (h : Ends team i S Same w o o') : observe i o = observe i o' := by
  obtain ⟨T, -, hm, hr, -⟩ := h
  simp only [observe, World.bareMixins, hm.eq, hr.events]
  exact congrArg _ hr.alike.mixins.symm

/-- **Drafts of one tree are rendered alike**, in sessions that an engine finds alike.  Both calls
are observed as the rendering of the tree by the plain engine is, at large depths. -/
theorem observe_eq_of_describes {team' : Nat → Engine} {S' : Set Node} {s s' : Session}
    (hi : (team i).id = i) (hi' : (team' i).id = i) (hplain : (team i).plain = (team' i).plain)
    (hs : Sound team S s.world) (hs' : Sound team' S' s'.world) (h : Apart i s s') {d d' : Draft}
    (hd : d.Within S) (hd' : d'.Within S') (ht : d.Describes t) (ht' : d'.Describes t)
    (scope : Scope) (location : Option String) {depth depth' : Nat}
    (hend : (call team depth s ⟨i, d, scope, location⟩).1 ≠ .error .exhausted)
    (hend' : (call team' depth' s' ⟨i, d', scope, location⟩).1 ≠ .error .exhausted) :
    observe i (call team depth s ⟨i, d, scope, location⟩) =
      observe i (call team' depth' s' ⟨i, d', scope, location⟩) := by
  -- both are followed in the second session
  have hr : Related team i S (s.enter i) (s'.enter i) :=
    ⟨⟨hs.1, hs.2, hs.3, hs.4⟩, ⟨h.world.1, h.world.2, h.world.3, h.world.4⟩, h.heap, rfl⟩
  have hr' : Related team' i S' (s'.enter i) (s'.enter i) :=
    ⟨⟨hs'.1, hs'.2, hs'.3, hs'.4⟩, ⟨rfl, fun _ => rfl, rfl, rfl⟩, rfl, rfl⟩
  obtain ⟨o, ⟨l, hl⟩, he⟩ :=
    (describes_sim hi depth hd ht scope location _ _ hr).resolve_left hend
  obtain ⟨o', ⟨l', hl'⟩, he'⟩ :=
    (describes_sim hi' depth' hd' ht' scope location _ _ hr').resolve_left hend'
  have ho : o = o' := by
    rw [← hl (max l l') (Nat.le_max_left _ _), hplain]
    exact hl' (max l l') (Nat.le_max_right _ _)
  rw [call, call, observe_eq_of_ends he, observe_eq_of_ends he', ho]

/-! ### Sessions that have gone on -/

/-- The session is reached from a beginning: by calls, of drafts over the nodes in `S`, which do not
run out of steps, and by building trees of such drafts, which are then in `S`. -/
inductive Reached (team : Nat → Engine) : Set Node → Session → Prop where
  | start {S : Set Node} {s : Session} (h : Begins S s []) : Reached team S s
  | call {S : Set Node} {s : Session} (h : Reached team S s) (depth : Nat) {c : Call}
      (hc : c.draft.Within S) (hend : (call team depth s c).1 ≠ .error .exhausted) :
      Reached team S (s.leave c.engine (Session.call team depth s c).2)
  | build {S : Set Node} {s : Session} (h : Reached team S s) {d : Draft} (hd : d.Within S)
      {t : Node} {next : Nat} (ht : d.node.run s.world.nextNode = .ok (t, next)) :
      Reached team (insert t S) { s with world := { s.world with nextNode := next } }

/-- Memos are as they should be, over all nodes in use. -/
theorem Reached.exists_sound (hteam : ∀ i, (team i).id = i) {s : Session}
    (h : Reached team S s) : ∃ T, S ⊆ T ∧ Sound team T s.world := by
  induction h with
  | start h => exact ⟨_, fun _ hn => hn, h.sound team⟩
  | call _ depth hc hend ih =>
    obtain ⟨T, hST, hT⟩ := ih
    obtain ⟨o, -, U, hTU, -, hr, -⟩ :=
      call_ends (hteam _) hT (Apart.refl _ _) rfl rfl (Draft.Within.mono hST _ hc) hend
    exact ⟨U, fun _ hn => hTU (hST hn), hr.sound⟩
  | build _ hd ht ih =>
    obtain ⟨T, hST, hT⟩ := ih
    obtain ⟨U, hTU, hU, hmem⟩ :=
      Draft.node_counts _ T (Draft.Within.mono hST _ hd) _ _ _ hT.census ht
    refine ⟨U, ?_, hT.grow hTU hU⟩
    rintro n (rfl | hn)
    · exact hmem
    · exact hTU (hST hn)

/-- Nothing is remembered of nodes that are new. -/
theorem memo_of_new {s : Session} (h : Sound team S s.world) {id : Nat}
    (hid : s.world.nextNode ≤ id) : s.world.memo id = ⟨none, none⟩ := by
  rw [World.memo]
  cases hm : s.world.memos.lookup id with
  | none => rfl
  | some m =>
    obtain ⟨n, hn, rfl, -⟩ := h.memos id m hm
    exact absurd (h.census.below n hn) (by omega)

/-- **Trees survive the dict form.**  Let `t` be built of `d`, in which the finished nodes are as
nodes are made.

Of the form of `t` a copy of `t` is built: the symbols, contents, attributes, positions and flags
are the same, and so are the forms of both.  Nothing is remembered of the nodes of the copy,
whatever has been rendered before.

The draft `d`, the tree `t` and any copy `t'` of it, the one that is built of the form among them,
are rendered alike by an engine: in any two sessions that it finds alike, with scopes and locations
that are equal, and whatever is remembered there of `t`. -/
theorem dict_form_survives {d : Draft} {t : Node} {i j : Nat}
    (hd : d.Within {n | n.Throughout Node.Made}) (ht : d.node.run i = .ok (t, j)) :
    (∀ team : Nat → Engine, (∀ e, (team e).id = e) → ∀ S s, Reached team S s →
      ∃ t' k, (Draft.ofValue t.toValue).node.run s.world.nextNode = .ok (t', k) ∧
        t'.bare = t.bare ∧ t'.toValue = t.toValue ∧
        t'.Throughout fun n => s.world.memo n.id = ⟨none, none⟩) ∧
    ∀ t' : Node, t'.bare = t.bare →
      ∀ x ∈ ({d, .finished t, .finished t'} : Set Draft),
      ∀ y ∈ ({d, .finished t, .finished t'} : Set Draft),
      ∀ team team' : Nat → Engine, (∀ e, (team e).id = e) → (∀ e, (team' e).id = e) →
      ∀ S S' s s', Reached team S s → Reached team' S' s' → x.Within S → y.Within S' →
      ∀ e, (team e).plain = (team' e).plain → Apart e s s' →
      ∀ scope location depth depth',
        (call team depth s ⟨e, x, scope, location⟩).1 ≠ .error .exhausted →
        (call team' depth' s' ⟨e, y, scope, location⟩).1 ≠ .error .exhausted →
        observe e (call team depth s ⟨e, x, scope, location⟩) =
          observe e (call team' depth' s' ⟨e, y, scope, location⟩) := by
  refine ⟨fun team hteam S s hs => ?_, fun t' ht' => ?_⟩
  · obtain ⟨T, -, hT⟩ := hs.exists_sound hteam
    obtain ⟨t', k, hrun, hbare, -, hnew⟩ :=
      t.renewedBy_toValue (Node.made_of_run hd ht) s.world.nextNode
    exact ⟨t', k, hrun, hbare, Node.toValue_eq_of_bare_eq hbare,
      fun n hn => memo_of_new hT (hnew n hn)⟩
  · -- all of the forms build copies of `t`, and copies are rendered alike
    have hforms : ∀ x ∈ ({d, .finished t, .finished t'} : Set Draft), x.Describes t := by
      rintro x (rfl | rfl | rfl)
      · exact Draft.describes_of_run ht
      · exact Draft.describes_finished rfl
      · exact Draft.describes_finished ht'
    intro x hx y hy team team' hteam hteam' S S' s s' hs hs' hxS hyS e hplain hapart scope location
      depth depth' hend hend'
    obtain ⟨T, hST, hT⟩ := hs.exists_sound hteam
    obtain ⟨T', hST', hT'⟩ := hs'.exists_sound hteam'
    exact observe_eq_of_describes (hteam e) (hteam' e) hplain hT hT' hapart
      (Draft.Within.mono hST _ hxS) (Draft.Within.mono hST' _ hyS) (hforms x hx) (hforms y hy)
      scope location hend hend'

/-! ### A draft with a finished node in it -/

open Samples (node leaf)

/-- A list of one tag, which is given under the other names, and which contains a finished node. -/
def mixed : Draft :=
  .list [.dict [(.text "symbol", .text "p"), (.text "attrs", .dict [(.text "id", .bool true)]),
    (.text "content", .none)] (.list [.finished (leaf 0 "b" "x")])]

/-- What is built of it. -/
def built : Node :=
  node 2 "" "" [{ node 1 "p" "" [leaf 0 "b" "x"] with attributes := [(.text "id", .bool true)] }]

/-- The description is built with the next two identities. -/
theorem mixed_run : mixed.node.run 1 = .ok (built, 3) := by
  rfl

theorem made_leaf : (leaf 0 "b" "x").Throughout Node.Made :=
  .intro ⟨rfl, Value.distinct_nil⟩ fun _ hc => nomatch hc

/-- A session may begin with the finished node in use. -/
theorem begins_leaf : Begins {leaf 0 "b" "x"} (fresh 1) [] := by
  refine begins_fresh ⟨fun n hn => ?_, fun n hn m hm => ?_, fun m hm n hn _ => ?_⟩
    fun d hd => nomatch hd
  · rw [hn]
    exact Nat.one_pos
  · rw [hn] at hm
    cases hm
  · exact hm.trans hn.symm

theorem ne_exhausted_of_toOption {o : Except Fault String} {html : String}
    (h : o.toOption = some html) : o ≠ .error .exhausted := by
  rintro rfl
  cases h

/-- Engine zero has rendered the tree once. -/
def rendered : Session :=
  (fresh 3).leave 0 (call printers 4 (fresh 3) ⟨0, .finished built, [], none⟩).2

/-- A rendering that ends leads to a session that is reached. -/
theorem reached_rendered : Reached printers {built, leaf 0 "b" "x"} rendered := by
  have hbuild : Reached printers {built, leaf 0 "b" "x"} (fresh 3) :=
    (Reached.start begins_leaf).build (d := mixed) ⟨⟨rfl, trivial⟩, trivial⟩ mixed_run
  have hrun : (call printers 4 (fresh 3) ⟨0, .finished built, [], none⟩).1.toOption =
      some "<p id=\"id\"><b>x</b></p>" := by decide +kernel
  exact hbuild.call 4 (c := ⟨0, .finished built, [], none⟩) (.inl rfl)
    (ne_exhausted_of_toOption hrun)

/-- The draft and the tree, of which markup is remembered by now, are rendered alike; and of the
form of the tree a copy is built of which nothing is remembered. -/
theorem dict_form_survives_mixed :
    (rendered.world.memo 1).html.isSome ∧
    (∃ t' k, (Draft.ofValue built.toValue).node.run rendered.world.nextNode = .ok (t', k) ∧
      t'.bare = built.bare ∧ t'.Throughout fun n => rendered.world.memo n.id = ⟨none, none⟩) ∧
    observe 0 (call printers 4 rendered ⟨0, mixed, [], none⟩) =
      observe 0 (call printers 4 rendered ⟨0, .finished built, [], none⟩) := by
  have hd : mixed.Within {n | n.Throughout Node.Made} := ⟨⟨made_leaf, trivial⟩, trivial⟩
  have hd' : mixed.Within {built, leaf 0 "b" "x"} := ⟨⟨.inr rfl, trivial⟩, trivial⟩
  obtain ⟨hform, hrender⟩ := dict_form_survives hd mixed_run
  have hrun : (call printers 4 rendered ⟨0, mixed, [], none⟩).1.toOption =
      some "<p id=\"id\"><b>x</b></p>" := by decide +kernel
  have hrun' : (call printers 4 rendered ⟨0, .finished built, [], none⟩).1.toOption =
      some "<p id=\"id\"><b>x</b></p>" := by decide +kernel
  refine ⟨by decide +kernel, ?_, ?_⟩
  · obtain ⟨t', k, hrun, hbare, -, hmemo⟩ := hform printers (fun _ => rfl) _ _ reached_rendered
    exact ⟨t', k, hrun, hbare, hmemo⟩
  · exact hrender built rfl mixed (.inl rfl) (.finished built) (.inr (.inl rfl)) printers printers
      (fun _ => rfl) (fun _ => rfl) _ _ _ _ reached_rendered reached_rendered hd' (.inl rfl) 0 rfl
      (Apart.refl 0 _) [] none 4 4 (ne_exhausted_of_toOption hrun) (ne_exhausted_of_toOption hrun')

end Session
end Trellis
