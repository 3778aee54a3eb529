import Trellis.Proofs.Markup.Joining
import Trellis.Proofs.Memos.Groups
import Trellis.Proofs.Sharing.Sessions
import Trellis.Samples

/-!
# Proofs — Groups — Concatenation

A list of siblings is rendered as its parts are, one after the other, each as a group of its own
(`Siblings.render_append`).  The group that the parts have in common passes on two things: the
condition that awaits an alternative, of which there is none when the first part has been rendered,
and whether anything depends on the scope, which decides what is remembered and nothing else.  So
the two renderings of the second part are twins (`Policy.Mirrors`).

All pieces are texts here: what plugins give is, and what has been remembered.  Such are the worlds
that calls lead to (`Session.exists_orderly`).
-/

namespace Trellis

open Rendering (exec exec_bind exec_bind_ok exec_bind_error Matched)

/-! ### Pieces that are texts -/

/-- The value is a text. -/
def Value.IsText (v : Value) : Prop :=
  ∃ s, v = .text s

/-- Texts can be joined. -/
theorem Markup.exists_join {vs : List Value} (h : ∀ v ∈ vs, v.IsText) : ∃ s, join vs = .ok s := by
  obtain ⟨ts, rfl⟩ : vs ∈ Set.range (List.map Value.text) := by
    rw [Set.range_list_map]
    exact fun v hv => (h v hv).imp fun s hs => hs.symm
  exact ⟨_, joinFrom_map_text ts 0⟩

/-- Pieces are texts, of whatever nodes and sources they are made. -/
def Policy.texts (eng : Engine) : Policy eng where
  node _ := True
  source _ := True
  content _ := True
  setting _ := True
  piece v := v.IsText
  joined _ _ := ⟨_, rfl⟩
  appended _ _ := ⟨_, rfl⟩
  included _ := ⟨_, rfl⟩
  plain _ _ _ _ _ := trivial
  escaped _ := trivial
  spaced {v u} _ h := by
    cases v with
    | text s => exact ⟨_, (Except.ok.inj h).symm⟩
    | _ => cases h
  commented {n u} _ _ h := by
    cases hc : n.content with
    | text s =>
      rw [hc] at h
      exact ⟨_, (Except.ok.inj h).symm⟩
    | _ =>
      rw [hc] at h
      cases h
  flagged _ _ _ := trivial
  emptied _ _ _ _ := trivial
  written _ _ _ _ _ _ _ := trivial
  writtenData _ _ _ _ := trivial
  tagged _ _ _ _ _ _ _ _ := ⟨_, rfl⟩

/-- An engine finds a world in order: the nodes of mixins and loaders are in use, so that an
identity stands for one node, and what plugins give and what has been remembered are texts. -/
structure Engine.Orderly (eng : Engine) (S : Set Node) (w : World) : Prop where
  census : Census S w.nextNode
  mixins : ∀ i, ∀ e ∈ w.mixinsOf i, e.2.body ∈ S
  loaders : ∀ k, (w.loader k).Within S
  plugins : ∀ name position q source attributes v,
    (eng.registryIn w).load name position = .ok q → q.call source attributes = .ok v → v.IsText
  memos : ∀ id html, eng.taken? (w.memo id) = some html → html.IsText

namespace Engine.Orderly

variable {eng : Engine} {S : Set Node} {w : World}

theorem loads (l : Loader) : (Policy.texts eng).Loads l := by
  have hb (d : Draft) : (Policy.texts eng).Builds d := fun _ _ _ _ _ _ => trivial
  cases l with
  | sources t =>
    intro e _
    cases e.2 with
    | draft v => exact hb _
    | _ => trivial
  | empty => trivial
  | custom answer =>
    intro path location wanted l _
    cases l with
    | text s => trivial
    | tree d l => exact hb d

/-- A world in order is kept by the policy that asks for texts. -/
theorem keeps (h : eng.Orderly S w) : (Policy.texts eng).Keeps w.memo S w :=
  ⟨⟨h.census, fun _ _ => trivial, h.mixins, h.loaders, fun _ => loads _, h.plugins⟩,
    fun _ => .inl rfl⟩

/-- What engines remember of one another's nodes is text. -/
theorem of_sound {team : Nat → Engine} (h : World.Sound team S w)
    (hplugins : ∀ name position q source attributes v,
      (eng.registryIn w).load name position = .ok q → q.call source attributes = .ok v → v.IsText) :
    eng.Orderly S w := by
  refine ⟨h.census, h.mixins, h.loaders, hplugins, fun id html ht => ?_⟩
  unfold Engine.taken? World.memo at ht
  cases hl : w.memos.lookup id with
  | none =>
    rw [hl] at ht
    cases (Option.ite_none_right_eq_some.mp ht).2
  | some m =>
    rw [hl] at ht
    obtain ⟨n, -, -, html', i, rfl, -, least, hfixed⟩ := h.memos id m hl
    obtain rfl : html' = html := Option.some.inj (Option.ite_none_right_eq_some.mp ht).2
    have hx := hfixed least (Nat.le_refl _) n ⟨[], none⟩ Group.start World.empty rfl rfl
    rw [Render.tag_plain, exec_bind] at hx
    split at hx
    · exact ⟨_, (congrArg Prod.fst (Except.ok.inj (Prod.mk.inj hx).1)).symm⟩
    · cases hx

end Engine.Orderly

/-! ### Worlds that calls lead to -/

namespace Session

variable {team : Nat → Engine}

/-- The session after calls. -/
def after (team : Nat → Engine) (depth : Nat) (s : Session) (calls : List Call) : Session :=
  calls.foldl (fun s c => s.leave c.engine (call team depth s c).2) s

/-- Calls keep the memos as they should be, and they register no plugins. -/
theorem after_sound (hteam : ∀ i, (team i).id = i) (depth : Nat) (calls : List Call) :
    ∀ (S : Set Node) (s : Session), World.Sound team S s.world → (∀ c ∈ calls, c.draft.Within S) →
      (∀ o ∈ run team depth s calls, o.outcome ≠ .error .exhausted) →
      ∃ T, S ⊆ T ∧ World.Sound team T (after team depth s calls).world ∧
        (after team depth s calls).world.registries = s.world.registries := by
  induction calls with
  | nil => exact fun S s hs _ _ => ⟨S, fun _ hn => hn, hs, rfl⟩
  | cons c cs ih =>
    intro S s hs hcs hend
    obtain ⟨hc, hcs⟩ := List.forall_mem_cons.mp hcs
    obtain ⟨hend, hends⟩ := List.forall_mem_cons.mp hend
    obtain ⟨o, -, T, hST, -, hr, hf⟩ :=
      call_ends (hteam _) hs (Apart.refl _ s) rfl rfl hc hend
    obtain ⟨U, hTU, hU, hreg⟩ :=
      ih T (s.leave c.engine (call team depth s c).2) hr.sound
        (fun d hd => Draft.Within.mono hST _ (hcs d hd)) hends
    exact ⟨U, fun _ hn => hTU (hST hn), hU, hreg.trans hf.registries⟩

/-- **Worlds that calls lead to are in order.** -/
theorem exists_orderly (hteam : ∀ i, (team i).id = i) {S : Set Node} {s : Session}
    {calls : List Call} (hs : Begins S s calls) {depth : Nat}
    (hend : ∀ o ∈ run team depth s calls, o.outcome ≠ .error .exhausted) (i : Nat)
    (hplugins : ∀ name position q source attributes v,
      ((team i).registryIn s.world).load name position = .ok q → q.call source attributes = .ok v →
        v.IsText) :
    ∃ T, S ⊆ T ∧ (team i).Orderly T ((after team depth s calls).enter i) := by
  obtain ⟨T, hST, hT, hreg⟩ := after_sound hteam depth calls S s (hs.sound team) hs.calls hend
  refine ⟨T, hST, .of_sound ⟨hT.1, hT.2, hT.3, hT.4⟩ ?_⟩
  have he : (team i).registryIn ((after team depth s calls).enter i) =
      (team i).registryIn s.world := by
    simp only [Engine.registryIn, enter, hreg]
  rwa [he]

end Session

/-! ### Groups of siblings -/

namespace Siblings

/-- Siblings rendered as a group, at most `depth` groups deep and `depth` times in a loop. -/
def render (eng : Engine) (p : Place) (ns : List Node) (depth : Nat) : Rendering (String × Bool) :=
  Render.group eng (Render.body eng depth) depth p ns

/-- The pieces of siblings, and the state of the group that begins with `g`. -/
def pieces (eng : Engine) (p : Place) (ns : List Node) (g : Group) (depth : Nat) :
    Rendering (List Value × Group) :=
  Render.nodes eng (Render.body eng depth) depth p ns g

/-- What is made of pieces at the end of a group. -/
def close (r : List Value × Group) : Except Fault (String × Bool) :=
  match r.2.pending with
  | some n => .error (.template .missingElse n.position)
  | none => ((Markup.join r.1).mapError .basic).map fun s => (s, r.2.isDynamic)

/-- The end of a group, after what its pieces came to. -/
def closed (o : Except Fault (List Value × Group) × World) : Except Fault (String × Bool) × World :=
  (o.1.bind close, o.2)

/-- The same with other pieces in front. -/
def closedBehind (vs : List Value) (o : Except Fault (List Value × Group) × World) :
    Except Fault (String × Bool) × World :=
  (o.1.bind fun r => close (vs ++ r.1, r.2), o.2)

variable {eng : Engine} {p : Place} {S : Set Node}

/-- A group does what its pieces do, and is then closed. -/
theorem exec_render (ns : List Node) (depth : Nat) (w : World) :
    exec (render eng p ns depth) w = closed (exec (pieces eng p ns Group.start depth) w) := by
  simp only [render, Render.group, pieces, exec_bind]
  rcases exec (Render.nodes eng (Render.body eng depth) depth p ns Group.start) w with
    ⟨f | ⟨vs, d, _ | n⟩, w₁⟩
  · rfl
  · simp only [exec_bind, Rendering.exec_ofCause, Rendering.exec_pure, Except.bind, close, closed]
    cases Markup.join vs <;> rfl
  · rfl

/-- The pieces of two parts are those of the first and then those of the second. -/
theorem pieces_append (xs ys : List Node) (depth : Nat) : ∀ g,
    pieces eng p (xs ++ ys) g depth =
      pieces eng p xs g depth >>= fun r => pieces eng p ys r.2 depth >>= fun s =>
        pure (r.1 ++ s.1, s.2) := by
  unfold pieces
  induction xs with
  | nil => intro g; simp [Render.nodes]
  | cons x xs ih => intro g; simp [Render.nodes, ih]

/-- At all depths that are large enough. -/
def Eventually {α : Type} (x : Nat → Rendering α) (w : World) (o : Except Fault α × World) : Prop :=
  ∃ least, ∀ depth ≥ least, exec (x depth) w = o

/-- The same texts with the same awaited, or the same failure, and nothing else has changed than
what is remembered. -/
structure Agree (o o' : Except Fault (List Value × Group) × World) : Prop where
  matched : Matched (Policy.Stepped (fun vs : List Value => ∀ v ∈ vs, v.IsText) ∅) o.1 o'.1
  forget : o'.2.forget = o.2.forget

/-- What agrees with a third one between agrees. -/
theorem Agree.trans {o₁ o₂ o₃ : Except Fault (List Value × Group) × World} (h : Agree o₁ o₂)
    (h' : Agree o₂ o₃) : Agree o₁ o₃ := by
  obtain ⟨r₁, w₁⟩ := o₁
  obtain ⟨r₂, w₂⟩ := o₂
  obtain ⟨r₃, w₃⟩ := o₃
  obtain ⟨hm, hf⟩ := h
  obtain ⟨hm', hf'⟩ := h'
  refine ⟨?_, hf'.trans hf⟩
  cases hm with
  | error f =>
    cases hm' with
    | error f => exact .error f
  | ok h =>
    cases hm' with
    | ok h' => exact .ok ⟨h.1.trans h'.1, h.2.1.trans h'.2.1, h.2.2⟩

theorem Agree.symm {o o' : Except Fault (List Value × Group) × World} (h : Agree o o') :
    Agree o' o := by
  obtain ⟨r, w⟩ := o
  obtain ⟨r', w'⟩ := o'
  obtain ⟨hm, hf⟩ := h
  refine ⟨?_, hf.symm⟩
  cases hm with
  | error f => exact .error f
  | ok h => exact .ok ⟨h.1.symm, h.2.1.symm, h.1 ▸ h.2.2⟩

/-- Of two that agree, both end or none does. -/
theorem Agree.ne_exhausted {o o' : Except Fault (List Value × Group) × World} (h : Agree o o')
    (ho : o.1 ≠ .error .exhausted) : o'.1 ≠ .error .exhausted := by
  intro he
  have hm := h.matched
  rw [he] at hm
  rcases hr : o.1 with f | r
  · rw [hr] at hm ho
    cases hm
    exact ho rfl
  · rw [hr] at hm
    cases hm

/-- What follows markup `a`: the same markup behind it, or the same failure, and nothing else has
changed than what is remembered. -/
structure Continues (a : String) (o o' : Except Fault (String × Bool) × World) : Prop where
  markup : o'.1.map Prod.fst = o.1.map fun r => a ++ r.1
  forget : o'.2.forget = o.2.forget

/-- Pieces behind others are joined to what they come to alone. -/
theorem Agree.continues {o o' : Except Fault (List Value × Group) × World} (h : Agree o o')
    {vs : List Value} {a : String} (ha : Markup.join vs = .ok a) :
    Continues a (closed o) (closedBehind vs o') := by
  refine ⟨?_, h.forget⟩
  obtain ⟨r, w⟩ := o
  obtain ⟨r', w'⟩ := o'
  obtain ⟨hm, -⟩ := h
  cases hm with
  | error f => rfl
  | @ok r r' hr =>
    obtain ⟨ws, d, m⟩ := r
    obtain ⟨ws', d', m'⟩ := r'
    obtain ⟨hws, hm, htexts⟩ := hr
    obtain rfl : ws = ws' := hws
    obtain rfl : m = m' := hm
    cases m with
    | some n => rfl
    | none =>
      obtain ⟨b, hb⟩ : ∃ b, Markup.join ws = .ok b := Markup.exists_join htexts
      have hab : Markup.join (vs ++ ws) = .ok (a ++ b) :=
        Markup.joinFrom_append_iff.mpr ⟨a, b, ha, hb, rfl⟩
      simp only [closed, closedBehind, Except.bind, close, hab, hb]
      rfl

/-! ### Two parts -/

section Parts

variable {w w₁ : World} {xs ys : List Node}

/-- Siblings in twin worlds. -/
theorem pieces_agree {base : Nat → Memo} (hbase : (Policy.texts eng).AdmitsBase base)
    {v : World} (hw : (Policy.texts eng).Twin base S w v) {ns : List Node}
    (hns : ∀ n ∈ ns, n ∈ S) {g : Group} (g' : Group) (hg : g.pending = g'.pending) {d : Nat}
    (hend : (exec (pieces eng p ns g d) w).1 ≠ .error .exhausted) :
    ∃ o, Eventually (pieces eng p ns g') v o ∧ Agree (exec (pieces eng p ns g d) w) o ∧
      ∃ T, S ⊆ T ∧ (Policy.texts eng).Twin base T (exec (pieces eng p ns g d) w).2 o.2 := by
  have hm := Policy.nodes_mirrors p hbase (Policy.body_mirrors hbase d) ns S g g' hns hg w v hw
  obtain ⟨o, ho, T, hST, hm, hT⟩ := hm.resolve_left hend
  exact ⟨o, ho, ⟨hm, hT.forget⟩, T, hST, hT⟩

/-- Behind a first part that ends, a group goes on as the second part does. -/
theorem exec_render_append {depth : Nat} {vs : List Value} {g : Group}
    (h : exec (pieces eng p xs Group.start depth) w = (.ok (vs, g), w₁)) :
    exec (render eng p (xs ++ ys) depth) w =
      closedBehind vs (exec (pieces eng p ys g depth) w₁) := by
  rw [exec_render, pieces_append, exec_bind_ok h, exec_bind]
  rcases exec (pieces eng p ys g depth) w₁ with ⟨f | s, w₂⟩ <;> rfl

/-- A group that has been rendered awaits nothing. -/
theorem exec_pieces_of_render {d : Nat} {a : String} {e : Bool}
    (h : exec (render eng p xs d) w = (.ok (a, e), w₁)) :
    ∃ vs g, exec (pieces eng p xs Group.start d) w = (.ok (vs, g), w₁) ∧ g.pending = none ∧
      Markup.join vs = .ok a := by
  rw [exec_render] at h
  obtain ⟨h, hw⟩ := Prod.mk.inj h
  rcases hr : exec (pieces eng p xs Group.start d) w with ⟨f | ⟨vs, e', _ | n⟩, w₂⟩
  · rw [hr] at h
    cases h
  · rw [hr] at h hw
    refine ⟨vs, ⟨e', none⟩, by rw [← hw], rfl, ?_⟩
    cases hj : Markup.join vs with
    | error c =>
      simp only [Except.bind, close, hj] at h
      cases h
    | ok s =>
      simp only [Except.bind, close, hj] at h
      cases h
      rfl
  · rw [hr] at h
    cases h

/-- A group that ends has pieces that do. -/
theorem pieces_ne_exhausted {ns : List Node} {d : Nat}
    (h : (exec (render eng p ns d) w).1 ≠ .error .exhausted) :
    (exec (pieces eng p ns Group.start d) w).1 ≠ .error .exhausted := by
  intro he
  rw [exec_render, closed, he] at h
  exact h rfl

/-- So has the first part of one. -/
theorem pieces_left_ne_exhausted {g : Group} {d : Nat}
    (h : (exec (pieces eng p (xs ++ ys) g d) w).1 ≠ .error .exhausted) :
    (exec (pieces eng p xs g d) w).1 ≠ .error .exhausted := by
  intro he
  rcases hr : exec (pieces eng p xs g d) w with ⟨r, w₁⟩
  obtain rfl : r = .error .exhausted := by rw [← he, hr]
  rw [pieces_append, exec_bind_error hr] at h
  exact h rfl

/-- Pieces of a group that awaits nothing at its end are the same at all depths at which they do not
run out of steps, and at large depths they leave one world. -/
theorem pieces_settle {base : Nat → Memo} (hbase : (Policy.texts eng).AdmitsBase base)
    (hw : (Policy.texts eng).Twin base S w w) {ns : List Node} (hns : ∀ n ∈ ns, n ∈ S) {d : Nat}
    {vs : List Value} {g : Group}
    (h : exec (pieces eng p ns Group.start d) w = (.ok (vs, g), w₁)) (hg : g.pending = none) :
    ∃ g' v, Eventually (pieces eng p ns Group.start) w (.ok (vs, g'), v) ∧ g'.pending = none ∧
      ∀ e, (exec (pieces eng p ns Group.start e) w).1 ≠ .error .exhausted →
        ∃ g'' u T, exec (pieces eng p ns Group.start e) w = (.ok (vs, g''), u) ∧
          g''.pending = none ∧ S ⊆ T ∧ (Policy.texts eng).Twin base T u v := by
  have hend : (exec (pieces eng p ns Group.start d) w).1 ≠ .error .exhausted := by simp [h]
  obtain ⟨⟨r, v⟩, ⟨m, hm⟩, ⟨ha, -⟩, -⟩ := pieces_agree hbase hw hns Group.start rfl hend
  rw [h] at ha
  cases ha with
  | @ok _ r hr =>
    obtain ⟨vs', g'⟩ := r
    obtain ⟨hvs, hp, -⟩ := hr
    obtain rfl : vs = vs' := hvs
    have hg' : g'.pending = none := hp.symm.trans hg
    refine ⟨g', v, ⟨m, hm⟩, hg', fun e he => ?_⟩
    obtain ⟨o, ⟨k, hk⟩, ⟨ha, -⟩, T, hST, hT⟩ := pieces_agree hbase hw hns Group.start rfl he
    -- at large depths there is one outcome only
    obtain rfl : o = (.ok (vs, g'), v) :=
      (hk (max m k) (Nat.le_max_right _ _)).symm.trans (hm (max m k) (Nat.le_max_left _ _))
    rcases hr : exec (pieces eng p ns Group.start e) w with ⟨r, u⟩
    rw [hr] at ha hT
    cases ha with
    | @ok r _ h =>
      obtain ⟨vs', g''⟩ := r
      obtain ⟨hvs, hp, -⟩ := h
      obtain rfl : vs' = vs := hvs
      exact ⟨g'', u, T, rfl, hp.trans hg', hST, hT⟩

/-- **Siblings are rendered part by part.**  In a world that the engine finds in order, the group
`xs` is rendered to `a`.  Then the group `xs ++ ys` is rendered to `a` with what the group `ys` is
rendered to in the world that `xs` leaves, or it fails as `ys` does there; and both leave the same
mixins, heap, sources and events, in the same order.  Whichever of them does not run out of steps,
the other does not at all depths that are large enough. -/
theorem render_append (hw : eng.Orderly S w) (hxs : ∀ n ∈ xs, n ∈ S) (hys : ∀ n ∈ ys, n ∈ S)
    {d : Nat} {a : String} {b : Bool} (hx : exec (render eng p xs d) w = (.ok (a, b), w₁)) :
    (∀ e, (exec (render eng p ys e) w₁).1 ≠ .error .exhausted →
      ∃ o, Eventually (render eng p (xs ++ ys)) w o ∧ Continues a (exec (render eng p ys e) w₁) o) ∧
    ∀ e, (exec (render eng p (xs ++ ys) e) w).1 ≠ .error .exhausted →
      ∃ o, Eventually (render eng p ys) w₁ o ∧
        Continues a o (exec (render eng p (xs ++ ys) e) w) := by
  have hbase : (Policy.texts eng).AdmitsBase w.memo := hw.memos
  obtain ⟨vs, g, hp, hg, hj⟩ := exec_pieces_of_render hx
  obtain ⟨g', v, ⟨m, hm⟩, hg', hall⟩ := pieces_settle hbase (.refl hw.keeps) hxs hp hg
  -- at the depth of the hypothesis the first part leaves `w₁`, which is a twin of `v`
  obtain ⟨T, hST, hT⟩ : ∃ T, S ⊆ T ∧ (Policy.texts eng).Twin w.memo T w₁ v := by
    obtain ⟨g'', u, T, hu, -, hST, hT⟩ := hall d (by simp [hp])
    obtain rfl : u = w₁ := (Prod.mk.inj (hu.symm.trans hp)).2
    exact ⟨T, hST, hT⟩
  refine ⟨fun e he => ?_, fun e he => ?_⟩
  · -- `ys` behind the first part at large depths
    obtain ⟨o, ⟨k, hk⟩, ha, -⟩ := pieces_agree hbase hT (fun n hn => hST (hys n hn)) g' hg'.symm
      (pieces_ne_exhausted he)
    refine ⟨closedBehind vs o, ⟨max m k, fun depth hd => ?_⟩, ?_⟩
    · rw [exec_render_append (hm depth (Nat.le_trans (Nat.le_max_left _ _) hd)),
        hk depth (Nat.le_trans (Nat.le_max_right _ _) hd)]
    · rw [exec_render]
      exact ha.continues hj
  · -- from depth `e` to large depths behind the first part, and from there to the world it leaves
    obtain ⟨g'', u, U, hu, hg'', hSU, hU⟩ :=
      hall e (pieces_left_ne_exhausted (pieces_ne_exhausted he))
    have hend : (exec (pieces eng p ys g'' e) u).1 ≠ .error .exhausted := by
      intro hx
      rw [exec_render_append hu, closedBehind, hx] at he
      exact he rfl
    obtain ⟨o, ⟨k, hk⟩, ha, -⟩ := pieces_agree hbase hU (fun n hn => hSU (hys n hn))
      Group.start hg'' hend
    obtain rfl := hk k (Nat.le_refl k)
    obtain ⟨o', ⟨l, hl⟩, ha', -⟩ := pieces_agree hbase hT.symm (fun n hn => hST (hys n hn))
      Group.start rfl (ha.ne_exhausted hend)
    refine ⟨closed o', ⟨l, fun depth hd => by rw [exec_render, hl depth hd]⟩, ?_⟩
    rw [exec_render_append hu]
    exact (ha.trans ha').symm.continues hj

open Samples (node leaf)

/-- Engines whose expressions stand for themselves. -/
def speakers (i : Nat) : Engine :=
  { Samples.engine i with evaluation := Samples.verbatim }

/-- A condition that fails, as nothing is written there. -/
def failing : Node :=
  node 0 "if" "" [leaf 1 "b" ""]

/-- An alternative with a tag. -/
def otherwise : Node :=
  node 2 "else" "" [leaf 3 "i" ""]

/-- An alternative at the front, a tag that the first alternative contains too, and one that depends
on the scope. -/
def rest : List Node :=
  [otherwise, leaf 3 "i" "", leaf 4 "u" "= v"]

/-- The nodes of both parts. -/
def parts : Set Node :=
  {n | n = failing ∨ n = otherwise ∨ n = leaf 1 "b" "" ∨ n = leaf 3 "i" "" ∨ n = leaf 4 "u" "= v"}

/-- A session may begin with the nodes of both parts in use. -/
theorem begins_parts : Session.Begins parts (Session.fresh 6) [] := by
  refine Session.begins_fresh ⟨fun n hn => ?_, fun n hn m hm => ?_, fun m hm n hn h => ?_⟩
    fun d hd => nomatch hd
  · show n.id < 6
    rcases hn with rfl | rfl | rfl | rfl | rfl <;> decide
  · rcases hn with rfl | rfl | rfl | rfl | rfl
    · exact .inr (.inr (.inl (by simpa [failing, node] using hm)))
    · exact .inr (.inr (.inr (.inl (by simpa [otherwise, node] using hm))))
    all_goals cases hm
  · rcases hm with rfl | rfl | rfl | rfl | rfl <;> rcases hn with rfl | rfl | rfl | rfl | rfl <;>
      first | rfl | cases h

/-- Its world is in order. -/
theorem orderly_parts :
    ∃ T, parts ⊆ T ∧ (speakers 0).Orderly T ((Session.fresh 6).enter 0) := by
  refine @Session.exists_orderly speakers (fun _ => rfl) _ _ _ begins_parts 0
    (fun o ho => nomatch ho) 0 fun name position q source attributes v hq => ?_
  simp [Engine.registryIn, Session.fresh, World.empty, Registry.empty, Registry.load, speakers,
    Samples.engine, Config.default] at hq

/-- An alternative is taken in the first part, and stands alone at the front of the second. -/
theorem render_append_alternative :
    (exec (render (speakers 0) ⟨[], none⟩ [failing, otherwise] 2) ((Session.fresh 6).enter 0)).1 =
      .ok ("<i></i>", true) ∧
    ∃ o, Eventually (render (speakers 0) ⟨[], none⟩ ([failing, otherwise] ++ rest))
        ((Session.fresh 6).enter 0) o ∧
      o.1.map Prod.fst = .ok "<i></i><i></i><u>v</u>" := by
  have hx : (exec (render (speakers 0) ⟨[], none⟩ [failing, otherwise] 2)
      ((Session.fresh 6).enter 0)).1 = .ok ("<i></i>", true) := by cbv
  have hy : (exec (render (speakers 0) ⟨[], none⟩ rest 2)
      (exec (render (speakers 0) ⟨[], none⟩ [failing, otherwise] 2)
        ((Session.fresh 6).enter 0)).2).1 = .ok ("<i></i><u>v</u>", true) := by cbv
  rcases hr : exec (render (speakers 0) ⟨[], none⟩ [failing, otherwise] 2)
    ((Session.fresh 6).enter 0) with ⟨r, w₁⟩
  rw [hr] at hx hy
  obtain rfl : r = .ok ("<i></i>", true) := hx
  have hend : (exec (render (speakers 0) ⟨[], none⟩ rest 2) w₁).1 ≠ .error .exhausted := by
    rw [hy]
    simp
  obtain ⟨T, hT, horderly⟩ := orderly_parts
  have hxs : ∀ n ∈ [failing, otherwise], n ∈ T := fun n hn => hT (by simp [parts] at *; tauto)
  have hys : ∀ n ∈ rest, n ∈ T := fun n hn => hT (by simp [rest, parts] at *; tauto)
  obtain ⟨o, ho, ⟨hmarkup, -⟩⟩ := (render_append horderly hxs hys hr).1 2 hend
  refine ⟨rfl, o, ho, ?_⟩
  rw [hmarkup, hy]
  rfl

end Parts

end Siblings
end Trellis
