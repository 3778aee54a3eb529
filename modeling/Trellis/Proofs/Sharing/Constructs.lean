import Trellis.Proofs.Sharing.Collaborators

/-!
# Proofs — Sharing — Constructs

The constructs of a template, rendered by an engine that shares its world and followed by the plain
engine in a world of its own (`Sim`), provided that the bodies are (`FollowsBody`).  Memos play no
part in them: each passes on what its parts do.
-/

namespace Trellis

open Rendering (exec exec_bind exec_bind_ok Matched)

namespace Node

/-- Copies differ in their identity and their children only. -/
theorem exists_of_bare_eq {m n : Node} (h : m.bare = n.bare) :
    ∃ id children, m = { n with id, children } :=
  ⟨m.id, m.children, eq_of_bare_eq h⟩

end Node

/-- The states of a group in two renderings: the conditions that await an alternative are at the
same position. -/
structure Group.Alike (g g' : Group) : Prop where
  isDynamic : g'.isDynamic = g.isDynamic
  pending : g'.pending.map Node.position = g.pending.map Node.position

namespace Group.Alike

variable {g g' : Group}

/-- Groups that are alike await an alternative together. -/
theorem isSome (h : g.Alike g') : g'.pending.isSome = g.pending.isSome := by
  have := congrArg Option.isSome h.pending
  simpa using this

theorem isNone (h : g.Alike g') : g'.pending.isNone = g.pending.isNone := by
  have := congrArg Option.isNone h.pending
  simpa using this

/-- Marking groups as dynamic keeps them alike. -/
theorem dynamic (h : g.Alike g') : g.dynamic.Alike g'.dynamic :=
  ⟨rfl, h.pending⟩

/-- So does settling what they await. -/
theorem settle (g g' : Group) : g.settle.Alike g'.settle :=
  ⟨rfl, rfl⟩

/-- So does awaiting an alternative of a copy. -/
theorem await (g g' : Group) {n n' : Node} (h : n'.bare = n.bare) :
    (g.await n).Alike (g'.await n') := by
  obtain ⟨k, cs, rfl⟩ := Node.exists_of_bare_eq h
  exact ⟨rfl, rfl⟩

end Group.Alike

/-- Equal results, and groups that are alike afterwards. -/
abbrev Stepped {α : Type} : Set Node → α × Group → α × Group → Prop :=
  fun _ r r' => r.1 = r'.1 ∧ r.2.Alike r'.2

variable {team : Nat → Engine} {i : Nat}

/-- After a step in a group, what follows is about one result and groups that are alike. -/
theorem Sim.bind_stepped {S : Set Node} {α γ δ : Type} {Q : Set Node → γ → δ → Prop}
    {x : Rendering (α × Group)} {y : Nat → Rendering (α × Group)} {f : α × Group → Rendering γ}
    {h : Nat → α × Group → Rendering δ} (hx : Sim team i S Stepped x y)
    (hf : ∀ T a g g', S ⊆ T → g.Alike g' →
      Sim team i T Q (f (a, g)) fun depth => h depth (a, g')) :
    Sim team i S Q (x >>= f) fun depth => y depth >>= h depth := by
  refine hx.bind fun T r r' hST hr => ?_
  obtain ⟨a, g⟩ := r
  obtain ⟨a', g'⟩ := r'
  obtain ⟨rfl, hg⟩ := hr
  exact hf T a g g' hST hg

/-- What `body` makes of a node in use, the bodies of the plain engine make of a copy. -/
def FollowsBody (team : Nat → Engine) (i : Nat) (body : Body) : Prop :=
  ∀ S n n' p, n ∈ S → n'.bare = n.bare →
    Sim team i S Same (body n p) fun depth => Render.body (team i).plain depth n' p

namespace Render

variable {S : Set Node} {n n' : Node} {g g' : Group} {body : Body} (p : Place)

/-! ### Expressions -/

/-- An evaluation for a copy is one for the node. -/
theorem evaluate_sim (hc : n'.bare = n.bare) (t : Value) :
    Sim team i S Same (evaluate (team i) p n t) fun _ => evaluate (team i).plain p n' t := by
  obtain ⟨k, cs, rfl⟩ := Node.exists_of_bare_eq hc
  exact Engine.evaluate_sim p.scope n.position t

/-- So is a test. -/
theorem test_sim (hc : n'.bare = n.bare) (t : Value) :
    Sim team i S Same (test (team i) p n t) fun _ => test (team i).plain p n' t := by
  refine (evaluate_sim p hc t).bind_same fun T v _ => ?_
  exact Sim.onHeap _

/-- So are evaluations in a row. -/
theorem evaluateAll_sim (hc : n'.bare = n.bare) (es : List Value) :
    ∀ S, Sim team i S Same (evaluateAll (team i) p n es) fun _ =>
      evaluateAll (team i).plain p n' es := by
  induction es with
  | nil => exact fun S => Sim.pure rfl
  | cons e es ih =>
      intro S
      refine (evaluate_sim p hc e).bind_same fun T v _ => ?_
      refine (ih T).bind_same fun U vs _ => ?_
      exact Sim.pure rfl

/-! ### Content -/

/-- The content of a copy is written alike. -/
theorem content_sim (hc : n'.bare = n.bare) (hg : g.Alike g') :
    Sim team i S Stepped (content (team i) p n g) fun _ => content (team i).plain p n' g' := by
  obtain ⟨k, cs, rfl⟩ := Node.exists_of_bare_eq hc
  refine Sim.ite n.unescaped (fun _ => ?_) fun _ => ?_
  · refine (Engine.escape_sim _).bind_same fun T v _ => ?_
    exact Sim.pure ⟨rfl, hg⟩
  · refine (Sim.ofCause _).bind_same fun T s _ => ?_
    dsimp only
    cases Header.expression? s with
    | none => exact Sim.pure ⟨rfl, hg⟩
    | some e =>
        refine (evaluate_sim p hc _).bind_same fun U v _ => ?_
        refine (Sim.onHeap _).bind_same fun V t _ => ?_
        refine (Engine.escape_sim _).bind_same fun W h _ => ?_
        exact Sim.pure ⟨rfl, hg.dynamic⟩

/-- So is a text. -/
theorem text_sim (hc : n'.bare = n.bare) (hg : g.Alike g') :
    Sim team i S Stepped (text (team i) p n g) fun _ => text (team i).plain p n' g' := by
  refine (content_sim p hc hg).bind_stepped fun T v g g' _ hg => ?_
  refine (Sim.ofCause _).bind_same fun U t _ => ?_
  exact Sim.pure ⟨rfl, hg⟩

/-- So is a comment. -/
theorem comment_sim (hc : n'.bare = n.bare) (hg : g.Alike g') :
    Sim team i S Stepped (comment n g) fun _ => comment n' g' := by
  obtain ⟨k, cs, rfl⟩ := Node.exists_of_bare_eq hc
  refine (Sim.ofCause _).bind_same fun T t _ => ?_
  exact Sim.pure ⟨rfl, hg⟩

/-! ### Control -/

variable (hb : FollowsBody team i body)
include hb

/-- What stands inside a copy is written alike, since bodies are. -/
theorem inside_sim (hn : n ∈ S) (hc : n'.bare = n.bare) :
    Sim team i S Same (inside body n p) fun depth =>
      inside (Render.body (team i).plain depth) n' p := by
  refine (hb S n n' p hn hc).bind_same fun T r _ => ?_
  exact Sim.pure rfl

/-- A condition decides alike. -/
theorem condition_sim (hn : n ∈ S) (hc : n'.bare = n.bare) (hg : g.Alike g') :
    Sim team i S Stepped (condition (team i) body p n g) fun depth =>
      condition (team i).plain (Render.body (team i).plain depth) p n' g' := by
  refine Sim.bind_same ?_ fun T c hST => Sim.ite c (fun _ => ?_) fun _ => ?_
  · obtain ⟨k, cs, rfl⟩ := Node.exists_of_bare_eq hc
    exact test_sim p hc _
  · refine (inside_sim p hb (hST hn) hc).bind_same fun U v _ => ?_
    exact Sim.pure ⟨rfl, hg.dynamic⟩
  · exact Sim.pure ⟨rfl, .await g g' hc⟩

omit hb in
/-- The test of an alternative is the same. -/
theorem alternativeHolds_sim (hc : n'.bare = n.bare) :
    Sim team i S Same (alternativeHolds (team i) p n) fun _ =>
      alternativeHolds (team i).plain p n' := by
  obtain ⟨k, cs, rfl⟩ := Node.exists_of_bare_eq hc
  refine (Sim.ofCause _).bind_same fun T s _ => ?_
  cases Header.condition? s with
  | none => exact Sim.pure rfl
  | some c => exact test_sim p hc _

/-- An alternative is taken alike. -/
theorem alternative_sim (hn : n ∈ S) (hc : n'.bare = n.bare) (hg : g.Alike g') :
    Sim team i S Stepped (alternative (team i) body p n g) fun depth =>
      alternative (team i).plain (Render.body (team i).plain depth) p n' g' := by
  unfold alternative
  rw [hg.isNone]
  refine Sim.ite _ (fun _ => Sim.pure ⟨rfl, hg⟩) fun _ => ?_
  refine (alternativeHolds_sim p hc).bind_same fun T c hST => Sim.ite c (fun _ => ?_) fun _ => ?_
  · refine (inside_sim p hb (hST hn) hc).bind_same fun U v _ => ?_
    exact Sim.pure ⟨rfl, .settle g g'⟩
  · exact Sim.pure ⟨rfl, hg.dynamic⟩

/-- The plain engine's loop is at round `k`, of rounds enough. -/
theorem whileHolds_sim (hc : n'.bare = n.bare) (limit : Nat) :
    ∀ (S : Set Node) (k : Nat) (written : String), n ∈ S →
      Sim team i S Same (whileHolds (team i) body p n limit written) fun depth =>
        whileHolds (team i).plain (Render.body (team i).plain depth) p n' (depth - k) written := by
  induction limit with
  | zero => exact fun S k written _ => Sim.exhausted
  | succ limit ih =>
      intro S k written hn
      -- at depths past `k` there is a round left
      refine Sim.congr (y := fun depth => whileHolds (team i).plain
        (Render.body (team i).plain depth) p n' (depth - (k + 1) + 1) written) ?_ (k + 1) ?_
      · have ht : Sim team i S Same (test (team i) p n n.content) fun _ =>
            test (team i).plain p n' n'.content := by
          obtain ⟨j, cs, rfl⟩ := Node.exists_of_bare_eq hc
          exact test_sim p hc _
        refine ht.bind_same fun T c hST => Sim.ite c (fun _ => ?_) fun _ => Sim.pure rfl
        refine (hb T n n' p (hST hn) hc).bind_same fun U r hTU => ?_
        exact ih U (k + 1) _ (hTU (hST hn))
      · intro depth hd
        rw [show depth - (k + 1) + 1 = depth - k by omega]

/-- A loop under a condition has the same rounds. -/
theorem whileLoop_sim (hn : n ∈ S) (hc : n'.bare = n.bare) (hg : g.Alike g') (limit : Nat) :
    Sim team i S Stepped (whileLoop (team i) body limit p n g) fun depth =>
      whileLoop (team i).plain (Render.body (team i).plain depth) depth p n' g' := by
  refine (whileHolds_sim p hb hc limit S 0 "" hn).bind_same fun T s _ => ?_
  exact Sim.pure ⟨rfl, hg.dynamic⟩

/-- The same for loops over a collection. -/
theorem forEach_sim (hc : n'.bare = n.bare) (names : List String) (limit : Nat) :
    ∀ (S : Set Node) (k : Nat) (walk : Walk) (written : String), n ∈ S →
      Sim team i S Same (forEach body p n names limit walk written) fun depth =>
        forEach (Render.body (team i).plain depth) p n' names (depth - k) walk written := by
  induction limit with
  | zero => exact fun S k walk written _ => Sim.exhausted
  | succ limit ih =>
      intro S k walk written hn
      refine Sim.congr (y := fun depth => forEach (Render.body (team i).plain depth) p n' names
        (depth - (k + 1) + 1) walk written) ?_ (k + 1) ?_
      · refine (Sim.onHeap walk.next).bind_same fun T step hST => ?_
        match step with
        | none => exact Sim.pure rfl
        | some ((key, item), walk) =>
            refine (hb T n n' _ (hST hn) hc).bind_same fun U r hTU => ?_
            exact ih U (k + 1) walk _ (hTU (hST hn))
      · intro depth hd
        rw [show depth - (k + 1) + 1 = depth - k by omega]

omit hb in
/-- The header of a loop is cut alike. -/
theorem loopHeader_sim (hc : n'.bare = n.bare) :
    Sim team i S Same (loopHeader n) fun _ => loopHeader n' := by
  obtain ⟨k, cs, rfl⟩ := Node.exists_of_bare_eq hc
  refine (Sim.ofCause _).bind_same fun T s _ => ?_
  dsimp only
  cases Header.loop? s with
  | none => exact Sim.throw _
  | some r => exact Sim.ite _ (fun _ => Sim.throw _) fun _ => Sim.pure rfl

/-- A loop over a collection has the same rounds. -/
theorem forLoop_sim (hn : n ∈ S) (hc : n'.bare = n.bare) (hg : g.Alike g') (limit : Nat) :
    Sim team i S Stepped (forLoop (team i) body limit p n g) fun depth =>
      forLoop (team i).plain (Render.body (team i).plain depth) depth p n' g' := by
  refine (loopHeader_sim hc).bind_same fun T header hST => ?_
  refine (evaluate_sim p hc _).bind_same fun U v hTU => ?_
  refine (Sim.onHeap _).bind_same fun V walk hUV => ?_
  refine (forEach_sim p hb hc _ limit V 0 walk "" (hUV (hTU (hST hn)))).bind_same fun W s _ => ?_
  exact Sim.pure ⟨rfl, hg.dynamic⟩

/-! ### Mixins, plugins and includes -/

section Numbered

variable (hi : (team i).id = i)
include hi

omit hb in
/-- A definition keeps a copy of the body. -/
theorem definition_sim (hn : n ∈ S) (hc : n'.bare = n.bare) (hg : g.Alike g') (name : String) :
    Sim team i S Stepped (definition (team i) name n g) fun _ =>
      definition (team i).plain name n' g' := by
  have hm : Mixin.bare ⟨n', n'.attributes.map (·.1)⟩ = Mixin.bare ⟨n, n.attributes.map (·.1)⟩ := by
    simp only [Mixin.bare, hc, (Node.bare_eq_iff.mp hc).2.2.1]
  refine (Engine.define_sim hi name hm hn).bind_same fun T _ _ => ?_
  exact Sim.pure ⟨rfl, hg.dynamic⟩

/-- A call renders a copy of the body. -/
theorem call_sim (hc : n'.bare = n.bare) (hg : g.Alike g') (name : String) :
    Sim team i S Stepped (call (team i) body name p n g) fun depth =>
      call (team i).plain (Render.body (team i).plain depth) name p n' g' := by
  refine (Engine.mixin?_sim hi name).bind fun T m m' hST hm => ?_
  obtain ⟨hm, hT⟩ := hm
  cases m with
  | none =>
      obtain rfl : m' = none := by simpa using hm
      obtain ⟨k, cs, rfl⟩ := Node.exists_of_bare_eq hc
      exact Sim.throw _
  | some m =>
      cases m' with
      | none => cases hm
      | some m' =>
          obtain ⟨hbody, hp⟩ := Mixin.bare_eq_iff.mp (Option.some.inj hm)
          have hbind : m'.bind = m.bind := by
            unfold Mixin.bind
            rw [hp]
          have ha : n'.attributes = n.attributes := (Node.bare_eq_iff.mp hc).2.2.1
          dsimp only
          rw [ha, hbind]
          refine (evaluateAll_sim p hc _ T).bind_same fun U args hTU => ?_
          refine (inside_sim _ hb (hTU (hT m rfl)) hbody).bind_same fun V v _ => ?_
          exact Sim.pure ⟨rfl, hg.dynamic⟩

end Numbered

omit hb in
/-- A plugin is run on the same source. -/
theorem plugin_sim (hc : n'.bare = n.bare) (hg : g.Alike g') (name : String) :
    Sim team i S Stepped (plugin (team i) name p n g) fun _ =>
      plugin (team i).plain name p n' g' := by
  obtain ⟨k, cs, rfl⟩ := Node.exists_of_bare_eq hc
  refine (Engine.plugin_sim name _).bind_same fun T q _ => ?_
  refine (Sim.ofCause _).bind_same fun U path _ => ?_
  refine (Engine.text_sim path p.location).bind_same fun V source _ => ?_
  refine (Sim.note _).bind_same fun W _ _ => ?_
  refine (Sim.ofExcept (Matched.same _)).bind_same fun X v _ => ?_
  exact Sim.pure ⟨rfl, hg.dynamic⟩

/-- An inclusion renders a copy of the tree. -/
theorem inclusion_sim (hc : n'.bare = n.bare) (hg : g.Alike g') :
    Sim team i S Stepped (inclusion (team i) body p n g) fun depth =>
      inclusion (team i).plain (Render.body (team i).plain depth) p n' g' := by
  obtain ⟨k, cs, rfl⟩ := Node.exists_of_bare_eq hc
  refine (Sim.ofCause _).bind_same fun T path _ => ?_
  refine (Engine.track_sim p.location path).bind_same fun U _ _ => ?_
  refine (Sim.ofCause _).bind_same fun V isTree _ => Sim.ite isTree (fun _ => ?_) fun _ => ?_
  · refine (Engine.tree_sim path p.location).bind fun W r r' _ hr => ?_
    obtain ⟨t, l⟩ := r
    obtain ⟨t', l'⟩ := r'
    obtain ⟨ht, hbare, rfl⟩ := hr
    refine (Sim.note _).bind_same fun X _ hWX => ?_
    refine (inside_sim _ hb (hWX ht) hbare).bind_same fun Y v _ => ?_
    exact Sim.pure ⟨rfl, hg.dynamic⟩
  · refine (Sim.note _).bind_same fun W _ _ => ?_
    refine (Engine.text_sim path p.location).bind_same fun X s _ => ?_
    exact Sim.pure ⟨rfl, hg.dynamic⟩

/-! ### Tags -/

omit hb in
theorem attributeValue_sim (k v : Value) :
    Sim team i S Same (attributeValue (team i) k v) fun _ => attributeValue (team i).plain k v := by
  refine (Sim.onHeap _).bind_same fun T written _ => ?_
  cases k with
  | text k =>
      refine Sim.ite _ (fun _ => ?_) fun _ => Sim.pure rfl
      exact (Engine.escape_sim _).bind_same fun U v _ => Sim.pure rfl
  | _ => exact Sim.throw _

omit hb in
/-- An attribute is written alike. -/
theorem attributeOf_sim (hc : n'.bare = n.bare) (hg : g.Alike g') (k v : Value) :
    Sim team i S Stepped (attributeOf (team i) p n k v g) fun _ =>
      attributeOf (team i).plain p n' k v g' := by
  unfold attributeOf
  split
  · exact Sim.pure ⟨rfl, hg⟩
  · refine Sim.ite _ (fun _ => Sim.pure ⟨rfl, hg⟩) fun _ => ?_
    refine (evaluate_sim p hc _).bind_same fun T u _ => ?_
    refine (Sim.onHeap _).bind_same fun U isTrue _ => Sim.ite _ (fun _ => ?_) fun _ => ?_
    · exact Sim.pure ⟨rfl, hg.dynamic⟩
    · refine (attributeValue_sim k u).bind_same fun V s _ => ?_
      exact Sim.pure ⟨rfl, hg.dynamic⟩

omit hb in
/-- So are attributes in a row. -/
theorem attributesOf_sim (hc : n'.bare = n.bare) (as : List (Value × Value)) :
    ∀ S g g', g.Alike g' →
      Sim team i S Stepped (attributesOf (team i) p n as g) fun _ =>
        attributesOf (team i).plain p n' as g' := by
  induction as with
  | nil => exact fun S g g' hg => Sim.pure ⟨rfl, hg⟩
  | cons a as ih =>
      intro S g g' hg
      refine (attributeOf_sim p hc hg a.1 a.2).bind_stepped fun T s g g' _ hg => ?_
      refine (ih T g g' hg).bind_stepped fun U ss g g' _ hg => ?_
      exact Sim.pure ⟨rfl, hg⟩

omit hb in
theorem tagContent_sim (hc : n'.bare = n.bare) (hg : g.Alike g') :
    Sim team i S Stepped (tagContent (team i) p n g) fun _ => tagContent (team i).plain p n' g' := by
  obtain ⟨k, cs, rfl⟩ := Node.exists_of_bare_eq hc
  refine Sim.ite _ (fun _ => ?_) fun _ => Sim.pure ⟨rfl, hg⟩
  refine (content_sim p hc hg).bind_stepped fun T v g g' _ hg => ?_
  exact Sim.pure ⟨rfl, hg⟩

/-- What stands inside a tag is written alike. -/
theorem tagBody_sim (hn : n ∈ S) (hc : n'.bare = n.bare) (hg : g.Alike g') :
    Sim team i S Stepped (tagBody body p n g) fun depth =>
      tagBody (Render.body (team i).plain depth) p n' g' := by
  have he : n'.children.isEmpty = n.children.isEmpty := by
    have := congrArg List.isEmpty (Node.bare_eq_iff.mp hc).2.2.2.1
    simpa using this
  unfold tagBody
  rw [he]
  refine Sim.ite _ (fun _ => Sim.pure ⟨rfl, hg⟩) fun _ => ?_
  refine (hb S n n' p hn hc).bind_same fun T r _ => ?_
  obtain ⟨s, d⟩ := r
  cases d with
  | true => exact Sim.pure ⟨rfl, hg.dynamic⟩
  | false => exact Sim.pure ⟨rfl, hg⟩

/-- So is the markup of a tag. -/
theorem tagMarkup_sim (hn : n ∈ S) (hc : n'.bare = n.bare) (hg : g.Alike g') :
    Sim team i S Stepped (tagMarkup (team i) body p n g) fun depth =>
      tagMarkup (team i).plain (Render.body (team i).plain depth) p n' g' := by
  obtain ⟨h₁, -, h₃, -⟩ := Node.bare_eq_iff.mp hc
  unfold tagMarkup
  rw [h₁, h₃]
  refine (Sim.ofCause _).bind_same fun T t hST => ?_
  refine (attributesOf_sim p hc _ T g g' hg).bind_stepped fun U as g g' hTU hg => ?_
  refine (tagContent_sim p hc hg).bind_stepped fun V cs g g' hUV hg => ?_
  have hnV : n ∈ V := hUV (hTU (hST hn))
  refine (tagBody_sim p hb hnV hc hg).bind_stepped fun W bs g g' _ hg => ?_
  refine (Sim.ofCause _).bind_same fun X es _ => ?_
  refine (Sim.ofCause _).bind_same fun Y html _ => ?_
  exact Sim.pure ⟨rfl, hg⟩

end Render
end Trellis
