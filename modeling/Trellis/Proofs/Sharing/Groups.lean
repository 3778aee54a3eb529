import Trellis.Proofs.Sharing.Constructs

/-!
# Proofs — Sharing — Groups

Groups of nodes, followed by the plain engine.  Two steps deal with memos.  A tag that is remembered
was static, so the plain engine makes the same of it everywhere (`tag_sim`).  A node that is
remembered is not rendered, while the plain engine renders it anew, at depths that are large enough,
and gets what was remembered (`node_sim`).

The bodies follow by induction on the depth (`body_sim`).
-/

namespace Trellis.Render

open Rendering (exec exec_bind exec_bind_ok exec_bind_error Matched)

/-- Markup that the plain engine makes of a tag at all large depths, without the group being dynamic
then, is fixed. -/
theorem fixed_of_exec {eng : Engine} {n n' : Node} {p : Place} {g g' : Group} {v v' : World}
    {html : Value} {least : Nat} (hr : Role.ofValue n.symbol = .ok .tag) (hc : n'.bare = n.bare)
    (hp : g.pending = none) (hd : g'.isDynamic = false)
    (h : ∀ depth ≥ least,
      exec (tag eng.plain (Render.body eng.plain depth) p n' g) v = (.ok (html, g'), v')) :
    Fixed eng n html := by
  refine ⟨hr, least, fun depth hl m q k u hm hk => ?_⟩
  have hs := tag_steady eng p q (body_steady eng depth) (hm.trans hc.symm)
  obtain ⟨-, -, hq⟩ := (hs _ _ _ _ _ (h depth hl)).2 hp hd
  exact hq k u hk

variable {team : Nat → Engine} {i : Nat} (hi : (team i).id = i)
variable {S : Set Node} {n n' : Node} {g g' : Group} {body : Body} (p : Place)
variable (hb : FollowsBody team i body)
include hi hb

/-- Markup is remembered of nodes only that are the same for the plain engine everywhere. -/
theorem tag_sim (hn : n ∈ S) (hc : n'.bare = n.bare) (hg : g.Alike g') (hp : g.pending = none)
    (hr : Role.ofValue n.symbol = .ok .tag) :
    Sim team i S Stepped (tag (team i) body p n g) fun depth =>
      tag (team i).plain (Render.body (team i).plain depth) p n' g' := by
  intro w v hw
  have hm := tagMarkup_sim p hb hn hc hg w v hw
  simp only [tag_plain]
  unfold tag
  rcases hx : exec (tagMarkup (team i) body p n g) w with ⟨r, w₁⟩
  rw [hx] at hm
  rcases hm with rfl | ⟨⟨r', v₁⟩, ⟨m, hy⟩, T, hST, hm, hw₁, hfr⟩
  · left
    rw [exec_bind_error hx]
  right
  cases hm with
  | error f =>
      rw [exec_bind_error hx]
      exact ⟨_, ⟨m, fun d hd => exec_bind_error (hy d hd) _⟩, T, hST, .error f, hw₁, hfr⟩
  | @ok a a' ha =>
      obtain ⟨html, g₁⟩ := a
      obtain ⟨html', g₁'⟩ := a'
      obtain ⟨rfl, hg₁⟩ := ha
      rw [exec_bind_ok hx]
      have hplain (d : Nat) (hd : d ≥ m) :
          exec (tag (team i).plain (Render.body (team i).plain d) p n' g') v =
            (.ok (.text html, g₁'), v₁) := by
        rw [tag_plain, exec_bind_ok (hy d hd)]
        rfl
      refine ⟨_, ⟨m, hplain⟩, ?_⟩
      -- what is rendered is the same; the engine that shares may remember it besides
      cases hd : (team i).config.compact && !g₁.isDynamic with
      | false =>
          simp only [hd]
          exact ⟨T, hST, .ok ⟨rfl, hg₁⟩, hw₁, hfr⟩
      | true =>
          have hs₁ : g₁'.isDynamic = false := by
            rw [hg₁.isDynamic]
            simpa using (Bool.and_eq_true_iff.mp hd).2
          have hp' : g'.pending = none := by
            have := hg.isNone
            simpa [hp] using this
          -- the plain engine has just rendered it, and a static group renders it anywhere
          have hf : Fixed (team i) n (.text html) := fixed_of_exec hr hc hp' hs₁ hplain
          have hrem : exec ((team i).remember n html) w₁ =
              (.ok (), w₁.setMemo n.id ⟨some (.text html), some i⟩) := by
            rw [Engine.remember, Rendering.exec_modify, hi]
          have hset := hw₁.sound.setMemo (hST hn) hf
          have ha := hw₁.alike
          simp only [hd, if_true, exec_bind_ok hrem]
          exact ⟨T, hST, .ok ⟨rfl, hg₁⟩, ⟨hset, ⟨ha.1, ha.2, ha.3, ha.4⟩, hw₁.heap, hw₁.events⟩,
            hfr.1, hfr.2, hfr.3, hfr.4⟩

/-- A node in any role is rendered like its copy. -/
theorem inRole_sim (hn : n ∈ S) (hc : n'.bare = n.bare) (hg : g.Alike g') (hp : g.pending = none)
    (limit : Nat) {r : Role} (hr : Role.ofValue n.symbol = .ok r) :
    Sim team i S Stepped (inRole (team i) body limit p n g r) fun depth =>
      inRole (team i).plain (Render.body (team i).plain depth) depth p n' g' r := by
  cases r with
  | condition => exact condition_sim p hb hn hc hg
  | alternative => exact alternative_sim p hb hn hc hg
  | whileLoop => exact whileLoop_sim p hb hn hc hg limit
  | forLoop => exact forLoop_sim p hb hn hc hg limit
  | each =>
      obtain ⟨k, cs, rfl⟩ := Node.exists_of_bare_eq hc
      exact Sim.throw _
  | comment => exact comment_sim hc hg
  | inclusion => exact inclusion_sim p hb hc hg
  | text => exact text_sim p hc hg
  | inlineCode =>
      obtain ⟨k, cs, rfl⟩ := Node.exists_of_bare_eq hc
      exact Sim.throw _
  | plugin name => exact plugin_sim p hc hg name
  | call name => exact call_sim p hb hi hc hg name
  | definition name => exact definition_sim hi hn hc hg name
  | tag => exact tag_sim hi p hb hn hc hg hp hr

omit hb in
/-- What an engine remembers of a node in use is fixed. -/
theorem fixed_of_remembered {w u : World} (hw : w.Sound team S) (hn : n ∈ S) {html : Value}
    (h : exec ((team i).remembered? n) w = (.ok (some html), u)) : Fixed (team i) n html := by
  simp only [Engine.remembered?, exec_bind, Rendering.exec_get, Rendering.exec_pure,
    Prod.mk.injEq, Except.ok.injEq] at h
  obtain ⟨h, -⟩ := h
  split at h
  · next ho =>
    rw [hi] at ho
    unfold World.memo at h ho
    cases hl : w.memos.lookup n.id with
    | none => simp [hl] at h
    | some m =>
        obtain ⟨n₀, hn₀, hid, html₀, j, rfl, hf⟩ := hw.memos _ _ hl
        simp only [hl, Option.getD_some] at h ho
        obtain rfl := hw.census.single n₀ hn₀ n hn hid
        obtain rfl : html₀ = html := Option.some.inj h
        obtain rfl : j = i := by simpa using (Bool.and_eq_true_iff.mp ho).1
        exact hf
  · cases h

/-- What is remembered of a node, the plain engine gets by rendering it. -/
theorem node_sim (hn : n ∈ S) (hc : n'.bare = n.bare) (hg : g.Alike g') (limit : Nat) :
    Sim team i S Stepped (node (team i) body limit p n g) fun depth =>
      node (team i).plain (Render.body (team i).plain depth) depth p n' g' := by
  have hs : n'.symbol = n.symbol := (Node.bare_eq_iff.mp hc).1
  cases ha : Role.isAlternative n.symbol with
  | true =>
      simp only [node, hs, ha, if_true]
      exact alternative_sim p hb hn hc hg
  | false =>
      -- a node between a condition and its alternative renders nothing
      cases hp : g.pending with
      | some m =>
          have hp' : g'.pending.isSome = true := by rw [hg.isSome, hp, Option.isSome_some]
          simp only [node, hs, ha, hp, hp', Option.isSome_some, Bool.false_eq_true, if_false,
            if_true]
          exact Sim.pure ⟨rfl, hg⟩
      | none =>
          have hp' : g'.pending = none := by simpa [hp] using hg.isNone
          intro w v hw
          have hplain (d : Nat) :
              exec (node (team i).plain (Render.body (team i).plain d) d p n' g') v =
                exec (Rendering.ofCause (Role.ofValue n.symbol) >>= fun r =>
                  inRole (team i).plain (Render.body (team i).plain d) d p n' g' r) v := by
            rw [← hs]
            exact node_plain _ p g' d (hs ▸ ha) hp' v
          simp only [hplain]
          simp only [node, ha, hp, Option.isSome_none, Bool.false_eq_true, if_false]
          obtain ⟨m, hm⟩ : ∃ m, exec ((team i).remembered? n) w = (.ok m, w) := ⟨_, rfl⟩
          rw [exec_bind_ok hm]
          -- the plain engine remembers nothing, so it renders what is taken from a memo here
          cases m with
          | none =>
              exact Sim.ofCause_bind _ (fun r hr => inRole_sim hi p hb hn hc hg hp limit hr) w v hw
          | some html =>
              obtain ⟨hr, least, he⟩ := fixed_of_remembered hi hw.sound hn hm
              refine .inr ⟨(.ok (html, g'), v), ⟨least, fun d hd => ?_⟩, ?_⟩
              · rw [hr]
                exact he d hd n' p g' v hc hp'
              · exact .of_matched hw (.ok ⟨rfl, hg⟩)

/-- Siblings are rendered like their copies, one after the other. -/
theorem nodes_sim (limit : Nat) (ns : List Node) :
    ∀ (S : Set Node) (ns' : List Node) (g g' : Group), (∀ n ∈ ns, n ∈ S) →
      ns'.map Node.bare = ns.map Node.bare → g.Alike g' →
      Sim team i S Stepped (nodes (team i) body limit p ns g) fun depth =>
        nodes (team i).plain (Render.body (team i).plain depth) depth p ns' g' := by
  induction ns with
  | nil =>
      intro S ns' g g' _ h hg
      obtain rfl : ns' = [] := by simpa using h
      exact Sim.pure ⟨rfl, hg⟩
  | cons n ns ih =>
      intro S ns' g g' hns h hg
      cases ns' with
      | nil => cases h
      | cons n' ns' =>
          simp only [List.map_cons, List.cons.injEq] at h
          obtain ⟨hn, hns⟩ := List.forall_mem_cons.mp hns
          refine (node_sim hi p hb hn h.1 hg limit).bind_stepped fun T v g g' hST hg => ?_
          have hT : ∀ m ∈ ns, m ∈ T := fun m hm => hST (hns m hm)
          refine (ih T ns' g g' hT h.2 hg).bind_stepped fun U vs g g' _ hg => ?_
          exact Sim.pure ⟨rfl, hg⟩

/-- So is a group. -/
theorem group_sim (limit : Nat) {ns ns' : List Node} (hns : ∀ n ∈ ns, n ∈ S)
    (h : ns'.map Node.bare = ns.map Node.bare) :
    Sim team i S Same (group (team i) body limit p ns) fun depth =>
      group (team i).plain (Render.body (team i).plain depth) depth p ns' := by
  refine (nodes_sim hi p hb limit ns S ns' _ _ hns h ⟨rfl, rfl⟩).bind_stepped
    fun T vs g g' _ hg => ?_
  obtain ⟨d, m⟩ := g
  obtain ⟨d', m'⟩ := g'
  obtain ⟨rfl, hm⟩ := hg
  cases m with
  | none =>
      obtain rfl : m' = none := by simpa using hm
      exact (Sim.ofCause _).bind_same fun U t _ => Sim.pure rfl
  | some m =>
      cases m' with
      | none => cases hm
      | some m' =>
          obtain hm : m'.position = m.position := Option.some.inj hm
          dsimp only
          rw [hm]
          exact Sim.throw _

omit hb in
/-- **Bodies follow.**  By induction on the depth of the shared rendering. -/
theorem body_sim (depth : Nat) : FollowsBody team i (Render.body (team i) depth) := by
  induction depth with
  | zero => exact fun S n n' p _ _ => Sim.exhausted
  | succ depth ih =>
      intro S n n' p hn hc
      refine Sim.of_succ fun w v hw => ?_
      have hns : ∀ c ∈ n.children, c ∈ S := hw.sound.census.closed n hn
      exact group_sim hi p ih depth hns (Node.bare_eq_iff.mp hc).2.2.2.1 w v hw

end Trellis.Render
