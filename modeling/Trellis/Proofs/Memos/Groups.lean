import Trellis.Proofs.Memos.Steps

/-!
# Proofs — Memos — Groups

Groups of nodes in twin worlds.  Where a node has been remembered in one of the worlds only, it is
taken from there and rendered in the other, which comes to the same since what is remembered is
static (`node_mirrors`).  A tag is remembered in either world only if it is static
(`tag_mirrors`), whether or not it is in the other.

The bodies follow by induction on the depth (`body_mirrors`).
-/

namespace Trellis.Policy

open Rendering (exec exec_bind exec_bind_ok exec_bind_error Matched)

variable {eng : Engine} {pol : Policy eng} {base : Nat → Memo} {S : Set Node}

namespace Keeps

variable {w : World}

/-- The nodes in use have their children in use. -/
theorem closed (h : pol.Keeps base S w) : ∀ n ∈ S, ∀ c ∈ n.children, c ∈ S :=
  h.admits.census.closed

/-- What is taken of a node in use is a piece. -/
theorem piece (h : pol.Keeps base S w) (hbase : pol.AdmitsBase base) {n : Node} (hn : n ∈ S)
    {html : Value} (ht : eng.taken? (w.memo n.id) = some html) : pol.piece html := by
  rcases h.faithful.taken hn ht with hb | ⟨-, -, hs⟩
  · exact hbase _ _ hb
  · exact static_node hbase (fun n hn => ⟨h.admits.nodes n hn, h.closed n hn⟩) n hn html hs

/-- The end of a tag that is remembered only if it is static. -/
theorem remember (h : pol.Keeps base S w) {n : Node} (hn : n ∈ S)
    (hr : Role.ofValue n.symbol = .ok .tag) (hb : eng.taken? (base n.id) = none) {html : String}
    {g : Group} (hs : g.isDynamic = false → Static.node eng base n = some (.text html)) :
    pol.Keeps base S
      (if eng.config.compact && !g.isDynamic then
        w.setMemo n.id ⟨some (.text html), some eng.id⟩ else w) := by
  split
  · next hc =>
    have hd : g.isDynamic = false := by simpa using (Bool.and_eq_true_iff.mp hc).2
    exact h.of_faithful (h.faithful.setMemo hn hb hr (hs hd)) rfl
  · exact h

end Keeps

/-- A memo that is written makes no difference to what is forgotten. -/
theorem forget_remember (w : World) (b : Bool) (id : Nat) (m : Memo) :
    (if b then w.setMemo id m else w).forget = w.forget := by
  cases b <;> rfl

variable {n : Node} {g g' : Group} (p : Place)

/-- A tag is remembered in both worlds, in one of them or in none, as its groups go. -/
theorem tag_mirrors {d : Nat} (hb : pol.MirrorsBody base (Render.body eng d)) (hn : n ∈ S)
    (hr : Role.ofValue n.symbol = .ok .tag) (ht : eng.taken? (base n.id) = none)
    (hg : g.pending = none) (hg' : g'.pending = none) :
    pol.Mirrors base S (Stepped pol.piece) (Render.tag eng (Render.body eng d) p n g)
      fun depth => Render.tag eng (Render.body eng depth) p n g' := by
  intro w v hw
  have hnode := hw.left.admits.nodes n hn
  have hm := tagMarkup_mirrors p hb hn hnode hr (hg.trans hg'.symm) w v hw
  have hS := hw.left.closed
  -- what is remembered is static
  have hs {depth : Nat} {g₀ : Group} {u u' : World} {r : String × Group} (hg₀ : g₀.pending = none)
      (hu : pol.Keeps base S u)
      (he : exec (Render.tagMarkup eng (Render.body eng depth) p n g₀) u = (.ok r, u'))
      (hd : r.2.isDynamic = false) : Static.node eng base n = some (.text r.1) := by
    have hrend := Static.tagMarkup_renders
      (@Static.nodes_renders eng base S hS p n.children (hS n hn))
    rw [Static.node_of_tag hr ht, Static.inRole, hrend.eq_some hg₀ hu.faithful he hd]
    rfl
  unfold Render.tag
  rcases hx : exec (Render.tagMarkup eng (Render.body eng d) p n g) w with ⟨r, w₁⟩
  rw [hx] at hm
  rcases hm with rfl | ⟨⟨r', v₁⟩, ⟨m, hy⟩, T, hST, hm, hT⟩
  · left
    rw [exec_bind_error hx]
  right
  cases hm with
  | error f =>
    rw [exec_bind_error hx]
    exact ⟨_, ⟨m, fun d hd => exec_bind_error (hy d hd) _⟩, T, hST, .error f, hT⟩
  | @ok a a' ha =>
    obtain ⟨html, g₁⟩ := a
    obtain ⟨html', g₁'⟩ := a'
    obtain ⟨rfl, hg₁, hp⟩ := ha
    have hstatic := hs hg hw.left hx
    have hstatic' := hs hg' hw.right (hy m (Nat.le_refl _))
    have hleft := hT.left.remember (hST hn) hr ht hstatic
    have hright := hT.right.remember (hST hn) hr ht hstatic'
    refine ⟨_, ⟨m, fun depth hd => (exec_bind_ok (hy depth hd) _).trans
      (Static.exec_remember n html g₁' v₁)⟩, T, hST, ?_, ?_⟩
    · rw [exec_bind_ok hx, Static.exec_remember]
      exact .ok ⟨rfl, hg₁, hp⟩
    · rw [exec_bind_ok hx, Static.exec_remember]
      exact ⟨hleft, hright, by rw [forget_remember, forget_remember, hT.forget]⟩

/-- A node in any role is rendered alike in worlds that differ in memos. -/
theorem inRole_mirrors {d : Nat} (hb : pol.MirrorsBody base (Render.body eng d)) (hn : n ∈ S)
    (hnode : pol.node n) (ht : eng.taken? (base n.id) = none) (hg : g.pending = none)
    (hg' : g'.pending = none) {r : Role} (hr : Role.ofValue n.symbol = .ok r) :
    pol.Mirrors base S (Stepped pol.piece)
      (Render.inRole eng (Render.body eng d) d p n g r) fun depth =>
        Render.inRole eng (Render.body eng depth) depth p n g' r := by
  have hgg : g.pending = g'.pending := hg.trans hg'.symm
  cases r with
  | condition => exact condition_mirrors p hb hn hgg
  | alternative => exact alternative_mirrors p hb hn hgg
  | whileLoop => exact whileLoop_mirrors p hb hn hgg d
  | forLoop => exact forLoop_mirrors p hb hn hgg d
  | each => exact Mirrors.throw _
  | comment => exact comment_mirrors hnode hr hgg
  | inclusion => exact inclusion_mirrors p hb hgg
  | text => exact text_mirrors p hnode hr hgg
  | inlineCode => exact Mirrors.throw _
  | plugin name => exact plugin_mirrors p hgg name
  | call name => exact call_mirrors p hb hgg name
  | definition name => exact definition_mirrors hn hgg name
  | tag => exact tag_mirrors p hb hn hr ht hg hg'

variable (hbase : pol.AdmitsBase base)
include hbase

/-- A node is taken from a memo in one of the worlds, and rendered in the other. -/
theorem node_mirrors {d : Nat} (hb : pol.MirrorsBody base (Render.body eng d)) (hn : n ∈ S)
    (hg : g.pending = g'.pending) :
    pol.Mirrors base S (Stepped pol.piece) (Render.node eng (Render.body eng d) d p n g)
      fun depth => Render.node eng (Render.body eng depth) depth p n g' := by
  cases ha : Role.isAlternative n.symbol with
  | true =>
    simp only [Render.node, ha, if_true]
    exact alternative_mirrors p hb hn hg
  | false =>
    cases hp : g.pending with
    | some m =>
      have hp' : g'.pending = some m := hg ▸ hp
      simp only [Render.node, ha, hp, hp', Option.isSome_some, Bool.false_eq_true, if_false,
        if_true]
      exact Mirrors.pure ⟨rfl, hg, pol.blank⟩
    | none =>
      have hp' : g'.pending = none := hg ▸ hp
      intro w v hw
      have hrend := @Static.node_renders eng base S hw.left.closed p n hn
      -- a memo holds the static markup, which is what rendering the node gives as well
      cases htw : eng.taken? (w.memo n.id) with
      | some html =>
        have hs := hw.left.faithful.node_of_taken hn ha htw
        have hpiece := hw.left.piece hbase hn htw
        rw [Static.exec_node_taken ha hp htw]
        cases htv : eng.taken? (v.memo n.id) with
        | some html' =>
          have hs' := hw.right.faithful.node_of_taken hn ha htv
          obtain rfl : html = html' := Option.some.inj (hs.symm.trans hs')
          refine .inr ⟨_, ⟨0, fun depth _ => Static.exec_node_taken ha hp' htv _ _ p⟩, S,
            fun _ hn => hn, .ok ⟨rfl, hg, hpiece⟩, hw⟩
        | none =>
          obtain ⟨v', hv', hf, hsettles⟩ := hrend.static html hs g' v hp' hw.right.faithful
          exact .inr ⟨_, hsettles.1, S, fun _ hn => hn, .ok ⟨rfl, hg, hpiece⟩,
            ⟨hw.left, hw.right.of_faithful hv' hf, hf.trans hw.forget⟩⟩
      | none =>
        have hbn := hw.left.faithful.base_none htw
        cases htv : eng.taken? (v.memo n.id) with
        | some html =>
          have hs := hw.right.faithful.node_of_taken hn ha htv
          have hpiece := hw.right.piece hbase hn htv
          obtain ⟨w', hw', hf, hsettles⟩ := hrend.static html hs g w hp hw.left.faithful
          -- in the first world the depth is given, and may be too small
          refine (hsettles.2 d).imp_right fun he => ?_
          rw [he]
          exact ⟨_, ⟨0, fun depth _ => Static.exec_node_taken ha hp' htv _ _ p⟩, S,
            fun _ hn => hn, .ok ⟨rfl, hg, hpiece⟩,
            ⟨hw.left.of_faithful hw' hf, hw.right, hw.forget.trans hf.symm⟩⟩
        | none =>
          rw [Static.exec_node_missed ha hp htw]
          simp only [Static.exec_node_missed ha hp' htv]
          have hnode := hw.left.admits.nodes n hn
          exact Mirrors.ofCause_bind _
            (fun r hr => inRole_mirrors p hb hn hnode hbn hp hp' hr) w v hw

/-- So are siblings, one after the other. -/
theorem nodes_mirrors {d : Nat} (hb : pol.MirrorsBody base (Render.body eng d)) (ns : List Node) :
    ∀ (S : Set Node) (g g' : Group), (∀ n ∈ ns, n ∈ S) → g.pending = g'.pending →
      pol.Mirrors base S (Stepped fun vs => ∀ v ∈ vs, pol.piece v)
        (Render.nodes eng (Render.body eng d) d p ns g) fun depth =>
          Render.nodes eng (Render.body eng depth) depth p ns g' := by
  induction ns with
  | nil => exact fun S g g' _ hg => Mirrors.pure ⟨rfl, hg, by simp⟩
  | cons n ns ih =>
    intro S g g' hns hg
    obtain ⟨hn, hns⟩ := List.forall_mem_cons.mp hns
    refine (node_mirrors p hbase hb hn hg).bind_stepped fun T v g g' hST hg hv => ?_
    refine (ih T g g' (fun m hm => hST (hns m hm)) hg).bind_stepped fun U vs g g' _ hg hvs => ?_
    exact Mirrors.pure ⟨rfl, hg, List.forall_mem_cons.mpr ⟨hv, hvs⟩⟩

/-- So is a group. -/
theorem group_mirrors {d : Nat} (hb : pol.MirrorsBody base (Render.body eng d)) {ns : List Node}
    (hns : ∀ n ∈ ns, n ∈ S) :
    pol.Mirrors base S (fun _ r r' => r.1 = r'.1 ∧ pol.piece (.text r.1))
      (Render.group eng (Render.body eng d) d p ns) fun depth =>
        Render.group eng (Render.body eng depth) depth p ns := by
  refine (nodes_mirrors p hbase hb ns S _ _ hns rfl).bind_stepped fun T vs g g' _ hg hvs => ?_
  obtain ⟨e, m⟩ := g
  obtain ⟨e', m'⟩ := g'
  obtain rfl : m = m' := hg
  cases m with
  | some m => exact Mirrors.throw _
  | none =>
    refine Mirrors.ofCause_bind _ fun s hs => ?_
    exact Mirrors.pure ⟨rfl, pol.joined hvs hs⟩

/-- **Bodies are mirrored.**  By induction on the depth of the first rendering. -/
theorem body_mirrors (d : Nat) : pol.MirrorsBody base (Render.body eng d) := by
  induction d with
  | zero => exact fun S n p _ => Mirrors.exhausted
  | succ d ih =>
    intro S n p hn
    refine Mirrors.of_succ fun w v hw => ?_
    exact group_mirrors p hbase ih (hw.left.closed n hn) w v hw

end Trellis.Policy
