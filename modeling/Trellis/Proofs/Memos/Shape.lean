import Trellis.Proofs.Interpretation.Coupling
import Trellis.Proofs.Memos.Static

/-!
# Proofs — Memos — Shape

Which nodes are static, told from the tree alone (`Node.isStatic`): comments and alternatives, texts
without an expression, and tags without one in their attributes, their content or below.

What is static in this sense leaves its group as it is, wherever it is rendered
(`Static.node_leaves`), and nothing else has static markup (`Static.isStatic_of_node`).  So a node
that is rendered where nothing is dynamic yet makes its group dynamic just if it is not static, and
otherwise gives its static markup (`Static.node_settles`).
-/

namespace Trellis

open Rendering (exec Yields)

/-! ### Static nodes -/

namespace Node

/-- Nothing is evaluated for the content. -/
def hasStaticContent (n : Node) : Bool :=
  n.unescaped || n.contentExpressions.isEmpty

/-- Nothing is evaluated for the attributes. -/
def hasStaticAttributes (n : Node) : Bool :=
  n.attributes.all fun a => (computed? a.2).isNone

/-- The node is static, if its children are as `inner` says. -/
def isStaticOver (n : Node) (inner : Bool) : Bool :=
  match Role.ofValue n.symbol with
  | .ok .comment | .ok .alternative => true
  | .ok .text => n.hasStaticContent
  | .ok .tag => n.hasStaticAttributes && n.hasStaticContent && inner
  | _ => false

mutual

/-- The node is static: it is a comment, an alternative, a text without an expression, or a tag
without one in its attributes and its content, all children of which are static. -/
def isStatic : Node → Bool
  | ⟨id, symbol, content, attributes, children, unescaped, position⟩ =>
    isStaticOver ⟨id, symbol, content, attributes, children, unescaped, position⟩
      (areStatic children)
termination_by structural n => n

/-- The nodes are static. -/
def areStatic : List Node → Bool
  | [] => true
  | n :: ns => n.isStatic && areStatic ns
termination_by structural ns => ns

end

/-- Whether a node is static is told by itself and its children. -/
theorem isStatic_eq (n : Node) : n.isStatic = n.isStaticOver (areStatic n.children) := by
  obtain ⟨id, symbol, content, attributes, children, unescaped, position⟩ := n
  rw [isStatic]

/-- Siblings are static if both parts are. -/
theorem areStatic_append (ns ms : List Node) :
    areStatic (ns ++ ms) = (areStatic ns && areStatic ms) := by
  induction ns with
  | nil => rfl
  | cons n ns ih => rw [List.cons_append, areStatic, areStatic, ih, Bool.and_assoc]

/-- One more sibling is static if it is. -/
theorem areStatic_concat (ns : List Node) (n : Node) :
    areStatic (ns ++ [n]) = (areStatic ns && n.isStatic) := by
  rw [areStatic_append, areStatic, areStatic, Bool.and_true]

variable {n : Node}

/-- A tag is static if its attributes, its content and its children are. -/
theorem isStatic_tag (hr : Role.ofValue n.symbol = .ok .tag) :
    n.isStatic = (n.hasStaticAttributes && n.hasStaticContent && areStatic n.children) := by
  rw [isStatic_eq, isStaticOver, hr]

/-- A text is static if its content is. -/
theorem isStatic_text (hr : Role.ofValue n.symbol = .ok .text) :
    n.isStatic = n.hasStaticContent := by
  rw [isStatic_eq, isStaticOver, hr]

/-- A content that is searched has an expression just if one is found. -/
theorem contentExpressions_isEmpty {s : List Char} (hs : Markup.searchable n.content = .ok s) :
    n.contentExpressions.isEmpty = (Header.expression? s).isNone := by
  unfold contentExpressions inContent
  simp only [hs]
  cases Header.expression? s <;> rfl

/-- An attribute that is not evaluated is a truth value or empty in some way. -/
theorem computed?_isNone {v : Value} :
    (computed? v).isNone = true ↔ (∃ b, v = .bool b) ∨ v.truth = false := by
  unfold computed?
  split
  · simp
  · next hv =>
    cases v.truth with
    | true => simpa using hv
    | false => simp

end Node

/-! ### What static nodes do -/

namespace Static

variable {eng : Engine} {n : Node} (p : Place) (g : Group)

/-- The group is left as it is. -/
def Leaves {α : Type} (g : Group) (x : Rendering (α × Group)) : Prop :=
  Yields (fun r => r.2 = g) x

/-- Static content leaves the group as it is. -/
theorem content_leaves (h : n.hasStaticContent = true) :
    Leaves g (Render.content eng p n g) := by
  unfold Render.content
  split
  · exact Yields.bind fun _ => Yields.pure rfl
  · next hu =>
    refine Yields.bind_of (Q := fun s => Markup.searchable n.content = .ok s) ?_ fun s hs => ?_
    · intro w s w' he
      cases hr : Markup.searchable n.content <;> rw [hr] at he <;> cases he
      rfl
    · have he : (Header.expression? s).isNone = true := by
        rw [← Node.contentExpressions_isEmpty hs]
        simpa [Node.hasStaticContent, hu] using h
      rw [Option.isNone_iff_eq_none.mp he]
      exact Yields.pure rfl

/-- So does a static attribute. -/
theorem attributeOf_leaves (k : Value) {v : Value} (h : (Node.computed? v).isNone = true) :
    Leaves g (Render.attributeOf eng p n k v g) := by
  unfold Render.attributeOf
  split
  · exact Yields.pure rfl
  · next hv =>
    have ht : v.truth = false :=
      (Node.computed?_isNone.mp h).resolve_left fun ⟨b, hb⟩ => hv b hb
    rw [ht]
    exact Yields.pure rfl

/-- So do static attributes in a row. -/
theorem attributesOf_leaves (as : List (Value × Value))
    (h : (as.all fun a => (Node.computed? a.2).isNone) = true) :
    Leaves g (Render.attributesOf eng p n as g) := by
  induction as with
  | nil => exact Yields.pure rfl
  | cons a as ih =>
    obtain ⟨ha, has⟩ := Bool.and_eq_true_iff.mp h
    refine Yields.bind_of (attributeOf_leaves p g a.1 ha) fun (s, g') hg => ?_
    obtain rfl : g' = g := hg
    exact Yields.bind_of (ih has) fun _ hg => Yields.pure hg

/-- So does the static content of a tag. -/
theorem tagContent_leaves (h : n.hasStaticContent = true) :
    Leaves g (Render.tagContent eng p n g) := by
  unfold Render.tagContent
  split
  · exact Yields.bind_of (content_leaves p g h) fun _ hg => Yields.pure hg
  · exact Yields.pure rfl

variable {body : Body}

/-- Static children do not make a group of their own dynamic. -/
def LeavesBody (body : Body) : Prop :=
  ∀ n p, Node.areStatic n.children = true → Yields (fun r => r.2 = false) (body n p)

/-- So do static children. -/
theorem tagBody_leaves (hb : LeavesBody body) (h : Node.areStatic n.children = true) :
    Leaves g (Render.tagBody body p n g) := by
  unfold Render.tagBody
  split
  · exact Yields.pure rfl
  · refine Yields.bind_of (hb n p h) fun (s, d) hd => Yields.pure ?_
    obtain rfl : d = false := hd
    rfl

/-- So does a static tag. -/
theorem tag_leaves (hb : LeavesBody body) (hr : Role.ofValue n.symbol = .ok .tag)
    (h : n.isStatic = true) : Leaves g (Render.tag eng body p n g) := by
  rw [Node.isStatic_tag hr, Bool.and_eq_true_iff, Bool.and_eq_true_iff] at h
  obtain ⟨⟨ha, hc⟩, hi⟩ := h
  refine Yields.bind_of (Q := fun r => r.2 = g) ?_ fun (html, g') hg w r w' he => ?_
  · refine Yields.bind fun t => ?_
    refine Yields.bind_of (attributesOf_leaves p g _ ha) fun (as, g') hg => ?_
    obtain rfl : g' = g := hg
    refine Yields.bind_of (tagContent_leaves p _ hc) fun (cs, g') hg => ?_
    obtain rfl : g' = _ := hg
    refine Yields.bind_of (tagBody_leaves p _ hb hi) fun (bs, g') hg => ?_
    obtain rfl : g' = _ := hg
    exact Yields.bind fun es => Yields.bind fun html => Yields.pure rfl
  · rw [exec_remember] at he
    cases he
    exact hg

/-- **A static node leaves its group as it is**, whether it is rendered or taken from its memo. -/
theorem node_leaves (hb : LeavesBody body) (limit : Nat) (h : n.isStatic = true)
    (hg : g.pending = none) : Leaves g (Render.node eng body limit p n g) := by
  have halt : Leaves g (Render.alternative eng body p n g) := by
    rw [Render.alternative, hg]
    exact Yields.pure rfl
  unfold Render.node
  split
  · exact halt
  · rw [hg]
    refine Yields.bind fun m => ?_
    cases m with
    | some html => exact Yields.pure rfl
    | none =>
      refine Yields.bind_of (Q := fun r => Role.ofValue n.symbol = .ok r) ?_ fun r hr => ?_
      · intro w r w' he
        cases hr : Role.ofValue n.symbol <;> rw [hr] at he <;> cases he
        rfl
      · -- of the roles, four can be static
        have hs := h
        rw [Node.isStatic_eq, Node.isStaticOver, hr] at hs
        cases r with
        | comment => exact Yields.bind fun _ => Yields.pure rfl
        | alternative => exact halt
        | text =>
          refine Yields.bind_of (content_leaves p g hs) fun r hg => ?_
          exact Yields.bind fun _ => Yields.pure hg
        | tag => exact tag_leaves p g hb hr h
        | _ => cases hs

/-- So do static siblings. -/
theorem nodes_leaves (hb : LeavesBody body) (limit : Nat) (ns : List Node)
    (h : Node.areStatic ns = true) (hg : g.pending = none) :
    Leaves g (Render.nodes eng body limit p ns g) := by
  induction ns with
  | nil => exact Yields.pure rfl
  | cons n ns ih =>
    obtain ⟨hn, hns⟩ := Bool.and_eq_true_iff.mp h
    refine Yields.bind_of (node_leaves p g hb limit hn hg) fun (v, g') hg' => ?_
    obtain rfl : g' = g := hg'
    exact Yields.bind_of (ih hns) fun _ hg => Yields.pure hg

/-- By induction on the depth. -/
theorem body_leaves (depth : Nat) : LeavesBody (Render.body eng depth) := by
  induction depth with
  | zero => exact fun n p _ => Yields.throw _
  | succ depth ih =>
    intro n p h
    refine Yields.bind_of (nodes_leaves p .start ih depth n.children h rfl) fun (vs, g) hg => ?_
    obtain rfl : g = .start := hg
    exact Yields.bind fun s => Yields.pure rfl

/-! ### What has static markup -/

/-- Content that is known without a scope is static. -/
theorem hasStaticContent_of_content {v : Value} (h : content eng n = some v) :
    n.hasStaticContent = true := by
  unfold content at h
  unfold Node.hasStaticContent
  split at h
  · next hu => rw [hu, Bool.true_or]
  · obtain ⟨s, hs, h⟩ := Option.bind_eq_some_iff.mp h
    rw [Node.contentExpressions_isEmpty (ok_of_toOption hs)]
    split at h
    · next he => rw [he, Option.isNone_none, Bool.or_true]
    · cases h

/-- So is the content of a tag that is known so. -/
theorem hasStaticContent_of_tagContent {vs : List Value} (h : tagContent eng n = some vs) :
    n.hasStaticContent = true := by
  unfold tagContent at h
  split at h
  · obtain ⟨v, hv, -⟩ := Option.bind_eq_some_iff.mp h
    exact hasStaticContent_of_content hv
  · next ht =>
    -- a content that is empty in some way is no text with an expression
    unfold Node.hasStaticContent Node.contentExpressions Node.inContent
    cases hc : n.content with
    | text s =>
      obtain rfl : s = "" := by simpa [hc, Value.truth] using ht
      simp [Markup.searchable, Header.expression?, Text.dropLeading]
    | _ => simp [Markup.searchable]

/-- Attributes that are known without a scope are static. -/
theorem hasStaticAttributes_of_attributes (as : List (Value × Value)) {ss : List String}
    (h : attributes as = some ss) : (as.all fun a => (Node.computed? a.2).isNone) = true := by
  induction as generalizing ss with
  | nil => rfl
  | cons a as ih =>
    obtain ⟨b, hb, h⟩ := Option.bind_eq_some_iff.mp h
    obtain ⟨bs, hbs, -⟩ := Option.bind_eq_some_iff.mp h
    refine Bool.and_eq_true_iff.mpr ⟨Node.computed?_isNone.mpr ?_, ih hbs⟩
    unfold attributeOf at hb
    split at hb
    · next hv => exact .inl ⟨_, hv⟩
    · split at hb
      · cases hb
      · next ht => exact .inr (by simpa using ht)

variable {base : Nat → Memo}

/-- A node that is known without a scope is static, if it has no memo. -/
theorem isStatic_of_own (hbase : eng.taken? (base n.id) = none) {inner : Option (List Value)}
    (hi : ∀ vs, inner = some vs → Node.areStatic n.children = true) {v : Value}
    (h : own eng base n inner = some v) : n.isStatic = true := by
  unfold own at h
  split at h
  · next ha =>
    rw [Node.isStatic_eq, Node.isStaticOver, Role.isAlternative_iff.mp ha]
  · rw [hbase] at h
    obtain ⟨r, hr, h⟩ := Option.bind_eq_some_iff.mp h
    have hr := ok_of_toOption hr
    cases r with
    | comment => rw [Node.isStatic_eq, Node.isStaticOver, hr]
    | alternative => rw [Node.isStatic_eq, Node.isStaticOver, hr]
    | text =>
      obtain ⟨u, hu, -⟩ := Option.bind_eq_some_iff.mp h
      rw [Node.isStatic_text hr]
      exact hasStaticContent_of_content hu
    | tag =>
      obtain ⟨html, h, -⟩ := Option.bind_eq_some_iff.mp h
      obtain ⟨t, -, h⟩ := Option.bind_eq_some_iff.mp h
      obtain ⟨as, has, h⟩ := Option.bind_eq_some_iff.mp h
      obtain ⟨cs, hcs, h⟩ := Option.bind_eq_some_iff.mp h
      obtain ⟨bs, hbs, -⟩ := Option.bind_eq_some_iff.mp h
      -- a tag without children is static as far as they are concerned
      have hchildren : Node.areStatic n.children = true := by
        unfold tagBody at hbs
        split at hbs
        · next he => rw [List.isEmpty_iff.mp he, Node.areStatic]
        · obtain ⟨s, hs, -⟩ := Option.bind_eq_some_iff.mp hbs
          obtain ⟨vs, hvs, -⟩ := Option.bind_eq_some_iff.mp hs
          exact hi vs hvs
      rw [Node.isStatic_tag hr, Node.hasStaticAttributes, hasStaticAttributes_of_attributes _ has,
        hasStaticContent_of_tagContent hcs, hchildren]
      rfl
    | _ => cases h

mutual

/-- **Only static nodes have static markup**, unless it is taken from the base.  By induction on the
tree. -/
theorem isStatic_of_node (hbase : ∀ id, eng.taken? (base id) = none) :
    (n : Node) → ∀ v, node eng base n = some v → n.isStatic = true
  | ⟨_, _, _, _, children, _, _⟩, _, h =>
    isStatic_of_own (hbase _) (areStatic_of_nodes hbase children) h
termination_by structural n => n

/-- The same for nodes one after the other. -/
theorem areStatic_of_nodes (hbase : ∀ id, eng.taken? (base id) = none) :
    (ns : List Node) → ∀ vs, nodes eng base ns = some vs → Node.areStatic ns = true
  | [], _, _ => rfl
  | n :: ns, _, h => by
    obtain ⟨u, hu, h⟩ := Option.bind_eq_some_iff.mp h
    obtain ⟨us, hus, -⟩ := Option.bind_eq_some_iff.mp h
    rw [Node.areStatic, isStatic_of_node hbase n u hu, areStatic_of_nodes hbase ns us hus]
    rfl
termination_by structural ns => ns

end

/-- **A node where nothing is dynamic yet.**  If it is static, it leaves the group so and gives its
static markup; if it is not, it makes the group dynamic. -/
theorem node_settles {S : Set Node} {w w' : World} (hw : Faithful eng base S w)
    (hbase : ∀ id, eng.taken? (base id) = none) (hn : n ∈ S) {depth : Nat} {g' : Group} {v : Value}
    (hg : g.pending = none) (hd : g.isDynamic = false)
    (he : exec (Render.node eng (Render.body eng depth) depth p n g) w = (.ok (v, g'), w')) :
    (n.isStatic = true → g' = g ∧ node eng base n = some v) ∧
      (n.isStatic = false → g'.isDynamic = true) := by
  have hrenders := @node_renders eng base S hw.census.closed p n hn
  refine ⟨fun hs => ?_, fun hs => ?_⟩
  · obtain rfl : g' = g := node_leaves p g (body_leaves depth) depth hs hg w (v, g') w' he
    exact ⟨rfl, hrenders.eq_some hg hw he hd⟩
  · refine hrenders.dynamic ?_ depth g w (v, g') w' hg hw he
    cases ho : node eng base n with
    | none => rfl
    | some u =>
      rw [isStatic_of_node hbase n u ho] at hs
      cases hs

end Static
end Trellis
