import Trellis.Proofs.Memos.Policy

/-!
# Proofs — Sharing — Places

Nodes that are not shared.  A node of a tree stands among siblings, and which of them stand in front
of it is told by the tree only as long as the node does not occur at several places.  `Unshared S`
says so of a set of nodes in use: wherever one of them stands, it has the same siblings in front.
The nodes of a tree with distinct identities are such a set (`Node.unshared_of_nodup`).

Building keeps this, if the finished nodes in a draft are distinct and stand nowhere yet
(`Draft.node_grows`): all nodes around them are new.  So does loading (`Sources.load_grows`), if a
draft that a loader gives again and again has no finished nodes in it (`Draft.Lasting`).
-/

namespace Trellis

open Rendering (exec exec_bind)

/-! ### Where a node stands -/

/-- The node stands among the children of a node of `S`, with `before` in front. -/
def Stands (S : Set Node) (before : List Node) (n : Node) : Prop :=
  ∃ m ∈ S, ∃ after, m.children = before ++ n :: after

/-- The node stands nowhere among the children of nodes of `S`. -/
def Loose (S : Set Node) (n : Node) : Prop :=
  ∀ m ∈ S, n ∉ m.children

/-- Nodes in use, each of which has the same siblings in front wherever it stands. -/
structure Unshared (S : Set Node) (next : Nat) : Prop extends Census S next where
  front : ∀ {n before before'}, Stands S before n → Stands S before' n → before = before'

namespace Stands

variable {S T : Set Node} {before : List Node} {n : Node}

/-- What stands among nodes stands among more of them. -/
theorem mono (hST : S ⊆ T) (h : Stands S before n) : Stands T before n := by
  obtain ⟨m, hm, after, he⟩ := h
  exact ⟨m, hST hm, after, he⟩

/-- What stands among nodes in use is one of them. -/
theorem mem {next : Nat} (hS : Census S next) (h : Stands S before n) : n ∈ S := by
  obtain ⟨m, hm, after, he⟩ := h
  exact hS.closed m hm n (by simp [he])

end Stands

/-- What stands in front of an item is the same at every place, if there are no two. -/
theorem front_eq_of_nodup {α : Type} {x : α} {as bs : List α} (hd : (as ++ x :: bs).Nodup)
    {xs ys : List α} (h : as ++ x :: bs = xs ++ x :: ys) : as = xs := by
  induction as generalizing xs with
  | nil =>
    cases xs with
    | nil => rfl
    | cons y xs =>
      obtain ⟨rfl, rfl⟩ := List.cons.inj h
      simp at hd
  | cons a as ih =>
    cases xs with
    | nil =>
      obtain ⟨rfl, -⟩ := List.cons.inj h
      simp at hd
    | cons y xs =>
      obtain ⟨rfl, ht⟩ := List.cons.inj h
      rw [ih hd.of_cons ht]

/-- A new node over distinct nodes that stand nowhere yet. -/
theorem Unshared.insert {S : Set Node} {next : Nat} (h : Unshared S next) {n : Node}
    (hid : n.id = next) (hc : ∀ c ∈ n.children, c ∈ S) (hloose : ∀ c ∈ n.children, Loose S c)
    (hd : n.children.Nodup) : Unshared (insert n S) (next + 1) := by
  refine ⟨h.toCensus.insert hid hc, ?_⟩
  rintro c before before' ⟨m, hm, after, he⟩ ⟨m', hm', after', he'⟩
  have hcm : c ∈ m.children := by simp [he]
  have hcm' : c ∈ m'.children := by simp [he']
  rcases hm with rfl | hm <;> rcases hm' with rfl | hm'
  · exact front_eq_of_nodup (he ▸ hd) (he.symm.trans he')
  · exact absurd hcm' (hloose c hcm m' hm')
  · exact absurd hcm (hloose c hcm' m hm)
  · exact h.front ⟨m, hm, after, he⟩ ⟨m', hm', after', he'⟩

/-! ### Trees with distinct identities -/

namespace Node

mutual

/-- The identities in a tree. -/
def ids : Node → List Nat
  | ⟨id, _, _, _, children, _, _⟩ => id :: idsOf children
termination_by structural n => n

/-- The identities in trees. -/
def idsOf : List Node → List Nat
  | [] => []
  | n :: ns => n.ids ++ idsOf ns
termination_by structural ns => ns

end

/-- The identities in a tree are that of its root and those in its children. -/
theorem ids_eq (n : Node) : n.ids = n.id :: idsOf n.children := by
  obtain ⟨id, symbol, content, attributes, children, unescaped, position⟩ := n
  rw [ids]

mutual

/-- What holds of a node if it does of its children, holds of all nodes. -/
theorem induction_on_children {P : Node → Prop} (h : ∀ n, (∀ c ∈ n.children, P c) → P n) :
    (n : Node) → P n
  | ⟨_, _, _, _, children, _, _⟩ => h _ (forall_of_children h children)
termination_by structural n => n

/-- What holds of a node if it does of its children holds of all nodes. -/
theorem forall_of_children {P : Node → Prop} (h : ∀ n, (∀ c ∈ n.children, P c) → P n) :
    (ns : List Node) → ∀ n ∈ ns, P n
  | [] => fun _ hn => nomatch hn
  | n :: ns => List.forall_mem_cons.mpr ⟨induction_on_children h n, forall_of_children h ns⟩
termination_by structural ns => ns

end

/-- The identities in a child are among those in its siblings, in their order. -/
theorem ids_sublist_idsOf {c : Node} {ns : List Node} (hc : c ∈ ns) :
    c.ids.Sublist (idsOf ns) := by
  induction ns with
  | nil => cases hc
  | cons n ns ih =>
    rcases List.mem_cons.mp hc with rfl | hc
    · exact List.sublist_append_left _ _
    · exact (ih hc).trans (List.sublist_append_right _ _)

/-- The identities in what is below a node are among its own. -/
theorem ids_sublist_of_under {n m : Node} (h : n.Under m) : m.ids.Sublist n.ids := by
  induction h with
  | refl => exact List.Sublist.refl _
  | tail _ hc ih =>
    refine (ids_sublist_idsOf hc).trans (.trans ?_ ih)
    rw [ids_eq]
    exact List.sublist_cons_self _ _

/-- A node that is under another has an identity in it. -/
theorem id_mem_ids_of_under {n m : Node} (h : n.Under m) : m.id ∈ n.ids := by
  refine (ids_sublist_of_under h).subset ?_
  rw [ids_eq]
  exact List.mem_cons_self

section Distinct

variable {n : Node} (h : n.ids.Nodup)
include h

/-- A node does not occur below its children. -/
theorem not_under_of_mem_children {c : Node} (hc : c ∈ n.children) : ¬ c.Under n := by
  intro hu
  rw [ids_eq] at h
  exact (List.nodup_cons.mp h).1 ((ids_sublist_idsOf hc).subset (id_mem_ids_of_under hu))

/-- The trees below different children have no identity in common. -/
theorem child_eq {c d : Node} (hc : c ∈ n.children) (hd : d ∈ n.children) {i : Nat}
    (hic : i ∈ c.ids) (hid : i ∈ d.ids) : c = d := by
  rw [ids_eq] at h
  replace h := (List.nodup_cons.mp h).2
  generalize n.children = ns at h hc hd
  induction ns with
  | nil => cases hc
  | cons m ns ih =>
    obtain ⟨-, hns, hdisjoint⟩ := List.nodup_append.mp h
    have apart {e : Node} (he : e ∈ ns) (hie : i ∈ e.ids) (him : i ∈ m.ids) : False :=
      hdisjoint i him i ((ids_sublist_idsOf he).subset hie) rfl
    rcases List.mem_cons.mp hc with hcm | hc <;> rcases List.mem_cons.mp hd with hdm | hd
    · rw [hcm, hdm]
    · exact (apart hd hid (hcm ▸ hic)).elim
    · exact (apart hc hic (hdm ▸ hid)).elim
    · exact ih hns hc hd

end Distinct

/-- An identity stands for one node. -/
theorem eq_of_id_eq : ∀ n : Node, n.ids.Nodup → ∀ a b, n.Under a → n.Under b → a.id = b.id →
    a = b := by
  refine induction_on_children fun n ih h a b ha hb hab => ?_
  have hroot {c m : Node} (hc : c ∈ n.children) (hm : c.Under m) : n.id ≠ m.id := by
    intro he
    rw [ids_eq] at h
    exact (List.nodup_cons.mp h).1
      ((ids_sublist_idsOf hc).subset (he ▸ id_mem_ids_of_under hm))
  rcases Relation.ReflTransGen.cases_head ha with rfl | ⟨c, hc, ha⟩ <;>
    rcases Relation.ReflTransGen.cases_head hb with rfl | ⟨d, hd, hb⟩
  · rfl
  · exact absurd hab (hroot hd hb)
  · exact absurd hab.symm (hroot hc ha)
  · obtain rfl := child_eq h hc hd (id_mem_ids_of_under ha) (hab ▸ id_mem_ids_of_under hb)
    exact ih c hc (h.sublist (ids_sublist_of_under (.single hc))) a b ha hb hab

/-- A node is a child of one node only. -/
theorem parent_eq : ∀ n : Node, n.ids.Nodup → ∀ m m', n.Under m → n.Under m' → ∀ c,
    c ∈ m.children → c ∈ m'.children → m = m' := by
  refine induction_on_children fun n ih h m m' hm hm' c hc hc' => ?_
  -- a child of the root stands at the root only
  have hroot {d k : Node} (hcn : c ∈ n.children) (hd : d ∈ n.children) (hk : d.Under k)
      (hck : c ∈ k.children) : False := by
    obtain rfl := child_eq h hcn hd (id_mem_ids_of_under .refl) (id_mem_ids_of_under (hk.tail hck))
    have hnk : n.Under k := .head hcn hk
    exact not_under_of_mem_children (h.sublist (ids_sublist_of_under hnk)) hck hk
  rcases Relation.ReflTransGen.cases_head hm with rfl | ⟨d, hd, hm⟩ <;>
    rcases Relation.ReflTransGen.cases_head hm' with rfl | ⟨d', hd', hm'⟩
  · rfl
  · exact (hroot hc hd' hm' hc').elim
  · exact (hroot hc' hd hm hc).elim
  · obtain rfl := child_eq h hd hd' (id_mem_ids_of_under (hm.tail hc))
      (id_mem_ids_of_under (hm'.tail hc'))
    exact ih d hd (h.sublist (ids_sublist_of_under (.single hd))) m m' hm hm' c hc hc'

/-- Siblings whose identities are distinct are distinct. -/
theorem nodup_of_ids_nodup {ns : List Node} (h : (idsOf ns).Nodup) : ns.Nodup := by
  induction ns with
  | nil => exact List.nodup_nil
  | cons n ns ih =>
    obtain ⟨-, hns, hdisjoint⟩ := List.nodup_append.mp h
    refine List.nodup_cons.mpr ⟨fun hn => ?_, ih hns⟩
    have hid := id_mem_ids_of_under (n := n) .refl
    exact hdisjoint _ hid _ ((ids_sublist_idsOf hn).subset hid) rfl

/-- **A tree with distinct identities is not shared.** -/
theorem unshared_of_nodup {n : Node} (h : n.ids.Nodup) {next : Nat} (hlt : ∀ i ∈ n.ids, i < next) :
    Unshared {m | n.Under m} next := by
  refine ⟨⟨fun m hm => hlt _ (id_mem_ids_of_under hm), fun m hm c hc => hm.tail hc,
    fun a ha b hb hab => eq_of_id_eq n h a b ha hb hab⟩, ?_⟩
  rintro c before before' ⟨m, hm, after, he⟩ ⟨m', hm', after', he'⟩
  obtain rfl := parent_eq n h m m' hm hm' c (by simp [he]) (by simp [he'])
  have hd : m.children.Nodup := by
    have hids := h.sublist (ids_sublist_of_under hm)
    rw [ids_eq] at hids
    exact nodup_of_ids_nodup (List.nodup_cons.mp hids).2
  exact front_eq_of_nodup (he ▸ hd) (he.symm.trans he')

end Node

/-! ### Drafts -/

namespace Draft

variable {α β : Type} {S T : Set Node}

mutual

/-- The finished nodes in a draft. -/
def givens : Draft → List Node
  | .finished n => [n]
  | .value _ => []
  | .list ds => givensOf ds
  | .dict _ children => children.givens
termination_by structural d => d

/-- The finished nodes in drafts. -/
def givensOf : List Draft → List Node
  | [] => []
  | d :: ds => d.givens ++ givensOf ds
termination_by structural ds => ds

end

mutual

/-- The finished nodes of a draft are in use if the draft's nodes are. -/
theorem givens_of_within : (d : Draft) → d.Within S → ∀ n ∈ d.givens, n ∈ S
  | .finished _, h => List.forall_mem_singleton.mpr h
  | .value _, _ => fun _ hn => nomatch hn
  | .list ds, h => givensOf_of_within ds h
  | .dict _ children, h => givens_of_within children h
termination_by structural d => d

theorem givensOf_of_within : (ds : List Draft) → AllWithin S ds → ∀ n ∈ givensOf ds, n ∈ S
  | [], _ => fun _ hn => nomatch hn
  | d :: ds, h =>
    List.forall_mem_append.mpr ⟨givens_of_within d h.1, givensOf_of_within ds h.2⟩
termination_by structural ds => ds

end

/-- The nodes are distinct and stand nowhere yet. -/
structure Free (S : Set Node) (ns : List Node) : Prop where
  nodup : ns.Nodup
  mem : ∀ n ∈ ns, n ∈ S
  loose : ∀ n ∈ ns, Loose S n

/-- The nodes `ns` have been built of new nodes and of `given` ones.  They may be used as children,
and so may all that could be before and was not given. -/
structure Grown (S T : Set Node) (given ns : List Node) : Prop where
  mono : S ⊆ T
  free : Free T ns
  new : ∀ n ∈ ns, n ∈ S → n ∈ given
  others : ∀ m ∈ S, m ∉ given → Loose S m → Loose T m

theorem Free.nil : Free S [] :=
  ⟨List.nodup_nil, by simp, by simp⟩

/-- Parts of what stands nowhere stand nowhere. -/
theorem Free.left {ns ms : List Node} (h : Free S (ns ++ ms)) : Free S ns :=
  ⟨(List.nodup_append.mp h.nodup).1, fun n hn => h.mem n (List.mem_append_left _ hn),
    fun n hn => h.loose n (List.mem_append_left _ hn)⟩

namespace Grown

variable {U : Set Node} {given given' ns ms : List Node}

/-- Without building, nothing grows. -/
theorem refl (h : Free S ns) : Grown S S ns ns :=
  ⟨fun _ hn => hn, h, fun _ hn _ => hn, fun _ _ _ hm => hm⟩

/-- No nodes, whatever was given. -/
theorem none : Grown S S given [] :=
  ⟨fun _ hn => hn, .nil, by simp, fun _ _ _ hm => hm⟩

/-- What is built of what has been built. -/
theorem trans (h : Grown S T given ns) (h' : Grown T U ns ms) : Grown S U given ms := by
  refine ⟨fun _ hn => h'.mono (h.mono hn), h'.free, fun m hm hS => ?_, fun m hS hg hm => ?_⟩
  · exact h.new m (h'.new m hm (h.mono hS)) hS
  · exact h'.others m (h.mono hS) (fun hn => hg (h.new m hn hS)) (h.others m hS hg hm)

/-- What is left of the given nodes may still be used. -/
theorem rest (h : Grown S T given ns) (hfree : Free S (given ++ given')) : Free T given' := by
  obtain ⟨-, hd, hdisjoint⟩ := List.nodup_append.mp hfree.nodup
  have hmem (m : Node) (hm : m ∈ given') := List.mem_append_right given hm
  refine ⟨hd, fun m hm => h.mono (hfree.mem m (hmem m hm)), fun m hm => ?_⟩
  exact h.others m (hfree.mem m (hmem m hm)) (fun hg => hdisjoint m hg m hm rfl)
    (hfree.loose m (hmem m hm))

/-- One node after the other. -/
theorem cons {n : Node} (hfree : Free S (given ++ given')) (h : Grown S T given [n])
    (h' : Grown T U given' ns) : Grown S U (given ++ given') (n :: ns) := by
  have hnT : n ∈ T := h.free.mem n List.mem_cons_self
  have hn : n ∉ given' := by
    intro hg
    have hgS := hfree.mem n (List.mem_append_right _ hg)
    have := h.new n List.mem_cons_self hgS
    exact (List.nodup_append.mp hfree.nodup).2.2 n this n hg rfl
  refine ⟨fun _ hm => h'.mono (h.mono hm), ⟨?_, ?_, ?_⟩, fun m hm hS => ?_, fun m hS hg hm => ?_⟩
  · exact List.nodup_cons.mpr ⟨fun hm => hn (h'.new n hm hnT), h'.free.nodup⟩
  · exact List.forall_mem_cons.mpr ⟨h'.mono hnT, h'.free.mem⟩
  · exact List.forall_mem_cons.mpr
      ⟨h'.others n hnT hn (h.free.loose n List.mem_cons_self), h'.free.loose⟩
  · rcases List.mem_cons.mp hm with rfl | hm
    · exact List.mem_append_left _ (h.new m List.mem_cons_self hS)
    · exact List.mem_append_right _ (h'.new m hm (h.mono hS))
  · rw [List.mem_append, not_or] at hg
    exact h'.others m (h.mono hS) hg.2 (h.others m hS hg.1 hm)

end Grown

/-- A new node over nodes that may be used as children. -/
theorem grown_insert {next : Nat} (hS : Unshared S next) {n : Node} (hid : n.id = next)
    {ns : List Node} (hn : n.children = ns) (hc : Free S ns) :
    Unshared (insert n S) (next + 1) ∧ Grown S (insert n S) ns [n] := by
  subst hn
  have hnew : n ∉ S := fun hn => by
    have := hS.below n hn
    omega
  refine ⟨hS.insert hid hc.mem hc.loose hc.nodup, fun _ hm => .inr hm, ⟨?_, ?_, ?_⟩, ?_, ?_⟩
  · exact List.nodup_singleton n
  · exact List.forall_mem_singleton.mpr (.inl rfl)
  · refine List.forall_mem_singleton.mpr fun m hm hnm => ?_
    rcases hm with rfl | hm
    · exact hnew (hc.mem m hnm)
    · exact hnew (hS.closed m hm n hnm)
  · exact List.forall_mem_singleton.mpr fun hn => absurd hn hnew
  · rintro m hm hg hloose k (rfl | hk)
    · exact hg
    · exact hloose k hk

/-- Of nodes that are not shared, `x` builds what satisfies `P` with nodes that are not shared. -/
def Grows (S : Set Node) (P : Set Node → α → Prop) (x : Build α) : Prop :=
  ∀ i a j, Unshared S i → x.run i = .ok (a, j) → ∃ T, Unshared T j ∧ P T a

namespace Grows

variable {P : Set Node → α → Prop} {Q : Set Node → β → Prop}

theorem pure {a : α} (h : P S a) : Grows S P (Pure.pure a) := by
  intro i b j hS he
  cases he
  exact ⟨S, hS, h⟩

theorem throw (f : Fault) : Grows S P (throw f : Build α) := by
  intro i b j hS he
  cases he

/-- Builders in a row grow what they grow one by one. -/
theorem bind {x : Build α} {f : α → Build β} (hx : Grows S P x)
    (hf : ∀ T a, P T a → Grows T Q (f a)) : Grows S Q (x >>= f) := by
  intro i b j hS he
  rw [StateT.run_bind] at he
  cases hr : x.run i with
  | error f =>
    rw [hr] at he
    cases he
  | ok r =>
    rw [hr] at he
    obtain ⟨T, hT, hP⟩ := hx i r.1 r.2 hS hr
    exact hf T r.1 hP r.2 b j hT he

/-- What has grown so far has grown less far, too. -/
theorem mono {R : Set Node → α → Prop} {x : Build α} (hx : Grows S P x)
    (h : ∀ T a, P T a → R T a) : Grows S R x := by
  intro i a j hS he
  obtain ⟨T, hT, hP⟩ := hx i a j hS he
  exact ⟨T, hT, h T a hP⟩

end Grows

/-- A node that is assembled stands over its children, which stood nowhere. -/
theorem assemble_grows (fields : List (Value × Value)) {ns : List Node} (h : Free S ns) :
    Grows S (fun T n => Grown S T ns [n]) (assemble fields ns) := by
  intro i n j hS he
  obtain ⟨as, -, rfl, rfl⟩ := assemble_eq_ok_iff.mp he
  exact ⟨_, grown_insert hS rfl rfl h⟩

mutual

/-- **Building shares nothing.**  The node that a draft describes stands nowhere yet, and neither
does any of the other nodes in use that did not before. -/
theorem node_grows :
    (d : Draft) → ∀ S, Free S d.givens → Grows S (fun T n => Grown S T d.givens [n]) d.node
  | .finished _, _, h => .pure (.refl h)
  | .value _, _, _ => .throw _
  | .list ds, S, h => (nodes_grows ds S h).bind fun _ _ hT =>
      (assemble_grows [] hT.free).mono fun _ _ hU => hT.trans hU
  | .dict fields children, S, h => (childNodes_grows children S h).bind fun _ _ hT =>
      (assemble_grows fields hT.free).mono fun _ _ hU => hT.trans hU
termination_by structural d => d

/-- Nodes that are built one after the other stand apart. -/
theorem nodes_grows :
    (ds : List Draft) → ∀ S, Free S (givensOf ds) →
      Grows S (fun T ns => Grown S T (givensOf ds) ns) (nodes ds)
  | [], _, h => .pure (.refl h)
  | d :: ds, S, h => by
    refine (node_grows d S h.left).bind fun T n hT => ?_
    refine (nodes_grows ds T (hT.rest h)).bind fun U ns hU => ?_
    exact .pure (hT.cons h hU)
termination_by structural ds => ds

/-- So do the children of a description. -/
theorem childNodes_grows :
    (d : Draft) → ∀ S, Free S d.givens →
      Grows S (fun T ns => Grown S T d.givens ns) d.childNodes
  | .finished _, _, _ => .throw _
  | .value v, S, _ => by
    show Grows S _ (noChildren v)
    unfold noChildren
    split <;> split
    · exact .pure .none
    · exact .throw _
    · exact .throw _
    · exact .pure .none
  | .list ds, S, h => nodes_grows ds S h
  | .dict fields children, S, _ => by
    cases fields with
    | nil => exact .pure .none
    | cons e es => exact .throw _
termination_by structural d => d

end

/-- The draft may be built: it is a node in use, or its finished nodes are distinct and stand nowhere
yet. -/
def Fits (S : Set Node) (d : Draft) : Prop :=
  (∃ n ∈ S, d = .finished n) ∨ Free S d.givens

/-- The draft may be built again and again: it is a node in use, or has none in it. -/
def Lasting (S : Set Node) (d : Draft) : Prop :=
  (∃ n ∈ S, d = .finished n) ∨ d.Within ∅

variable {d : Draft}

/-- A draft that fits is built into a tree of its own. -/
theorem Fits.grows (h : d.Fits S) : Grows S (fun T n => S ⊆ T ∧ n ∈ T) d.node := by
  rcases h with ⟨n, hn, rfl⟩ | h
  · exact .pure ⟨fun _ hm => hm, hn⟩
  · exact (node_grows d S h).mono fun T n hT => ⟨hT.mono, hT.free.mem n List.mem_cons_self⟩

/-- What fits for good fits. -/
theorem Lasting.fits (h : d.Lasting S) : d.Fits S := by
  refine h.imp_right fun h => ?_
  have hnone : d.givens = [] :=
    List.eq_nil_iff_forall_not_mem.mpr fun n hn => givens_of_within d h n hn
  rw [hnone]
  exact .nil

/-- It does when more nodes are in use, too. -/
theorem Lasting.mono (hST : S ⊆ T) (h : d.Lasting S) : d.Lasting T :=
  h.imp_left fun ⟨n, hn, he⟩ => ⟨n, hST hn, he⟩

end Draft

/-! ### Loaders -/

/-- The tree that is loaded may be built again and again. -/
def Loaded.Lasting (S : Set Node) : Loaded → Prop
  | .text _ => True
  | .tree d _ => d.Lasting S

/-- All trees that the loader gives may be built again and again. -/
def Loader.Lasting (S : Set Node) : Loader → Prop
  | .sources t => t.Within S
  | .empty => True
  | .custom answer => ∀ path location wanted l,
      answer path location wanted = .ok l → l.Lasting S

section

variable {S T : Set Node}

theorem Loaded.Lasting.mono (hST : S ⊆ T) : {l : Loaded} → l.Lasting S → l.Lasting T
  | .text _, _ => trivial
  | .tree _ _, h => Draft.Lasting.mono hST h

theorem Loader.Lasting.mono (hST : S ⊆ T) : {l : Loader} → l.Lasting S → l.Lasting T
  | .sources _, h => Sources.Within.mono hST h
  | .empty, _ => trivial
  | .custom _, h => fun path location wanted l he => (h path location wanted l he).mono hST

/-- A source is served as a node in use, however it is given. -/
theorem Loader.serve_lasting {s : Source} (hs : s.Within S) {path canonical : String}
    {wanted : Wanted} {l : Loaded} (h : Loader.serve path wanted canonical s = .ok l) :
    l.Lasting S := by
  cases s <;> cases wanted <;> cases h
  · trivial
  · exact .inl ⟨_, hs, rfl⟩

/-- Loading shares nothing. -/
theorem Sources.load_grows {t : Sources} (ht : t.Within S) (path : String) :
    Draft.Grows S (fun T r => S ⊆ T ∧ r.1.Within T ∧ r.2.Within T) (t.load path) := by
  unfold Sources.load
  split
  · exact .throw _
  · next v _ =>
    have hfits : (Draft.ofValue v).Fits S :=
      Draft.Lasting.fits (.inr (Draft.ofValue_within v))
    refine hfits.grows.bind fun T n hT => ?_
    exact .pure ⟨hT.1, hT.2, (ht.mono hT.1).put path hT.2⟩
  · next s _ hs => exact .pure ⟨fun _ hn => hn, ht.find? hs, ht⟩

end

end Trellis
