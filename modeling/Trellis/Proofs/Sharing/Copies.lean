import Trellis.Proofs.Sharing.Runs

/-!
# Proofs — Sharing — Copies

Copies of trees: nodes that are alike but for their identities.  `Node.bare` forgets identities, so
that two nodes are copies of each other when they are alike bare; likewise drafts, what loaders
give, and mixins.

What a draft describes does not depend on the identities in it, nor on those that are handed out
(`Draft.node_bare`).
-/

namespace Trellis

open Rendering (Matched)

/-! ### Nodes -/

namespace Node

theorem mapAll_eq (f : Node → Node) (ns : List Node) : mapAll f ns = ns.map (map f) := by
  induction ns with
  | nil => rfl
  | cons n ns ih => rw [mapAll, ih, List.map_cons]

/-- The node without identities. -/
def bare (n : Node) : Node :=
  n.map fun m => { m with id := 0 }

/-- A node without identities has children without identities. -/
theorem bare_eq (n : Node) :
    n.bare = ⟨0, n.symbol, n.content, n.attributes, n.children.map bare, n.unescaped,
      n.position⟩ := by
  obtain ⟨id, symbol, content, attributes, children, unescaped, position⟩ := n
  simp only [bare, map, mapAll_eq]
  rfl

/-- A copy has the same fields, and copies of the children. -/
theorem bare_eq_iff {m n : Node} :
    m.bare = n.bare ↔
      m.symbol = n.symbol ∧ m.content = n.content ∧ m.attributes = n.attributes ∧
      m.children.map bare = n.children.map bare ∧ m.unescaped = n.unescaped ∧
      m.position = n.position := by
  rw [bare_eq m, bare_eq n]
  simp

/-- A copy is the node with an identity and children of its own. -/
theorem eq_of_bare_eq {m n : Node} (h : m.bare = n.bare) :
    m = { n with id := m.id, children := m.children } := by
  obtain ⟨h₁, h₂, h₃, -, h₅, h₆⟩ := bare_eq_iff.mp h
  obtain ⟨id, symbol, content, attributes, children, unescaped, position⟩ := m
  simp_all

end Node

/-- The definition of a mixin without identities. -/
def Mixin.bare (m : Mixin) : Mixin :=
  { m with body := m.body.bare }

/-- Mixins are copies if their bodies are, and their parameters are the same. -/
theorem Mixin.bare_eq_iff {m m' : Mixin} :
    m'.bare = m.bare ↔ m'.body.bare = m.body.bare ∧ m'.params = m.params := by
  simp [bare]

/-! ### Drafts -/

namespace Draft

mutual

/-- The draft without the identities of the finished nodes in it. -/
def bare : Draft → Draft
  | .finished n => .finished n.bare
  | .value v => .value v
  | .list ds => .list (bares ds)
  | .dict fields children => .dict fields (bare children)
termination_by structural d => d

/-- The drafts without identities. -/
def bares : List Draft → List Draft
  | [] => []
  | d :: ds => bare d :: bares ds
termination_by structural ds => ds

end

/-- What is assembled: a node with the next identity, with what the fields say, and over the given
children. -/
theorem assemble_eq_ok_iff {fields : List (Value × Value)} {ns : List Node} {i j : Nat} {n : Node} :
    (assemble fields ns).run i = .ok (n, j) ↔
      ∃ as, attributes (field fields "attributes" "attrs" .none) = .ok as ∧
        n = ⟨i, field fields "tagOrSymbol" "symbol" (.text ""),
          orElse (field fields "content" "content" (.text "")) (.text ""), as, ns,
          (field fields "unescaped" "unescaped" .none).truth,
          field fields "pos" "pos" .none⟩ ∧
        j = i + 1 := by
  simp only [assemble, StateT.run_bind]
  cases attributes (field fields "attributes" "attrs" .none) with
  | error f => exact ⟨nofun, fun ⟨_, h, _⟩ => nomatch h⟩
  | ok as =>
      constructor
      · rintro ⟨⟩
        exact ⟨as, rfl, rfl, rfl⟩
      · rintro ⟨_, ⟨⟩, rfl, rfl⟩
        rfl

/-- Nodes of the same fields, with copies for children, are copies. -/
theorem assemble_bare (fields : List (Value × Value)) {ns ns' : List Node}
    (h : ns'.map Node.bare = ns.map Node.bare) (i i' : Nat) :
    Matched (fun r r' => r'.1.bare = r.1.bare) ((assemble fields ns).run i)
      ((assemble fields ns').run i') := by
  simp only [assemble, StateT.run_bind]
  cases attributes (field fields "attributes" "attrs" .none) with
  | error f => exact .error f
  | ok as => exact .ok (by rw [Node.bare_eq, Node.bare_eq, h])

/-- That there are no children is found alike, whatever identities are next. -/
theorem noChildren_bare (v : Value) (i i' : Nat) :
    Matched (fun r r' => r'.1.map Node.bare = r.1.map Node.bare) ((noChildren v).run i)
      ((noChildren v).run i') := by
  unfold noChildren
  split <;> split
  · exact .ok rfl
  · exact .error _
  · exact .error _
  · exact .ok rfl

theorem noChildrenIn_bare (fields : List (Value × Value)) (i i' : Nat) :
    Matched (fun r r' => r'.1.map Node.bare = r.1.map Node.bare) ((noChildrenIn fields).run i)
      ((noChildrenIn fields).run i') := by
  cases fields with
  | nil => exact .ok rfl
  | cons e es => exact .error _

mutual

/-- **Identities do not matter.**  Of copies, copies are built, whatever identities are handed out,
or the building fails alike. -/
theorem node_bare :
    (d d' : Draft) → d'.bare = d.bare → ∀ i i',
      Matched (fun r r' => r'.1.bare = r.1.bare) (d.node.run i) (d'.node.run i')
  | .finished n, d', h, i, i' => by
      cases d' with
      | finished n' =>
          simp only [bare, finished.injEq] at h
          exact .ok h
      | _ => simp [bare] at h
  | .value v, d', h, i, i' => by
      cases d' with
      | value v' =>
          simp only [bare, value.injEq] at h
          exact h ▸ .error _
      | _ => simp [bare] at h
  | .list ds, d', h, i, i' => by
      cases d' with
      | list ds' =>
          simp only [bare, list.injEq] at h
          simp only [node, StateT.run_bind]
          exact (nodes_bare ds ds' h i i').bind fun _ _ h => assemble_bare [] h _ _
      | _ => simp [bare] at h
  | .dict fields children, d', h, i, i' => by
      cases d' with
      | dict fields' children' =>
          simp only [bare, dict.injEq] at h
          obtain ⟨rfl, h⟩ := h
          simp only [node, StateT.run_bind]
          exact (childNodes_bare children children' h i i').bind fun _ _ h =>
            assemble_bare _ h _ _
      | _ => simp [bare] at h
termination_by structural d => d

/-- The same for drafts one after the other. -/
theorem nodes_bare :
    (ds ds' : List Draft) → bares ds' = bares ds → ∀ i i',
      Matched (fun r r' => r'.1.map Node.bare = r.1.map Node.bare) ((nodes ds).run i)
        ((nodes ds').run i')
  | [], ds', h, i, i' => by
      cases ds' with
      | nil => exact .ok rfl
      | cons d ds => simp [bares] at h
  | d :: ds, ds', h, i, i' => by
      cases ds' with
      | nil => simp [bares] at h
      | cons d' ds' =>
          simp only [bares, List.cons.injEq] at h
          simp only [nodes, StateT.run_bind]
          refine (node_bare d d' h.1 i i').bind fun r r' hr => ?_
          refine (nodes_bare ds ds' h.2 r.2 r'.2).bind fun s s' hs => .ok ?_
          simp [hr, hs]
termination_by structural ds => ds

/-- The same for the children of a node. -/
theorem childNodes_bare :
    (d d' : Draft) → d'.bare = d.bare → ∀ i i',
      Matched (fun r r' => r'.1.map Node.bare = r.1.map Node.bare) (d.childNodes.run i)
        (d'.childNodes.run i')
  | .finished n, d', h, i, i' => by
      cases d' with
      | finished n' => exact .error _
      | _ => simp [bare] at h
  | .value v, d', h, i, i' => by
      cases d' with
      | value v' =>
          simp only [bare, value.injEq] at h
          exact h ▸ noChildren_bare v i i'
      | _ => simp [bare] at h
  | .list ds, d', h, i, i' => by
      cases d' with
      | list ds' =>
          simp only [bare, list.injEq] at h
          exact nodes_bare ds ds' h i i'
      | _ => simp [bare] at h
  | .dict fields children, d', h, i, i' => by
      cases d' with
      | dict fields' children' =>
          simp only [bare, dict.injEq] at h
          obtain ⟨rfl, -⟩ := h
          exact noChildrenIn_bare fields' i i'
      | _ => simp [bare] at h
termination_by structural d => d

end

end Draft
end Trellis
