import Trellis.Proofs.Evaluation.Variables
import Trellis.Proofs.Registry.Keys
import Trellis.Proofs.Sharing.Places

/-!
# Proofs — Sharing — DictForm

The form that a tree has as nested dictionaries, and the tree that is built of this form.

A node that is built, of a draft or field by field, has contents that are empty only if they are the
empty text, and attributes with distinct keys (`Node.Made`).  Of the form of such a node a copy of
the node is built (`Node.renewedBy_toValue`): every field is found under its name, or has the
default that it was left out for.  All nodes of the copy are new.
-/

namespace Trellis

/-! ### Dictionaries of distinct keys -/

namespace Slots

open Value (Distinct)

/-- Keys that are distinct stay in order. -/
theorem foldl_insert_of_distinct {acc es : List (Value × Value)}
    (h : Distinct ((acc ++ es).map (·.1))) :
    es.foldl (fun t e => Value.insert e.1 e.2 t) acc = acc ++ es := by
  induction es generalizing acc with
  | nil => simp
  | cons e es ih =>
    have hnew : (acc.any fun f => Value.sameItem e.1 f.1) = false := by
      rw [List.map_append, Distinct, List.pairwise_append] at h
      rw [List.any_eq_false]
      intro f hf
      simpa using h.2.2 f.1 (List.mem_map_of_mem hf) e.1 (List.mem_map_of_mem List.mem_cons_self)
    rw [List.foldl_cons, insert_of_not_any _ _ _ hnew, ih (by simpa using h), List.append_assoc]
    rfl

/-- Entries with distinct keys are the dictionary that is made of them. -/
theorem live_ofList {es : List (Value × Value)} (h : Distinct (es.map (·.1))) :
    (ofList es).live = es := by
  rw [ofList, live_putAll, live_empty, foldl_insert_of_distinct (by simpa using h), List.nil_append]

/-- An empty storage takes over the entries of another one as they are. -/
theorem live_absorb_of_empty {s t : Slots} (hs : s.live = []) (ht : t.Keyed) :
    (s.absorb t).live = t.live := by
  have hreserve : (s.reserve t).live = [] := by
    unfold reserve
    split
    · rw [live_repack, hs]
    · exact hs
  unfold absorb
  split
  · next h => rw [hs, List.isEmpty_iff.mp h]
  · split
    · rfl
    · have hkeys : Distinct (([] ++ t.live).map Prod.fst) := ht
      rw [live_putAll, hreserve, foldl_insert_of_distinct hkeys, List.nil_append]

end Slots

namespace Draft

/-- The attributes that a dictionary stands for are its entries. -/
theorem attributes_dict {es : List (Value × Value)} (h : Value.Distinct (es.map (·.1))) :
    attributes (.dict es) = .ok es := by
  have horElse : orElse (.dict es) (.dict []) = .dict es := by
    cases es <;> rfl
  have hrun : attributes (.dict es) =
      .ok ((Slots.ofList []).absorb (Slots.ofList es)).live := by
    unfold attributes
    rw [horElse]
    rfl
  rw [hrun, Slots.live_absorb_of_empty rfl (Slots.keyed_ofList es), Slots.live_ofList h]

/-! ### Fields -/

variable {fields as : List (Value × Value)}

/-- What is assembled, with the next identity. -/
theorem assemble_run (h : attributes (field fields "attributes" "attrs" .none) = .ok as)
    (ns : List Node) (i : Nat) :
    (assemble fields ns).run i =
      .ok (⟨i, field fields "tagOrSymbol" "symbol" (.text ""),
        orElse (field fields "content" "content" (.text "")) (.text ""), as, ns,
        (field fields "unescaped" "unescaped" .none).truth,
        field fields "pos" "pos" .none⟩, i + 1) :=
  assemble_eq_ok_iff.mpr ⟨as, h, rfl, rfl⟩

end Draft

namespace Node

/-- The node is as nodes are made: its content is no other empty value than the empty text, and the
keys of its attributes are distinct. -/
structure Made (n : Node) : Prop where
  content : Draft.orElse n.content (.text "") = n.content
  keyed : n.Keyed

/-- Every node that is assembled is well made. -/
theorem assembles_made : Draft.Assembles Made := by
  intro fields ns i n j h
  refine ⟨?_, Draft.assembles_keyed fields ns i n j h⟩
  obtain ⟨as, -, rfl, -⟩ := Draft.assemble_eq_ok_iff.mp h
  unfold Draft.orElse
  split <;> simp_all [Value.truth]

/-- The nodes of a draft are made so, if the finished ones in it are. -/
theorem made_of_run {d : Draft} (hd : d.Within {n | n.Throughout Made}) {i j : Nat} {n : Node}
    (h : d.node.run i = .ok (n, j)) : n.Throughout Made :=
  Draft.node_throughout assembles_made d hd i n j h

/-- The entry of a position, which is left out if there is none. -/
def positionEntries : Value → List (Value × Value)
  | .none => []
  | p => [(.text "pos", p)]

/-- The entries of a node's form. -/
def formEntries (n : Node) : List (Value × Value) :=
  [(Value.text "tagOrSymbol", n.symbol), (Value.text "content", n.content),
    (Value.text "attributes", Value.dict n.attributes),
    (Value.text "children", Value.list (allToValue n.children))] ++
  (if n.unescaped then [(Value.text "unescaped", Value.bool true)] else []) ++
  positionEntries n.position

/-- A position is left out just if there is none. -/
theorem positionEntries_cases (p : Value) :
    p = .none ∧ positionEntries p = [] ∨ positionEntries p = [(.text "pos", p)] := by
  unfold positionEntries
  split
  · exact .inl ⟨rfl, rfl⟩
  · exact .inr rfl

/-- The form of a node is a dictionary of its fields. -/
theorem toValue_eq (n : Node) : n.toValue = .dict n.formEntries := by
  cases n
  rfl

theorem allToValue_eq (ns : List Node) : allToValue ns = ns.map toValue := by
  induction ns with
  | nil => rfl
  | cons n ns ih => rw [allToValue, ih, List.map_cons]

open Draft (field orElse)
open Value (lookup?_cons sameItem_text_iff)

section Form

variable (n : Node)

/-- The symbol is read back from the form. -/
theorem field_symbol : field n.formEntries "tagOrSymbol" "symbol" (.text "") = n.symbol := by
  simp [formEntries, field, lookup?_cons, sameItem_text_iff]

/-- So is the content. -/
theorem field_content : field n.formEntries "content" "content" (.text "") = n.content := by
  simp [formEntries, field, lookup?_cons, sameItem_text_iff]

/-- So are the attributes. -/
theorem field_attributes :
    field n.formEntries "attributes" "attrs" .none = .dict n.attributes := by
  simp [formEntries, field, lookup?_cons, sameItem_text_iff]

/-- So is whether the content is unescaped. -/
theorem field_unescaped :
    (field n.formEntries "unescaped" "unescaped" .none).truth = n.unescaped := by
  rcases positionEntries_cases n.position with ⟨-, hp⟩ | hp <;> cases hu : n.unescaped <;>
    simp [formEntries, field, Value.lookup?, sameItem_text_iff, hp, hu, Value.truth]

/-- So is the position, if there is one. -/
theorem field_position : field n.formEntries "pos" "pos" .none = n.position := by
  rcases positionEntries_cases n.position with ⟨hnone, hp⟩ | hp
  · rw [hnone]
    cases hu : n.unescaped <;>
      simp [formEntries, field, Value.lookup?, sameItem_text_iff, hp, hu]
  · cases hu : n.unescaped <;>
      simp [formEntries, field, Value.lookup?, sameItem_text_iff, hp, hu]

/-- The form is a description with the forms of the children. -/
theorem ofValue_toValue :
    Draft.ofValue n.toValue =
      .dict n.formEntries (.list (Draft.ofValues (n.children.map toValue))) := by
  rw [toValue_eq, Draft.ofValue]
  congr 1
  simp [formEntries, Draft.childrenOf, Draft.childrenIn, Draft.ofValue, sameItem_text_iff,
    allToValue_eq]

end Form

/-! ### The form of a tree -/

/-- Of the draft, a copy of the node is built all nodes of which are new, whatever identities are
handed out. -/
def RenewedBy (n : Node) (d : Draft) : Prop :=
  ∀ i, ∃ n' j, d.node.run i = .ok (n', j) ∧ n'.bare = n.bare ∧ i ≤ j ∧
    n'.Throughout fun m => i ≤ m.id

/-- Each of the nodes is renewed, one after the other. -/
theorem renewed_nodes {ns : List Node} (h : ∀ n ∈ ns, n.RenewedBy (Draft.ofValue n.toValue))
    (i : Nat) :
    ∃ ns' j, (Draft.nodes (Draft.ofValues (ns.map toValue))).run i = .ok (ns', j) ∧
      ns'.map bare = ns.map bare ∧ i ≤ j ∧ ∀ n ∈ ns', n.Throughout fun m => i ≤ m.id := by
  induction ns generalizing i with
  | nil => exact ⟨[], i, rfl, rfl, le_rfl, List.forall_mem_nil _⟩
  | cons n ns ih =>
    obtain ⟨hn, hns⟩ := List.forall_mem_cons.mp h
    obtain ⟨n', j, hrun, hbare, hij, hnew⟩ := hn i
    obtain ⟨ns', k, hruns, hbares, hjk, hnews⟩ := ih hns j
    refine ⟨n' :: ns', k, ?_, by rw [List.map_cons, List.map_cons, hbare, hbares], hij.trans hjk, ?_⟩
    · simp only [List.map_cons, Draft.ofValues, Draft.nodes, StateT.run_bind, hrun]
      show ((Draft.nodes (Draft.ofValues (ns.map toValue))).run j >>= _) = _
      rw [hruns]
      rfl
    · refine List.forall_mem_cons.mpr ⟨hnew, fun m hm k hk => ?_⟩
      exact hij.trans (hnews m hm k hk)

/-- **The form of a tree renews it.**  By induction on the tree: the fields are read off the form,
and the children are renewed in order. -/
theorem renewedBy_toValue (n : Node) (h : n.Throughout Made) :
    n.RenewedBy (Draft.ofValue n.toValue) := by
  induction n using induction_on_children with
  | h n ih =>
    intro i
    obtain ⟨ns, j, hrun, hbare, hij, hnew⟩ := renewed_nodes (fun c hc => ih c hc (h.children c hc)) i
    have hattributes : Draft.attributes (field n.formEntries "attributes" "attrs" .none) =
        .ok n.attributes := by
      rw [field_attributes]
      exact Draft.attributes_dict h.self.keyed
    have hassemble := Draft.assemble_run hattributes ns j
    rw [field_symbol, field_content, h.self.content, field_unescaped, field_position] at hassemble
    refine ⟨{ n with id := j, children := ns }, j + 1, ?_, ?_, by omega, ?_⟩
    · rw [ofValue_toValue, Draft.node, StateT.run_bind, Draft.childNodes, hrun]
      exact hassemble
    · exact bare_eq_iff.mpr ⟨rfl, rfl, rfl, hbare, rfl, rfl⟩
    · exact .intro hij hnew

/-- Identities do not show in the form. -/
theorem toValue_bare (n : Node) : n.bare.toValue = n.toValue := by
  induction n using induction_on_children with
  | h n ih =>
    have hchildren : (n.children.map bare).map toValue = n.children.map toValue := by
      rw [List.map_map]
      exact List.map_congr_left ih
    rw [toValue_eq, toValue_eq, bare_eq]
    simp only [formEntries, allToValue_eq, hchildren]

/-- Copies have the same form. -/
theorem toValue_eq_of_bare_eq {m n : Node} (h : m.bare = n.bare) : m.toValue = n.toValue := by
  rw [← toValue_bare m, h, toValue_bare]

end Node
end Trellis
