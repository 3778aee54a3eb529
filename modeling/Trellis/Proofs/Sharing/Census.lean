import Trellis.Proofs.Sharing.Copies
import Mathlib.Data.Set.Defs

/-!
# Proofs — Sharing — Census

The nodes in use.  A node may occur at any number of places, and its identity tells it apart from
the others; `Census S next` says so of the nodes of a set, of which the supply of identities is past.

Building keeps this: what a draft over such nodes describes is again over nodes in use, the new ones
among them (`Draft.node_counts`).
-/

namespace Trellis

/-- `S` is closed under children and has one node of an identity at most, below `next`. -/
structure Census (S : Set Node) (next : Nat) : Prop where
  below : ∀ n ∈ S, n.id < next
  closed : ∀ n ∈ S, ∀ c ∈ n.children, c ∈ S
  single : ∀ m ∈ S, ∀ n ∈ S, m.id = n.id → m = n

/-- A new node over nodes in use is one more. -/
theorem Census.insert {S : Set Node} {next : Nat} (h : Census S next) {n : Node}
    (hid : n.id = next) (hc : ∀ c ∈ n.children, c ∈ S) : Census (insert n S) (next + 1) := by
  refine ⟨fun m hm => ?_, fun m hm c hcm => ?_, fun a ha b hb hab => ?_⟩
  · rcases hm with rfl | hm
    · omega
    · have := h.below m hm
      omega
  · rcases hm with rfl | hm
    · exact .inr (hc c hcm)
    · exact .inr (h.closed m hm c hcm)
  · rcases ha with rfl | ha <;> rcases hb with rfl | hb
    · rfl
    · have := h.below b hb
      omega
    · have := h.below a ha
      omega
    · exact h.single a ha b hb hab

namespace Draft

variable {α β : Type} {S : Set Node}

mutual

/-- The finished nodes in a draft are in use. -/
def Within (S : Set Node) : Draft → Prop
  | .finished n => n ∈ S
  | .value _ => True
  | .list ds => AllWithin S ds
  | .dict _ children => Within S children
termination_by structural d => d

/-- The finished nodes in drafts are in use. -/
def AllWithin (S : Set Node) : List Draft → Prop
  | [] => True
  | d :: ds => Within S d ∧ AllWithin S ds
termination_by structural ds => ds

end

mutual

/-- Nodes of a draft that are in use stay so when more are. -/
theorem Within.mono {T : Set Node} (h : S ⊆ T) : (d : Draft) → d.Within S → d.Within T
  | .finished _, hd => h hd
  | .value _, _ => trivial
  | .list ds, hd => AllWithin.mono h ds hd
  | .dict _ children, hd => Within.mono h children hd
termination_by structural d => d

theorem AllWithin.mono {T : Set Node} (h : S ⊆ T) :
    (ds : List Draft) → AllWithin S ds → AllWithin T ds
  | [], _ => trivial
  | d :: ds, hd => ⟨Within.mono h d hd.1, AllWithin.mono h ds hd.2⟩
termination_by structural ds => ds

end

mutual

/-- No value has a finished node in it. -/
theorem ofValue_within : (v : Value) → (ofValue v).Within S
  | .list vs => ofValues_within vs
  | .tuple vs => ofValues_within vs
  | .dict es => childrenOf_within es
  | .none | .bool _ | .int _ | .float _ | .nan _ | .text _ | .range .. | .object _ | .set ..
  | .view .. | .function _ | .generic .. | .descriptor .. | .method .. | .ref .. | .cut _ => trivial
termination_by structural v => v

/-- A draft of plain values contains no finished nodes. -/
theorem ofValues_within : (vs : List Value) → AllWithin S (ofValues vs)
  | [] => trivial
  | v :: vs => ⟨ofValue_within v, ofValues_within vs⟩
termination_by structural vs => vs

theorem childrenOf_within : (es : List (Value × Value)) → (childrenOf es).Within S
  | [] => trivial
  | e :: es => by
      unfold childrenOf
      split
      · next d hd => exact childrenIn_within e d hd
      · exact childrenOf_within es
termination_by structural es => es

theorem childrenIn_within : (e : Value × Value) → ∀ d, childrenIn e = some d → d.Within S
  | (k, v), d, h => by
      unfold childrenIn at h
      split at h
      · cases h
        exact ofValue_within v
      · cases h
termination_by structural e => e

end

/-! ### Building -/

/-- From nodes in use, `x` gives what satisfies `P` with nodes in use, possibly more. -/
def Counts (S : Set Node) (P : Set Node → α → Prop) (x : Build α) : Prop :=
  ∀ i a j, Census S i → x.run i = .ok (a, j) → ∃ T, S ⊆ T ∧ Census T j ∧ P T a

namespace Counts

variable {P : Set Node → α → Prop} {Q : Set Node → β → Prop}

theorem pure {a : α} (h : P S a) : Counts S P (Pure.pure a) := by
  intro i b j hS he
  cases he
  exact ⟨S, fun _ hn => hn, hS, h⟩

theorem throw (f : Fault) : Counts S P (throw f : Build α) := by
  intro i b j hS he
  cases he

/-- Builders in a row use what they use one by one. -/
theorem bind {x : Build α} {f : α → Build β} (hx : Counts S P x)
    (hf : ∀ T a, S ⊆ T → P T a → Counts T Q (f a)) : Counts S Q (x >>= f) := by
  intro i b j hS he
  rw [StateT.run_bind] at he
  cases hr : x.run i with
  | error f =>
      rw [hr] at he
      cases he
  | ok r =>
      rw [hr] at he
      obtain ⟨T, hST, hT, hP⟩ := hx i r.1 r.2 hS hr
      obtain ⟨U, hTU, hU, hQ⟩ := hf T r.1 hST hP r.2 b j hT he
      exact ⟨U, fun _ hn => hTU (hST hn), hU, hQ⟩

end Counts

/-- A node that is assembled is one more in use. -/
theorem assemble_counts (fields : List (Value × Value)) {ns : List Node} (h : ∀ n ∈ ns, n ∈ S) :
    Counts S (fun T n => n ∈ T) (assemble fields ns) := by
  intro i n j hS he
  obtain ⟨as, -, rfl, rfl⟩ := assemble_eq_ok_iff.mp he
  exact ⟨_, fun _ hn => .inr hn, hS.insert rfl h, .inl rfl⟩

mutual

/-- **Building counts.**  The node that a draft over nodes in use describes is in use then. -/
theorem node_counts :
    (d : Draft) → ∀ S, d.Within S → Counts S (fun T n => n ∈ T) d.node
  | .finished _, _, h => .pure h
  | .value _, _, _ => .throw _
  | .list ds, S, h => (nodes_counts ds S h).bind fun _ _ _ hns => assemble_counts [] hns
  | .dict fields children, S, h =>
      (childNodes_counts children S h).bind fun _ _ _ hns => assemble_counts fields hns
termination_by structural d => d

/-- So are nodes that are built one after the other. -/
theorem nodes_counts :
    (ds : List Draft) → ∀ S, AllWithin S ds → Counts S (fun T ns => ∀ n ∈ ns, n ∈ T) (nodes ds)
  | [], _, _ => .pure fun _ hn => nomatch hn
  | d :: ds, S, h => by
      refine (node_counts d S h.1).bind fun T n hST hn => ?_
      refine (nodes_counts ds T (AllWithin.mono hST ds h.2)).bind fun U ns hTU hns => ?_
      exact .pure (List.forall_mem_cons.mpr ⟨hTU hn, hns⟩)
termination_by structural ds => ds

/-- So are the children of a description. -/
theorem childNodes_counts :
    (d : Draft) → ∀ S, d.Within S → Counts S (fun T ns => ∀ n ∈ ns, n ∈ T) d.childNodes
  | .finished _, _, _ => .throw _
  | .value v, S, _ => by
      show Counts S _ (noChildren v)
      unfold noChildren
      split <;> split
      · exact .pure fun _ hn => nomatch hn
      · exact .throw _
      · exact .throw _
      · exact .pure fun _ hn => nomatch hn
  | .list ds, S, h => nodes_counts ds S h
  | .dict fields _, S, _ => by
      cases fields with
      | nil => exact .pure fun _ hn => nomatch hn
      | cons e es => exact .throw _
termination_by structural d => d

end

end Draft
end Trellis
