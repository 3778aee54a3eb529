import Trellis.Proofs.Memos.Static
import Trellis.Proofs.Sharing.Collaborators

/-!
# Proofs — Memos — Policy

What may be said of the pieces of markup that an engine makes.  An `Admission` says which nodes and
which texts of sources are admitted.  A `Policy` says what holds of the pieces then; it is closed
under the ways in which pieces are made of others.

`Policy.Admits` is what a policy asks of a world: of the nodes in use, the loaders and the plugins.
Building and loading keep to it.
-/

namespace Trellis

open Rendering (exec exec_bind exec_bind_ok)

/-- The plugins of an engine in a world. -/
def Engine.registryIn (eng : Engine) (w : World) : Registry :=
  w.registries.getD eng.registry (Registry.empty eng.config.packagePrefix)

namespace Node

/-- `m` is the node `n` or below it. -/
def Under : Node → Node → Prop :=
  Relation.ReflTransGen fun n m => m ∈ n.children

end Node

/-! ### What is admitted -/

/-- What is admitted. -/
structure Admission where
  node : Node → Prop
  /-- The text of a source. -/
  source : String → Prop

namespace Admission

variable (adm : Admission)

/-- All nodes that are built of a draft are admitted. -/
def Builds (d : Draft) : Prop :=
  ∀ i n j, d.node.run i = .ok (n, j) → ∀ m, n.Under m → adm.node m

/-- What a source gives is admitted; of a node that is in use nothing is asked. -/
def Offers : Source → Prop
  | .text s => adm.source s
  | .draft v => adm.Builds (Draft.ofValue v)
  | .node _ | .other _ => True

/-- What is loaded is admitted. -/
def Gives : Loaded → Prop
  | .text s => adm.source s
  | .tree d _ => adm.Builds d

/-- What a loader gives is admitted. -/
def Loads : Loader → Prop
  | .sources t => ∀ e ∈ t, adm.Offers e.2
  | .empty => True
  | .custom answer => ∀ path location wanted l, answer path location wanted = .ok l → adm.Gives l

end Admission

/-- What is admitted, and what holds of what is made of it. -/
structure Policy (eng : Engine) extends Admission where
  /-- The content of a text or tag. -/
  content : Value → Prop
  /-- An attribute as it is written. -/
  setting : String → Prop
  piece : Value → Prop
  joined : ∀ {vs s}, (∀ v ∈ vs, piece v) → Markup.join vs = .ok s → piece (.text s)
  appended : ∀ {s t}, piece (.text s) → piece (.text t) → piece (.text (s ++ t))
  included : ∀ {s}, source s → piece (.text s)
  plain : ∀ {n s}, node n → Role.ofValue n.symbol = .ok .tag ∨ Role.ofValue n.symbol = .ok .text →
    n.unescaped = false → Markup.searchable n.content = .ok s → Header.expression? s = none →
    content n.content
  escaped : ∀ {v u}, eng.config.escape v = .ok u → content u
  spaced : ∀ {v u}, content v → Markup.appendTo " " v = .ok u → piece u
  commented : ∀ {n u}, node n → Role.ofValue n.symbol = .ok .comment →
    Markup.comment n.content = .ok u → piece u
  flagged : ∀ {n k b}, node n → Role.ofValue n.symbol = .ok .tag → (k, .bool b) ∈ n.attributes →
    setting (Markup.flag k.plain)
  emptied : ∀ {n k v s}, node n → Role.ofValue n.symbol = .ok .tag → (k, v) ∈ n.attributes →
    Markup.emptyAttribute? k.plain = some s → setting s
  written : ∀ {n k v} t, node n → Role.ofValue n.symbol = .ok .tag → (.text k, v) ∈ n.attributes →
    v.truth = true → (∀ b, v ≠ .bool b) → Markup.isData k = false →
    setting (Markup.written k t)
  writtenData : ∀ {n k v t u}, node n → Role.ofValue n.symbol = .ok .tag →
    (.text k, v) ∈ n.attributes → eng.config.escape (.text t) = .ok u →
    setting (Markup.written k u.plain)
  tagged : ∀ {n t as cs bs es html}, node n → Role.ofValue n.symbol = .ok .tag →
    Tag.ofValue n.symbol = .ok t → (∀ a ∈ as, setting a) → (∀ c ∈ cs, content c) →
    (∀ b ∈ bs, piece b) → Markup.closing eng.config.voidTags t = .ok es →
    Markup.join (Markup.opening t ++ Markup.attributes as ++ cs ++ bs ++ es) = .ok html →
    piece (.text html)

namespace Policy

variable {eng : Engine} (pol : Policy eng)

/-- No markup at all is a piece. -/
theorem blank : pol.piece (.text "") := by
  have h : Markup.join [] = .ok "" := rfl
  exact pol.joined (by simp) h

/-! ### Static markup -/

section Static

variable {pol} {base : Nat → Memo} {n : Node}

/-- Static content is of the kind that the policy asks for. -/
theorem static_content (hn : pol.node n)
    (hr : Role.ofValue n.symbol = .ok .tag ∨ Role.ofValue n.symbol = .ok .text) {v : Value}
    (h : Static.content eng n = some v) : pol.content v := by
  unfold Static.content at h
  split at h
  · exact pol.escaped (ok_of_toOption h)
  · next hu =>
    obtain ⟨s, hs, h⟩ := Option.bind_eq_some_iff.mp h
    split at h
    · next he =>
      obtain rfl := Option.some.inj h
      exact pol.plain hn hr (by simpa using hu) (ok_of_toOption hs) he
    · cases h

/-- So is a static attribute. -/
theorem static_attributeOf (hn : pol.node n) (hr : Role.ofValue n.symbol = .ok .tag)
    {k v : Value} (hkv : (k, v) ∈ n.attributes) {a : Option String}
    (h : Static.attributeOf k v = some a) : ∀ s ∈ a, pol.setting s := by
  unfold Static.attributeOf at h
  intro s hs
  split at h
  · obtain rfl := Option.some.inj h
    obtain rfl := Option.some.inj hs
    exact pol.flagged hn hr hkv
  · split at h
    · cases h
    · obtain rfl := Option.some.inj h
      exact pol.emptied hn hr hkv hs

/-- So are static attributes in a row. -/
theorem static_attributes (hn : pol.node n) (hr : Role.ofValue n.symbol = .ok .tag)
    (as : List (Value × Value)) (has : ∀ a ∈ as, a ∈ n.attributes) {ss : List String}
    (h : Static.attributes as = some ss) : ∀ s ∈ ss, pol.setting s := by
  induction as generalizing ss with
  | nil =>
    obtain rfl := Option.some.inj h
    simp
  | cons a as ih =>
    obtain ⟨ha, has⟩ := List.forall_mem_cons.mp has
    obtain ⟨b, hb, h⟩ := Option.bind_eq_some_iff.mp h
    obtain ⟨bs, hbs, h⟩ := Option.bind_eq_some_iff.mp h
    obtain rfl := Option.some.inj h
    intro s hs
    rcases List.mem_append.mp hs with hs | hs
    · exact static_attributeOf hn hr ha hb s (Option.mem_toList.mp hs)
    · exact ih has hbs s hs

/-- So is a static tag, if what stands inside it is. -/
theorem static_tag (hn : pol.node n) (hr : Role.ofValue n.symbol = .ok .tag)
    {inner : Option (List Value)} (hinner : ∀ vs, inner = some vs → ∀ v ∈ vs, pol.piece v)
    {html : String} (h : Static.tag eng n inner = some html) : pol.piece (.text html) := by
  obtain ⟨t, ht, h⟩ := Option.bind_eq_some_iff.mp h
  obtain ⟨as, has, h⟩ := Option.bind_eq_some_iff.mp h
  obtain ⟨cs, hcs, h⟩ := Option.bind_eq_some_iff.mp h
  obtain ⟨bs, hbs, h⟩ := Option.bind_eq_some_iff.mp h
  obtain ⟨es, hes, h⟩ := Option.bind_eq_some_iff.mp h
  refine pol.tagged hn hr (ok_of_toOption ht)
    (static_attributes hn hr _ (fun a ha => ha) has) (fun c hc => ?_) (fun b hb => ?_)
    (ok_of_toOption hes) (ok_of_toOption h)
  · unfold Static.tagContent at hcs
    split at hcs
    · obtain ⟨v, hv, hcs⟩ := Option.bind_eq_some_iff.mp hcs
      obtain rfl := Option.some.inj hcs
      obtain rfl := List.mem_singleton.mp hc
      exact static_content hn (.inl hr) hv
    · obtain rfl := Option.some.inj hcs
      cases hc
  · unfold Static.tagBody at hbs
    split at hbs
    · obtain rfl := Option.some.inj hbs
      cases hb
    · obtain ⟨s, hs, hbs⟩ := Option.bind_eq_some_iff.mp hbs
      obtain ⟨vs, hvs, hs⟩ := Option.bind_eq_some_iff.mp hs
      obtain rfl := Option.some.inj hbs
      obtain rfl := List.mem_singleton.mp hb
      exact pol.joined (hinner vs hvs) (ok_of_toOption hs)

/-- So is what a node gives of its own, remembered or made. -/
theorem static_own (hbase : ∀ id html, eng.taken? (base id) = some html → pol.piece html)
    (hn : pol.node n) {inner : Option (List Value)}
    (hinner : ∀ vs, inner = some vs → ∀ v ∈ vs, pol.piece v) {v : Value}
    (h : Static.own eng base n inner = some v) : pol.piece v := by
  unfold Static.own at h
  split at h
  · obtain rfl := Option.some.inj h
    exact pol.blank
  · split at h
    · next html hb =>
      obtain rfl := Option.some.inj h
      exact hbase _ _ hb
    · obtain ⟨r, hr, h⟩ := Option.bind_eq_some_iff.mp h
      have hr := ok_of_toOption hr
      cases r with
      | alternative =>
        obtain rfl := Option.some.inj h
        exact pol.blank
      | comment => exact pol.commented hn hr (ok_of_toOption h)
      | text =>
        obtain ⟨u, hu, h⟩ := Option.bind_eq_some_iff.mp h
        exact pol.spaced (static_content hn (.inr hr) hu) (ok_of_toOption h)
      | tag =>
        obtain ⟨html, hh, h⟩ := Option.bind_eq_some_iff.mp h
        obtain rfl := Option.some.inj h
        exact static_tag hn hr hinner hh
      | _ => cases h

variable {S : Set Node}

mutual

/-- **Static markup of admitted nodes is a piece.**  By induction on the tree. -/
theorem static_node (hbase : ∀ id html, eng.taken? (base id) = some html → pol.piece html)
    (hS : ∀ n ∈ S, pol.node n ∧ ∀ c ∈ n.children, c ∈ S) :
    (n : Node) → n ∈ S → ∀ v, Static.node eng base n = some v → pol.piece v
  | ⟨_, _, _, _, children, _, _⟩, hn, _, h =>
    static_own hbase (hS _ hn).1 (static_nodes hbase hS children (hS _ hn).2) h
termination_by structural n => n

/-- The same for nodes one after the other. -/
theorem static_nodes (hbase : ∀ id html, eng.taken? (base id) = some html → pol.piece html)
    (hS : ∀ n ∈ S, pol.node n ∧ ∀ c ∈ n.children, c ∈ S) :
    (ns : List Node) → (∀ n ∈ ns, n ∈ S) →
      ∀ vs, Static.nodes eng base ns = some vs → ∀ v ∈ vs, pol.piece v
  | [], _, vs, h => by
    obtain rfl := Option.some.inj h
    simp
  | n :: ns, hns, vs, h => by
    obtain ⟨hn, hns⟩ := List.forall_mem_cons.mp hns
    obtain ⟨u, hu, h⟩ := Option.bind_eq_some_iff.mp h
    obtain ⟨us, hus, h⟩ := Option.bind_eq_some_iff.mp h
    obtain rfl := Option.some.inj h
    exact List.forall_mem_cons.mpr
      ⟨static_node hbase hS n hn u hu, static_nodes hbase hS ns hns us hus⟩
termination_by structural ns => ns

end

end Static

/-! ### Worlds -/

/-- The nodes in use are admitted, and so is what loaders and plugins give. -/
structure Admits (S : Set Node) (w : World) : Prop where
  census : Census S w.nextNode
  nodes : ∀ n ∈ S, pol.node n
  mixins : ∀ i, ∀ e ∈ w.mixinsOf i, e.2.body ∈ S
  loaders : ∀ k, (w.loader k).Within S
  loads : ∀ k, pol.Loads (w.loader k)
  plugins : ∀ name position q source attributes v,
    (eng.registryIn w).load name position = .ok q → q.call source attributes = .ok v → pol.piece v

/-- From a world that is admitted, a computation ends in one that is, with possibly more nodes in
use, and with a result that satisfies `P`. -/
def Grants {α : Type} (S : Set Node) (P : Set Node → α → Prop) (x : Rendering α) : Prop :=
  ∀ w, pol.Admits S w → ∃ T, S ⊆ T ∧ pol.Admits T (exec x w).2 ∧
    ∀ a, (exec x w).1 = .ok a → P T a

variable {pol} {S : Set Node} {α β : Type}

/-- What is under a node in use is in use. -/
theorem under_mem (hS : ∀ n ∈ S, ∀ c ∈ n.children, c ∈ S) {n m : Node} (hn : n ∈ S)
    (h : n.Under m) : m ∈ S := by
  induction h with
  | refl => exact hn
  | tail _ hc ih => exact hS _ ih _ hc

namespace Admits

variable {w w' : World}

/-- Only the supply of nodes, the mixins, the loaders and the plugins count. -/
theorem congr (h : pol.Admits S w) (hn : w'.nextNode = w.nextNode) (hm : w'.mixins = w.mixins)
    (hl : w'.loaders = w.loaders) (hr : w'.registries = w.registries) : pol.Admits S w' := by
  refine ⟨?_, h.nodes, ?_, ?_, ?_, ?_⟩
  · rw [hn]
    exact h.census
  · simpa only [World.mixinsOf, hm] using h.mixins
  · simpa only [World.loader, hl] using h.loaders
  · simpa only [World.loader, hl] using h.loads
  · simpa only [Engine.registryIn, hr] using h.plugins

/-- More nodes are used. -/
theorem grow {T : Set Node} {next : Nat} (h : pol.Admits S w) (hST : S ⊆ T) (hT : Census T next)
    (hnode : ∀ n ∈ T, pol.node n) : pol.Admits T { w with nextNode := next } :=
  ⟨hT, hnode, fun i e he => hST (h.mixins i e he), fun k => (h.loaders k).mono hST, h.loads,
    h.plugins⟩

/-- A loader gets other sources. -/
theorem setSources (h : pol.Admits S w) (number : Nat) {t : Sources} (ht : t.Within S)
    (ho : ∀ e ∈ t, pol.Offers e.2) :
    pol.Admits S { w with loaders := w.loaders.setIfInBounds number (.sources t) } := by
  refine ⟨h.census, h.nodes, h.mixins, fun k => ?_, fun k => ?_, h.plugins⟩
  · show ((w.loaders.setIfInBounds number (.sources t)).getD k .empty).Within S
    rw [getD_setIfInBounds]
    split
    · exact ht
    · exact h.loaders k
  · show pol.Loads ((w.loaders.setIfInBounds number (.sources t)).getD k .empty)
    rw [getD_setIfInBounds]
    split
    · exact ho
    · exact h.loads k

end Admits

/-- Finished nodes in use may be given. -/
theorem builds_finished {w : World} (hw : pol.Admits S w) {n : Node} (hn : n ∈ S) :
    pol.Builds (.finished n) := by
  intro i m j he k hk
  cases he
  exact hw.nodes k (under_mem hw.census.closed hn hk)

/-- What is built of an admitted draft is in use then, with the nodes below it. -/
theorem exists_census {w : World} (hw : pol.Admits S w) {d : Draft} (hd : d.Within S)
    (hb : pol.Builds d) {n : Node} {j : Nat} (h : d.node.run w.nextNode = .ok (n, j)) :
    ∃ T, S ⊆ T ∧ n ∈ T ∧ pol.Admits T { w with nextNode := j } := by
  obtain ⟨T, hST, hT, hn⟩ := d.node_counts S hd _ _ _ hw.census h
  have hsub (m : Node) (hm : m ∈ S ∨ n.Under m) : m ∈ T := by
    rcases hm with hm | hm
    · exact hST hm
    · exact under_mem hT.closed hn hm
  have hU : Census {m | m ∈ S ∨ n.Under m} j := by
    refine ⟨fun m hm => hT.below m (hsub m hm), fun m hm c hc => ?_, fun m hm k hk he => ?_⟩
    · rcases hm with hm | hm
      · exact .inl (hw.census.closed m hm c hc)
      · exact .inr (hm.tail hc)
    · exact hT.single m (hsub m hm) k (hsub k hk) he
  refine ⟨_, fun m hm => .inl hm, .inr .refl, hw.grow (fun m hm => .inl hm) hU fun m hm => ?_⟩
  rcases hm with hm | hm
  · exact hw.nodes m hm
  · exact hb _ _ _ h m hm

/-! ### Steps that keep to a policy -/

namespace Grants

/-- What leaves the nodes, mixins, loaders and plugins alone. -/
theorem of_eq {x : Rendering α}
    (hx : ∀ w, (exec x w).2.nextNode = w.nextNode ∧ (exec x w).2.mixins = w.mixins ∧
      (exec x w).2.loaders = w.loaders ∧ (exec x w).2.registries = w.registries) :
    pol.Grants S (fun _ _ => True) x := by
  intro w hw
  obtain ⟨hn, hm, hl, hr⟩ := hx w
  exact ⟨S, fun _ hn => hn, hw.congr hn hm hl hr, fun _ _ => trivial⟩

/-- A draft that the policy lets in is built into a node in use. -/
theorem build {d : Draft} (hd : d.Within S) (hb : pol.Builds d) :
    pol.Grants S (fun T n => n ∈ T) (Rendering.build d.node) := by
  intro w hw
  rw [Rendering.exec_build]
  cases h : d.node.run w.nextNode with
  | error f => exact ⟨S, fun _ hn => hn, hw, fun a ha => by cases ha⟩
  | ok r =>
    obtain ⟨n, j⟩ := r
    obtain ⟨T, hST, hn, hT⟩ := exists_census hw hd hb h
    refine ⟨T, hST, hT, fun a ha => ?_⟩
    obtain rfl := Except.ok.inj ha
    exact hn

/-- The body of a mixin that is found is in use. -/
theorem mixin? (name : String) :
    pol.Grants S (fun T m => ∀ d ∈ m, d.body ∈ T) (eng.mixin? name) := by
  intro w hw
  refine ⟨S, fun _ hn => hn, hw, fun m hm d hd => ?_⟩
  obtain rfl : Table.get? name (w.mixinsOf eng.id) = m := Except.ok.inj hm
  exact hw.mixins eng.id _ (Table.mem_of_get? hd)

/-- A definition keeps a body that is in use. -/
theorem define (name : String) {m : Mixin} (hm : m.body ∈ S) :
    pol.Grants S (fun _ _ => True) (eng.define name m) := by
  intro w hw
  refine ⟨S, fun _ hn => hn, ⟨hw.census, hw.nodes, fun i e he => ?_, hw.loaders, hw.loads,
    hw.plugins⟩, fun _ _ => trivial⟩
  have hset := Engine.mixinsOf_set w eng.id i (Table.put name m (w.mixinsOf eng.id))
  have he : e ∈ if i = eng.id ∧ eng.id < w.mixins.size then
      Table.put name m (w.mixinsOf eng.id) else w.mixinsOf i := hset ▸ he
  split at he
  · rcases Table.eq_or_mem_of_mem_put he with rfl | he
    · exact hm
    · exact hw.mixins _ _ he
  · exact hw.mixins i e he

/-- What a plugin gives is of the kind that the policy asks for. -/
theorem plugin (name : String) (position : Value) :
    pol.Grants S (fun _ q => ∀ source attributes v, q.call source attributes = .ok v → pol.piece v)
      (eng.plugin name position) := by
  intro w hw
  have he : exec (eng.plugin name position) w =
      ((eng.registryIn w).load name position, w) := by
    simp only [Engine.plugin, Engine.plugins, exec_bind, Rendering.exec_get, Rendering.exec_pure,
      Rendering.exec_ofExcept, Engine.registryIn]
  rw [he]
  exact ⟨S, fun _ hn => hn, hw, fun q hq source attributes v hv =>
    hw.plugins name position q source attributes v hq hv⟩

/-- What is served of a source. -/
theorem serve_gives {w : World} (hw : pol.Admits S w) {s : Source} (hs : s.Within S)
    (ho : pol.Offers s) {path canonical : String} {wanted : Wanted} {l : Loaded}
    (h : Loader.serve path wanted canonical s = .ok l) : l.Within S ∧ pol.Gives l := by
  refine ⟨Loader.serve_within hs h, ?_⟩
  cases s <;> cases wanted <;> cases h
  · exact ho
  · exact builds_finished hw hs

/-- What is loaded of admitted sources, and what is stored then. -/
theorem load_admits {w : World} (hw : pol.Admits S w) {t : Sources} (ht : t.Within S)
    (ho : ∀ e ∈ t, pol.Offers e.2) {path : String} {s : Source} {u : Sources} {j : Nat}
    (h : (t.load path).run w.nextNode = .ok ((s, u), j)) :
    ∃ T, S ⊆ T ∧ pol.Admits T { w with nextNode := j } ∧ (s.Within T ∧ pol.Offers s) ∧
      u.Within T ∧ ∀ e ∈ u, pol.Offers e.2 := by
  have hfind (s : Source) (hs : t.find? path = some s) : pol.Offers s := by
    have hst {q : String} (hq : t.stored? q = some s) : pol.Offers s :=
      ho _ (Table.mem_of_get? (Option.filter_eq_some_iff.mp hq).1)
    unfold Sources.find? at hs
    split at hs
    · next u hu => exact hst (hs ▸ hu)
    · exact hst hs
  unfold Sources.load at h
  split at h
  · cases h
  · next v hv =>
    cases hr : (Draft.ofValue v).node.run w.nextNode with
    | error f =>
      rw [StateT.run_bind, hr] at h
      cases h
    | ok r =>
      obtain ⟨n, k⟩ := r
      rw [StateT.run_bind, hr] at h
      cases h
      -- a draft is built of what it offers, and the tree takes its place in the sources
      obtain ⟨T, hST, hn, hT⟩ := exists_census hw (Draft.ofValue_within v) (hfind _ hv) hr
      refine ⟨T, hST, hT, ⟨hn, trivial⟩, (ht.mono hST).put path hn, fun e he => ?_⟩
      rcases Table.eq_or_mem_of_mem_put he with rfl | he
      · trivial
      · exact ho e he
  · next s' _ hs =>
    cases h
    exact ⟨S, fun _ hn => hn, hw, ⟨ht.find? hs, hfind _ hs⟩, ht, ho⟩

/-- What is loaded is in use, and as the policy asks. -/
theorem load (number : Nat) (path : String) (location : Option String) (wanted : Wanted) :
    pol.Grants S (fun T l => l.Within T ∧ pol.Gives l)
      (Engine.load number path location wanted) := by
  intro w hw
  have hin := hw.loaders number
  have hgive := hw.loads number
  simp only [Engine.load, exec_bind, Rendering.exec_get]
  unfold World.loader at hin hgive
  generalize w.loaders.getD number .empty = l at hin hgive ⊢
  cases l with
  | empty =>
    exact ⟨S, fun _ hn => hn, hw.congr rfl rfl rfl rfl, fun a ha => by cases ha⟩
  | custom answer =>
    simp only [Rendering.exec_ofExcept]
    exact ⟨S, fun _ hn => hn, hw, fun l hl => ⟨hin _ _ _ l hl, hgive _ _ _ l hl⟩⟩
  | sources t =>
    simp only [Engine.loadFrom, exec_bind, Rendering.exec_note, Rendering.exec_build]
    cases hr : (t.load (Path.canonical path location)).run w.nextNode with
    | error f => exact ⟨S, fun _ hn => hn, hw.congr rfl rfl rfl rfl, fun a ha => by cases ha⟩
    | ok r =>
      obtain ⟨⟨s, u⟩, j⟩ := r
      obtain ⟨T, hST, hT, hs, hu, huo⟩ := load_admits hw hin hgive hr
      simp only [Rendering.exec_modify, Rendering.exec_ofExcept]
      refine ⟨T, hST, (hT.setSources number hu huo).congr rfl rfl rfl rfl, fun l hl => ?_⟩
      exact serve_gives hT hs.1 hs.2 hl

end Grants

end Policy
end Trellis
