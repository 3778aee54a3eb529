import Trellis.Proofs.Interpretation.Upkeep
import Trellis.Proofs.Memos.Completions
import Trellis.Proofs.Sharing.Tidy
import Trellis.Samples

/-!
# Proofs — Memos — Recalls

What an engine remembers of nodes is told by what it has completed.  In a tree without shared nodes a
completed node is remembered just if it is a plain tag, and static with all siblings in front of it;
what is remembered is the piece of markup that it gave (`Engine.memo_of_completed`).

`Completions.Recalls` says this of a world and of what has been told so far.  A group reflects the
nodes in front (`Completions.Reflects`), and each node that is told keeps both, whether it is
rendered, skipped or taken from a memo (`Completions.nodeTold_keeps`).
-/

namespace Trellis

open Rendering (exec Tidies)

namespace Completions

/-! ### What is remembered -/

/-- The nodes are shared nowhere, and what the engine remembers of them beyond the base is told by
what has been completed: of each tag that is static with all siblings in front of it, the markup. -/
structure Recalls (eng : Engine) (base : Nat → Memo) (S : Set Node) (w : World)
    (cs : List Completion) : Prop where
  tidy : w.Tidy S
  stands : ∀ c ∈ cs, Stands S c.before c.node
  static : ∀ c ∈ cs, c.isStaticTag = true → Static.node eng base c.node = some c.piece
  told : ∀ c ∈ cs, c.isStaticTag = true → w.memo c.node.id = ⟨some c.piece, some eng.id⟩
  memos : ∀ id, w.memo id = base id ∨ ∃ c ∈ cs, c.node.id = id ∧ c.isStaticTag = true

namespace Recalls

variable {eng : Engine} {base : Nat → Memo} {S T : Set Node} {w w' : World} {cs : List Completion}

/-- Nothing has been told yet. -/
theorem start (h : w.Tidy S) : Recalls eng w.memo S w [] :=
  ⟨h, by simp, by simp, by simp, fun _ => .inl rfl⟩

/-- What is remembered stays as it is. -/
theorem of_tidy (h : Recalls eng base S w cs) (hST : S ⊆ T) (hT : w'.Tidy T)
    (hm : w'.memos = w.memos) : Recalls eng base T w' cs := by
  have hmemo (id : Nat) : w'.memo id = w.memo id := by rw [World.memo, hm, World.memo]
  refine ⟨hT, fun c hc => (h.stands c hc).mono hST, h.static, fun c hc hs => ?_, fun id => ?_⟩
  · rw [hmemo]
    exact h.told c hc hs
  · rw [hmemo]
    exact h.memos id

/-- A node that is told stands for its identity, at one place. -/
theorem unique (h : Recalls eng base S w cs) {c d : Completion} (hc : Stands S c.before c.node)
    (hd : Stands S d.before d.node) (hid : c.node.id = d.node.id) :
    c.node = d.node ∧ c.isStaticTag = d.isStaticTag := by
  obtain ⟨before, n, piece⟩ := c
  obtain ⟨before', n', piece'⟩ := d
  have hS := h.tidy.nodes
  obtain rfl : n = n' := hS.single n (hc.mem hS.toCensus) n' (hd.mem hS.toCensus) hid
  obtain rfl : before = before' := hS.front hc hd
  exact ⟨rfl, rfl⟩

/-- What is recalled is what was completed. -/
theorem faithful (h : Recalls eng base S w cs) (hbase : ∀ id, eng.taken? (base id) = none) :
    Faithful eng base S w := by
  refine ⟨h.tidy.nodes.toCensus, fun id => (h.memos id).imp_right ?_⟩
  rintro ⟨c, hc, rfl, hs⟩
  have hr := Node.isTag_iff.mp (Bool.and_eq_true_iff.mp hs).1
  exact ⟨hbase _, c.node, (h.stands c hc).mem h.tidy.nodes.toCensus, rfl, hr, c.piece,
    h.static c hc hs, h.told c hc hs⟩

/-- A node is told that is not to be remembered. -/
theorem pass (h : Recalls eng base S w cs) {c : Completion} (hc : Stands S c.before c.node)
    (hs : c.isStaticTag = false) : Recalls eng base S w (cs ++ [c]) := by
  have hno : ¬ c.isStaticTag = true := by simp [hs]
  refine ⟨h.tidy, ?_, ?_, ?_, fun id => (h.memos id).imp_right ?_⟩
  · exact List.forall_mem_append.mpr ⟨h.stands, List.forall_mem_singleton.mpr hc⟩
  · exact List.forall_mem_append.mpr
      ⟨h.static, List.forall_mem_singleton.mpr fun ht => absurd ht hno⟩
  · exact List.forall_mem_append.mpr
      ⟨h.told, List.forall_mem_singleton.mpr fun ht => absurd ht hno⟩
  · rintro ⟨d, hd, hid⟩
    exact ⟨d, List.mem_append_left _ hd, hid⟩

/-- A node is told that is remembered, for the first time or again. -/
theorem keep (h : Recalls eng base S w cs) {c : Completion} (hc : Stands S c.before c.node)
    (hs : c.isStaticTag = true) (hm : Static.node eng base c.node = some c.piece)
    (hw : w'.Tidy S) (hmemo : ∀ id, w'.memo id =
      if id = c.node.id then ⟨some c.piece, some eng.id⟩ else w.memo id) :
    Recalls eng base S w' (cs ++ [c]) := by
  refine ⟨hw, ?_, ?_, ?_, fun id => ?_⟩
  · exact List.forall_mem_append.mpr ⟨h.stands, List.forall_mem_singleton.mpr hc⟩
  · exact List.forall_mem_append.mpr ⟨h.static, List.forall_mem_singleton.mpr fun _ => hm⟩
  · refine List.forall_mem_append.mpr ⟨fun d hd hds => ?_, List.forall_mem_singleton.mpr fun _ => ?_⟩
    · rw [hmemo]
      split
      · next hid =>
        -- the same node gives the same markup again
        have hnode := (h.unique (h.stands d hd) hc hid).1
        have hpiece := h.static d hd hds
        rw [hnode, hm] at hpiece
        rw [hpiece]
      · exact h.told d hd hds
    · rw [hmemo, if_pos rfl]
  · rw [hmemo]
    split
    · next hid => exact .inr ⟨c, List.mem_append_right _ List.mem_cons_self, hid.symm, hs⟩
    · refine (h.memos id).imp_right ?_
      rintro ⟨d, hd, hid⟩
      exact ⟨d, List.mem_append_left _ hd, hid⟩

/-- A node is told that is taken from its memo. -/
theorem take (h : Recalls eng base S w cs) (hbase : ∀ id, eng.taken? (base id) = none)
    {c : Completion} (hc : Stands S c.before c.node)
    (ht : eng.taken? (w.memo c.node.id) = some c.piece) : Recalls eng base S w (cs ++ [c]) := by
  rcases h.memos c.node.id with hb | ⟨d, hd, hid, hs⟩
  · rw [hb, hbase] at ht
    cases ht
  · obtain ⟨hnode, hsame⟩ := h.unique (h.stands d hd) hc hid
    have hmemo := h.told d hd hs
    rw [hid] at hmemo
    have hpiece : d.piece = c.piece := by
      rw [hmemo, Engine.taken?] at ht
      exact Option.some.inj (Option.ite_none_right_eq_some.mp ht).2
    refine h.keep hc (hsame ▸ hs) ?_ h.tidy fun id => ?_
    · rw [← hnode, ← hpiece]
      exact h.static d hd hs
    · split
      · next he => rw [he, hmemo, hpiece]
      · rfl

/-- **What is remembered of a completed node.** -/
theorem memo_eq (h : Recalls eng base S w cs) {c : Completion} (hc : c ∈ cs) :
    w.memo c.node.id =
      if c.isStaticTag then ⟨some c.piece, some eng.id⟩ else base c.node.id := by
  split
  · next hs => exact h.told c hc hs
  · next hs =>
    rcases h.memos c.node.id with hb | ⟨d, hd, hid, hds⟩
    · exact hb
    · exact absurd ((h.unique (h.stands d hd) (h.stands c hc) hid).2 ▸ hds) hs

end Recalls

/-! ### Groups -/

/-- The group is dynamic just if not all nodes in front are static, and only then a condition awaits
an alternative. -/
structure Reflects (before : List Node) (g : Group) : Prop where
  isDynamic : g.isDynamic = !Node.areStatic before
  pending : g.isDynamic = false → g.pending = none

/-- At the start of a group nothing has been completed. -/
theorem Reflects.start : Reflects [] Group.start :=
  ⟨rfl, fun _ => rfl⟩

variable {eng : Engine} {base : Nat → Memo} {S : Set Node} {w w' : World}

/-- One more node.  If all are static, it gives its static markup. -/
theorem Reflects.node {before : List Node} {g : Group} (h : Reflects before g)
    (hw : Faithful eng base S w) (hbase : ∀ id, eng.taken? (base id) = none) {n : Node} (hn : n ∈ S)
    {depth : Nat} {p : Place} {r : Value × Group}
    (he : exec (Render.node eng (Render.body eng depth) depth p n g) w = (.ok r, w')) :
    Reflects (before ++ [n]) r.2 ∧
      (Node.areStatic (before ++ [n]) = true → Static.node eng base n = some r.1) := by
  obtain ⟨v, g'⟩ := r
  rw [Node.areStatic_concat]
  have hdynamic (hd : g'.isDynamic = true)
      (hs : (Node.areStatic before && n.isStatic) = false) : Reflects (before ++ [n]) g' := by
    refine ⟨?_, fun hf => ?_⟩
    · rw [Node.areStatic_concat, hd, hs]
      rfl
    · rw [hd] at hf
      cases hf
  -- a dynamic group stays dynamic; in a static one the node decides
  cases hd : g.isDynamic with
  | true =>
    have hs : Node.areStatic before = false := by simpa [hd] using h.isDynamic
    have hkeeps := (@Static.node_renders eng base S hw.census.closed p n hn).keeps depth g hd
    refine ⟨hdynamic (hkeeps w (v, g') w' he) (by rw [hs]; rfl), fun hf => ?_⟩
    rw [hs] at hf
    cases hf
  | false =>
    have hs : Node.areStatic before = true := by simpa [hd] using h.isDynamic
    obtain ⟨hstatic, hother⟩ := Static.node_settles p g hw hbase hn (h.pending hd) hd he
    cases hn : n.isStatic with
    | true =>
      obtain ⟨rfl, hv⟩ := hstatic hn
      refine ⟨⟨?_, fun _ => h.pending hd⟩, fun _ => hv⟩
      rw [Node.areStatic_concat, hs, hn, hd]
      rfl
    | false =>
      refine ⟨hdynamic (hother hn) (by rw [hn, Bool.and_false]), fun hf => ?_⟩
      rw [Bool.and_false] at hf
      cases hf

/-! ### Telling -/

/-- From a state that recalls, the computation ends in one that does, with possibly more nodes in
use, and with a result that satisfies `P`. -/
def Keeps (eng : Engine) (base : Nat → Memo) {α : Type} (S : Set Node) (P : Set Node → α → Prop)
    (x : Telling α) : Prop :=
  ∀ s, Recalls eng base S s.1 s.2 → ∃ T, S ⊆ T ∧
    Recalls eng base T (x.exec s).2.1 (x.exec s).2.2 ∧ ∀ a, (x.exec s).1 = .ok a → P T a

namespace Keeps

variable {α β : Type} {P : Set Node → α → Prop} {Q : Set Node → β → Prop}

theorem pure {a : α} (h : P S a) : Keeps eng base S P (Pure.pure a) := by
  intro s hs
  refine ⟨S, fun _ hn => hn, hs, fun b hb => ?_⟩
  obtain rfl := Except.ok.inj hb
  exact h

/-- Computations in a row keep it as each does. -/
theorem bind {x : Telling α} {f : α → Telling β} (hx : Keeps eng base S P x)
    (hf : ∀ T a, S ⊆ T → P T a → Keeps eng base T Q (f a)) : Keeps eng base S Q (x >>= f) := by
  intro s hs
  obtain ⟨T, hST, hT, hP⟩ := hx s hs
  rw [Telling.exec_bind]
  generalize x.exec s = o at hT hP ⊢
  obtain ⟨e | a, s'⟩ := o
  · exact ⟨T, hST, hT, fun b hb => by cases hb⟩
  · obtain ⟨U, hTU, hU, hQ⟩ := hf T a hST (hP a rfl) s' hT
    exact ⟨U, fun _ hn => hTU (hST hn), hU, hQ⟩

/-- What remembers nothing and tells nothing. -/
theorem told {x : Rendering α} (h : Tidies S P x) : Keeps eng base S P x.told := by
  intro s hs
  obtain ⟨T, hST, hT, hm, hP⟩ := h s.1 hs.tidy
  exact ⟨T, hST, hs.of_tidy hST hT hm, hP⟩

end Keeps

/-- **What is remembered is kept up** by all that a rendering does. -/
def upkeep (eng : Engine) (base : Nat → Memo) : Upkeep eng.telling where
  Keeps := Keeps eng base
  pure := .pure
  bind := .bind
  fail f := .told (.throw f)
  onHeap a := .told (.onHeap a)
  enter _ _ := .told (.pure trivial)
  evaluate s position text := .told (.evaluate s position text)
  mixin name position := .told (.mixin name position)
  define name _ hd := .told (.define name hd)
  plugin name position := .told (.plugin name position)
  transform name q source attributes := .told (.transform name q source attributes)
  text path location := .told (.text path location)
  tree path location := .told (.tree path location)
  track location path := .told (.track location path)
  including wanted path location := .told (.including wanted path location)
  remembered? n := .told (.remembered? n)

/-! ### Nodes -/

/-- A node behind some siblings ends: it fails, or it can be told. -/
def Ends (eng : Engine) (base : Nat → Memo) (S : Set Node) (before : List Node) (n : Node)
    (o : Except Fault (Value × Group) × World × List Completion) : Prop :=
  ∃ T, S ⊆ T ∧ (∀ f, o.1 = .error f → Recalls eng base T o.2.1 o.2.2) ∧
    ∀ r, o.1 = .ok r → Recalls eng base T o.2.1 (o.2.2 ++ [⟨before, n, r.1⟩])

section

variable {before : List Node} {n : Node} {g : Group} {s : World × List Completion}
  (hs : Recalls eng base S s.1 s.2) (hstands : Stands S before n)
include hs hstands

/-- A node that is not to be remembered. -/
theorem ends_of_safe {x : Telling (Value × Group)} (hx : (upkeep eng base).Safe S x)
    (hno : (n.isTag && Node.areStatic (before ++ [n])) = false) :
    Ends eng base S before n (x.exec s) := by
  obtain ⟨T, hST, hT, -⟩ := hx s hs
  exact ⟨T, hST, fun _ _ => hT, fun r _ => hT.pass (hstands.mono hST) hno⟩

omit hs hstands in
/-- The end of a tag. -/
theorem exec_remember (html : String) :
    Telling.exec (do
      if eng.config.compact && !g.isDynamic then eng.telling.remember n html
      return (Value.text html, g)) s =
      (.ok (.text html, g),
        (if eng.config.compact && !g.isDynamic then
          s.1.setMemo n.id ⟨some (.text html), some eng.id⟩ else s.1), s.2) := by
  cases eng.config.compact && !g.isDynamic <;> rfl

variable (hbase : ∀ id, eng.taken? (base id) = none) (hcompact : eng.config.compact = true)
  {b : Node → Place → Telling (String × Bool)} (hb : (upkeep eng base).Bodies b) {p : Place}
include hcompact hb

/-- A tag is remembered at its end, if all nodes in front and the tag itself are static. -/
theorem tag_ends (hr : Role.ofValue n.symbol = .ok .tag)
    (hend : ∀ r s', (eng.telling.tag b p n g).exec s = (.ok r, s') →
      Reflects (before ++ [n]) r.2 ∧
        (Node.areStatic (before ++ [n]) = true → Static.node eng base n = some r.1)) :
    Ends eng base S before n ((eng.telling.tag b p n g).exec s) := by
  have hn : n ∈ S := hstands.mem hs.tidy.nodes.toCensus
  obtain ⟨T, hST, hT, -⟩ := (upkeep eng base).tagMarkup p g hb hn s hs
  unfold Interpretation.tag at hend ⊢
  rw [Telling.exec_bind] at hend ⊢
  generalize (eng.telling.tagMarkup b p n g).exec s = o at hT hend ⊢
  obtain ⟨e | ⟨html, g'⟩, s'⟩ := o
  · exact ⟨T, hST, fun _ _ => hT, fun r hr => by cases hr⟩
  · simp only at hend ⊢
    rw [exec_remember] at hend ⊢
    obtain ⟨hg, hstatic⟩ := hend _ _ rfl
    refine ⟨T, hST, fun f hf => (nomatch hf), fun r he => ?_⟩
    obtain rfl := Except.ok.inj he
    rw [hcompact, hg.isDynamic, Bool.not_not, Bool.true_and]
    have htag := Node.isTag_iff.mpr hr
    cases ha : Node.areStatic (before ++ [n]) with
    | true =>
      refine hT.keep (hstands.mono hST) (by rw [Completion.isStaticTag, htag, ha]; rfl)
        (hstatic ha) (hT.tidy.congr rfl rfl rfl) fun id => ?_
      exact World.memo_setMemo _ _ _ id
    | false => exact hT.pass (hstands.mono hST) (by rw [Completion.isStaticTag, htag, ha]; rfl)

include hbase

/-- **A node is told as it ends**, whether it is rendered, skipped or taken from a memo. -/
theorem node_ends (hg : Reflects before g) (limit : Nat)
    (hend : ∀ r s', (eng.telling.node b limit p n g).exec s = (.ok r, s') →
      Reflects (before ++ [n]) r.2 ∧
        (Node.areStatic (before ++ [n]) = true → Static.node eng base n = some r.1)) :
    Ends eng base S before n ((eng.telling.node b limit p n g).exec s) := by
  have hn : n ∈ S := hstands.mem hs.tidy.nodes.toCensus
  have other (h : Role.ofValue n.symbol ≠ .ok .tag) :
      (n.isTag && Node.areStatic (before ++ [n])) = false := by
    rw [Bool.eq_false_iff.mpr fun ht => h (Node.isTag_iff.mp ht), Bool.false_and]
  unfold Interpretation.node at hend ⊢
  by_cases ha : Role.isAlternative n.symbol
  · rw [if_pos ha] at hend ⊢
    refine ends_of_safe hs hstands ((upkeep eng base).alternative p g hb hn) (other ?_)
    rw [Role.isAlternative_iff.mp ha]
    simp
  rw [if_neg ha] at hend ⊢
  by_cases hp : g.pending.isSome
  · rw [if_pos hp] at hend ⊢
    refine ends_of_safe hs hstands ((upkeep eng base).ret _) ?_
    -- a condition that awaits an alternative has made the group dynamic
    have hbefore : Node.areStatic before = false := by
      cases hd : g.isDynamic with
      | true => simpa [hd] using hg.isDynamic
      | false => simp [hg.pending hd] at hp
    rw [Node.areStatic_append, hbefore, Bool.false_and, Bool.and_false]
  rw [if_neg hp] at hend ⊢
  have hmemo : (eng.telling.remembered? n).exec s = (.ok (eng.taken? (s.1.memo n.id)), s) := rfl
  rw [Telling.exec_bind_ok hmemo] at hend ⊢
  cases ht : eng.taken? (s.1.memo n.id) with
  | some html =>
    refine ⟨S, fun _ hm => hm, fun f hf => (nomatch hf), fun r he => ?_⟩
    obtain rfl := Except.ok.inj he
    exact hs.take hbase hstands ht
  | none =>
    simp only [ht] at hend ⊢
    cases hr : Role.ofValue n.symbol with
    | error c => exact ends_of_safe hs hstands ((upkeep eng base).fail _) (other (by simp [hr]))
    | ok r =>
      rw [hr] at hend
      by_cases htag : r = .tag
      · subst htag
        exact tag_ends hs hstands hcompact hb hr hend
      · refine ends_of_safe hs hstands ?_ (other (by simpa [hr] using htag))
        show (upkeep eng base).Safe S (do
          eng.telling.enter n p
          eng.telling.inRole b limit p n g r)
        refine (upkeep eng base).andThen ((upkeep eng base).enter p hn) fun T _ hST => ?_
        exact (upkeep eng base).inRole p g hb (hST hn) limit htag

end

/-! ### Groups and bodies -/

section

variable (hbase : ∀ id, eng.taken? (base id) = none) (hcompact : eng.config.compact = true)
  {depth : Nat} {b : Node → Place → Telling (String × Bool)}
  (hb : (upkeep eng base).Bodies b) (hf : BodiesFollow (Render.body eng depth) b) (p : Place)
include hbase hcompact hb hf

/-- A node that is rendered is completed behind those before it. -/
theorem nodeTold_keeps {before : List Node} {n : Node} {g : Group} (hstands : Stands S before n)
    (hg : Reflects before g) :
    Keeps eng base S (fun _ r => Reflects (before ++ [n]) r.2)
      (eng.nodeTold b depth p before n g) := by
  intro s hs
  have hend (r : Value × Group) (s' : World × List Completion)
      (he : (eng.telling.node b depth p n g).exec s = (.ok r, s')) :
      Reflects (before ++ [n]) r.2 ∧
        (Node.areStatic (before ++ [n]) = true → Static.node eng base n = some r.1) := by
    have hfollow : Follows Eq (Render.node eng (Render.body eng depth) depth p n g)
        (eng.telling.node b depth p n g) := node_follows hf depth p n g
    have hexec := hfollow.exec_eq s
    rw [he] at hexec
    have hn := hstands.mem hs.tidy.nodes.toCensus
    exact hg.node (hs.faithful hbase) hbase hn
      (Prod.ext (congrArg Prod.fst hexec).symm rfl)
  obtain ⟨T, hST, herr, hok⟩ := node_ends hs hstands hbase hcompact hb hg depth hend
  unfold Engine.nodeTold
  rw [Telling.exec_bind]
  generalize (eng.telling.node b depth p n g).exec s = o at hend herr hok ⊢
  obtain ⟨e | r, s'⟩ := o
  · exact ⟨T, hST, herr e rfl, fun a ha => by cases ha⟩
  · refine ⟨T, hST, hok r rfl, fun a ha => ?_⟩
    obtain rfl := Except.ok.inj ha
    exact (hend r s' rfl).1

/-- Nodes one after the other.  By induction on them. -/
theorem nodesTold_keeps (ns : List Node) {before : List Node} {g : Group}
    (hstands : ∃ m ∈ S, m.children = before ++ ns) (hg : Reflects before g) :
    (upkeep eng base).Safe S (eng.nodesTold b depth p before ns g) := by
  induction ns generalizing S before g with
  | nil => exact (upkeep eng base).ret _
  | cons n ns ih =>
    obtain ⟨m, hm, he⟩ := hstands
    refine (nodeTold_keeps hbase hcompact hb hf p ⟨m, hm, ns, he⟩ hg).bind fun T r hST hr => ?_
    refine (upkeep eng base).andThen (ih ⟨m, hST hm, ?_⟩ hr) fun _ _ _ => (upkeep eng base).ret _
    rw [he, List.append_assoc, List.singleton_append]

/-- The children of a node are completed from the first one on. -/
theorem groupTold_keeps {n : Node} (hn : n ∈ S) :
    (upkeep eng base).Safe S (eng.groupTold b depth p n.children) := by
  have hnodes := nodesTold_keeps hbase hcompact hb hf p n.children (S := S) ⟨n, hn, rfl⟩ .start
  refine (upkeep eng base).andThen hnodes ?_
  rintro T ⟨vs, isDynamic, pending⟩ -
  cases pending with
  | some m => exact (upkeep eng base).fail _
  | none =>
    exact (upkeep eng base).andThen ((upkeep eng base).ofCause _) fun _ _ _ =>
      (upkeep eng base).ret _

end

/-- By induction on the depth. -/
theorem bodyTold_keeps (hbase : ∀ id, eng.taken? (base id) = none)
    (hcompact : eng.config.compact = true) (depth : Nat) :
    (upkeep eng base).Bodies (eng.bodyTold depth) := by
  induction depth with
  | zero => exact fun S n p _ => (upkeep eng base).fail _
  | succ depth ih =>
    exact fun S n p hn => groupTold_keeps hbase hcompact ih (bodies_follow depth) p hn

/-- What is told of the rendering of a draft. -/
theorem tellWithin_keeps (hbase : ∀ id, eng.taken? (base id) = none)
    (hcompact : eng.config.compact = true) {d : Draft} (hd : d.Fits S) (depth : Nat) (scope : Scope)
    (location : Option String) :
    (upkeep eng base).Safe S (eng.tellWithin depth d scope location) := by
  unfold Engine.tellWithin
  split
  · exact .told (.throw _)
  · refine .bind (.told (.build hd.grows)) fun T n _ hn => ?_
    have hbody := bodyTold_keeps hbase hcompact depth T n ⟨scope, location⟩ hn
    exact (upkeep eng base).andThen hbody fun _ _ _ => (upkeep eng base).ret _

end Completions

/-- **Exactly the static tags are remembered.**  An engine that remembers at all renders a draft in
a world where no node is shared and nothing has been remembered by it.  The nodes that are completed
on the way, at any depth and whether or not the rendering fails in the end, are told of in a run that
otherwise does what the rendering does.  Of each of them the engine remembers the piece of markup
that it gave, if it is a plain tag, and static with all siblings in front of it; of any other it
remembers nothing. -/
theorem Engine.memo_of_completed {eng : Engine} (hcompact : eng.config.compact = true)
    {S : Set Node} {w : World} (hw : w.Tidy S) {d : Draft} (hd : d.Fits S)
    (hfree : ∀ id, eng.taken? (w.memo id) = none) (depth : Nat) (scope : Scope)
    (location : Option String) :
    let o := exec (eng.renderWithin depth d scope location) w
    let cs := eng.completions depth d scope location w
    (eng.tellWithin depth d scope location).exec (w, []) = (o.1, o.2, cs) ∧
      ∀ c ∈ cs, o.2.memo c.node.id =
        if c.node.isTag && Node.areStatic (c.before ++ [c.node]) then
          ⟨some c.piece, some eng.id⟩
        else w.memo c.node.id := by
  have hexec := eng.exec_tellWithin depth d scope location w
  refine ⟨hexec, fun c hc => ?_⟩
  obtain ⟨T, -, hT, -⟩ := Completions.tellWithin_keeps hfree hcompact hd depth scope location (w, [])
    (Completions.Recalls.start hw)
  rw [hexec] at hT
  exact hT.memo_eq hc

/-! ### A board -/

namespace Completions

open Samples (engine node leaf)

/-- A tag, a loop around two tags and a text, and code that is never rendered. -/
def board : Node :=
  node 0 "" "" [leaf 1 "p" "a",
    node 2 "for" "k, x in xs" [leaf 3 "b" "c", leaf 4 "|" "= x", leaf 5 "i" "d"], leaf 6 "-" ""]

/-- The items of the loop. -/
def items : Scope :=
  [(.text "xs", .list [.text "u", .text "v"])]

/-- A world in which the identities of the board have been handed out. -/
def office : World :=
  (Session.fresh 7).enter 0

/-- The completions of a board, in order: a node that is used twice is listed twice. -/
theorem completions_board :
    ((engine 0).completions 4 (.finished board) items none office).map
        (fun c => (c.node.id, c.piece, c.isStaticTag)) =
      [(1, .text "<p>a</p>", true), (3, .text "<b>c</b>", true), (4, .text " u", false),
        (5, .text "<i>d</i>", false), (3, .text "<b>c</b>", true), (4, .text " v", false),
        (5, .text "<i>d</i>", false),
        (2, .text "<b>c</b> u<i>d</i><b>c</b> v<i>d</i>", false)] := by cbv

/-- The rendering fails at its end.  By then the tag in front of the loop and the one at the front of
its rounds are remembered, and the one behind the text is not. -/
theorem memo_of_completed_board :
    let o := exec ((engine 0).renderWithin 4 (.finished board) items none) office
    o.1 = .error (.template .inlineCode .none) ∧
      o.2.memo 1 = ⟨some (.text "<p>a</p>"), some 0⟩ ∧
      o.2.memo 3 = ⟨some (.text "<b>c</b>"), some 0⟩ ∧
      o.2.memo 5 = ⟨none, none⟩ ∧ o.2.memo 2 = ⟨none, none⟩ := by
  refine ⟨by cbv, ?_⟩
  have htidy : office.Tidy {m | board.Under m} :=
    .of_tree (by decide) (by decide) (fun i => by cases i <;> rfl) fun _ => rfl
  have hmemo := (@Engine.memo_of_completed (engine 0) rfl _ _ htidy _ (.inl ⟨board, .refl, rfl⟩)
    (fun _ => rfl) 4 items none).2
  have told {i : Nat} {v : Value} {b : Bool} (h : (i, v, b) ∈ ((engine 0).completions 4
      (.finished board) items none office).map fun c => (c.node.id, c.piece, c.isStaticTag)) :
      (exec ((engine 0).renderWithin 4 (.finished board) items none) office).2.memo i =
        if b then ⟨some v, some 0⟩ else ⟨none, none⟩ := by
    obtain ⟨c, hc, he⟩ := List.mem_map.mp h
    cases he
    exact hmemo c hc
  rw [completions_board] at told
  exact ⟨told (b := true) (by simp), told (b := true) (by simp),
    told (b := false) (v := .text "<i>d</i>") (by simp),
    told (b := false) (v := .text "<b>c</b> u<i>d</i><b>c</b> v<i>d</i>") (by simp)⟩

end Completions
end Trellis
