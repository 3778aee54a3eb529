import Trellis.Proofs.Sharing.Copies
import Trellis.Render.Group

/-!
# Proofs — Sharing — Static

What does not depend on the scope.  `Engine.plain` is an engine that remembers nothing.  When it
renders a node and the group of the node is not dynamic afterwards, then the world and the group are
as before, and any copy of the node gives the same markup at any place, in any group and in any
world (`Render.node_steady`).

The proof goes through all constructs: each either makes the group dynamic (`Rendering.Yields`), or
gives what depends on the fields of the node only (`Steady`).
-/

namespace Trellis

open Rendering (exec exec_bind exec_bind_ok Yields)

/-- The engine that remembers nothing. -/
def Engine.plain (eng : Engine) : Engine :=
  { eng with config := { eng.config with compact := false } }

/-- Two renderings in a group, such that a group stays dynamic, and what the first gives without
making the group dynamic, the second gives everywhere; neither of them changes anything. -/
def Steady {α : Type} (x y : Group → Rendering (α × Group)) : Prop :=
  ∀ g w a g' w', exec (x g) w = (.ok (a, g'), w') →
    (g.isDynamic = true → g'.isDynamic = true) ∧
    (g.pending = none → g'.isDynamic = false →
      g' = g ∧ w' = w ∧ ∀ h v, h.pending = none → exec (y h) v = (.ok (a, h), v))

/-- The same of groups of their own: what the first gives without being dynamic, the second gives
everywhere. -/
def SteadyGroup (x y : Rendering (String × Bool)) : Prop :=
  ∀ w s w', exec x w = (.ok (s, false), w') → w' = w ∧ ∀ v, exec y v = (.ok (s, false), v)

/-- Copies are rendered steadily by `body`. -/
def SteadyBody (body : Body) : Prop :=
  ∀ n n' p p', n'.bare = n.bare → SteadyGroup (body n p) (body n' p')

namespace Steady

variable {α β : Type} {x y : Group → Rendering (α × Group)}

theorem pure (a : α) : Steady (fun g => Pure.pure (a, g)) (fun g => Pure.pure (a, g)) := by
  intro g w b g' w' he
  simp only [Rendering.exec_pure, Prod.mk.injEq, Except.ok.injEq] at he
  obtain ⟨⟨rfl, rfl⟩, rfl⟩ := he
  exact ⟨id, fun _ _ => ⟨rfl, rfl, fun h v _ => rfl⟩⟩

/-- An outcome that depends on nothing, and what follows. -/
theorem ofCause_bind (r : Except Cause β) {f f' : β → Group → Rendering (α × Group)}
    (hf : ∀ b, Steady (f b) (f' b)) :
    Steady (fun g => Rendering.ofCause r >>= fun b => f b g)
      (fun g => Rendering.ofCause r >>= fun b => f' b g) := by
  intro g w a g' w' he
  cases r with
  | error c => cases he
  | ok b => exact hf b g w a g' w' he

/-- What always makes the group dynamic. -/
theorem dynamic (h : ∀ g, Yields (fun r => r.2.isDynamic = true) (x g)) : Steady x y := by
  intro g w a g' w' he
  have hd : g'.isDynamic = true := h g _ _ _ he
  exact ⟨fun _ => hd, fun _ hs => by simp [hd] at hs⟩

/-- One after the other. -/
theorem bind {f f' : α × Group → Rendering (β × Group)} (hx : Steady x y)
    (hf : ∀ a, Steady (fun g => f (a, g)) (fun g => f' (a, g))) :
    Steady (fun g => x g >>= f) (fun g => y g >>= f') := by
  intro g w b g' w' he
  rw [exec_bind] at he
  split at he
  case h_2 => simp at he
  case h_1 a w₁ h₁ =>
    obtain ⟨a, g₁⟩ := a
    have hx₁ := hx g w a g₁ w₁ h₁
    have hf₁ := hf a g₁ w₁ b g' w' he
    refine ⟨fun hg => hf₁.1 (hx₁.1 hg), fun hp hs => ?_⟩
    -- the group in between is not dynamic either, or else it would stay so
    have hs₁ : g₁.isDynamic = false := by
      cases hd : g₁.isDynamic with
      | false => rfl
      | true => rw [hf₁.1 hd] at hs; cases hs
    obtain ⟨rfl, rfl, hy⟩ := hx₁.2 hp hs₁
    obtain ⟨rfl, rfl, hy'⟩ := hf₁.2 hp hs
    exact ⟨rfl, rfl, fun h v hh => by rw [exec_bind_ok (hy h v hh), hy' h v hh]⟩

end Steady

namespace Render

variable (eng : Engine) {n n' : Node} (p p' : Place)

/-! ### Content -/

/-- The content of a node is written alike at all places, unless it is dynamic. -/
theorem content_steady (hn : n'.bare = n.bare) : Steady (content eng p n) (content eng p' n') := by
  rw [Node.eq_of_bare_eq hn]
  show Steady (fun g => content eng p n g) fun g => content eng p' _ g
  simp only [content, Engine.escape]
  split
  · exact Steady.ofCause_bind _ Steady.pure
  · refine Steady.ofCause_bind _ fun s => ?_
    cases Header.expression? s with
    | none => exact Steady.pure n.content
    | some e =>
        exact Steady.dynamic fun g =>
          Yields.bind fun v => Yields.bind fun t => Yields.bind fun h => Yields.pure rfl

/-- So is a text. -/
theorem text_steady (hn : n'.bare = n.bare) : Steady (text eng p n) (text eng p' n') :=
  (content_steady eng p p' hn).bind fun _ => Steady.ofCause_bind _ Steady.pure

theorem comment_steady (hn : n'.bare = n.bare) : Steady (comment n) (comment n') := by
  rw [Node.eq_of_bare_eq hn]
  exact Steady.ofCause_bind _ Steady.pure

/-! ### Tags -/

/-- So is an attribute. -/
theorem attributeOf_steady (k v : Value) :
    Steady (attributeOf eng p n k v) (attributeOf eng p' n' k v) := by
  show Steady (fun g => attributeOf eng p n k v g) fun g => attributeOf eng p' n' k v g
  unfold attributeOf
  split
  · exact Steady.pure _
  · split
    · exact Steady.pure _
    · refine Steady.dynamic fun g => Yields.bind fun u => Yields.bind fun t => ?_
      split
      · exact Yields.pure rfl
      · exact Yields.bind fun s => Yields.pure rfl

/-- So are attributes in a row. -/
theorem attributesOf_steady (as : List (Value × Value)) :
    Steady (attributesOf eng p n as) (attributesOf eng p' n' as) := by
  induction as with
  | nil => exact Steady.pure []
  | cons a as ih =>
      exact (attributeOf_steady eng p p' a.1 a.2).bind fun s => ih.bind fun ss => Steady.pure _

/-- So is the content of a tag. -/
theorem tagContent_steady (hn : n'.bare = n.bare) :
    Steady (tagContent eng p n) (tagContent eng p' n') := by
  have hc := content_steady eng p p' hn
  rw [Node.eq_of_bare_eq hn] at hc ⊢
  show Steady (fun g => tagContent eng p n g) fun g => tagContent eng p' _ g
  unfold tagContent
  split
  · exact hc.bind fun v => Steady.pure [v]
  · exact Steady.pure []

variable {body : Body}

/-- So is what stands inside it, if bodies are. -/
theorem tagBody_steady (hb : SteadyBody body) (hn : n'.bare = n.bare) :
    Steady (tagBody body p n) (tagBody body p' n') := by
  show Steady (fun g => tagBody body p n g) fun g => tagBody body p' _ g
  have he : n'.children.isEmpty = n.children.isEmpty := by
    have := congrArg List.isEmpty (Node.bare_eq_iff.mp hn).2.2.2.1
    simpa using this
  unfold tagBody
  rw [he]
  split
  · exact Steady.pure []
  · intro g w a g' w' h
    rw [exec_bind] at h
    split at h
    case h_2 => cases h
    case h_1 r w₁ h₁ =>
      obtain ⟨s, d⟩ := r
      cases d with
      | true =>
          cases h
          exact ⟨fun _ => rfl, fun _ hs => by cases hs⟩
      | false =>
          cases h
          obtain ⟨rfl, hy⟩ := hb n n' p p' hn _ _ _ h₁
          exact ⟨id, fun _ _ => ⟨rfl, rfl, fun h v _ => by rw [exec_bind_ok (hy v)]; rfl⟩⟩

/-- So is its markup. -/
theorem tagMarkup_steady (hb : SteadyBody body) (hn : n'.bare = n.bare) :
    Steady (tagMarkup eng body p n) (tagMarkup eng body p' n') := by
  have hc := tagContent_steady eng p p' hn
  have hi := tagBody_steady p p' hb hn
  have ha : Steady (attributesOf eng p n n.attributes) (attributesOf eng p' n' n.attributes) :=
    attributesOf_steady _ p p' _
  obtain ⟨h₁, -, h₃, -⟩ := Node.bare_eq_iff.mp hn
  show Steady (fun g => tagMarkup eng body p n g) fun g => tagMarkup eng body p' _ g
  unfold tagMarkup
  rw [h₁, h₃]
  refine Steady.ofCause_bind _ fun t => ha.bind fun as => hc.bind fun cs => hi.bind fun bs => ?_
  exact Steady.ofCause_bind _ fun es => Steady.ofCause_bind _ Steady.pure

/-- The plain engine remembers no markup. -/
theorem tag_plain (g : Group) :
    tag eng.plain body p n g = do
      let r ← tagMarkup eng.plain body p n g
      return (.text r.1, r.2) :=
  rfl

/-- So is a tag of the plain engine. -/
theorem tag_steady (hb : SteadyBody body) (hn : n'.bare = n.bare) :
    Steady (tag eng.plain body p n) (tag eng.plain body p' n') :=
  (tagMarkup_steady _ p p' hb hn).bind fun html => Steady.pure (Value.text html)

/-! ### What is always dynamic -/

/-- A result that makes the group dynamic. -/
def Dynamic {α : Type} (x : Rendering (α × Group)) : Prop :=
  Yields (fun r => r.2.isDynamic = true) x

variable (g : Group)

/-- A result that makes the group dynamic and leaves it as it is otherwise. -/
def Marks {α : Type} (g : Group) (x : Rendering (α × Group)) : Prop :=
  Yields (fun r => r.2 = g.dynamic) x

/-- What marks its group is dynamic. -/
theorem Marks.dynamic {α : Type} {g : Group} {x : Rendering (α × Group)} (h : Marks g x) :
    Dynamic x :=
  h.mono fun r hr => by rw [hr, Group.dynamic]

/-- A condition is dynamic, whatever it tests. -/
theorem condition_dynamic : Dynamic (condition eng body p n g) := by
  refine Yields.bind fun b => ?_
  split
  · exact Yields.bind fun v => Yields.pure rfl
  · exact Yields.pure rfl

/-- A loop marks its group. -/
theorem whileLoop_marks (limit : Nat) : Marks g (whileLoop eng body limit p n g) :=
  Yields.bind fun _ => Yields.pure rfl

/-- So does a loop over a collection. -/
theorem forLoop_marks (limit : Nat) : Marks g (forLoop eng body limit p n g) :=
  Yields.bind fun _ => Yields.bind fun _ => Yields.bind fun _ => Yields.bind fun _ =>
    Yields.pure rfl

/-- So does a definition. -/
theorem definition_marks (name : String) : Marks g (definition eng name n g) :=
  Yields.bind fun _ => Yields.pure rfl

/-- So does a call. -/
theorem call_marks (name : String) : Marks g (call eng body name p n g) := by
  refine Yields.bind fun m => ?_
  cases m with
  | none => exact Yields.throw _
  | some m => exact Yields.bind fun _ => Yields.bind fun _ => Yields.pure rfl

/-- So does a plugin. -/
theorem plugin_marks (name : String) : Marks g (plugin eng name p n g) :=
  Yields.bind fun _ => Yields.bind fun _ => Yields.bind fun _ => Yields.bind fun _ =>
    Yields.bind fun _ => Yields.pure rfl

/-- So does an inclusion. -/
theorem inclusion_marks : Marks g (inclusion eng body p n g) := by
  refine Yields.bind fun path => Yields.bind fun _ => Yields.bind fun isTree => ?_
  split
  · exact Yields.bind fun t => Yields.bind fun _ => Yields.bind fun _ => Yields.pure rfl
  · exact Yields.bind fun _ => Yields.bind fun _ => Yields.pure rfl

/-- An alternative that none awaits gives nothing; any other is dynamic. -/
theorem alternative_steady :
    Steady (alternative eng body p n) (alternative eng body p' n') := by
  intro g w a g' w' he
  unfold alternative at he
  split at he
  · cases he
    exact ⟨id, fun _ _ => ⟨rfl, rfl, fun h v hh => by simp [alternative, hh]⟩⟩
  · next hp =>
    have hd : Dynamic (do
        if ← alternativeHolds eng p n then return (← inside body n p, g.settle)
        else return (.text "", g.dynamic)) := by
      refine Yields.bind fun b => ?_
      split
      · exact Yields.bind fun v => Yields.pure rfl
      · exact Yields.pure rfl
    refine ⟨fun _ => hd _ _ _ he, fun hn => ?_⟩
    simp [hn] at hp

/-! ### Groups -/

/-- A node in any role is written alike at all places, unless it is dynamic. -/
theorem inRole_steady (hb : SteadyBody body) (hn : n'.bare = n.bare) (limit : Nat) (r : Role) :
    Steady (fun g => inRole eng.plain body limit p n g r)
      (fun g => inRole eng.plain body limit p' n' g r) := by
  cases r with
  | condition => exact Steady.dynamic fun g => condition_dynamic _ p g
  | alternative => exact alternative_steady _ p p'
  | whileLoop => exact Steady.dynamic fun g => (whileLoop_marks _ p g limit).dynamic
  | forLoop => exact Steady.dynamic fun g => (forLoop_marks _ p g limit).dynamic
  | each => exact Steady.dynamic fun g => Yields.throw _
  | comment => exact comment_steady hn
  | inclusion => exact Steady.dynamic fun g => (inclusion_marks _ p g).dynamic
  | text => exact text_steady _ p p' hn
  | inlineCode => exact Steady.dynamic fun g => Yields.throw _
  | plugin name => exact Steady.dynamic fun g => (plugin_marks _ p g name).dynamic
  | call name => exact Steady.dynamic fun g => (call_marks _ p g name).dynamic
  | definition name => exact Steady.dynamic fun g => (definition_marks _ g name).dynamic
  | tag => exact tag_steady eng p p' hb hn

/-- The plain engine renders a node in its role, unless the node is skipped. -/
theorem node_plain (limit : Nat) (ha : Role.isAlternative n.symbol = false)
    (hg : g.pending = none) (w : World) :
    exec (node eng.plain body limit p n g) w =
      exec (Rendering.ofCause (Role.ofValue n.symbol) >>= fun r =>
        inRole eng.plain body limit p n g r) w := by
  have hm : exec (eng.plain.remembered? n) w = (.ok none, w) := by
    simp only [Engine.remembered?, exec_bind, Rendering.exec_get, Rendering.exec_pure]
    simp [Engine.plain]
  simp only [node, ha, hg, Option.isSome_none, Bool.false_eq_true, if_false]
  rw [exec_bind_ok hm]

/-- **Static markup.**  What the plain engine makes of a node without making the group dynamic, it
makes of every copy, wherever it stands. -/
theorem node_steady (hb : SteadyBody body) (hn : n'.bare = n.bare) (limit : Nat) :
    Steady (node eng.plain body limit p n) (node eng.plain body limit p' n') := by
  have hs : n'.symbol = n.symbol := (Node.bare_eq_iff.mp hn).1
  cases ha : Role.isAlternative n.symbol with
  | true =>
      have hx : node eng.plain body limit p n = alternative eng.plain body p n := by
        funext g
        simp [node, ha]
      have hy : node eng.plain body limit p' n' = alternative eng.plain body p' n' := by
        funext g
        simp [node, hs, ha]
      rw [hx, hy]
      exact alternative_steady _ p p'
  | false =>
      have hr := Steady.ofCause_bind (Role.ofValue n.symbol) (inRole_steady eng p p' hb hn limit)
      intro g w a g' w' he
      -- a node that is passed over leaves the group awaiting, so nothing is claimed of it
      cases hg : g.pending with
      | some m =>
          simp only [node, ha, hg, Option.isSome_some, Bool.false_eq_true, if_false, if_true] at he
          cases he
          exact ⟨id, fun h => by cases h⟩
      | none =>
          rw [node_plain eng p g limit ha hg] at he
          refine (hr g w a g' w' he).imp_right fun h hp hd => ?_
          obtain ⟨rfl, rfl, hy⟩ := h hg hd
          refine ⟨rfl, rfl, fun h v hh => ?_⟩
          rw [node_plain eng p' h limit (hs ▸ ha) hh, hs]
          exact hy h v hh

/-- So are siblings, one after the other. -/
theorem nodes_steady (hb : SteadyBody body) (limit : Nat) :
    ∀ ns ns' : List Node, ns'.map Node.bare = ns.map Node.bare →
      Steady (nodes eng.plain body limit p ns) (nodes eng.plain body limit p' ns') := by
  intro ns
  induction ns with
  | nil =>
      intro ns' h
      obtain rfl : ns' = [] := by simpa using h
      exact Steady.pure []
  | cons n ns ih =>
      intro ns' h
      cases ns' with
      | nil => cases h
      | cons n' ns' =>
          simp only [List.map_cons, List.cons.injEq] at h
          exact (node_steady eng p p' hb h.1 limit).bind fun v =>
            (ih ns' h.2).bind fun vs => Steady.pure (v :: vs)

/-- So is a group. -/
theorem group_steady (hb : SteadyBody body) (limit : Nat) {ns ns' : List Node}
    (h : ns'.map Node.bare = ns.map Node.bare) :
    SteadyGroup (group eng.plain body limit p ns) (group eng.plain body limit p' ns') := by
  intro w s w' he
  unfold group at he
  rw [exec_bind] at he
  split at he
  case h_2 => cases he
  case h_1 r w₁ h₁ =>
    obtain ⟨vs, g⟩ := r
    -- a group that ends in a condition without its alternative fails
    cases hp : g.pending with
    | some n =>
        simp only [hp] at he
        cases he
    | none =>
        simp only [hp, exec_bind, Rendering.exec_ofCause, Rendering.exec_pure] at he
        cases hj : Markup.join vs with
        | error c =>
            simp only [hj, Except.mapError] at he
            cases he
        | ok t =>
            simp only [hj, Except.mapError, Prod.mk.injEq, Except.ok.injEq] at he
            obtain ⟨⟨rfl, hd⟩, rfl⟩ := he
            have hs := nodes_steady eng p p' hb limit ns ns' h _ _ _ _ _ h₁
            obtain ⟨rfl, rfl, hy⟩ := hs.2 rfl hd
            refine ⟨rfl, fun v => ?_⟩
            unfold group
            rw [exec_bind_ok (hy Group.start v rfl)]
            simp only [Group.start, exec_bind, Rendering.exec_ofCause, hj, Except.mapError,
              Rendering.exec_pure]

/-- Bodies of any depth are steady. -/
theorem body_steady (depth : Nat) : SteadyBody (Render.body eng.plain depth) := by
  induction depth with
  | zero => exact fun n n' p p' _ w s w' he => by cases he
  | succ depth ih =>
      exact fun n n' p p' hn => group_steady eng p p' ih depth (Node.bare_eq_iff.mp hn).2.2.2.1

end Render
end Trellis
