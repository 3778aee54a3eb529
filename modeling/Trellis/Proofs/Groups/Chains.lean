import Trellis.Proofs.Sharing.Static
import Trellis.Proofs.Text.Cutting

/-!
# Proofs — Groups — Chains

What conditions and alternatives mean, told without a flag that passes from sibling to sibling.

A `Chains.walk` goes along the siblings.  At a condition that holds it renders the body and goes on.
At one that fails it makes a `Chains.scan` of the siblings behind: only the alternatives among them
are looked at, and their tests evaluated in order, up to the first alternative that is taken
(`Chains.Taken`).  The body of that one is rendered, and the walk goes on behind it.  A scan that
takes none ends the walk, and the condition that began it lacks an alternative.

Whether an alternative is taken is told by the text behind the word `if` in its content
(`Header.Tests`): it is the test, and without one the alternative is taken
(`Chains.alternativeHolds_of_tests`, `Chains.alternativeHolds_of_no_test`).

Groups of siblings at every depth are rendered as walks (`Chains.rendering_is_walking`).
-/

namespace Trellis

open Rendering (exec exec_bind exec_bind_ok Yields)
open Render (test inside alternativeHolds inRole)

/-! ### The test of an alternative -/

/-- `s` is the word `if` with the test `t` behind it; white space around the word belongs to
neither. -/
structure Header.Tests (s t : List Char) : Prop where
  split : ∃ front gap, s = front ++ 'i' :: 'f' :: (gap ++ t) ∧
    front.all Text.isBlank = true ∧ gap.all Text.isBlank = true ∧ Header.endsWord (gap ++ t) = true
  start : ∀ c ∈ t.head?, Text.isBlank c = false

namespace Chains

/-! ### Walking along siblings -/

/-- An alternative among siblings, with those in front of it and those behind. -/
structure Taken (ns : List Node) where
  front : List Node
  alternative : Node
  behind : List Node
  whole : ns = front ++ alternative :: behind

namespace Taken

/-- The same alternative, with one more sibling in front. -/
def cons (n : Node) {ns : List Node} (t : Taken ns) : Taken (n :: ns) :=
  ⟨n :: t.front, t.alternative, t.behind, congrArg (n :: ·) t.whole⟩

/-- There are fewer siblings behind an alternative than in all. -/
theorem length_behind {ns : List Node} (t : Taken ns) : t.behind.length < ns.length := by
  have := congrArg List.length t.whole
  simp only [List.length_append, List.length_cons] at this
  omega

end Taken

/-- The alternatives among siblings are asked in order whether they are taken, up to the first that
is. -/
def scan (eng : Engine) (p : Place) : (ns : List Node) → Rendering (Option (Taken ns))
  | [] => pure none
  | n :: ns =>
    if Role.isAlternative n.symbol then do
      if ← alternativeHolds eng p n then return some ⟨[], n, ns, rfl⟩
      else return (← scan eng p ns).map (.cons n)
    else do return (← scan eng p ns).map (.cons n)

/-- How a walk ends. -/
inductive Ending where
  /-- With the pieces of markup, one for each sibling, which may depend on the scope. -/
  | finished (pieces : List Value) (isDynamic : Bool)
  /-- With a condition that failed and for which no alternative was taken. -/
  | missing (opener : Node)

/-- The ending of a walk that began with some pieces. -/
def Ending.after (vs : List Value) : Ending → Ending
  | .finished ws d => .finished (vs ++ ws) d
  | .missing n => .missing n

/-- The piece of a sibling that gives no markup. -/
def blank : Value := .text ""

/-- Siblings one after the other; `d` tells whether anything in front of them depends on the
scope. -/
def walk (eng : Engine) (body : Body) (limit : Nat) (p : Place) :
    (ns : List Node) → (d : Bool) → Rendering Ending
  | [], d => return .finished [] d
  | n :: ns, d =>
    if Role.isAlternative n.symbol then do
      return (← walk eng body limit p ns d).after [blank]
    else do
      match ← eng.remembered? n with
      | some html => return (← walk eng body limit p ns d).after [html]
      | none =>
        match ← Rendering.ofCause (Role.ofValue n.symbol) with
        | .condition =>
          if ← test eng p n n.content then
            let v ← inside body n p
            return (← walk eng body limit p ns true).after [v]
          else
            match ← scan eng p ns with
            | none => return .missing n
            | some t =>
              let v ← inside body t.alternative p
              return (← walk eng body limit p t.behind true).after
                (blank :: t.front.map (fun _ => blank) ++ [v])
        | r =>
          let (v, g) ← inRole eng body limit p n ⟨d, none⟩ r
          return (← walk eng body limit p ns g.isDynamic).after [v]
termination_by ns => ns.length
decreasing_by
  all_goals simp only [List.length_cons]
  all_goals first
    | exact Nat.lt_succ_self _
    | exact Nat.lt_succ_of_lt t.length_behind

/-- A group of siblings: the pieces of a walk joined, or the complaint about the condition that
lacks an alternative. -/
def group (eng : Engine) (body : Body) (limit : Nat) (p : Place) (ns : List Node) :
    Rendering (String × Bool) := do
  match ← walk eng body limit p ns false with
  | .missing n => Rendering.complain .missingElse n.position
  | .finished vs d => return (← Rendering.ofCause (Markup.join vs), d)

/-- The children of a node as a walk, and likewise the children of all nodes below. -/
def body (eng : Engine) : (depth : Nat) → Body
  | 0 => fun _ _ => throw .exhausted
  | depth + 1 => fun n p => group eng (body eng depth) depth p n.children

/-! ### The state of a group as an ending -/

/-- The ending that the pieces of siblings and the state of their group stand for. -/
def Ending.ofState (r : List Value × Group) : Ending :=
  match r.2.pending with
  | some n => .missing n
  | none => .finished r.1 r.2.isDynamic

theorem Ending.ofState_cons (v : Value) (r : List Value × Group) :
    Ending.ofState (v :: r.1, r.2) = (Ending.ofState r).after [v] := by
  obtain ⟨vs, d, _ | n⟩ := r <;> rfl

/-- Pieces in front of pieces are put in front of both. -/
@[simp] theorem Ending.after_after (vs ws : List Value) (e : Ending) :
    (e.after ws).after vs = e.after (vs ++ ws) := by
  cases e <;> simp [Ending.after]

/-- How the walk goes on behind a condition that failed, after a scan. -/
def resume (eng : Engine) (body : Body) (limit : Nat) (p : Place) (opener : Node) {ns : List Node} :
    Option (Taken ns) → Rendering Ending
  | none => return .missing opener
  | some t => do
    let v ← inside body t.alternative p
    return (← walk eng body limit p t.behind true).after (t.front.map (fun _ => blank) ++ [v])

variable {eng : Engine} {body : Body} {limit : Nat} {p : Place}

/-- A sibling that a scan passes over writes nothing. -/
theorem resume_cons (opener n : Node) {ns : List Node} (t : Option (Taken ns)) :
    resume eng body limit p opener (t.map (Taken.cons n)) =
      (Ending.after [blank] ·) <$> resume eng body limit p opener t := by
  cases t with
  | none => simp [resume, Ending.after]
  | some t => simp [resume, Taken.cons]

/-- The ending of siblings is that of the others behind the first. -/
theorem ofState_nodes_cons (n : Node) (ns : List Node) (g : Group) :
    Ending.ofState <$> Render.nodes eng body limit p (n :: ns) g =
      Render.node eng body limit p n g >>= fun r =>
        (Ending.after [r.1] ·) <$> Ending.ofState <$> Render.nodes eng body limit p ns r.2 := by
  simp only [Render.nodes, map_eq_pure_bind, bind_assoc, pure_bind]
  refine bind_congr fun r => bind_congr fun s => ?_
  exact congrArg pure (Ending.ofState_cons r.1 s)

/-- A walk of siblings is what the state of their group comes to, however the walk begins. -/
def Walked (eng : Engine) (body : Body) (limit : Nat) (p : Place) (ns : List Node) : Prop :=
  ∀ d, Ending.ofState <$> Render.nodes eng body limit p ns ⟨d, none⟩ = walk eng body limit p ns d

/-- While a condition awaits an alternative, the siblings are scanned, and walked behind the
alternative that is taken. -/
theorem ofState_nodes_pending (m : Node) (ns : List Node)
    (hw : ∀ ms, ms.length < ns.length → Walked eng body limit p ms) :
    Ending.ofState <$> Render.nodes eng body limit p ns ⟨true, some m⟩ =
      scan eng p ns >>= resume eng body limit p m := by
  induction ns with
  | nil => simp [Render.nodes, scan, resume, Ending.ofState]
  | cons n ns ih =>
    have hrest : Ending.ofState <$> Render.nodes eng body limit p ns ⟨true, some m⟩ =
        scan eng p ns >>= resume eng body limit p m :=
      ih fun ms hms => hw ms (Nat.lt_succ_of_lt hms)
    -- a sibling that is passed over gives a blank piece
    have hskip : (Ending.after [blank] ·) <$>
          Ending.ofState <$> Render.nodes eng body limit p ns ⟨true, some m⟩ =
        (do return (← scan eng p ns).map (.cons n)) >>= resume eng body limit p m := by
      rw [hrest, map_bind, bind_assoc]
      exact bind_congr fun t => by rw [pure_bind, resume_cons]
    rw [ofState_nodes_cons]
    cases ha : Role.isAlternative n.symbol with
    | false =>
      simp only [Render.node, scan, ha, Option.isSome_some, Bool.false_eq_true, if_false, if_true,
        pure_bind]
      exact hskip
    | true =>
      simp only [Render.node, Render.alternative, scan, ha, Option.isNone_some, Bool.false_eq_true,
        if_false, if_true, bind_assoc]
      refine bind_congr fun b => ?_
      cases b with
      | false =>
        simp only [Bool.false_eq_true, if_false, pure_bind]
        exact hskip
      | true =>
        -- behind the alternative nothing is awaited, and fewer siblings are left
        have hbehind := hw ns (Nat.lt_succ_self _) true
        simp only [if_true, pure_bind, resume, bind_assoc, Group.settle, hbehind]
        exact bind_congr fun v => map_eq_pure_bind _ _

/-! ### Nothing else awaits an alternative -/

/-- In a group where nothing awaits an alternative, nothing does afterwards. -/
def Settled {α : Type} (x : Group → Rendering (α × Group)) : Prop :=
  ∀ g, g.pending = none → Yields (fun r => r.2.pending = none) (x g)

theorem Settled.pure {α : Type} (a : α) : Settled fun g => Pure.pure (a, g) :=
  fun _ hg => Yields.pure hg

/-- Steps in a row leave what is awaited if each does. -/
theorem Settled.bind {α β : Type} {x : Group → Rendering (α × Group)}
    {f : α × Group → Rendering (β × Group)} (hx : Settled x)
    (hf : ∀ a, Settled fun g => f (a, g)) : Settled fun g => x g >>= f :=
  fun g hg => (hx g hg).bind_of fun r hr => hf r.1 r.2 hr

/-- Content leaves what is awaited. -/
theorem content_settled (n : Node) : Settled (Render.content eng p n) := by
  intro g hg
  unfold Render.content
  split
  · exact Yields.bind fun v => Yields.pure hg
  · refine Yields.bind fun s => ?_
    cases Header.expression? s with
    | none => exact Yields.pure hg
    | some e => exact Yields.bind fun v => Yields.bind fun t => Yields.bind fun h => Yields.pure hg

/-- So does an attribute. -/
theorem attributeOf_settled (n : Node) (k v : Value) :
    Settled (Render.attributeOf eng p n k v) := by
  intro g hg
  unfold Render.attributeOf
  split
  · exact Yields.pure hg
  · split
    · exact Yields.pure hg
    · refine Yields.bind fun u => Yields.bind fun t => ?_
      split
      · exact Yields.pure hg
      · exact Yields.bind fun s => Yields.pure hg

theorem attributesOf_settled (n : Node) (as : List (Value × Value)) :
    Settled (Render.attributesOf eng p n as) := by
  induction as with
  | nil => exact Settled.pure []
  | cons a as ih =>
    exact (attributeOf_settled n a.1 a.2).bind fun s => ih.bind fun ss => Settled.pure _

theorem tagContent_settled (n : Node) : Settled (Render.tagContent eng p n) := by
  intro g hg
  unfold Render.tagContent
  split
  · exact (content_settled n g hg).bind_of fun r hr => Yields.pure hr
  · exact Yields.pure hg

/-- So does what stands inside a tag. -/
theorem tagBody_settled (n : Node) : Settled (Render.tagBody body p n) := by
  intro g hg
  unfold Render.tagBody
  split
  · exact Yields.pure hg
  · refine Yields.bind fun r => Yields.pure ?_
    split
    · exact hg
    · exact hg

/-- So does a tag. -/
theorem tag_settled (n : Node) : Settled (Render.tag eng body p n) := by
  intro g hg
  refine Yields.bind_of (Q := fun r => r.2.pending = none) ?_ fun r hr => ?_
  · refine Yields.bind fun t => ?_
    refine (attributesOf_settled n _ g hg).bind_of fun as hg => ?_
    refine (tagContent_settled n _ hg).bind_of fun cs hg => ?_
    refine (tagBody_settled n _ hg).bind_of fun bs hg => ?_
    exact Yields.bind fun es => Yields.bind fun html => Yields.pure hg
  · dsimp only
    split
    · exact Yields.bind fun _ => Yields.pure hr
    · exact Yields.pure hr

/-- So does whatever only marks the group. -/
theorem settled_of_marks {α : Type} {x : Group → Rendering (α × Group)}
    (h : ∀ g, Render.Marks g (x g)) : Settled x :=
  fun g hg => (h g).mono fun r hr => by rw [hr, Group.dynamic, hg]

/-- Only a condition that fails awaits an alternative. -/
theorem inRole_settled (n : Node) {r : Role} (hr : r ≠ .condition) :
    Settled fun g => inRole eng body limit p n g r := by
  cases r with
  | condition => exact absurd rfl hr
  | alternative =>
    intro g hg
    simp only [inRole, Render.alternative, hg, Option.isNone_none, if_true]
    exact Yields.pure hg
  | whileLoop => exact settled_of_marks fun g => Render.whileLoop_marks eng p g limit
  | forLoop => exact settled_of_marks fun g => Render.forLoop_marks eng p g limit
  | each => exact fun g _ => Yields.throw _
  | comment => exact fun g hg => Yields.bind fun v => Yields.pure hg
  | inclusion => exact settled_of_marks fun g => Render.inclusion_marks eng p g
  | text => exact (content_settled n).bind fun v g hg => Yields.bind fun t => Yields.pure hg
  | inlineCode => exact fun g _ => Yields.throw _
  | plugin name => exact settled_of_marks fun g => Render.plugin_marks eng p g name
  | call name => exact settled_of_marks fun g => Render.call_marks eng p g name
  | definition name => exact settled_of_marks fun g => Render.definition_marks eng g name
  | tag => exact tag_settled n

/-! ### Groups are walks -/

/-- A condition, with the walk behind it or behind the alternative that is taken. -/
theorem condition_walked {n : Node} {ns : List Node}
    (hw : ∀ ms, ms.length ≤ ns.length → Walked eng body limit p ms) (d : Bool) :
    (inRole eng body limit p n ⟨d, none⟩ .condition >>= fun s =>
        (Ending.after [s.1] ·) <$> Ending.ofState <$> Render.nodes eng body limit p ns s.2) = (do
      if ← test eng p n n.content then
        let v ← inside body n p
        return (← walk eng body limit p ns true).after [v]
      else
        match ← scan eng p ns with
        | none => return .missing n
        | some t =>
          let v ← inside body t.alternative p
          return (← walk eng body limit p t.behind true).after
            (blank :: t.front.map (fun _ => blank) ++ [v])) := by
  simp only [inRole, Render.condition, bind_assoc]
  refine bind_congr fun b => ?_
  cases b with
  | true =>
    simp only [if_true, bind_assoc, pure_bind, Group.dynamic]
    refine bind_congr fun v => ?_
    rw [hw ns (Nat.le_refl _) true]
    exact map_eq_pure_bind _ _
  | false =>
    simp only [Bool.false_eq_true, if_false, pure_bind, Group.await]
    -- the alternative is sought among the siblings, and each in front of it gives a blank
    rw [ofState_nodes_pending n ns fun ms hms => hw ms (Nat.le_of_lt hms), map_bind]
    refine bind_congr fun t => ?_
    cases t with
    | none => simp [resume, Ending.after]
    | some t => simp [resume, blank]

/-- A node in any other role, with the walk behind it. -/
theorem other_walked {n : Node} {ns : List Node} {r : Role} (hr : r ≠ .condition)
    (hw : Walked eng body limit p ns) (d : Bool) :
    (inRole eng body limit p n ⟨d, none⟩ r >>= fun s =>
        (Ending.after [s.1] ·) <$> Ending.ofState <$> Render.nodes eng body limit p ns s.2) = (do
      let (v, g) ← inRole eng body limit p n ⟨d, none⟩ r
      return (← walk eng body limit p ns g.isDynamic).after [v]) := by
  refine (inRole_settled n hr ⟨d, none⟩ rfl).bind_congr fun s hs => ?_
  obtain ⟨v, d', m⟩ := s
  obtain rfl : m = none := hs
  rw [hw d']
  exact map_eq_pure_bind _ _

/-- **Siblings are walked.**  By induction on their number, since a walk may go on behind an
alternative further back. -/
theorem walked (k : Nat) : ∀ ns : List Node, ns.length < k → Walked eng body limit p ns := by
  induction k with
  | zero => intro ns h; omega
  | succ k ih =>
    intro ns hk d
    cases ns with
    | nil => simp [Render.nodes, walk, Ending.ofState]
    | cons n ns =>
      have hns : ns.length < k := by simpa using hk
      have hrest := ih ns hns
      rw [ofState_nodes_cons, walk]
      cases ha : Role.isAlternative n.symbol with
      | true =>
        simp only [Render.node, Render.alternative, ha, Option.isNone_none, if_true, pure_bind]
        rw [hrest d]
        exact map_eq_pure_bind _ _
      | false =>
        simp only [Render.node, ha, Option.isSome_none, Bool.false_eq_true, if_false, bind_assoc]
        refine bind_congr fun m => ?_
        cases m with
        | some html =>
          simp only [pure_bind, hrest d]
          exact map_eq_pure_bind _ _
        | none =>
          simp only [bind_assoc]
          refine bind_congr fun r => ?_
          have hw (ms : List Node) (hms : ms.length ≤ ns.length) : Walked eng body limit p ms :=
            ih ms (Nat.lt_of_le_of_lt hms hns)
          cases r with
          -- a condition alone looks further back than to the next sibling
          | condition => exact condition_walked hw d
          | _ => exact other_walked (by simp) hrest d

/-- A group is rendered as its walk. -/
theorem group_eq (ns : List Node) :
    Render.group eng body limit p ns = group eng body limit p ns := by
  have hw := (walked _ ns (Nat.lt_succ_self _) : Walked eng body limit p ns) false
  simp only [group, ← hw, map_eq_pure_bind, bind_assoc, pure_bind]
  refine bind_congr fun r => ?_
  obtain ⟨vs, d, _ | n⟩ := r <;> rfl

/-- So is the body of a node, at every depth. -/
theorem body_eq (eng : Engine) (depth : Nat) : Render.body eng depth = Chains.body eng depth := by
  induction depth with
  | zero => rfl
  | succ depth ih =>
    funext n p
    rw [Render.body, Chains.body, ih]
    exact group_eq n.children

/-! ### What a scan passes over -/

/-- The alternatives of a list are asked in order whether they are taken, up to the first that
is. -/
def firstTaken (eng : Engine) (p : Place) : List Node → Rendering (Option Node)
  | [] => pure none
  | n :: ns => do
    if ← alternativeHolds eng p n then return some n else firstTaken eng p ns

/-- A scan does to the world what its alternatives do that are asked one after the other, whatever
stands between them. -/
theorem scan_alternatives (ns : List Node) :
    Option.map Taken.alternative <$> scan eng p ns =
      firstTaken eng p (ns.filter fun n => Role.isAlternative n.symbol) := by
  induction ns with
  | nil => simp [scan, firstTaken]
  | cons n ns ih =>
    have hmap (t : Option (Taken ns)) :
        (t.map (Taken.cons n)).map Taken.alternative = t.map Taken.alternative := by
      cases t <;> rfl
    cases ha : Role.isAlternative n.symbol with
    | false => simp [scan, ha, ← ih, hmap]
    | true =>
      simp only [scan, ha, if_true, List.filter_cons_of_pos, firstTaken, map_bind]
      refine bind_congr fun b => ?_
      cases b with
      | true => simp
      | false => simp [← ih, hmap]

/-! ### The test -/

/-- The test is recognized as it is meant. -/
theorem condition?_eq_some_iff {s t : List Char} :
    Header.condition? s = some t ↔ Header.Tests s t := by
  constructor
  · intro h
    obtain ⟨front, hs, hfront, -⟩ := Text.exists_dropLeading Text.isBlank s
    unfold Header.condition? at h
    split at h
    · next r hr =>
      obtain ⟨gap, hgap, hb, ht⟩ := Text.exists_dropLeading Text.isBlank r
      split at h
      · next hw =>
        obtain rfl := Option.some.inj h
        rw [hr] at hs
        exact ⟨⟨front, gap, by rw [← hgap]; exact hs, hfront, hb, by rw [← hgap]; exact hw⟩, ht⟩
      · cases h
    · cases h
  · intro h
    obtain ⟨⟨front, gap, rfl, hfront, hgap, hw⟩, ht⟩ := h
    have hi : ∀ c ∈ ('i' :: 'f' :: (gap ++ t)).head?, Text.isBlank c = false := by
      intro c hc
      obtain rfl : 'i' = c := by simpa using hc
      decide
    simp only [Header.condition?, Text.dropLeading_append hfront hi, hw, if_true,
      Text.dropLeading_append hgap ht]

section Alternatives

variable {eng : Engine} {p : Place} {n : Node} {s : String} {t : List Char}

/-- What an alternative asks is told by its content. -/
theorem alternativeHolds_eq (hn : n.content = .text s) :
    alternativeHolds eng p n =
      match Header.condition? s.toList with
      | none => pure true
      | some t => test eng p n (.text (String.ofList t)) := by
  rw [alternativeHolds, hn]
  rfl

/-- An alternative with a test is taken if the test holds. -/
theorem alternativeHolds_of_tests (hn : n.content = .text s) (ht : Header.Tests s.toList t) :
    alternativeHolds eng p n = test eng p n (.text (String.ofList t)) := by
  rw [alternativeHolds_eq hn, condition?_eq_some_iff.mpr ht]

/-- An alternative without a test is taken, and nothing is evaluated. -/
theorem alternativeHolds_of_no_test (hn : n.content = .text s)
    (ht : ∀ t, ¬ Header.Tests s.toList t) : alternativeHolds eng p n = pure true := by
  have hnone : Header.condition? s.toList = none :=
    Option.eq_none_iff_forall_ne_some.mpr fun c hc => ht c (condition?_eq_some_iff.mp hc)
  rw [alternativeHolds_eq hn, hnone]

end Alternatives

/-- **The meaning of conditions and alternatives.**  At every depth, a group of siblings is rendered
as its walk (`Chains.walk`), in every scope and with every evaluator: to the same markup or failure,
with the same effects.  The scan behind a condition that failed does what the alternatives among the
siblings do, asked one after the other up to the first that is taken, and nothing else; and the test
of an alternative is what follows the word `if` in its content. -/
theorem rendering_is_walking (eng : Engine) :
    (∀ depth, Render.body eng depth = Chains.body eng depth) ∧
    (∀ p ns, Option.map Taken.alternative <$> scan eng p ns =
      firstTaken eng p (ns.filter fun n => Role.isAlternative n.symbol)) ∧
    ∀ s t, Header.condition? s = some t ↔ Header.Tests s t :=
  ⟨body_eq eng, fun _ ns => scan_alternatives ns, fun _ _ => condition?_eq_some_iff⟩

end Chains
end Trellis
