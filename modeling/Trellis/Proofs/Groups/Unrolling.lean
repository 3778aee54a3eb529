import Trellis.Proofs.Evaluation.Walks
import Trellis.Proofs.Headers.Formats
import Trellis.Proofs.Headers.Loops
import Trellis.Proofs.Markup.Joining
import Trellis.Samples

/-!
# Proofs — Groups — Unrolling

Loops are sequences (`loops_unroll`).

A loop over a collection renders its children once for each pair that the collection has when it is
evaluated, provided that no round changes the collection (`Undisturbed`).  A loop under a condition
is as many conditions in a row as hold, and the evaluation of one test that does not
(`exec_whileLoop_ok_iff`, `exec_whileLoop_error_iff`).
-/

namespace Trellis

open Rendering

namespace Render

/-! ### Rounds -/

section Rounds

variable {α : Type}

/-- No round leaves another collection behind than it found, whatever rounds came before. -/
def Undisturbed (v : Value) (round : α → Rendering String) : List α → World → Prop
  | [], _ => True
  | a :: as, w => ∀ s w', exec (round a) w = (.ok s, w') →
      w'.heap.held v = w.heap.held v ∧ Undisturbed v round as w'

/-- Rounds one after the other. -/
def rounds (round : α → Rendering String) (as : List α) : Rendering String := do
  return Markup.concat (← as.mapM round)

theorem rounds_nil (round : α → Rendering String) : rounds round [] = pure "" := rfl

/-- The first round is made before the others. -/
theorem rounds_cons (round : α → Rendering String) (a : α) (as : List α) :
    rounds round (a :: as) = do
      let s ← round a
      return s ++ (← rounds round as) := by
  simp only [rounds, List.mapM_cons, bind_assoc, pure_bind, Markup.concat_cons]

end Rounds

variable {body : Body} {p : Place} {n : Node} {names : List String}

/-- The children of a loop for a pair of the collection, which the names are bound to. -/
def inRound (body : Body) (p : Place) (n : Node) (names : List String) (e : Value × Value) :
    Rendering String := do
  return (← body n { p with scope := p.scope.extend (bindings names e.1 e.2) }).1

/-- An action that leaves the heap as it is leaves the world. -/
theorem exec_onHeap_of_run {α : Type} {x : Action α} {r : Except Fault α} {w : World}
    (hx : x.run.run w.heap = (r, w.heap)) : exec (onHeap x) w = (r, w) := by
  rw [exec_onHeap, hx]

/-- A walk that has not met the pairs `ps` goes through rounds for them.  The induction is on the
pairs; what carries it is that a round changes nothing the walk looks at. -/
theorem exec_forEach {v : Value} {limit : Nat} {ps : List (Value × Value)} {w : World} {k : Walk}
    (hleft : Walk.Left w.heap v k ps) (hround : Undisturbed v (inRound body p n names) ps w)
    (hlimit : ps.length < limit) (written : String) :
    exec (forEach body p n names limit k written) w =
      exec (do return written ++ (← rounds (inRound body p n names) ps)) w := by
  induction ps generalizing limit w k written with
  | nil =>
    obtain ⟨limit, rfl⟩ := Nat.exists_eq_add_of_lt hlimit
    rw [forEach, exec_bind, exec_onHeap_of_run hleft.next_nil]
    simp [rounds_nil]
  | cons e ps ih =>
    obtain ⟨limit, rfl⟩ : ∃ m, limit = m + 1 := ⟨limit - 1, by omega⟩
    obtain ⟨k', hnext, hleft'⟩ := hleft.next_cons
    rw [forEach, exec_bind, exec_onHeap_of_run hnext, rounds_cons, inRound]
    simp only [bind_assoc, pure_bind]
    rw [exec_bind, exec_bind]
    rcases hbody : exec (body n _) w with ⟨f | ⟨s, d⟩, w'⟩
    · rfl
    · have hexec : exec (inRound body p n names e) w = (.ok s, w') := by
        rw [inRound, exec_bind, hbody]
        rfl
      obtain ⟨hheld, hrest⟩ := hround s w' hexec
      dsimp only
      rw [ih (hleft'.frame hheld) hrest (by simpa using hlimit)]
      simp only [String.append_assoc]

/-! ### Headers -/

/-- The first whole word `in` of a header stands between `x` and `r`. -/
def CutAt (s : String) (x r : List Char) : Prop :=
  Header.Stands false s.toList x r ∧
    ∀ y t, Header.Stands false s.toList y t → x.length ≤ y.length

/-- The names in front of the word of a header. -/
def namesBefore (x : List Char) : List String :=
  Header.names (Text.strip Text.isBlank x)

/-- The collection behind the word of a header. -/
def collectionBehind (r : List Char) : String :=
  String.ofList (Text.dropLeading Text.isBlank r)

variable {eng : Engine} {g : Group} {s : String} {x r : List Char}

/-- A header is cut at the word, and white space around it is lost. -/
theorem loop?_of_cutAt (h : CutAt s x r) :
    Header.loop? s.toList =
      some (Text.strip Text.isBlank x, Text.dropLeading Text.isBlank r) :=
  Header.loop?_eq_some_iff.mpr ⟨x, r, h.1, h.2, rfl, rfl⟩

/-- There is no name: the word is missing, or nothing stands in front of the first comma. -/
theorem loopHeader_missing (hn : n.content = .text s)
    (hmissing : ∀ x r, CutAt s x r → (namesBefore x).head? = some "") :
    loopHeader n = Rendering.complain (.noLoopVariable s) n.position := by
  have hsearch : Markup.searchable n.content = .ok s.toList := by rw [hn]; rfl
  have hplain : n.content.plain = s := by rw [hn]; rfl
  simp only [loopHeader, hsearch, hplain, Rendering.ofCause, pure_bind]
  cases hloop : Header.loop? s.toList with
  | none => rfl
  | some q =>
    obtain ⟨x, r, hstands, hfirst, hx, -⟩ := Header.loop?_eq_some_iff.mp hloop
    have hhead := hmissing x r ⟨hstands, hfirst⟩
    rw [namesBefore, ← hx] at hhead
    simp [hhead]

/-- The names in front of the word are the variables, and the text behind it is the collection. -/
theorem loopHeader_of_cutAt {name : String} {rest : List String} (hn : n.content = .text s)
    (hcut : CutAt s x r) (hnames : namesBefore x = name :: rest) (hname : name ≠ "") :
    loopHeader n = pure (name :: rest, collectionBehind r) := by
  have hsearch : Markup.searchable n.content = .ok s.toList := by rw [hn]; rfl
  have hempty : name.isEmpty = false := by
    rwa [Bool.eq_false_iff, ne_eq, String.isEmpty_iff]
  rw [namesBefore] at hnames
  simp only [loopHeader, hsearch, Rendering.ofCause, pure_bind, loop?_of_cutAt hcut, hnames,
    List.head?_cons, Option.all_some, hempty]
  rfl

/-- A loop over the pairs of a collection. -/
theorem exec_forLoop {limit : Nat} {name : String} {rest : List String} {v : Value}
    {ps : List (Value × Value)} {w w₁ : World} (hheader : loopHeader n = pure (name :: rest, s))
    (hvalue : exec (evaluate eng p n (.text s)) w = (.ok v, w₁))
    (hpairs : Walk.pairsOf w₁.heap v = .ok ps)
    (hround : Undisturbed v (inRound body p n (name :: rest)) ps w₁) (hlimit : ps.length < limit) :
    exec (forLoop eng body limit p n g) w =
      exec (do return (.text (← rounds (inRound body p n (name :: rest)) ps), g.dynamic)) w₁ := by
  obtain ⟨f, hf, -⟩ | ⟨qs, k, hqs, hstart, hleft⟩ := Walk.starts v w₁.heap
  · rw [hpairs] at hf
    cases hf
  · obtain rfl := Except.ok.inj (hpairs.symm.trans hqs)
    rw [forLoop, hheader, pure_bind, exec_bind, hvalue]
    dsimp only
    rw [exec_bind, exec_onHeap_of_run hstart]
    dsimp only
    rw [exec_bind, exec_forEach hleft hround hlimit, exec_bind, exec_bind]
    rcases exec (rounds _ ps) w₁ with ⟨f | t, w₂⟩
    · rfl
    · simp

/-! ### Conditions in a row -/

/-- Conditions on the test of a loop with its children, `k` of them in a row. -/
def conditions (eng : Engine) (body : Body) (p : Place) (n : Node) (k : Nat) :
    Rendering (List (Value × Group)) :=
  (List.replicate k n).mapM fun m => condition eng body p m Group.start

/-- From the world `w` to `w'`, `k` conditions in a row hold and give `rs`. -/
structure Hold (eng : Engine) (body : Body) (p : Place) (n : Node) (k : Nat) (w : World)
    (rs : List (Value × Group)) (w' : World) : Prop where
  run : exec (conditions eng body p n k) w = (.ok rs, w')
  settled : ∀ r ∈ rs, r.2.pending = none

/-- What a condition does: it holds with the children, fails, or awaits an alternative. -/
theorem exec_condition (eng : Engine) (body : Body) (p : Place) (n : Node) (g : Group) (w : World) :
    exec (condition eng body p n g) w =
      match exec (test eng p n n.content) w with
      | (.ok true, w') =>
        match exec (body n p) w' with
        | (.ok (s, _), w'') => (.ok (.text s, g.dynamic), w'')
        | (.error f, w'') => (.error f, w'')
      | (.ok false, w') => (.ok (.text "", g.await n), w')
      | (.error f, w') => (.error f, w') := by
  rw [condition, exec_bind]
  rcases exec (test eng p n n.content) w with ⟨f | b, w'⟩
  · rfl
  · cases b with
    | false => rfl
    | true =>
      simp only [if_true, inside, bind_assoc, pure_bind]
      rw [exec_bind]
      rcases exec (body n p) w' with ⟨f | ⟨s, d⟩, w''⟩ <;> rfl

/-- One more condition is made before the others. -/
theorem exec_conditions_succ (eng : Engine) (body : Body) (p : Place) (n : Node) (k : Nat)
    (w : World) :
    exec (conditions eng body p n (k + 1)) w =
      match exec (condition eng body p n Group.start) w with
      | (.ok r, w') =>
        match exec (conditions eng body p n k) w' with
        | (.ok rs, w'') => (.ok (r :: rs), w'')
        | (.error f, w'') => (.error f, w'')
      | (.error f, w') => (.error f, w') := by
  rw [conditions, List.replicate_succ, List.mapM_cons, exec_bind]
  rcases exec (condition eng body p n Group.start) w with ⟨f | r, w'⟩
  · rfl
  · dsimp only
    rw [exec_bind, conditions]
    rcases exec (List.mapM _ _) w' with ⟨f | rs, w''⟩ <;> rfl

/-- One more round is made if the test holds. -/
theorem exec_whileHolds_succ (eng : Engine) (body : Body) (p : Place) (n : Node) (limit : Nat)
    (written : String) (w : World) :
    exec (whileHolds eng body p n (limit + 1) written) w =
      match exec (test eng p n n.content) w with
      | (.ok true, w') =>
        match exec (body n p) w' with
        | (.ok (s, _), w'') => exec (whileHolds eng body p n limit (written ++ s)) w''
        | (.error f, w'') => (.error f, w'')
      | (.ok false, w') => (.ok written, w')
      | (.error f, w') => (.error f, w') := by
  rw [whileHolds, exec_bind]
  rcases exec (test eng p n n.content) w with ⟨f | b, w'⟩
  · rfl
  · cases b with
    | false => rfl
    | true =>
      simp only [if_true]
      rw [exec_bind]
      rcases exec (body n p) w' with ⟨f | ⟨s, d⟩, w''⟩ <;> rfl

section Holding

variable {k : Nat} {w w' w₁ w₂ : World} {rs : List (Value × Group)} {f : Fault} {t : String}

/-- No conditions hold without doing anything. -/
theorem hold_zero : Hold eng body p n 0 w rs w' ↔ rs = [] ∧ w' = w := by
  constructor
  · intro h
    obtain ⟨hrs, hw⟩ := Prod.mk.inj h.run
    exact ⟨(Except.ok.inj hrs).symm, hw.symm⟩
  · rintro ⟨rfl, rfl⟩
    exact ⟨rfl, List.forall_mem_nil _⟩

/-- The test holds, the children are rendered, and the other conditions hold. -/
theorem hold_succ :
    Hold eng body p n (k + 1) w rs w' ↔ ∃ w₁ s d w₂ us,
      exec (test eng p n n.content) w = (.ok true, w₁) ∧
      exec (body n p) w₁ = (.ok (s, d), w₂) ∧
      Hold eng body p n k w₂ us w' ∧ rs = (.text s, Group.start.dynamic) :: us := by
  constructor
  · rintro ⟨hrun, hsettled⟩
    rw [exec_conditions_succ, exec_condition] at hrun
    rcases ht : exec (test eng p n n.content) w with ⟨f | b, w₁⟩ <;> rw [ht] at hrun
    · cases hrun
    · cases b with
      | false =>
        -- a condition that does not hold awaits an alternative
        rcases hrest : exec (conditions eng body p n k) w₁ with ⟨f | us, w₂⟩ <;>
          simp only [hrest] at hrun <;> cases hrun
        cases hsettled _ List.mem_cons_self
      | true =>
        rcases hb : exec (body n p) w₁ with ⟨f | ⟨s, d⟩, w₂⟩ <;> simp only [hb] at hrun
        · cases hrun
        · rcases hrest : exec (conditions eng body p n k) w₂ with ⟨f | us, w₃⟩ <;>
            simp only [hrest] at hrun <;> cases hrun
          exact ⟨w₁, s, d, w₂, us, rfl, hb, ⟨hrest, (List.forall_mem_cons.mp hsettled).2⟩, rfl⟩
  · rintro ⟨w₁, s, d, w₂, us, ht, hb, ⟨hrest, hsettled⟩, rfl⟩
    refine ⟨?_, List.forall_mem_cons.mpr ⟨rfl, hsettled⟩⟩
    rw [exec_conditions_succ, exec_condition, ht]
    simp only [hb, hrest]

/-- With the test and the children known, the other conditions are what is left. -/
theorem hold_succ_of {s : String} {d : Bool} (ht : exec (test eng p n n.content) w = (.ok true, w₁))
    (hb : exec (body n p) w₁ = (.ok (s, d), w₂)) :
    Hold eng body p n (k + 1) w rs w' ↔
      ∃ us, Hold eng body p n k w₂ us w' ∧ rs = (.text s, Group.start.dynamic) :: us := by
  rw [hold_succ]
  constructor
  · rintro ⟨u₁, s', d', u₂, us, ht', hb', hhold, rfl⟩
    cases ht.symm.trans ht'
    cases hb.symm.trans hb'
    exact ⟨us, hhold, rfl⟩
  · rintro ⟨us, hhold, rfl⟩
    exact ⟨w₁, s, d, w₂, us, ht, hb, hhold, rfl⟩

/-- Where the children fail, no further condition holds. -/
theorem not_hold_of_error (ht : exec (test eng p n n.content) w = (.ok true, w₁))
    (hb : exec (body n p) w₁ = (.error f, w₂)) : ¬ Hold eng body p n (k + 1) w rs w' := by
  intro h
  obtain ⟨u₁, s, d, u₂, us, ht', hb', -⟩ := hold_succ.mp h
  cases ht.symm.trans ht'
  cases hb.symm.trans hb'

/-- The loop comes to an end behind the conditions that hold, at a test that does not. -/
theorem exec_whileHolds_ok_iff (limit : Nat) (written : String) :
    exec (whileHolds eng body p n limit written) w = (.ok t, w₂) ↔
      ∃ k < limit, ∃ rs w₁ u, Hold eng body p n k w rs w₁ ∧
        exec (test eng p n n.content) w₁ = (.ok false, w₂) ∧
        Markup.join (rs.map (·.1)) = .ok u ∧ t = written ++ u := by
  induction limit generalizing w written with
  | zero => simp [whileHolds]
  | succ limit ih =>
    rw [Nat.exists_lt_succ_left, exec_whileHolds_succ]
    rcases ht : exec (test eng p n n.content) w with ⟨f | b, w₁⟩
    · simp [hold_zero, hold_succ, ht]
    · cases b with
      | false => simp [hold_zero, hold_succ, ht, Markup.join, Markup.joinFrom, eq_comm, and_comm]
      | true =>
        rcases hb : exec (body n p) w₁ with ⟨f | ⟨s, d⟩, w₃⟩
        · simp [hold_zero, not_hold_of_error ht hb, ht, hb]
        · simp only [hb, ih, hold_zero, hold_succ_of ht hb]
          constructor
          · rintro ⟨k, hk, us, w', u, hhold, hfalse, hjoin, rfl⟩
            exact .inr ⟨k, hk, _, w', s ++ u, ⟨us, hhold, rfl⟩, hfalse,
              Markup.join_cons.mpr ⟨u, hjoin, rfl⟩, String.append_assoc ..⟩
          · rintro (⟨rs, w', u, ⟨rfl, rfl⟩, hfalse, -⟩ |
              ⟨k, hk, rs, w', u, ⟨us, hhold, rfl⟩, hfalse, hjoin, rfl⟩)
            · -- no rounds at all would need a test that does not hold here
              cases ht.symm.trans hfalse
            · obtain ⟨u₁, hrest, rfl⟩ := Markup.join_cons.mp hjoin
              exact ⟨k, hk, us, w', u₁, hhold, hfalse, hrest, (String.append_assoc ..).symm⟩

/-- The loop fails as the condition does that follows the ones that hold. -/
theorem exec_whileHolds_error_iff (limit : Nat) (written : String) :
    exec (whileHolds eng body p n limit written) w = (.error f, w₂) ↔
      (∃ k < limit, ∃ rs w₁, Hold eng body p n k w rs w₁ ∧
        exec (condition eng body p n Group.start) w₁ = (.error f, w₂)) ∨
      (f = .exhausted ∧ ∃ rs, Hold eng body p n limit w rs w₂) := by
  induction limit generalizing w written with
  | zero => simp [whileHolds, hold_zero, eq_comm]
  | succ limit ih =>
    rw [Nat.exists_lt_succ_left, exec_whileHolds_succ]
    -- one round: the test or the children fail, or the loop ends, or the rest of the rounds follows
    rcases ht : exec (test eng p n n.content) w with ⟨f | b, w₁⟩
    · simp [hold_zero, hold_succ, ht, exec_condition]
    · cases b with
      | false => simp [hold_zero, hold_succ, ht, exec_condition]
      | true =>
        rcases hb : exec (body n p) w₁ with ⟨f | ⟨s, d⟩, w₃⟩
        · simp [hold_zero, not_hold_of_error ht hb, ht, hb, exec_condition]
        · -- a condition that holds does not fail, so the one that fails is further on
          have hfirst : exec (condition eng body p n Group.start) w =
              (.ok (.text s, Group.start.dynamic), w₃) := by
            rw [exec_condition, ht]
            simp only [hb]
          simp only [hb, ih, hold_zero, hold_succ_of ht hb]
          constructor
          · rintro (⟨k, hk, us, w', hhold, hfails⟩ | ⟨rfl, us, hhold⟩)
            · exact .inl (.inr ⟨k, hk, _, w', ⟨us, hhold, rfl⟩, hfails⟩)
            · exact .inr ⟨rfl, _, us, hhold, rfl⟩
          · rintro ((⟨rs, w', ⟨rfl, rfl⟩, hfails⟩ |
              ⟨k, hk, rs, w', ⟨us, hhold, rfl⟩, hfails⟩) | ⟨rfl, rs, us, hhold, rfl⟩)
            · cases hfirst.symm.trans hfails
            · exact .inl ⟨k, hk, us, w', hhold, hfails⟩
            · exact .inr ⟨rfl, us, hhold⟩

/-- A loop under a condition gives what its rounds write. -/
theorem exec_whileLoop (eng : Engine) (body : Body) (limit : Nat) (p : Place) (n : Node) (g : Group)
    (w : World) :
    exec (whileLoop eng body limit p n g) w =
      match exec (whileHolds eng body p n limit "") w with
      | (.ok t, w') => (.ok (.text t, g.dynamic), w')
      | (.error f, w') => (.error f, w') := by
  rw [whileLoop, exec_bind]
  rcases exec (whileHolds eng body p n limit "") w with ⟨f | t, w'⟩ <;> rfl

/-- It ends after as many rounds as conditions hold, with a test that does not. -/
theorem exec_whileLoop_ok_iff {limit : Nat} {v : Value} {g' : Group} :
    exec (whileLoop eng body limit p n g) w = (.ok (v, g'), w₂) ↔
      ∃ k < limit, ∃ rs w₁ u, Hold eng body p n k w rs w₁ ∧
        exec (test eng p n n.content) w₁ = (.ok false, w₂) ∧
        Markup.join (rs.map (·.1)) = .ok u ∧ v = .text u ∧ g' = g.dynamic := by
  rw [exec_whileLoop]
  constructor
  · intro h
    rcases hw : exec (whileHolds eng body p n limit "") w with ⟨f | t, w'⟩ <;> rw [hw] at h
    · cases h
    · obtain ⟨k, hk, rs, w₁, u, hhold, hfalse, hjoin, rfl⟩ :=
        (exec_whileHolds_ok_iff limit "").mp hw
      cases h
      exact ⟨k, hk, rs, w₁, u, hhold, hfalse, hjoin, by rw [String.empty_append], rfl⟩
  · rintro ⟨k, hk, rs, w₁, u, hhold, hfalse, hjoin, rfl, rfl⟩
    have hw := (exec_whileHolds_ok_iff limit "").mpr ⟨k, hk, rs, w₁, u, hhold, hfalse, hjoin, rfl⟩
    rw [hw, String.empty_append]

/-- It fails with a condition that does, or at the bound on its rounds. -/
theorem exec_whileLoop_error_iff {limit : Nat} :
    exec (whileLoop eng body limit p n g) w = (.error f, w₂) ↔
      (∃ k < limit, ∃ rs w₁, Hold eng body p n k w rs w₁ ∧
        exec (condition eng body p n Group.start) w₁ = (.error f, w₂)) ∨
      (f = .exhausted ∧ ∃ rs, Hold eng body p n limit w rs w₂) := by
  rw [exec_whileLoop, ← exec_whileHolds_error_iff limit ""]
  rcases exec (whileHolds eng body p n limit "") w with ⟨f | t, w'⟩ <;> simp

end Holding

/-! ### Loops -/

/-- The children of a loop as a group of their own, for a pair of the collection, which the names are
bound to. -/
def round (eng : Engine) (depth : Nat) (p : Place) (n : Node) (names : List String)
    (e : Value × Value) : Rendering String := do
  let inner := { p with scope := p.scope.extend (bindings names e.1 e.2) }
  return (← group eng (Render.body eng depth) depth inner n.children).1

/-- What a loop over a collection does whose header gives the names and, behind the word `in`, the
text of the collection. -/
structure ForLaws (eng : Engine) (depth limit : Nat) (p : Place) (n : Node) (g : Group)
    (names : List String) (collection : String) : Prop where
  /-- A collection that cannot be evaluated ends the loop. -/
  unevaluated : ∀ w f w₁, exec (evaluate eng p n (.text collection)) w = (.error f, w₁) →
    exec (forLoop eng (Render.body eng (depth + 1)) limit p n g) w = (.error f, w₁)
  /-- So does a value that cannot be walked over. -/
  notIterable : ∀ w v w₁, exec (evaluate eng p n (.text collection)) w = (.ok v, w₁) →
    ∀ f, Walk.pairsOf w₁.heap v = .error f →
      exec (forLoop eng (Render.body eng (depth + 1)) limit p n g) w = (.error f, w₁)
  /-- Otherwise the loop does, in the world behind the one evaluation, what rounds for the pairs do,
  one after the other up to the first that fails. -/
  rounds : ∀ w v w₁, exec (evaluate eng p n (.text collection)) w = (.ok v, w₁) →
    ∀ ps, Walk.pairsOf w₁.heap v = .ok ps → Undisturbed v (round eng depth p n names) ps w₁ →
      ps.length < limit →
      exec (forLoop eng (Render.body eng (depth + 1)) limit p n g) w =
        exec (do
          let ss ← ps.mapM (round eng depth p n names)
          return (.text (Markup.concat ss), g.dynamic)) w₁

/-- What loops do. -/
structure LoopLaws (eng : Engine) (depth limit : Nat) (p : Place) (n : Node) (g : Group) :
    Prop where
  /-- Without a whole word `in` in the header, or without a name in front of its first comma, a loop
  over a collection fails before anything else is done. -/
  missing : ∀ s, n.content = .text s →
    (∀ x r, CutAt s x r → (namesBefore x).head? = some "") → ∀ w,
      exec (forLoop eng (Render.body eng (depth + 1)) limit p n g) w =
        (.error (.template (.noLoopVariable s) n.position), w)
  /-- Otherwise the header is cut at its first whole word `in`. -/
  cut : ∀ s, n.content = .text s → ∀ x r name rest, CutAt s x r →
    namesBefore x = name :: rest → name ≠ "" →
      ForLaws eng depth limit p n g (name :: rest) (collectionBehind r)
  /-- In a round, the second name, unless it is empty, is bound to the item, and the first to the key;
  all others are as they are around the loop. -/
  bound : ∀ names key item x, (p.scope.extend (bindings names key item)).lookup? x =
    if names[1]? = some x ∧ x ≠ "" then some item
    else if names[0]? = some x then some key
    else p.scope.lookup? x
  /-- A loop under a condition that comes to an end does what some conditions do that all hold, and
  then a test that does not hold. -/
  ends : ∀ w v g' w₂,
    exec (whileLoop eng (Render.body eng (depth + 1)) limit p n g) w = (.ok (v, g'), w₂) ↔
      ∃ k < limit, ∃ rs w₁ u, Hold eng (Render.body eng (depth + 1)) p n k w rs w₁ ∧
        exec (test eng p n n.content) w₁ = (.ok false, w₂) ∧
        Markup.join (rs.map (·.1)) = .ok u ∧ v = .text u ∧ g' = g.dynamic
  /-- One that fails does what some conditions do that all hold, and then one that fails.  Only the
  bound on the number of rounds is a failure of its own. -/
  fails : ∀ w f w₂,
    exec (whileLoop eng (Render.body eng (depth + 1)) limit p n g) w = (.error f, w₂) ↔
      (∃ k < limit, ∃ rs w₁, Hold eng (Render.body eng (depth + 1)) p n k w rs w₁ ∧
        exec (condition eng (Render.body eng (depth + 1)) p n Group.start) w₁ = (.error f, w₂)) ∨
      (f = .exhausted ∧ ∃ rs, Hold eng (Render.body eng (depth + 1)) p n limit w rs w₂)

section ForLaws

variable {eng : Engine} {depth limit : Nat} {p : Place} {n : Node} {g : Group} {s : String}
variable {x r : List Char} {name : String} {rest : List String}

/-- What a loop over a collection does, told from the cut of its header. -/
theorem forLaws_of_cutAt (hn : n.content = .text s) (hcut : CutAt s x r)
    (hnames : namesBefore x = name :: rest) (hname : name ≠ "") :
    ForLaws eng depth limit p n g (name :: rest) (collectionBehind r) where
  unevaluated w f w₁ hf := by
    rw [forLoop, loopHeader_of_cutAt hn hcut hnames hname, pure_bind, exec_bind_error hf]
  notIterable w v w₁ hv f hf := by
    obtain ⟨f', hf', hstart⟩ | ⟨ps, k, hps, -⟩ := Walk.starts v w₁.heap
    · cases hf.symm.trans hf'
      rw [forLoop, loopHeader_of_cutAt hn hcut hnames hname, pure_bind, exec_bind_ok hv,
        exec_bind_error (exec_onHeap_of_run hstart)]
    · cases hf.symm.trans hps
  rounds w v w₁ hv ps hps hround hlimit := by
    -- a round is written here as the group of the children in the scope of its names
    have hround : Undisturbed v (inRound (Render.body eng (depth + 1)) p n (name :: rest)) ps w₁ :=
      hround
    rw [exec_forLoop (loopHeader_of_cutAt hn hcut hnames hname) hv hps hround hlimit]
    simp only [Render.rounds, bind_assoc, pure_bind]
    rfl

end ForLaws

/-- **Loops are unrolled sequences.**  The header of a loop over a collection is cut at its first
whole word `in`; the collection is evaluated once, and the loop does what rounds for the pairs do,
one after the other: the children in a group of their own, in the scope of the loop with the names
bound.  A loop under a condition does what so many conditions do that all hold, and then the test or
the condition that ends it. -/
theorem loops_unroll (eng : Engine) (depth limit : Nat) (p : Place) (n : Node) (g : Group) :
    LoopLaws eng depth limit p n g where
  missing s hn hmissing w := by
    rw [forLoop, loopHeader_missing hn hmissing]
    rfl
  cut _ hn _ _ _ _ hcut hnames hname := forLaws_of_cutAt hn hcut hnames hname
  bound names key item x := lookup?_extend_bindings names p.scope key item x
  ends _ _ _ _ := exec_whileLoop_ok_iff
  fails _ _ _ := exec_whileLoop_error_iff

/-! ### A loop over letters -/

/-- A collection that is no container is as it is. -/
theorem undisturbed_of_address?_eq_none {α : Type} {v : Value} (hv : v.address? = none)
    (round : α → Rendering String) (as : List α) (w : World) : Undisturbed v round as w := by
  induction as generalizing w with
  | nil => trivial
  | cons a as ih =>
    intro s w' h
    exact ⟨by rw [Heap.held, Heap.held, hv]; rfl, ih w'⟩

/-- A loop over the letters of a word. -/
def letters : Node :=
  Samples.node 0 "for" "i, c in word" [Samples.leaf 1 "|" "x"]

/-- Where a word is known. -/
def lettersPlace : Place := ⟨[(.text "word", .text "ab")], none⟩

/-- The world behind the evaluation of the word. -/
def lettersWorld : World :=
  { World.empty with
    events := #[.evaluated 0 lettersPlace.scope .none (.text "word")] }

theorem loops_unroll_letters :
    exec (forLoop (Samples.engine 0) (Render.body (Samples.engine 0) 2) 3 lettersPlace letters
        Group.start) World.empty =
      exec (do
        let ss ← [(.int 0, .text "a"), (.int 1, .text "b")].mapM
          (round (Samples.engine 0) 1 lettersPlace letters ["i", "c"])
        return (.text (Markup.concat ss), Group.start.dynamic)) lettersWorld := by
  have hfinds : Header.Finds false "i, c in word".toList (some ("i, c ".toList, " word".toList)) :=
    Header.splitAtIn_eq_iff.mp (by decide)
  have hcut : CutAt "i, c in word" "i, c ".toList " word".toList := hfinds
  have hword : exec (evaluate (Samples.engine 0) lettersPlace letters (.text "word")) World.empty =
      (.ok (.text "ab"), lettersWorld) := rfl
  have hlaws := (loops_unroll (Samples.engine 0) 1 3 lettersPlace letters Group.start).cut
    "i, c in word" rfl _ _ "i" ["c"] hcut (by decide) (by decide)
  exact hlaws.rounds World.empty (.text "ab") lettersWorld hword _ rfl
    (undisturbed_of_address?_eq_none rfl _ _ _) (by decide)

end Render
end Trellis
