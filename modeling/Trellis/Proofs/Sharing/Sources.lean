import Trellis.Proofs.Sharing.Census
import Trellis.Proofs.Text.Cutting

/-!
# Proofs — Sharing — Sources

What loaders answer, up to identities.  `Loader.answers` is all that can be told from the answers of
a loader; loaders with equal answers may hold copies of each other's trees, and one of them may hold
a draft where the other has the node already.

Loading from sources answers alike (`Sources.load_matched`), leaves the answers as they are though
it stores the nodes of drafts (`Sources.load_answer?`), and counts (`Sources.load_counts`).
-/

namespace Trellis

open Rendering (Matched)
open Draft (Counts)

/-! ### Answers -/

namespace Loaded

/-- The answer without identities. -/
def bare : Loaded → Loaded
  | text s => text s
  | tree d location => tree d.bare location

/-- The finished nodes in the answer are in use. -/
def Within (S : Set Node) : Loaded → Prop
  | text _ => True
  | tree d _ => d.Within S

theorem Within.mono {S T : Set Node} (h : S ⊆ T) : {l : Loaded} → l.Within S → l.Within T
  | text _, _ => trivial
  | tree d _, hl => Draft.Within.mono h d hl

end Loaded

namespace Source

/-- The source without identities. -/
def bare : Source → Source
  | node n => node n.bare
  | s => s

/-- What is served for a source: a draft is built. -/
def taken : Source → Draft.Build Source
  | draft v => node <$> (Draft.ofValue v).node
  | s => pure s

/-- What is served for a source, up to identities. -/
def given (s : Source) : Except Fault Source :=
  (s.taken.run 0).map fun r => r.1.bare

/-- What is taken of a source is what it gives, up to identities. -/
theorem taken_bare (s : Source) (i : Nat) :
    Except.map (fun r => r.1.bare) (s.taken.run i) = s.given := by
  cases s with
  | draft v =>
      have h := (Draft.ofValue v).node_bare _ rfl 0 i
      simp only [given, taken, StateT.run_map]
      generalize (Draft.ofValue v).node.run 0 = r at h ⊢
      generalize (Draft.ofValue v).node.run i = r' at h ⊢
      cases h with
      | ok h => exact congrArg (fun n => Except.ok (node n)) h
      | error f => rfl
  | text _ | node _ | other _ => rfl

/-- The source is no node, or one in use. -/
def Within (S : Set Node) : Source → Prop
  | node n => n ∈ S
  | _ => True

theorem Within.mono {S T : Set Node} (h : S ⊆ T) : {s : Source} → s.Within S → s.Within T
  | node _, hs => h hs
  | text _, _ | draft _, _ | other _, _ => trivial

end Source

namespace Sources

/-- What is served for a path, up to identities. -/
def answer? (t : Sources) (path : String) : Option (Except Fault Source) :=
  (t.find? path).map Source.given

/-- What is loaded is the answer to the path, up to identities. -/
theorem load_bare (t : Sources) (path : String) (i : Nat) :
    Except.map (fun r => r.1.1.bare) ((t.load path).run i) =
      (t.answer? path).getD (.error (.template (.pathNotFound path) .none)) := by
  unfold load answer?
  cases t.find? path with
  | none => rfl
  | some s =>
      rw [Option.map_some, Option.getD_some, ← s.taken_bare i]
      cases s with
      | draft v =>
          simp only [Source.taken, StateT.run_bind, StateT.run_map]
          cases (Draft.ofValue v).node.run i <;> rfl
      | text _ | node _ | other _ => rfl

/-- Where the answers are the same, the same is served up to identities. -/
theorem load_matched {t t' : Sources} {path : String} (h : t'.answer? path = t.answer? path)
    (i i' : Nat) :
    Matched (fun r r' => r'.1.1.bare = r.1.1.bare) ((t.load path).run i)
      ((t'.load path).run i') := by
  apply Matched.of_map_eq
  rw [load_bare, load_bare, h]

/-! ### Drafts that were built -/

/-- A path that has lost its leading slashes has none to lose. -/
theorem relative_relative (s : String) : Path.relative (Path.relative s) = Path.relative s := by
  simp only [Path.relative, String.toList_ofList, Text.dropLeading_dropLeading]

/-- A tree that has been put in is found under its path. -/
theorem stored?_put_self (t : Sources) (path : String) (n : Node) :
    stored? (Table.put path (.node n) t) path = some (.node n) := by
  simp [stored?, Source.isAbsent]

/-- The trees under other paths are as they were. -/
theorem stored?_put_of_ne (t : Sources) {path q : String} (h : q ≠ path) (n : Node) :
    stored? (Table.put path (.node n) t) q = t.stored? q := by
  simp [stored?, Table.get?_put_of_ne h]

/-- A node that takes the place of what is served alike changes no answer: also paths that lead to
it without their slashes led to the same before. -/
theorem answer?_put {t : Sources} {path : String} {s : Source} {n : Node}
    (hs : t.find? path = some s) (hn : (Source.node n).given = s.given) (q : String) :
    answer? (Table.put path (.node n) t) q = t.answer? q := by
  unfold answer?
  by_cases hq : q = path
  · subst hq
    rw [hs, find?, stored?_put_self]
    exact congrArg some hn
  · unfold find?
    rw [stored?_put_of_ne t hq]
    cases hst : t.stored? q with
    | some u => rfl
    | none =>
        by_cases hr : Path.relative q = path
        · subst hr
          have hst' : t.stored? (Path.relative q) = some s := by
            rw [find?, relative_relative] at hs
            cases h : t.stored? (Path.relative q) with
            | none => simp [h] at hs
            | some u => simpa [h] using hs
          simp only [stored?_put_self, hst', Option.map_some, hn]
        · simp only [stored?_put_of_ne t hr]

/-- **Building changes no answer.** -/
theorem load_answer? {t u : Sources} {path : String} {s : Source} {i j : Nat}
    (h : (t.load path).run i = .ok ((s, u), j)) (q : String) : u.answer? q = t.answer? q := by
  unfold load at h
  split at h
  · cases h
  · next v hv =>
    cases hr : (Draft.ofValue v).node.run i with
    | error f =>
        rw [StateT.run_bind, hr] at h
        cases h
    | ok r =>
        rw [StateT.run_bind, hr] at h
        cases h
        refine answer?_put hv ?_ q
        rw [← (Source.draft v).taken_bare i, Source.taken, StateT.run_map, hr]
        rfl
  · cases h
    rfl

/-! ### Nodes in use -/

/-- The nodes among the sources are in use. -/
def Within (S : Set Node) (t : Sources) : Prop :=
  ∀ e ∈ t, e.2.Within S

theorem Within.mono {S T : Set Node} (h : S ⊆ T) {t : Sources} (ht : t.Within S) : t.Within T :=
  fun e he => (ht e he).mono h

/-- A source that is found has its nodes in use. -/
theorem Within.find? {S : Set Node} {t : Sources} (ht : t.Within S) {path : String} {s : Source}
    (h : t.find? path = some s) : s.Within S := by
  have hst {q : String} (hq : t.stored? q = some s) : s.Within S :=
    ht _ (Table.mem_of_get? (Option.filter_eq_some_iff.mp hq).1)
  unfold Sources.find? at h
  split at h
  · next u hu => exact hst (h ▸ hu)
  · exact hst h

/-- A tree in use may be put in. -/
theorem Within.put {S : Set Node} {t : Sources} (ht : t.Within S) (path : String) {n : Node}
    (hn : n ∈ S) : Within S (Table.put path (.node n) t) := by
  intro e he
  rcases Table.eq_or_mem_of_mem_put he with rfl | he
  · exact hn
  · exact ht e he

/-- What is loaded is in use afterwards, and so is what is kept. -/
theorem load_counts {S : Set Node} {t : Sources} (ht : t.Within S) (path : String) :
    Counts S (fun T r => r.1.Within T ∧ r.2.Within T) (t.load path) := by
  unfold load
  split
  · exact .throw _
  · next v _ =>
    refine ((Draft.ofValue v).node_counts S (Draft.ofValue_within v)).bind fun T n hST hn => ?_
    exact .pure ⟨hn, (ht.mono hST).put path hn⟩
  · next s _ hs => exact .pure ⟨ht.find? hs, ht⟩

end Sources

/-! ### Loaders -/

namespace Loader

/-- The kinds of answers that loaders give. -/
inductive Answers where
  | stored (answer? : String → Option (Except Fault Source))
  | none
  | custom (answer : String → Option String → Wanted → Except Fault Loaded)

/-- What a loader answers, up to identities. -/
def answers : Loader → Answers
  | sources t => .stored t.answer?
  | empty => .none
  | custom answer => .custom fun path location wanted => (answer path location wanted).map Loaded.bare

/-- The nodes that a loader has are in use. -/
def Within (S : Set Node) : Loader → Prop
  | sources t => t.Within S
  | empty => True
  | custom answer => ∀ path location wanted l, answer path location wanted = .ok l → l.Within S

theorem Within.mono {S T : Set Node} (h : S ⊆ T) : {l : Loader} → l.Within S → l.Within T
  | sources _, hl => Sources.Within.mono h hl
  | empty, _ => trivial
  | custom _, hl => fun path location wanted l he => (hl path location wanted l he).mono h

/-- What is served does not depend on identities. -/
theorem serve_bare (path : String) (wanted : Wanted) (canonical : String) (s : Source) :
    serve path wanted canonical s.bare = (serve path wanted canonical s).map Loaded.bare := by
  cases s <;> cases wanted <;> rfl

/-- What is served of a source in use is in use. -/
theorem serve_within {S : Set Node} {s : Source} (hs : s.Within S) {path canonical : String}
    {wanted : Wanted} {l : Loaded} (h : serve path wanted canonical s = .ok l) : l.Within S := by
  cases s <;> cases wanted <;> cases h
  · trivial
  · exact hs

end Loader
end Trellis
