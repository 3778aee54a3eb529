import Trellis.Proofs.Dependencies.Records
import Trellis.Proofs.Interpretation.Answers
import Trellis.Proofs.Interpretation.Coupling

/-!
# Proofs — Dependencies — Journal

Which includes a rendering executes, and where.  `Engine.journalWithin` renders as the engine does
and keeps a journal: of every include node that is executed in its role, of every resolution that is
attempted for one, of the locations that resolvers return for trees, and of the ends of these trees.
A journal says nothing of the location that a node is rendered at; which one is in force is read off
the journal (`Journal.pairs`): the one that was returned for the innermost tree that has been
entered and not left, or that of the rendering.

The journal is that of the rendering of the engine itself; this and what it says of trackers is
shown in the module `Trellis.Proofs.Dependencies.Ledger`.
-/

namespace Trellis

open Rendering (exec exec_bind Matched)

/-! ### Journals -/

/-- What a journal is made of. -/
inductive Entry where
  /-- An include node is executed. -/
  | inclusion (n : Node)
  /-- A path is to be resolved from a location. -/
  | asked (path : String) (location : Option String)
  /-- A tree is included, for which the resolver has returned a location. -/
  | entered (location : Option String)
  /-- The tree that was entered last has been rendered. -/
  | left

namespace Journal

/-- The locations in force behind an entry, the innermost first. -/
def moved (st : List (Option String)) : Entry → List (Option String)
  | .entered l => l :: st
  | .left => st.tail
  | _ => st

/-- The pair of an include: the location in force, and the content without spaces around it. -/
def pairOf (st : List (Option String)) : Entry → List (Option String × String)
  | .inclusion n =>
    match st, Markup.stripped n.content with
    | l :: _, .ok path => [(l, path)]
    | _, _ => []
  | _ => []

/-- The pairs of the includes in a journal that starts with some locations in force. -/
def pairs : (st : List (Option String)) → List Entry → List (Option String × String)
  | _, [] => []
  | st, e :: es => pairOf st e ++ pairs (moved st e) es

/-- The locations in force at the end. -/
def final (st : List (Option String)) (es : List Entry) : List (Option String) :=
  es.foldl moved st

/-- The pairs of two journals are those of both, the second with the locations that the first
leaves. -/
theorem pairs_append (st : List (Option String)) (es fs : List Entry) :
    pairs st (es ++ fs) = pairs st es ++ pairs (final st es) fs := by
  induction es generalizing st with
  | nil => rfl
  | cons e es ih => rw [List.cons_append, pairs, pairs, ih, List.append_assoc, final, final,
      List.foldl_cons]

/-- The locations behind two journals are those behind the second one. -/
theorem final_append (st : List (Option String)) (es fs : List Entry) :
    final st (es ++ fs) = final (final st es) fs :=
  List.foldl_append

end Journal

/-! ### Keeping a journal -/

/-- Renderings that also keep a journal. -/
abbrev Journaling := ExceptT Fault (StateM (World × List Entry))

namespace Journaling

variable {α β : Type}

/-- What a computation does with a world and a journal. -/
def exec (x : Journaling α) (s : World × List Entry) : Except Fault α × World × List Entry :=
  (ExceptT.run x : StateM (World × List Entry) (Except Fault α)).run s

/-- Computations in a row go on with the journal that the first one leaves. -/
theorem exec_bind (x : Journaling α) (f : α → Journaling β) (s : World × List Entry) :
    exec (x >>= f) s =
      match exec x s with
      | (.ok a, s') => exec (f a) s'
      | (.error e, s') => (.error e, s') := by
  rw [exec, ExceptT.run_bind, StateT.run_bind, exec]
  rcases StateT.run (ExceptT.run x) s with ⟨_ | _, _⟩ <;> rfl

/-- One more entry. -/
def write (e : Entry) : Journaling Unit :=
  modify fun s => (s.1, s.2 ++ [e])

end Journaling

/-- The computation, of which nothing is written down. -/
def Rendering.journaled {α : Type} (x : Rendering α) : Journaling α :=
  ExceptT.mk fun s => ((Rendering.exec x s.1).1, (Rendering.exec x s.1).2, s.2)

/-- The node is an include. -/
def Node.isInclusion (n : Node) : Bool :=
  match Role.ofValue n.symbol with
  | .ok .inclusion => true
  | _ => false

/-- A node is an include just if its role is. -/
theorem Node.isInclusion_iff {n : Node} :
    n.isInclusion = true ↔ Role.ofValue n.symbol = .ok .inclusion := by
  unfold isInclusion
  split
  · next h => exact ⟨fun _ => h, fun _ => rfl⟩
  · next h => exact ⟨fun he => (nomatch he), fun he => absurd he h⟩

namespace Engine

variable (eng : Engine)

/-- What the engine answers, of which nothing is written down. -/
def quietly : Interpretation eng Journaling :=
  eng.interpretation.map Rendering.journaled

/-- What the engine answers to an include node: it is written down that the node is executed, what
is asked for it, and where the tree that is found is entered. -/
def journal : Interpretation eng Journaling where
  __ := eng.quietly
  enter n _ := Journaling.write (.inclusion n)
  text path location := do
    Journaling.write (.asked path location)
    (eng.text path location).journaled
  tree path location := do
    Journaling.write (.asked path location)
    let r ← (eng.tree path location).journaled
    Journaling.write (.entered r.2)
    return r

section

variable (inner : Node → Place → Journaling (String × Bool)) (limit : Nat) (p : Place)

/-- The children of a tree that has been entered, which is left behind them. -/
def throughTree (n : Node) (p : Place) : Journaling (String × Bool) := do
  let r ← inner n p
  Journaling.write .left
  return r

/-- A node, and what is written down if it is an include. -/
def nodeJournaled (n : Node) (g : Group) : Journaling (Value × Group) :=
  if n.isInclusion then eng.journal.node (throughTree inner) limit p n g
  else eng.quietly.node inner limit p n g

/-- Nodes one after the other. -/
def nodesJournaled : List Node → Group → Journaling (List Value × Group)
  | [], g => pure ([], g)
  | n :: ns, g => do
    let (v, g) ← eng.nodeJournaled inner limit p n g
    let (vs, g) ← nodesJournaled ns g
    return (v :: vs, g)

/-- A group of siblings. -/
def groupJournaled (ns : List Node) : Journaling (String × Bool) := do
  let (vs, g) ← eng.nodesJournaled inner limit p ns Group.start
  match g.pending with
  | some n => eng.quietly.complain .missingElse n.position
  | none => return (← eng.quietly.ofCause (Markup.join vs), g.isDynamic)

end

/-- The children of a node, at most `depth` groups deep and `depth` times in a loop. -/
def bodyJournaled : (depth : Nat) → Node → Place → Journaling (String × Bool)
  | 0 => fun _ _ => eng.quietly.fail .exhausted
  | depth + 1 => fun n p => eng.groupJournaled (bodyJournaled depth) depth p n.children

/-- The rendering of a draft, within a depth, with a journal. -/
def journalWithin (depth : Nat) (d : Draft) (scope : Scope) (location : Option String) :
    Journaling String := do
  match d with
  | .value .none => (Rendering.complain .noTree .none : Rendering String).journaled
  | d => do
    let n ← (Rendering.build d.node).journaled
    return (← eng.bodyJournaled depth n ⟨scope, location⟩).1

/-- The journal of a rendering of a draft. -/
def journalOf (depth : Nat) (d : Draft) (scope : Scope) (location : Option String) (w : World) :
    List Entry :=
  ((eng.journalWithin depth d scope location).exec (w, [])).2.2

end Engine
end Trellis
