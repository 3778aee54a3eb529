import Trellis.Proofs.Registry.Calls
import Trellis.Samples

/-!
# Proofs — Registry — Sessions

The mixins of an engine over a whole session.  Engines render in turn, and between two renderings
nodes that are in use may get other fields (`Session.Step`).  `Session.steps` also lists what an
engine has defined so far, in the order in which the defining nodes were executed: each with the
node as it is by now, and with the keys that its attributes had when it was executed.

The mixins are the table of these definitions (`Session.Tells`), so that every name stands once, in
the order of first definitions, and with its last one (`Session.mixins_after`).
-/

namespace Trellis

open Rendering (exec)
open Executed (Orderly)

/-! ### Tables of definitions -/

namespace Table

variable {κ α β : Type} [DecidableEq κ]

theorem ofList_append (es fs : List (κ × α)) : ofList (es ++ fs) = putAll fs (ofList es) :=
  List.foldl_append

/-- A key that is there keeps its place, and a new one goes to the end. -/
theorem keys_put (k : κ) (v : α) (t : List (κ × α)) :
    (put k v t).map (·.1) = if k ∈ t.map (·.1) then t.map (·.1) else t.map (·.1) ++ [k] := by
  induction t with
  | nil => rfl
  | cons e es ih =>
    by_cases he : e.1 = k
    · simp [put, he]
    · have hk : k ≠ e.1 := Ne.symm he
      rw [put, if_neg he, List.map_cons, List.map_cons, ih]
      simp only [List.mem_cons, hk, false_or]
      split <;> rfl

/-- Every key stands once, where it was put first. -/
theorem keys_ofList (es : List (κ × α)) : (ofList es).map (·.1) = (es.map (·.1)).eraseDups := by
  induction es using List.reverseRecOn with
  | nil => rfl
  | append_singleton es e ih =>
    rw [ofList_append, List.map_append, List.eraseDups_append]
    show (put e.1 e.2 (ofList es)).map (·.1) = _
    rw [keys_put, ih, List.map_singleton, List.cons_removeAll]
    simp only [List.mem_eraseDups]
    by_cases he : e.1 ∈ es.map (·.1)
    · simp [he]
    · simp [he, List.eraseDups_cons]

/-- A key has the value that was put last. -/
theorem get?_ofList (k : κ) (es : List (κ × α)) :
    get? k (ofList es) = ((es.filter fun e => e.1 = k).getLast?).map (·.2) := by
  induction es using List.reverseRecOn with
  | nil => rfl
  | append_singleton es e ih =>
    rw [ofList_append]
    show get? k (put e.1 e.2 (ofList es)) = _
    by_cases he : e.1 = k
    · subst he
      simp
    · rw [get?_put_of_ne fun h => he h.symm, ih]
      simp [he]

/-- The table of changed definitions is the changed table. -/
theorem ofList_map (f : α → β) (es : List (κ × α)) :
    ofList (es.map fun e => (e.1, f e.2)) = (ofList es).map fun e => (e.1, f e.2) := by
  induction es using List.reverseRecOn with
  | nil => rfl
  | append_singleton es e ih =>
    rw [List.map_append, ofList_append, ofList_append, ih]
    exact put_map f e.1 e.2 (ofList es)

/-- What is in the table is one of the definitions. -/
theorem mem_ofList {e : κ × α} {es : List (κ × α)} (h : e ∈ ofList es) : e ∈ es := by
  induction es using List.reverseRecOn with
  | nil => exact h
  | append_singleton es d ih =>
    rw [ofList_append] at h
    rcases eq_or_mem_of_mem_put h with rfl | h
    · simp
    · exact List.mem_append_left _ (ih h)

end Table

/-- The definitions among nodes with distinct keys. -/
theorem Node.definitions_distinct {ns : List Node} (hns : ∀ n ∈ ns, n.Keyed) :
    ∀ e ∈ Node.definitions ns, Role.IsCapitalized e.1 ∧ Value.Distinct e.2.params := by
  intro e he
  obtain ⟨n, hn, hd⟩ := List.mem_filterMap.mp he
  obtain ⟨⟨-, hc⟩, hm⟩ := Node.definition?_eq_some_iff.mp hd
  refine ⟨hc, ?_⟩
  rw [hm]
  exact hns n hn

/-! ### Other fields -/

theorem Node.keyed_of_attributes_eq {n m : Node} (h : m.attributes = n.attributes)
    (hn : n.Keyed) : m.Keyed := by
  unfold Node.Keyed
  rw [h]
  exact hn

mutual

/-- A node with distinct keys throughout keeps them when parts of it are replaced by one. -/
theorem Node.assign_keyed {id : Nat} {new : Node} (hnew : new.Throughout Node.Keyed) :
    (n : Node) → n.Throughout Node.Keyed → (n.assign id new).Throughout Node.Keyed
  | ⟨k, symbol, content, attributes, children, unescaped, position⟩, h => by
    unfold Node.assign Node.map
    split
    · exact hnew
    · exact .intro (Node.keyed_of_attributes_eq rfl h.self)
        (Node.assignAll_keyed hnew children h.children)
termination_by structural n => n

theorem Node.assignAll_keyed {id : Nat} {new : Node} (hnew : new.Throughout Node.Keyed) :
    (ns : List Node) → (∀ n ∈ ns, n.Throughout Node.Keyed) →
      ∀ n ∈ Node.mapAll (fun m => if m.id = id then new else m) ns, n.Throughout Node.Keyed
  | [], _ => fun n hn => nomatch hn
  | n :: ns, h => by
    obtain ⟨hn, hns⟩ := List.forall_mem_cons.mp h
    exact List.forall_mem_cons.mpr
      ⟨Node.assign_keyed hnew n hn, Node.assignAll_keyed hnew ns hns⟩
termination_by structural ns => ns

end

/-- The mixin with the node of an identity replaced. -/
def Mixin.assign (d : Mixin) (id : Nat) (new : Node) : Mixin :=
  { d with body := d.body.assign id new }

/-- The bodies of mixins change with their nodes. -/
theorem World.mixinsOf_assign (w : World) (id : Nat) (new : Node) (i : Nat) :
    (w.assign id new).mixinsOf i = (w.mixinsOf i).map fun e => (e.1, e.2.assign id new) := by
  unfold World.mixinsOf World.assign
  simp only [Array.getD_eq_getD_getElem?, Array.getElem?_map]
  cases w.mixins[i]? <;> rfl

theorem Executed.Orderly.assign {w : World} (hw : Orderly w) (id : Nat) {new : Node}
    (hnew : new.Throughout Node.Keyed) : Orderly (w.assign id new) := by
  refine ⟨fun i hi e he => ?_, fun k hk => ?_⟩
  · rw [World.mixinsOf_assign] at he
    obtain ⟨d, hd, rfl⟩ := List.mem_map.mp he
    exact Node.assign_keyed hnew _ (hw.mixins i hi d hd)
  · -- a tree may stand among the sources as well, and is replaced there too
    have hl : (w.assign id new).loader k = (w.loader k).assign id new := by
      unfold World.loader World.assign
      simp only [Array.getD_eq_getD_getElem?, Array.getElem?_map]
      cases w.loaders[k]? <;> rfl
    have hin := hw.loaders k hk
    rw [hl]
    cases hs : w.loader k with
    | sources t =>
      rw [hs] at hin
      intro e he
      obtain ⟨d, hd, rfl⟩ := List.mem_map.mp he
      have hsource := hin d hd
      cases hd₂ : d.2 with
      | node n =>
        rw [hd₂] at hsource
        exact Node.assign_keyed hnew n hsource
      | draft v =>
        rw [hd₂] at hsource
        exact hsource
      | text _ | other _ => trivial
    | empty => trivial
    | custom answer =>
      rw [hs] at hin
      exact hin

namespace Session

/-! ### Steps of a session -/

/-- A step of a session: an engine renders, or the node of an identity gets other fields. -/
inductive Step where
  | render (c : Call)
  | assign (id : Nat) (new : Node)

namespace Step

/-- The step is one of `count` engines, and the nodes that it brings have attributes with distinct
keys. -/
def Fits (count : Nat) : Step → Prop
  | render c => c.engine < count ∧ c.draft.Within {n | n.Throughout Node.Keyed}
  | assign _ new => new.Throughout Node.Keyed

end Step

variable (team : Nat → Engine) (depth : Nat) (i : Nat)

/-- The nodes that are executed in a call. -/
def executed (s : Session) (c : Call) : List Node :=
  (team c.engine).executed depth c.draft c.scope c.location (s.enter c.engine)

/-- The session after a step, and the definitions of engine `i` by then. -/
def step (s : Session × List (String × Mixin)) : Step → Session × List (String × Mixin)
  | .render c =>
    (s.1.leave c.engine (call team depth s.1 c).2,
      s.2 ++ if c.engine = i then Node.definitions (executed team depth s.1 c) else [])
  | .assign id new =>
    ({ s.1 with world := s.1.world.assign id new }, s.2.map fun e => (e.1, e.2.assign id new))

/-- The session after steps one after the other, and the definitions of engine `i` by then. -/
def steps (s : Session) (sts : List Step) : Session × List (String × Mixin) :=
  sts.foldl (step team depth i) (s, [])

/-- The mixins of engine `i` are the table of its definitions, each of which is the one of a
capitalized name and has distinct parameters. -/
structure Tells (count : Nat) (s : Session × List (String × Mixin)) : Prop where
  mixins : s.1.world.mixinsOf i = Table.ofList s.2
  size : s.1.world.mixins.size = count
  orderly : Orderly s.1.world
  definitions : ∀ e ∈ s.2, Role.IsCapitalized e.1 ∧ Value.Distinct e.2.params

variable {team depth i}

/-- **One step.**  What is defined in it is put into the mixins. -/
theorem Tells.step {count : Nat} {s : Session × List (String × Mixin)}
    (hteam : ∀ i, (team i).id = i) (hs : Tells i count s) {st : Step} (hst : st.Fits count) :
    Tells i count (step team depth i s st) := by
  obtain ⟨s, ds⟩ := s
  cases st with
  | assign id new =>
    -- the bodies change under the same names and with the same parameters
    refine ⟨?_, ?_, hs.orderly.assign id hst, fun e he => ?_⟩
    · show (s.world.assign id new).mixinsOf i = _
      rw [World.mixinsOf_assign, hs.mixins]
      exact (Table.ofList_map (fun d : Mixin => d.assign id new) ds).symm
    · show (s.world.mixins.map _).size = count
      rw [Array.size_map]
      exact hs.size
    · obtain ⟨d, hd, rfl⟩ := List.mem_map.mp he
      exact hs.definitions d hd
  | render c =>
    obtain ⟨hcount, hdraft⟩ := hst
    have hid := hteam c.engine
    have hworld : Orderly (s.enter c.engine) := hs.orderly.congr rfl rfl
    have hsize : (team c.engine).id < (s.enter c.engine).mixins.size := by
      rw [hid]
      exact hs.size ▸ hcount
    obtain ⟨hrec, horderly⟩ := Engine.records_renderWithin (Draft.node_keyed hdraft) hworld hsize
      depth c.scope c.location
    have hnew := Node.definitions_distinct hrec.keyed
    refine ⟨?_, hrec.size.trans hs.size, horderly.congr rfl rfl, fun e he => ?_⟩
    · show (call team depth s c).2.mixinsOf i = Table.ofList (ds ++ _)
      -- a call of another engine leaves these mixins alone
      by_cases hi : c.engine = i
      · subst hi
        rw [if_pos rfl, Table.ofList_append, ← hs.mixins]
        exact hid ▸ hrec.mixins
      · rw [if_neg hi, List.append_nil, ← hs.mixins]
        exact hrec.others i fun h => hi (hid ▸ h.symm)
    · rcases List.mem_append.mp he with he | he
      · exact hs.definitions e he
      · split at he
        · exact hnew e he
        · cases he

/-- Steps one after the other. -/
theorem Tells.foldl {count : Nat} (hteam : ∀ i, (team i).id = i) (sts : List Step) :
    ∀ s, Tells i count s → (∀ st ∈ sts, st.Fits count) →
      Tells i count (sts.foldl (Session.step team depth i) s) := by
  induction sts with
  | nil => exact fun s hs _ => hs
  | cons st sts ih =>
    intro s hs hsts
    obtain ⟨hst, hsts⟩ := List.forall_mem_cons.mp hsts
    exact ih _ (hs.step hteam hst) hsts

/-- What holds of the mixins of engine `i` after steps of a session, and of the definitions that it
has executed in them, told in the order in which they were. -/
structure MixinLaws (team : Nat → Engine) (depth count i : Nat)
    (t : Session × List (String × Mixin)) : Prop where
  /-- Each name is there once, in the order in which the names were first defined. -/
  names : (t.1.world.mixinsOf i).map Prod.fst = (t.2.map Prod.fst).eraseDups
  /-- Under a name is its last definition. -/
  last : ∀ name, Table.get? name (t.1.world.mixinsOf i) =
    ((t.2.filter fun e => e.1 = name).getLast?).map Prod.snd
  /-- The names are capitalized, and the parameters of a definition are distinct. -/
  sound : ∀ e ∈ t.1.world.mixinsOf i, Role.IsCapitalized e.1 ∧ Value.Distinct e.2.params
  /-- A definition is one just if its node was executed: executed are the nodes that the trace of a
  call lists, which otherwise does what the call does. -/
  traced : ∀ c : Call, Step.Fits count (.render c) →
    ((team c.engine).traceWithin depth c.draft c.scope c.location).exec
        (t.1.enter c.engine, []) =
      ((call team depth t.1 c).1, (call team depth t.1 c).2, executed team depth t.1 c)

/-- What a node that calls a mixin by its name does in a world. -/
structure CallLaws (eng : Engine) (depth : Nat) (w : World) (i : Nat) (p : Place) (n : Node)
    (g : Group) (name : String) : Prop where
  /-- It complains before it does anything just if the engine has no mixin of the name. -/
  unknown :
    exec (Render.call eng (Render.body eng depth) name p n g) w =
        (.error (.template (.unknownMixin name) n.position), w) ↔
      Table.get? name (w.mixinsOf i) = none
  /-- Otherwise it evaluates the keys of its attributes in order in its own scope, and goes on as the
  group of the children of the body, where the parameters are bound to the arguments. -/
  known : ∀ d, Table.get? name (w.mixinsOf i) = some d →
    exec (Render.call eng (Render.body eng (depth + 1)) name p n g) w =
      exec (do
        let args ← (n.attributes.map (·.1)).mapM (eng.evaluate p.scope n.position)
        let r ← Render.group eng (Render.body eng depth) depth
          { p with scope := d.bind p.scope args } d.body.children
        return (.text r.1, g.dynamic)) w
  /-- Bound is each parameter that has an argument, if the parameters are distinct. -/
  bound : ∀ d, Table.get? name (w.mixinsOf i) = some d →
    ∀ (args : List Value) (q : String) (j : Nat) (v : Value), Value.Distinct d.params →
      d.params[j]? = some (.text q) → args[j]? = some v →
      (d.bind p.scope args).lookup? q = some v
  /-- All other names are as they are where the mixin is called. -/
  others : ∀ d, Table.get? name (w.mixinsOf i) = some d → ∀ (args : List Value) (q : String),
    (∀ j : Nat, j < args.length → d.params[j]? ≠ some (.text q)) →
      (d.bind p.scope args).lookup? q = p.scope.lookup? q

/-- The invariant of the steps gives the laws of the mixins. -/
theorem Tells.laws {count : Nat} {t : Session × List (String × Mixin)}
    (hteam : ∀ i, (team i).id = i) (ht : Tells i count t) : MixinLaws team depth count i t where
  names := by rw [ht.mixins, Table.keys_ofList]
  last name := by rw [ht.mixins, Table.get?_ofList]
  sound e he := by
    rw [ht.mixins] at he
    exact ht.definitions e (Table.mem_ofList he)
  traced c hc := by
    have hworld : Orderly (t.1.enter c.engine) := ht.orderly.congr rfl rfl
    refine Engine.exec_traceWithin (Draft.node_keyed hc.2) hworld ?_ depth _ _
    rw [hteam]
    exact ht.size ▸ hc.1

/-- What calls do, in any world. -/
theorem callLaws (hteam : ∀ i, (team i).id = i) (w : World) (p : Place) {n : Node} (g : Group)
    {name : String} (hn : Role.ofValue n.symbol = .ok (.call name)) :
    CallLaws (team i) depth w i p n g name where
  unknown := by
    have hcall := @Engine.call_unknown_iff (team i) name p n g hn depth w
    rwa [hteam] at hcall
  known d hd := by
    rw [← hteam i] at hd
    exact Engine.exec_call g hd depth
  bound d _ args q j v hdistinct hq hv := d.lookup?_bind_param p.scope args hdistinct hq hv
  others d _ args q h := d.lookup?_bind_other p.scope args h

/-- **The mixins of an engine in a session, and what a call makes of them.**  Engines render in
turn, with any outcome, and nodes get other fields between.  By then the mixins of engine `i`, which
had none at the start, are the definitions that it has executed so far, one for each name; and in any
world, a call of a name stands for the body of the mixin under the name. -/
theorem mixins_after (hteam : ∀ i, (team i).id = i) {s : Session} (hnone : s.world.mixinsOf i = [])
    (hs : Orderly s.world) {sts : List Step}
    (hsts : ∀ st ∈ sts, st.Fits s.world.mixins.size) (depth : Nat) :
    MixinLaws team depth s.world.mixins.size i (steps team depth i s sts) ∧
    ∀ (w : World) (p : Place) (n : Node) (g : Group) (name : String),
      Role.ofValue n.symbol = .ok (.call name) → CallLaws (team i) depth w i p n g name := by
  have ht : Tells i s.world.mixins.size (steps team depth i s sts) :=
    Tells.foldl hteam sts (s, []) ⟨hnone, rfl, hs, fun e he => nomatch he⟩ hsts
  exact ⟨ht.laws hteam, fun w p n g name hn => callLaws hteam w p g hn⟩

/-! ### A box that is defined again -/

/-- A session of one engine without mixins. -/
def desk : Session :=
  ⟨{ World.empty with mixins := #[[]] }, fun _ => Heap.empty⟩

/-- A node with a symbol, keys and children. -/
def part (symbol : String) (keys : List String) (children : List Draft) : Draft :=
  .dict [(.text "tagOrSymbol", .text symbol),
    (.text "attrs", .dict (keys.map fun k => (.text k, .text k)))] (.list children)

/-- A box, a lid, and a call of the box. -/
def boxes (key : String) : Draft :=
  .list [part "Box" [key] [part "b" [] []], part "Lid" [] [], part "+Box" ["1"] []]

/-- The box stands where it was defined first, and has the key of its last definition. -/
theorem mixins_after_boxes :
    let t := steps Samples.engine 3 0 desk
      [.render ⟨0, boxes "k", [], none⟩, .render ⟨0, boxes "v", [], none⟩]
    t.2.map Prod.fst = ["Box", "Lid", "Box", "Lid"] ∧
      (t.1.world.mixinsOf 0).map Prod.fst = ["Box", "Lid"] ∧
      (Table.get? "Box" (t.1.world.mixinsOf 0)).map Mixin.params = some [.text "v"] := by
  have hdesk : Orderly desk.world := by
    refine ⟨fun i _ e he => ?_, fun k _ => ?_⟩
    · cases i <;> cases he
    · exact trivial
  have hboxes (key : String) :
      Step.Fits desk.world.mixins.size (.render ⟨0, boxes key, [], none⟩) :=
    ⟨Nat.one_pos, by simp [boxes, part, Draft.Within, Draft.AllWithin]⟩
  have hsteps : ∀ st ∈ [Step.render ⟨0, boxes "k", [], none⟩, .render ⟨0, boxes "v", [], none⟩],
      st.Fits desk.world.mixins.size := by
    simp only [List.forall_mem_cons]
    exact ⟨hboxes "k", hboxes "v", fun _ h => nomatch h⟩
  obtain ⟨hlaws, -⟩ :=
    mixins_after (i := 0) (fun _ => rfl : ∀ j, (Samples.engine j).id = j) rfl hdesk hsteps 3
  refine ⟨rfl, ?_, ?_⟩
  · rw [hlaws.names]
    rfl
  · rw [hlaws.last]
    rfl

end Session
end Trellis
