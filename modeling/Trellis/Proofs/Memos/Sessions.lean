import Trellis.Proofs.Memos.Groups
import Trellis.Proofs.Sharing.Sessions

/-!
# Proofs — Memos — Sessions

What a policy promises of the calls of an engine in a session that it shares with others
(`Policy.run_pieces`).  Whatever the engine takes from memos it has put there itself, under the same
policy; the others only have to leave the nodes and sources admitted, and for them the policy is
`Policy.free`, which promises nothing.
-/

namespace Trellis

open Rendering (exec exec_bind exec_bind_ok exec_bind_error Matched)

/-- All that is rendered in a session is admitted. -/
structure Admission.Allows (adm : Admission) (S : Set Node) (s : Session) (calls : List Call) :
    Prop where
  nodes : ∀ n ∈ S, adm.node n
  loads : ∀ k, adm.Loads (s.world.loader k)
  calls : ∀ c ∈ calls, adm.Builds c.draft

namespace Policy

variable {eng : Engine} {pol : Policy eng} {base : Nat → Memo} {S : Set Node}

/-! ### One call -/

/-- The rendering of a tree is the same in worlds that differ in memos. -/
theorem render_mirrors (hbase : pol.AdmitsBase base) (depth : Nat) {n : Node} (hn : n ∈ S)
    (scope : Scope) (location : Option String) :
    pol.Mirrors base S (Both fun _ s => pol.piece (.text s)) (eng.render depth n scope location)
      fun d => eng.render d n scope location := by
  refine (body_mirrors hbase depth S n _ hn).bind fun T r r' _ hr => ?_
  obtain ⟨s, b⟩ := r
  obtain ⟨s', b'⟩ := r'
  obtain ⟨rfl, hs⟩ := hr
  exact Mirrors.pure ⟨rfl, hs⟩

/-- So is the rendering of a draft. -/
theorem renderWithin_mirrors (hbase : pol.AdmitsBase base) (depth : Nat) {d : Draft}
    (hd : d.Within S) (hb : pol.Builds d) (scope : Scope) (location : Option String) :
    pol.Mirrors base S (Both fun _ s => pol.piece (.text s))
      (eng.renderWithin depth d scope location) fun m =>
        eng.renderWithin m d scope location := by
  by_cases hno : d = .value .none
  · subst hno
    exact Mirrors.throw _
  · simp only [Session.renderWithin_eq hno]
    refine (Mirrors.of_blind (.build d.node) (.build hd hb)).bind_both fun T n _ hn => ?_
    exact render_mirrors hbase depth hn scope location

/-- **What is taken after a call is admitted.**  It has been there before, or it is static. -/
theorem Keeps.admitsBase {w : World} (h : pol.Keeps base S w) (hbase : pol.AdmitsBase base) :
    pol.AdmitsBase w.memo := by
  intro id html ht
  rcases h.memos id with hb | ⟨-, n, hn, rfl, -⟩
  · exact hbase id html (hb ▸ ht)
  · exact h.piece hbase hn ht

/-- A call keeps to a policy, and its outcome is a piece. -/
theorem renderWithin_keeps {w : World} (hw : pol.Admits S w) (hbase : pol.AdmitsBase w.memo)
    {d : Draft} (hd : d.Within S) (hb : pol.Builds d) {depth : Nat} {scope : Scope}
    {location : Option String}
    (hend : (exec (eng.renderWithin depth d scope location) w).1 ≠ .error .exhausted) :
    ∃ T, S ⊆ T ∧ pol.Keeps w.memo T (exec (eng.renderWithin depth d scope location) w).2 ∧
      ∀ html, (exec (eng.renderWithin depth d scope location) w).1 = .ok html →
        pol.piece (.text html) := by
  have hkeeps : pol.Keeps w.memo S w := ⟨hw, fun _ => .inl rfl⟩
  obtain ⟨⟨r, v⟩, -, T, hST, hm, hT⟩ :=
    (renderWithin_mirrors hbase depth hd hb scope location w w (.refl hkeeps)).resolve_left hend
  refine ⟨T, hST, hT.left, fun html hh => ?_⟩
  rw [hh] at hm
  cases hm with
  | ok h => exact h.2

/-! ### Other engines -/

/-- The same nodes and sources are admitted, and nothing is promised of what is made of them. -/
def free (adm : Admission) (other : Engine) : Policy other where
  toAdmission := adm
  content _ := True
  setting _ := True
  piece _ := True
  joined _ _ := trivial
  appended _ _ := trivial
  included _ := trivial
  plain _ _ _ _ _ := trivial
  escaped _ := trivial
  spaced _ _ := trivial
  commented _ _ _ := trivial
  flagged _ _ _ := trivial
  emptied _ _ _ _ := trivial
  written _ _ _ _ _ _ _ := trivial
  writtenData _ _ _ _ := trivial
  tagged _ _ _ _ _ _ _ _ := trivial

section Free

variable (other : Engine)

/-- What is free is admitted if what is asked for is. -/
theorem free_admits {w : World} (h : pol.Admits S w) : (free pol.toAdmission other).Admits S w :=
  ⟨h.census, h.nodes, h.mixins, h.loaders, h.loads, fun _ _ _ _ _ _ _ _ => trivial⟩

theorem free_admitsBase : (free pol.toAdmission other).AdmitsBase base :=
  fun _ _ _ => trivial

variable {other} {T : Set Node}

/-- After a call of another engine, which registers no plugins. -/
theorem admits_of_free {w w' : World} (h : (free pol.toAdmission other).Admits T w')
    (hw : pol.Admits S w) (hr : w'.registries = w.registries) : pol.Admits T w' := by
  refine ⟨h.census, h.nodes, h.mixins, h.loaders, h.loads, ?_⟩
  simpa only [Engine.registryIn, hr] using hw.plugins

/-- What another engine has remembered is not taken. -/
theorem admitsBase_of_free {w : World} (h : (free pol.toAdmission other).Keeps base T w)
    (hid : other.id ≠ eng.id) (hbase : pol.AdmitsBase base) : pol.AdmitsBase w.memo := by
  intro id html ht
  rcases h.memos id with hb | ⟨-, n, -, -, -, html', -, he⟩
  · exact hbase id html (hb ▸ ht)
  · rw [he, Engine.taken?, if_neg] at ht
    · cases ht
    · simp [hid]

end Free

/-! ### Sessions -/

open Session

variable {team : Nat → Engine}

/-- **A call keeps a session admitted**, whichever engine it is of, and as long as nothing is taken
but pieces. -/
theorem call_keeps (hteam : ∀ i, (team i).id = i) {i : Nat} {pol : Policy (team i)} {depth : Nat}
    {s : Session} {c : Call} (hs : pol.Admits S s.world) (hbase : pol.AdmitsBase s.world.memo)
    (hc : c.draft.Within S) (hb : pol.Builds c.draft)
    (hend : (call team depth s c).1 ≠ .error .exhausted)
    (hr : (call team depth s c).2.registries = s.world.registries) :
    ∃ T, S ⊆ T ∧ pol.Admits T (call team depth s c).2 ∧
      pol.AdmitsBase (call team depth s c).2.memo ∧
      (c.engine = i → ∀ html, (call team depth s c).1 = .ok html → pol.piece (.text html)) := by
  have hw : pol.Admits S (s.enter c.engine) := hs.congr rfl rfl rfl rfl
  by_cases hi : c.engine = i
  · subst hi
    obtain ⟨T, hST, hT, hpiece⟩ := renderWithin_keeps hw hbase hc hb hend
    exact ⟨T, hST, hT.admits, hT.admitsBase hbase, fun _ => hpiece⟩
  · obtain ⟨T, hST, hT, -⟩ :=
      renderWithin_keeps (free_admits (team c.engine) hw) (free_admitsBase _) hc hb hend
    refine ⟨T, hST, admits_of_free hT.admits hs hr, admitsBase_of_free hT ?_ hbase,
      fun h => absurd h hi⟩
    rwa [hteam, hteam]

/-- The same of calls one after the other.  That they register no plugins is known of worlds with
sound memos, whose nodes are in `S`. -/
theorem run_pieces_of (hteam : ∀ i, (team i).id = i) {i : Nat} {pol : Policy (team i)}
    {depth : Nat} (calls : List Call) :
    ∀ (S T : Set Node) (s : Session), World.Sound team S s.world → pol.Admits T s.world →
      pol.AdmitsBase s.world.memo → (∀ c ∈ calls, c.draft.Within S) →
      (∀ c ∈ calls, c.draft.Within T) → (∀ c ∈ calls, pol.Builds c.draft) →
      (∀ o ∈ run team depth s calls, o.outcome ≠ .error .exhausted) →
      ∀ o ∈ run team depth s calls, o.engine = i → ∀ html, o.outcome = .ok html →
        pol.piece (.text html) := by
  induction calls with
  | nil => exact fun _ _ _ _ _ _ _ _ _ _ o ho => by cases ho
  | cons c cs ih =>
    intro S T s hs hT hbase hcS hcT hcs hend o ho
    obtain ⟨hcS, hcsS⟩ := List.forall_mem_cons.mp hcS
    obtain ⟨hcT, hcsT⟩ := List.forall_mem_cons.mp hcT
    obtain ⟨hb, hbs⟩ := List.forall_mem_cons.mp hcs
    obtain ⟨hend, hends⟩ := List.forall_mem_cons.mp hend
    obtain ⟨_, -, U, hSU, -, hr, hf⟩ := call_ends (hteam _) hs (Apart.refl _ s) rfl rfl hcS hend
    obtain ⟨V, hTV, hV, hVbase, hpiece⟩ := call_keeps hteam hT hbase hcT hb hend hf.registries
    rcases List.mem_cons.mp ho with rfl | ho
    · exact hpiece
    · exact ih U V (s.leave c.engine (call team depth s c).2) hr.sound hV hVbase
        (fun d hd => Draft.Within.mono hSU _ (hcsS d hd))
        (fun d hd => Draft.Within.mono hTV _ (hcsT d hd)) hbs hends o ho

/-- **What an engine renders in a session is a piece.**  Engines render in turn, in any order, and
what they render is admitted.  Then all that engine `i` renders is what the policy promises. -/
theorem run_pieces (hteam : ∀ i, (team i).id = i) {i : Nat} (pol : Policy (team i)) {s : Session}
    {calls : List Call} (hs : Begins S s calls) (hall : pol.Allows S s calls)
    (hplugins : ∀ name position q source attributes v,
      ((team i).registryIn s.world).load name position = .ok q →
        q.call source attributes = .ok v → pol.piece v) {depth : Nat}
    (hend : ∀ o ∈ run team depth s calls, o.outcome ≠ .error .exhausted) {o : Observation}
    (ho : o ∈ run team depth s calls) (hi : o.engine = i) {html : String}
    (hh : o.outcome = .ok html) : pol.piece (.text html) := by
  refine run_pieces_of hteam calls S S s (hs.sound team) ⟨hs.census, hall.nodes, hs.mixins,
    hs.loaders, hall.loads, hplugins⟩ (fun id html ht => ?_) hs.calls hs.calls hall.calls hend
    o ho hi html hh
  rw [World.memo, hs.memos] at ht
  cases (Option.ite_none_right_eq_some.mp ht).2

end Policy
end Trellis
