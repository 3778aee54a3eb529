import Trellis.Proofs.Memos.Twins

/-!
# Proofs — Memos — Steps

The constructs of a template, rendered in twin worlds (`Policy.Mirrors`), provided that the bodies
are (`Policy.MirrorsBody`).  Memos play no part in them: each passes on what its parts do, and makes
of admitted pieces one that is admitted.
-/

namespace Trellis

open Rendering (exec)

namespace Policy

variable {eng : Engine} {pol : Policy eng} {base : Nat → Memo} {S : Set Node}

open Mirrors (Free)

/-! ### Collaborators -/

namespace Mirrors

/-- An outcome that depends on nothing. -/
theorem ofCause {α : Type} {P : Set Node → α → Prop} {r : Except Cause α}
    (h : ∀ a, r = .ok a → P S a) :
    pol.Mirrors base S (Both P) (Rendering.ofCause r) fun _ => Rendering.ofCause r := by
  cases r with
  | error c => exact throw (.basic c)
  | ok a => exact pure ⟨rfl, h a rfl⟩

/-- An evaluation sees no memos. -/
theorem evaluate (scope : Scope) (position text : Value) :
    pol.Mirrors base S (Both Free) (eng.evaluate scope position text) fun _ =>
      eng.evaluate scope position text :=
  (note _).bind_both fun _ _ _ _ => onHeap _

/-- Nor does an escape function. -/
theorem escape (v : Value) :
    pol.Mirrors base S (Both fun _ u => eng.config.escape v = .ok u) (eng.escape v) fun _ =>
      eng.escape v :=
  ofCause fun _ h => h

/-- A mixin is found alike, and its body is in use. -/
theorem mixin? (name : String) :
    pol.Mirrors base S (Both fun T m => ∀ d ∈ m, d.body ∈ T) (eng.mixin? name) fun _ =>
      eng.mixin? name :=
  of_blind (.mixin? eng name) (.mixin? name)

/-- It is defined alike. -/
theorem define (name : String) {m : Mixin} (hm : m.body ∈ S) :
    pol.Mirrors base S (Both Free) (eng.define name m) fun _ => eng.define name m :=
  of_blind (.define eng name m) (.define name hm)

/-- The same plugin is found, and gives what the policy asks for. -/
theorem plugin (name : String) (position : Value) :
    pol.Mirrors base S
      (Both fun _ q => ∀ source attributes v, q.call source attributes = .ok v → pol.piece v)
      (eng.plugin name position) fun _ => eng.plugin name position :=
  of_blind (.plugin eng name position) (.plugin name position)

/-- Tracking sees no memos. -/
theorem track (location : Option String) (path : String) :
    pol.Mirrors base S (Both Free) (eng.track location path) fun _ => eng.track location path := by
  refine of_blind (.track eng location path) (.of_eq fun w => ?_)
  unfold Engine.track
  cases eng.tracker <;> exact ⟨rfl, rfl, rfl, rfl⟩

/-- The same is requested, and given as the policy asks. -/
theorem request (path : String) (location : Option String) (wanted : Wanted) :
    pol.Mirrors base S (Both fun T l => l.Within T ∧ pol.Gives l)
      (eng.request path location wanted) fun _ => eng.request path location wanted := by
  unfold Engine.request
  cases eng.loader with
  | none => exact throw _
  | some number =>
    refine (note _).bind_both fun T _ _ _ => ?_
    exact of_blind (.load number path location wanted) (.load number path location wanted)

/-- The same text is included. -/
theorem text (path : String) (location : Option String) :
    pol.Mirrors base S (Both fun _ s => pol.source s) (eng.text path location) fun _ =>
      eng.text path location := by
  refine (request path location .text).bind_both fun T l _ hl => ?_
  cases l with
  | text s => exact pure ⟨rfl, hl.2⟩
  | tree d l => exact throw _

/-- The same tree is included. -/
theorem tree (path : String) (location : Option String) :
    pol.Mirrors base S (Both fun T r => r.1 ∈ T) (eng.tree path location) fun _ =>
      eng.tree path location := by
  refine (request path location .tree).bind_both fun T l _ hl => ?_
  cases l with
  | text s => exact throw _
  | tree d location =>
    refine (of_blind (.build _) (.build hl.1 hl.2)).bind_both fun U n _ hn => ?_
    exact pure ⟨rfl, hn⟩

end Mirrors

/-- What `body` makes of a node in use, the bodies of the engine make at large depths, and it is a
piece. -/
def MirrorsBody (pol : Policy eng) (base : Nat → Memo) (body : Body) : Prop :=
  ∀ S n p, n ∈ S →
    pol.Mirrors base S (fun _ r r' => r.1 = r'.1 ∧ pol.piece (.text r.1)) (body n p) fun depth =>
      Render.body eng depth n p

variable {n : Node} {g g' : Group} {body : Body} (p : Place)

/-! ### Expressions and content -/

/-- A test decides alike. -/
theorem test_mirrors (t : Value) :
    pol.Mirrors base S (Both Free) (Render.test eng p n t) fun _ => Render.test eng p n t :=
  (Mirrors.evaluate _ _ _).bind_both fun _ _ _ _ => Mirrors.onHeap _

/-- Evaluations in a row give the same values. -/
theorem evaluateAll_mirrors (es : List Value) :
    ∀ S, pol.Mirrors base S (Both Free) (Render.evaluateAll eng p n es) fun _ =>
      Render.evaluateAll eng p n es := by
  induction es with
  | nil => exact fun S => Mirrors.pure ⟨rfl, trivial⟩
  | cons e es ih =>
    intro S
    refine (Mirrors.evaluate _ _ _).bind_both fun T v _ _ => ?_
    refine (ih T).bind_both fun U vs _ _ => ?_
    exact Mirrors.pure ⟨rfl, trivial⟩

/-- Content is written alike, as the policy asks. -/
theorem content_mirrors (hn : pol.node n)
    (hr : Role.ofValue n.symbol = .ok .tag ∨ Role.ofValue n.symbol = .ok .text)
    (hg : g.pending = g'.pending) :
    pol.Mirrors base S (Stepped pol.content) (Render.content eng p n g) fun _ =>
      Render.content eng p n g' := by
  refine Mirrors.ite n.unescaped (fun _ => ?_) fun hu => ?_
  · refine (Mirrors.escape _).bind_both fun T v _ hv => ?_
    exact Mirrors.pure ⟨rfl, hg, pol.escaped hv⟩
  · refine Mirrors.ofCause_bind _ fun s hs => ?_
    cases he : Header.expression? s with
    | none => exact Mirrors.pure ⟨rfl, hg, pol.plain hn hr hu hs he⟩
    | some e =>
      refine (Mirrors.evaluate _ _ _).bind_both fun T v _ _ => ?_
      refine (Mirrors.onHeap _).bind_both fun U t _ _ => ?_
      refine (Mirrors.escape _).bind_both fun V u _ hu => ?_
      exact Mirrors.pure ⟨rfl, hg, pol.escaped hu⟩

/-- So is a text. -/
theorem text_mirrors (hn : pol.node n) (hr : Role.ofValue n.symbol = .ok .text)
    (hg : g.pending = g'.pending) :
    pol.Mirrors base S (Stepped pol.piece) (Render.text eng p n g) fun _ =>
      Render.text eng p n g' := by
  refine (content_mirrors p hn (.inr hr) hg).bind_stepped fun T v g g' _ hg hv => ?_
  refine Mirrors.ofCause_bind _ fun u hu => ?_
  exact Mirrors.pure ⟨rfl, hg, pol.spaced hv hu⟩

/-- So is a comment. -/
theorem comment_mirrors (hn : pol.node n) (hr : Role.ofValue n.symbol = .ok .comment)
    (hg : g.pending = g'.pending) :
    pol.Mirrors base S (Stepped pol.piece) (Render.comment n g) fun _ => Render.comment n g' := by
  refine Mirrors.ofCause_bind _ fun u hu => ?_
  exact Mirrors.pure ⟨rfl, hg, pol.commented hn hr hu⟩

/-! ### Control -/

section Bodies

variable (hb : pol.MirrorsBody base body)
include hb

/-- What stands inside a node is written alike, since bodies are. -/
theorem inside_mirrors (hn : n ∈ S) :
    pol.Mirrors base S (Both fun _ v => pol.piece v) (Render.inside body n p) fun depth =>
      Render.inside (Render.body eng depth) n p := by
  refine (hb S n p hn).bind fun T r r' _ hr => ?_
  obtain ⟨s, d⟩ := r
  obtain ⟨s', d'⟩ := r'
  obtain ⟨rfl, hs⟩ := hr
  exact Mirrors.pure ⟨rfl, hs⟩

/-- A condition decides alike, and awaits the same. -/
theorem condition_mirrors (hn : n ∈ S) (hg : g.pending = g'.pending) :
    pol.Mirrors base S (Stepped pol.piece) (Render.condition eng body p n g) fun depth =>
      Render.condition eng (Render.body eng depth) p n g' := by
  refine (test_mirrors p _).bind_both fun T c hST _ => Mirrors.ite c (fun _ => ?_) fun _ => ?_
  · refine (inside_mirrors p hb (hST hn)).bind_both fun U v _ hv => ?_
    exact Mirrors.pure ⟨rfl, hg, hv⟩
  · exact Mirrors.pure ⟨rfl, rfl, pol.blank⟩

omit hb in
/-- The test of an alternative decides alike. -/
theorem alternativeHolds_mirrors :
    pol.Mirrors base S (Both Free) (Render.alternativeHolds eng p n) fun _ =>
      Render.alternativeHolds eng p n := by
  refine Mirrors.ofCause_bind _ fun s _ => ?_
  cases Header.condition? s with
  | none => exact Mirrors.pure ⟨rfl, trivial⟩
  | some c => exact test_mirrors p _

/-- An alternative is taken alike. -/
theorem alternative_mirrors (hn : n ∈ S) (hg : g.pending = g'.pending) :
    pol.Mirrors base S (Stepped pol.piece) (Render.alternative eng body p n g) fun depth =>
      Render.alternative eng (Render.body eng depth) p n g' := by
  unfold Render.alternative
  rw [hg]
  refine Mirrors.ite _ (fun _ => Mirrors.pure ⟨rfl, hg, pol.blank⟩) fun _ => ?_
  refine (alternativeHolds_mirrors p).bind_both fun T c hST _ =>
    Mirrors.ite c (fun _ => ?_) fun _ => ?_
  · refine (inside_mirrors p hb (hST hn)).bind_both fun U v _ hv => ?_
    exact Mirrors.pure ⟨rfl, rfl, hv⟩
  · exact Mirrors.pure ⟨rfl, hg, pol.blank⟩

/-- The other loop is at round `k`, of rounds enough. -/
theorem whileHolds_mirrors (limit : Nat) :
    ∀ (S : Set Node) (k : Nat) (written : String), n ∈ S → pol.piece (.text written) →
      pol.Mirrors base S (Both fun _ s => pol.piece (.text s))
        (Render.whileHolds eng body p n limit written) fun depth =>
          Render.whileHolds eng (Render.body eng depth) p n (depth - k) written := by
  induction limit with
  | zero => exact fun S k written _ _ => Mirrors.exhausted
  | succ limit ih =>
    intro S k written hn hw
    -- at depths past `k` there is a round left
    refine Mirrors.congr (y := fun depth => Render.whileHolds eng (Render.body eng depth) p n
      (depth - (k + 1) + 1) written) ?_ (k + 1) ?_
    · refine (test_mirrors p _).bind_both fun T c hST _ => Mirrors.ite c (fun _ => ?_) fun _ =>
        Mirrors.pure ⟨rfl, hw⟩
      refine (hb T n p (hST hn)).bind fun U r r' hTU hr => ?_
      obtain ⟨s, d⟩ := r
      obtain ⟨s', d'⟩ := r'
      obtain ⟨rfl, hs⟩ := hr
      exact ih U (k + 1) _ (hTU (hST hn)) (pol.appended hw hs)
    · intro depth hd
      rw [show depth - (k + 1) + 1 = depth - k by omega]

/-- A loop under a condition has the same rounds. -/
theorem whileLoop_mirrors (hn : n ∈ S) (hg : g.pending = g'.pending) (limit : Nat) :
    pol.Mirrors base S (Stepped pol.piece) (Render.whileLoop eng body limit p n g) fun depth =>
      Render.whileLoop eng (Render.body eng depth) depth p n g' := by
  refine (whileHolds_mirrors p hb limit S 0 "" hn pol.blank).bind_both fun T s _ hs => ?_
  exact Mirrors.pure ⟨rfl, hg, hs⟩

/-- The same for loops over a collection. -/
theorem forEach_mirrors (names : List String) (limit : Nat) :
    ∀ (S : Set Node) (k : Nat) (walk : Walk) (written : String), n ∈ S →
      pol.piece (.text written) →
      pol.Mirrors base S (Both fun _ s => pol.piece (.text s))
        (Render.forEach body p n names limit walk written) fun depth =>
          Render.forEach (Render.body eng depth) p n names (depth - k) walk written := by
  induction limit with
  | zero => exact fun S k walk written _ _ => Mirrors.exhausted
  | succ limit ih =>
    intro S k walk written hn hw
    refine Mirrors.congr (y := fun depth => Render.forEach (Render.body eng depth) p n names
      (depth - (k + 1) + 1) walk written) ?_ (k + 1) ?_
    · refine (Mirrors.onHeap walk.next).bind_both fun T step hST _ => ?_
      cases step with
      | none => exact Mirrors.pure ⟨rfl, hw⟩
      | some step =>
        obtain ⟨⟨key, item⟩, walk⟩ := step
        refine (hb T n _ (hST hn)).bind fun U r r' hTU hr => ?_
        obtain ⟨s, d⟩ := r
        obtain ⟨s', d'⟩ := r'
        obtain ⟨rfl, hs⟩ := hr
        exact ih U (k + 1) walk _ (hTU (hST hn)) (pol.appended hw hs)
    · intro depth hd
      rw [show depth - (k + 1) + 1 = depth - k by omega]

omit hb in
/-- The header of a loop is cut alike. -/
theorem loopHeader_mirrors :
    pol.Mirrors base S (Both Free) (Render.loopHeader n) fun _ => Render.loopHeader n := by
  refine Mirrors.ofCause_bind _ fun s _ => ?_
  dsimp only
  cases Header.loop? s with
  | none => exact Mirrors.throw _
  | some r =>
    exact Mirrors.ite _ (fun _ => Mirrors.throw _) fun _ => Mirrors.pure ⟨rfl, trivial⟩

/-- A loop over a collection has the same rounds. -/
theorem forLoop_mirrors (hn : n ∈ S) (hg : g.pending = g'.pending) (limit : Nat) :
    pol.Mirrors base S (Stepped pol.piece) (Render.forLoop eng body limit p n g) fun depth =>
      Render.forLoop eng (Render.body eng depth) depth p n g' := by
  refine loopHeader_mirrors.bind_both fun T header hST _ => ?_
  refine (Mirrors.evaluate _ _ _).bind_both fun U v hTU _ => ?_
  refine (Mirrors.onHeap _).bind_both fun V walk hUV _ => ?_
  have hnV : n ∈ V := hUV (hTU (hST hn))
  refine (forEach_mirrors p hb _ limit V 0 walk "" hnV pol.blank).bind_both fun W s _ hs => ?_
  exact Mirrors.pure ⟨rfl, hg, hs⟩

/-! ### Mixins, plugins and includes -/

omit hb in
/-- The same definition is made. -/
theorem definition_mirrors (hn : n ∈ S) (hg : g.pending = g'.pending) (name : String) :
    pol.Mirrors base S (Stepped pol.piece) (Render.definition eng name n g) fun _ =>
      Render.definition eng name n g' := by
  refine (Mirrors.define name hn).bind_both fun T _ _ _ => ?_
  exact Mirrors.pure ⟨rfl, hg, pol.blank⟩

/-- The same body is rendered. -/
theorem call_mirrors (hg : g.pending = g'.pending) (name : String) :
    pol.Mirrors base S (Stepped pol.piece) (Render.call eng body name p n g) fun depth =>
      Render.call eng (Render.body eng depth) name p n g' := by
  refine (Mirrors.mixin? name).bind_both fun T m _ hm => ?_
  cases m with
  | none => exact Mirrors.throw _
  | some m =>
    refine (evaluateAll_mirrors p _ T).bind_both fun U args hTU _ => ?_
    refine (inside_mirrors _ hb (hTU (hm m rfl))).bind_both fun V v _ hv => ?_
    exact Mirrors.pure ⟨rfl, hg, hv⟩

omit hb in
/-- The same plugin is run. -/
theorem plugin_mirrors (hg : g.pending = g'.pending) (name : String) :
    pol.Mirrors base S (Stepped pol.piece) (Render.plugin eng name p n g) fun _ =>
      Render.plugin eng name p n g' := by
  refine (Mirrors.plugin name _).bind_both fun T q _ hq => ?_
  refine Mirrors.ofCause_bind _ fun path _ => ?_
  refine (Mirrors.text path p.location).bind_both fun U source _ _ => ?_
  refine (Mirrors.note _).bind_both fun V _ _ _ => ?_
  refine Mirrors.ofExcept_bind _ fun v hv => ?_
  exact Mirrors.pure ⟨rfl, hg, hq _ _ _ hv⟩

/-- The same tree or text is included. -/
theorem inclusion_mirrors (hg : g.pending = g'.pending) :
    pol.Mirrors base S (Stepped pol.piece) (Render.inclusion eng body p n g) fun depth =>
      Render.inclusion eng (Render.body eng depth) p n g' := by
  refine Mirrors.ofCause_bind _ fun path _ => ?_
  refine (Mirrors.track p.location path).bind_both fun T _ _ _ => ?_
  refine Mirrors.ofCause_bind _ fun isTree _ => Mirrors.ite isTree (fun _ => ?_) fun _ => ?_
  · refine (Mirrors.tree path p.location).bind_both fun U r _ hr => ?_
    refine (Mirrors.note _).bind_both fun V _ hUV _ => ?_
    refine (inside_mirrors _ hb (hUV hr)).bind_both fun W v _ hv => ?_
    exact Mirrors.pure ⟨rfl, hg, hv⟩
  · refine (Mirrors.note _).bind_both fun U _ _ _ => ?_
    refine (Mirrors.text path p.location).bind_both fun V s _ hs => ?_
    exact Mirrors.pure ⟨rfl, hg, pol.included hs⟩

end Bodies

/-! ### Tags -/

/-- What is written of an attribute's value, such that the attribute is admitted. -/
theorem attributeValue_mirrors (hn : pol.node n) (hr : Role.ofValue n.symbol = .ok .tag)
    {k v : Value} (hkv : (k, v) ∈ n.attributes) (ht : v.truth = true) (hv : ∀ b, v ≠ .bool b)
    (u : Value) :
    pol.Mirrors base S (Both fun _ s => pol.setting (Markup.written k.plain s))
      (Render.attributeValue eng k u) fun _ => Render.attributeValue eng k u := by
  refine (Mirrors.onHeap _).bind_both fun T t _ _ => ?_
  cases k with
  | text k =>
    refine Mirrors.ite _ (fun _ => ?_) fun hd => ?_
    · refine (Mirrors.escape _).bind_both fun U u _ hu => ?_
      exact Mirrors.pure ⟨rfl, pol.writtenData hn hr hkv hu⟩
    · exact Mirrors.pure ⟨rfl, pol.written t hn hr hkv ht hv hd⟩
  | _ => exact Mirrors.throw _

/-- An attribute is written alike, as the policy asks. -/
theorem attributeOf_mirrors (hn : pol.node n) (hr : Role.ofValue n.symbol = .ok .tag)
    {k v : Value} (hkv : (k, v) ∈ n.attributes) (hg : g.pending = g'.pending) :
    pol.Mirrors base S (Stepped fun a => ∀ s ∈ a, pol.setting s)
      (Render.attributeOf eng p n k v g) fun _ => Render.attributeOf eng p n k v g' := by
  unfold Render.attributeOf
  split
  · refine Mirrors.pure ⟨rfl, hg, fun s hs => ?_⟩
    obtain rfl := Option.some.inj hs
    exact pol.flagged hn hr hkv
  · next hv =>
    refine Mirrors.ite (!v.truth) (fun _ => ?_) fun ht => ?_
    · exact Mirrors.pure ⟨rfl, hg, fun s hs => pol.emptied hn hr hkv hs⟩
    · refine (Mirrors.evaluate _ _ _).bind_both fun T u _ _ => ?_
      refine (Mirrors.onHeap _).bind_both fun U t _ _ => Mirrors.ite _ (fun _ => ?_) fun _ => ?_
      · exact Mirrors.pure ⟨rfl, hg, by simp⟩
      · have ht : v.truth = true := by simpa using ht
        refine (attributeValue_mirrors hn hr hkv ht (fun b hb => hv b hb) u).bind_both
          fun V s _ hs => Mirrors.pure ⟨rfl, hg, fun s' hs' => ?_⟩
        obtain rfl := Option.some.inj hs'
        exact hs

/-- So are attributes in a row. -/
theorem attributesOf_mirrors (hn : pol.node n) (hr : Role.ofValue n.symbol = .ok .tag)
    (as : List (Value × Value)) (has : ∀ a ∈ as, a ∈ n.attributes) :
    ∀ S g g', g.pending = g'.pending →
      pol.Mirrors base S (Stepped fun ss => ∀ s ∈ ss, pol.setting s)
        (Render.attributesOf eng p n as g) fun _ => Render.attributesOf eng p n as g' := by
  induction as with
  | nil => exact fun S g g' hg => Mirrors.pure ⟨rfl, hg, by simp⟩
  | cons a as ih =>
    intro S g g' hg
    obtain ⟨ha, has⟩ := List.forall_mem_cons.mp has
    refine (attributeOf_mirrors p hn hr ha hg).bind_stepped fun T s g g' _ hg hs => ?_
    refine (ih has T g g' hg).bind_stepped fun U ss g g' _ hg hss => ?_
    refine Mirrors.pure ⟨rfl, hg, fun t ht => ?_⟩
    rcases List.mem_append.mp ht with ht | ht
    · exact hs t (Option.mem_toList.mp ht)
    · exact hss t ht

/-- So is the content of a tag. -/
theorem tagContent_mirrors (hn : pol.node n) (hr : Role.ofValue n.symbol = .ok .tag)
    (hg : g.pending = g'.pending) :
    pol.Mirrors base S (Stepped fun cs => ∀ c ∈ cs, pol.content c) (Render.tagContent eng p n g)
      fun _ => Render.tagContent eng p n g' := by
  refine Mirrors.ite _ (fun _ => ?_) fun _ => Mirrors.pure ⟨rfl, hg, by simp⟩
  refine (content_mirrors p hn (.inl hr) hg).bind_stepped fun T v g g' _ hg hv => ?_
  exact Mirrors.pure ⟨rfl, hg, by simpa using hv⟩

variable (hb : pol.MirrorsBody base body)
include hb

/-- So is what stands inside it. -/
theorem tagBody_mirrors (hn : n ∈ S) (hg : g.pending = g'.pending) :
    pol.Mirrors base S (Stepped fun bs => ∀ b ∈ bs, pol.piece b) (Render.tagBody body p n g)
      fun depth => Render.tagBody (Render.body eng depth) p n g' := by
  refine Mirrors.ite _ (fun _ => Mirrors.pure ⟨rfl, hg, by simp⟩) fun _ => ?_
  refine (hb S n p hn).bind fun T r r' _ hr => ?_
  obtain ⟨s, d⟩ := r
  obtain ⟨s', d'⟩ := r'
  obtain ⟨rfl, hs⟩ := hr
  refine Mirrors.pure ⟨rfl, ?_, by simpa using hs⟩
  cases d <;> cases d' <;> exact hg

/-- So is its markup. -/
theorem tagMarkup_mirrors (hnS : n ∈ S) (hn : pol.node n) (hr : Role.ofValue n.symbol = .ok .tag)
    (hg : g.pending = g'.pending) :
    pol.Mirrors base S (Stepped fun html => pol.piece (.text html))
      (Render.tagMarkup eng body p n g) fun depth =>
        Render.tagMarkup eng (Render.body eng depth) p n g' := by
  refine Mirrors.ofCause_bind _ fun t ht => ?_
  refine (attributesOf_mirrors p hn hr _ (fun a ha => ha) S g g' hg).bind_stepped
    fun T as g g' hST hg has => ?_
  refine (tagContent_mirrors p hn hr hg).bind_stepped fun U cs g g' hTU hg hcs => ?_
  refine (tagBody_mirrors p hb (hTU (hST hnS)) hg).bind_stepped fun V bs g g' _ hg hbs => ?_
  refine Mirrors.ofCause_bind _ fun es hes => ?_
  refine Mirrors.ofCause_bind _ fun html hh => ?_
  exact Mirrors.pure ⟨rfl, hg, pol.tagged hn hr ht has hcs hbs hes hh⟩

end Policy
end Trellis
