import Trellis.Proofs.Interpretation.Answers
import Trellis.Proofs.Interpretation.Coupling

/-!
# Proofs — Loading — Confinement

Renderings that ask for relative paths only.  `Engine.confined` answers as the engine does, but
refuses absolute paths.  A rendering of the engine that ends well, and has not asked for an absolute
path by then, is a rendering of the confined engine (`Confinement.exec_body`).

That nothing has been asked for can be told at the end, since no event is taken back.
-/

namespace Trellis

open Rendering (exec exec_bind closed_grows)

/-- What the engine answers, with absolute paths refused. -/
def Engine.confined (eng : Engine) : Interpretation eng Rendering :=
  { eng.interpretation with
    text := fun path location =>
      if Path.isAbsolute path.toList then Rendering.complain (.pathNotFound path) .none
      else eng.text path location
    tree := fun path location =>
      if Path.isAbsolute path.toList then Rendering.complain (.pathNotFound path) .none
      else eng.tree path location }

/-- An absolute path has been asked for. -/
def World.Strayed (w : World) : Prop :=
  ∃ path location wanted, Event.requested path location wanted ∈ w.events ∧
    Path.isAbsolute path.toList = true

namespace Confinement

variable {eng : Engine} {α β : Type}

/-- The second computation ends as the first one does, if that one ends well and nothing absolute
has been asked for. -/
def Confines (R : α → α → Prop) (x y : Rendering α) : Prop :=
  ∀ w, ((w.Strayed → (exec x w).2.Strayed) ∧
    ∀ a, (exec x w).1 = .ok a → ∃ b, R a b ∧
      ((exec x w).2.Strayed ∨ exec y w = (.ok b, (exec x w).2)))

namespace Confines

variable {R : α → α → Prop} {Q : β → β → Prop}

/-- What does the same unless it has strayed is confined. -/
theorem of_grows {x y : Rendering α} (hx : x.Grows)
    (h : ∀ w a, (exec x w).1 = .ok a → ∃ b, R a b ∧
      ((exec x w).2.Strayed ∨ exec y w = (.ok b, (exec x w).2))) : Confines R x y := by
  refine fun w => ⟨?_, h w⟩
  rintro ⟨path, location, wanted, hm, habsolute⟩
  exact ⟨path, location, wanted, hx.mem hm, habsolute⟩

/-- A computation for itself. -/
theorem self {x : Rendering α} (hx : x.Grows) (hR : ∀ a, R a a) : Confines R x x := by
  refine of_grows hx fun w a ha => ⟨a, hR a, .inr ?_⟩
  rw [← ha]

theorem pure {a b : α} (h : R a b) : Confines R (Pure.pure a) (Pure.pure b) := by
  refine of_grows (closed_grows.pure a) fun w c hc => ?_
  obtain rfl := Except.ok.inj hc
  exact ⟨b, h, .inr rfl⟩

theorem throw (f : Fault) : Confines R (throw f) (throw f) :=
  of_grows (closed_grows.throw f) fun w a ha => by cases ha

/-- Computations in a row are confined if each is. -/
theorem bind {x y : Rendering α} {f g : α → Rendering β} (hx : Confines R x y)
    (hf : ∀ a b, R a b → Confines Q (f a) (g b)) : Confines Q (x >>= f) (y >>= g) := by
  intro w
  obtain ⟨hstray, h⟩ := hx w
  rw [exec_bind, exec_bind]
  rcases hr : exec x w with ⟨e | a, w₁⟩ <;> rw [hr] at hstray h
  · exact ⟨hstray, fun c hc => by cases hc⟩
  · obtain ⟨b, hR, hy⟩ := h a rfl
    obtain ⟨hstray', h'⟩ := hf a b hR w₁
    refine ⟨fun hw => hstray' (hstray hw), fun c hc => ?_⟩
    obtain ⟨d, hQ, hg⟩ := h' c hc
    refine ⟨d, hQ, ?_⟩
    rcases hy with hy | hy
    · -- the first part has strayed, and that cannot be taken back
      exact .inl (hstray' hy)
    · rw [hy]
      exact hg

/-- Whoever asks for an absolute path and goes on leaves the request. -/
theorem request {path : String} (location : Option String) (wanted : Wanted)
    {f : Loaded → Rendering β} (hf : ∀ l, (f l).Grows) (hQ : ∀ b, Q b b) :
    Confines Q (eng.request path location wanted >>= f)
      (if Path.isAbsolute path.toList then Rendering.complain (.pathNotFound path) .none
        else eng.request path location wanted >>= f) := by
  have hgrows : (eng.request path location wanted >>= f).Grows :=
    (closed_grows.request path location wanted).bind hf
  by_cases habsolute : Path.isAbsolute path.toList = true
  · rw [if_pos habsolute]
    -- the request is noted before anything is loaded
    refine of_grows hgrows fun w b hb => ⟨b, hQ b, .inl ?_⟩
    refine ⟨path, location, wanted, ?_, habsolute⟩
    unfold Engine.request at hb ⊢
    cases hloader : eng.loader with
    | none =>
      rw [hloader] at hb
      cases hb
    | some number =>
      have hload : (Engine.load number path location wanted >>= f).Grows :=
        (closed_grows.load number path location wanted).bind hf
      rw [bind_assoc]
      exact hload.mem (w := { w with events := w.events.push _ }) Array.mem_push_self
  · rw [if_neg habsolute]
    exact self hgrows hQ

end Confines

/-- **The confined engine does what the engine does**, as long as it may. -/
def coupling (eng : Engine) : Coupling eng.interpretation eng.confined where
  node _ := True
  scope := Eq
  location := Eq
  Rel := Confines
  children _ _ _ := trivial
  extend := Coupling.extend_eq
  pure := Confines.pure
  bind := Confines.bind
  fail _ := .throw _
  onHeap _ := .self (closed_grows.onHeap _) fun _ => rfl
  enter _ _ _ := .pure rfl
  define _ _ _ :=
    .bind (.pure rfl) fun _ _ _ => .self ((closed_grows.mixin? _).bind fun _ =>
      (Rendering.Grows.note _).bind fun _ => .of_eq fun _ => rfl) fun _ => rfl
  evaluate _ _ hs := by
    obtain rfl := hs
    exact .self ((Rendering.Grows.note _).bind fun _ => .onHeap _) fun _ => rfl
  mixin name position := .self (closed_grows.mixin name position) fun _ => ⟨rfl, trivial⟩
  plugin name position := .self (closed_grows.plugin name position) fun _ => rfl
  transform name q source attributes :=
    .self (closed_grows.transform name q source attributes) fun _ => rfl
  text path _ _ hl := by
    obtain rfl := hl
    refine Confines.request _ .text (fun l => ?_) fun _ => rfl
    cases l with
    | text s => exact closed_grows.pure s
    | tree d l => exact closed_grows.throw _
  tree path _ _ hl := by
    obtain rfl := hl
    refine Confines.request _ .tree (fun l => ?_) fun _ => ⟨rfl, trivial, rfl⟩
    cases l with
    | text s => exact closed_grows.throw _
    | tree d l => exact (closed_grows.build _).bind fun _ => closed_grows.pure _
  track path _ _ hl := by
    obtain rfl := hl
    exact .self (closed_grows.track _ path) fun _ => rfl
  including wanted path _ _ hl := by
    obtain rfl := hl
    exact .self (closed_grows.including wanted path _) fun _ => rfl
  remembered? n := .self (closed_grows.remembered? _) fun _ => rfl
  remember html _ := .self (closed_grows.remember _ html) fun _ => rfl

/-- What has not strayed by the end was confined all the way. -/
theorem exec_body {depth : Nat} {n : Node} {p : Place} {w w' : World} {r : String × Bool}
    (h : exec (Render.body eng depth n p) w = (.ok r, w')) (hw : ¬ w'.Strayed) :
    exec (eng.confined.body depth n p) w = (.ok r, w') := by
  have hbody := (coupling eng).body depth n p p trivial ⟨rfl, rfl⟩
  rw [eng.interpretation_body] at hbody
  obtain ⟨-, hok⟩ := hbody w
  rw [h] at hok
  obtain ⟨_, rfl, hend⟩ := hok r rfl
  exact hend.resolve_left hw

end Confinement
end Trellis
