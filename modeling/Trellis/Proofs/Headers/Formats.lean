import Trellis.Proofs.Evaluation.Placeholders
import Trellis.Proofs.Syntax.Context
import Trellis.Samples

/-!
# Proofs — Headers — Formats

What becomes of a content that is a single expression (`content_single`).

An expression that looks like a format with arguments is put into a call of the formatting function,
and what looks so may be a single expression: a list, a call or a text with a quote, a comma and a
blank in it.  The call evaluates it just as well, and fails where it fails.  The only difference is
in the value: of a text, formatting without arguments makes one percent sign of each two
(`Placeholders.format_nil`).
-/

namespace Trellis

/-! ### Formatting without arguments -/

namespace Placeholders

/-- The text with one percent sign for each two of them. -/
def undoubled : List Char → List Char
  | [] => []
  | '%' :: '%' :: s => '%' :: undoubled s
  | c :: s => c :: undoubled s

/-- A character that begins no pair of percent signs stays. -/
theorem undoubled_cons {c : Char} {s : List Char} (h : ¬ ['%', '%'] <+: c :: s) :
    undoubled (c :: s) = c :: undoubled s := by
  rw [undoubled]
  rintro r rfl rfl
  exact h ⟨r, rfl⟩

/-- Nothing gets longer. -/
theorem length_undoubled_le (s : List Char) : (undoubled s).length ≤ s.length := by
  fun_induction undoubled s with
  | case1 => exact le_refl _
  | case2 s ih => simp only [List.length_cons]; omega
  | case3 c s h ih => simp only [List.length_cons]; omega

/-- Nothing is lost if and only if no percent sign stands behind another. -/
theorem undoubled_eq_self_iff {s : List Char} : undoubled s = s ↔ ¬ ['%', '%'] <:+: s := by
  fun_induction undoubled s with
  | case1 => simp
  | case2 s ih =>
      refine iff_of_false (fun h => ?_) (not_not_intro (List.prefix_append ['%', '%'] s).isInfix)
      have := congrArg List.length h
      have := length_undoubled_le s
      simp only [List.length_cons] at *
      omega
  | case3 c s h ih =>
      have hfront : ¬ ['%', '%'] <+: c :: s := by
        rintro ⟨r, hr⟩
        obtain ⟨rfl, rfl⟩ := List.cons.inj hr
        exact h r rfl rfl
      rw [List.infix_cons_iff, not_or, ← ih, List.cons.injEq]
      simp [hfront]

/-- Places for arguments stay as they are written. -/
theorem fill_scan_nil (s : List Char) : fill (scan s) [] = pure (undoubled s, []) := by
  fun_induction scan s with
  | case1 => rfl
  | case2 s ih => rw [fill, ih, undoubled, pure_bind]
  | case3 c s hc k hk ih =>
      have hne : c ≠ '%' := by
        rintro rfl
        exact hc rfl
      rw [fill, ih, pure_bind, undoubled_cons (by simp [Ne.symm hne]),
        undoubled_cons (by simp [Ne.symm hne])]
  | case4 c s hc hk ih =>
      have hne : c ≠ '%' := by
        rintro rfl
        exact hc rfl
      rw [fill, ih, pure_bind, undoubled_cons (c := '%') (by simp [Ne.symm hne])]
  | case5 c s h h' ih =>
      rw [fill, ih, pure_bind, undoubled_cons]
      rintro ⟨r, hr⟩
      obtain ⟨rfl, rfl⟩ := List.cons.inj hr
      exact h r rfl rfl

/-- The text of a value in markup.  Under a format, one percent sign of a text stands for two. -/
def single (isFormat : Bool) : Value → Action String
  | .text s => pure (if isFormat then String.ofList (undoubled s.toList) else s)
  | v       => Action.embedded v

/-- A text is put into markup as it is. -/
theorem embedded_text (s : String) : Action.embedded (.text s) = pure s := by
  rfl

/-- A value that is not formatted is put into markup. -/
theorem single_false (v : Value) : single false v = Action.embedded v := by
  cases v with
  | text s => exact (embedded_text s).symm
  | _ => rfl

/-- A format without arguments is written with its percent signs undoubled. -/
theorem format_nil (v : Value) : format v [] = single true v := by
  cases v with
  | text s =>
      simp only [format, fill_scan_nil, pure_bind, embeddedAll, single, if_true]
      rfl
  | _ => simp [format, embeddedAll, single]

/-- Only a text with two percent signs in a row has another text under a format. -/
theorem single_eq_iff {b : Bool} {v : Value} :
    single b v = Action.embedded v ↔
      ¬ (b = true ∧ ∃ s, v = .text s ∧ ['%', '%'] <:+: s.toList) := by
  cases b with
  | false => simp [single_false]
  | true =>
      cases v with
      | text s =>
          have hpure (s t : String) : (pure s : Action String) = pure t ↔ s = t :=
            ⟨fun h => Except.ok.inj (congrArg (fun x => (x.run.run Heap.empty).1) h), congrArg _⟩
          rw [single, embedded_text, hpure, if_pos rfl, ← String.toList_inj, String.toList_ofList,
            undoubled_eq_self_iff]
          simp
      | _ => simp [single]

/-- A value is refused only for the many digits of a number. -/
theorem run_embedded (v : Value) (h : Heap) :
    (Action.embedded v).run.run h =
      if (h.deep v).hasLongInt then (.error (.basic .digitsWritten), h)
      else (.ok (h.deep v).embedded, h) := by
  have hwritable : (Action.writable v).run.run h =
      if (h.deep v).hasLongInt then (.error (.basic .digitsWritten), h)
      else (.ok (h.deep v), h) := by
    show (if (h.deep v).hasLongInt then Action.fail .digitsWritten
      else pure (h.deep v) : Action Value).run.run h = _
    split <;> rfl
  rw [Action.embedded, Action.run_bind, hwritable]
  by_cases hlong : (h.deep v).hasLongInt = true
  · rw [if_pos hlong, if_pos hlong]
  · rw [if_neg hlong, if_neg hlong]
    rfl

/-- A value fails to be shown only if a number in it is too long. -/
theorem single_fails {b : Bool} {v : Value} {h h' : Heap} {f : Fault}
    (hf : (single b v).run.run h = (.error f, h')) : f = .basic .digitsWritten := by
  cases v with
  | text s => cases hf
  | _ =>
      rw [single, run_embedded] at hf
      · split at hf
        · cases hf
          rfl
        · cases hf
      · rintro _ ⟨⟩

end Placeholders

/-! ### Evaluation under a call -/

namespace Expr

variable {α β : Type}

/-- A computation whose failures are located in a text. -/
def locating (text : String) (position : Value) (x : Action α) : Action α :=
  tryCatch x fun f => throw (located text position f)

/-- Failures are located wherever they come from. -/
theorem locating_bind (x : Action α) (k : α → Action β) (text : String) (position : Value) :
    locating text position (x >>= k) =
      locating text position x >>= fun a => locating text position (k a) := by
  refine ExceptT.ext (funext fun h => ?_)
  show (locating text position (x >>= k)).run.run h = (locating text position x >>= _).run.run h
  simp only [locating, Action.run_tryCatch, Action.run_bind]
  rcases x.run.run h with ⟨f | a, h'⟩ <;> rfl

/-- A call of the formatting function with one argument evaluates it. -/
theorem evalIn_format {names : Names} (hname : names Scope.formatName = some (.function .format))
    (e : Expr) (text : String) (position : Value) :
    (Expr.factor (.var Scope.formatName) [.call [e]]).evalIn names text position = do
      let v ← e.evalIn names text position
      return .text (← Placeholders.single true v) := by
  have heval : (Expr.factor (.var Scope.formatName) [.call [e]]).eval names = do
      let v ← e.eval names
      return .text (← Placeholders.single true v) := by
    simp only [eval, valueOf, hname, traced, applyTails, applyTail, evalAll, Value.call,
      Value.callFunction, Placeholders.format_nil, pure_bind, bind_assoc, Traced.fresh, bind_pure]
  show locating text position _ = locating text position (e.eval names) >>= _
  rw [heval, locating_bind]
  refine bind_congr fun v => ?_
  -- A value that cannot be shown is no complaint about the expression.
  refine ExceptT.ext (funext fun h => ?_)
  show (tryCatch _ _ : Action Value).run.run h = (Placeholders.single true v >>= _ : Action Value).run.run h
  rw [Action.run_tryCatch, Action.run_bind]
  rcases hs : (Placeholders.single true v).run.run h with ⟨f | t, h'⟩
  · obtain rfl := Placeholders.single_fails hs
    rfl
  · rfl

end Expr

/-! ### Contents -/

namespace Header

open Trellis.Text (dropLeading isBlank)

/-- An expression behind an equals sign looks like a format with arguments. -/
def looksLikeFormat (t : String) : Bool := isFormat (dropLeading isBlank t.toList)

/-- The text that is evaluated for an expression behind an equals sign. -/
def evaluated (t : String) : String := Markup.expression (dropLeading isBlank t.toList)

/-- What stands behind the equals sign is the expression, without white space in front. -/
theorem expression?_append {w t : String} (hw : w.toList.all isBlank = true) :
    expression? (w ++ "=" ++ t).toList = some (dropLeading isBlank t.toList) := by
  have hlead : dropLeading isBlank (w.toList ++ '=' :: t.toList) = '=' :: t.toList :=
    Text.dropLeading_append hw (by rintro c ⟨⟩; decide)
  simp [expression?, hlead]

/-- The text that is evaluated is compiled to the expression, or to a call with it. -/
theorem compile_evaluated {t : String} {e : Expr} (h : Expr.compile t = .ok e) :
    Expr.compile (evaluated t) =
      .ok (if looksLikeFormat t then .factor (.var Scope.formatName) [.call [e]] else e) := by
  have htrim : Expr.compileChars (dropLeading isBlank t.toList) = .ok e :=
    Expr.compileChars_dropLeading h
  have hname : Expr.compileChars Scope.formatName.toList = .ok (.var Scope.formatName) := by cbv
  cases hl : looksLikeFormat t with
  | false =>
      have hl : isFormat (dropLeading isBlank t.toList) = false := hl
      simpa [evaluated, Markup.expression, hl, Expr.compile] using htrim
  | true =>
      have hl : isFormat (dropLeading isBlank t.toList) = true := hl
      have hargument : ∀ x ∈ [(dropLeading isBlank t.toList, e)], Expr.compileChars x.1 = .ok x.2 := by
        simpa using htrim
      simpa [evaluated, Markup.expression, hl, Expr.compile] using
        Expr.compileChars_call hname hargument

end Header

/-- Actions on the heap in a row are one action. -/
theorem Rendering.onHeap_bind {α β : Type} (x : Action α) (k : α → Action β) :
    Rendering.onHeap (x >>= k) = Rendering.onHeap x >>= fun a => Rendering.onHeap (k a) := by
  refine ExceptT.ext (funext fun w => ?_)
  show exec (Rendering.onHeap (x >>= k)) w = exec (Rendering.onHeap x >>= _) w
  rw [exec_onHeap, exec_bind, exec_onHeap, Action.run_bind]
  rcases x.run.run w.heap with ⟨f | a, h⟩
  · rfl
  · exact (exec_onHeap (k a) { w with heap := h }).symm

section Contents

open Header

variable {eng : Engine} {builtins : Scope} {p : Place} {n : Node} {g : Group} {w t : String}
  {e : Expr}

/-- The value of the text that is evaluated, as it is put into markup. -/
theorem embedded_evaluated (hformat : builtins.lookup? Scope.formatName = some (.function .format))
    (hscope : p.scope.lookup? Scope.formatName = none) (ht : Expr.compile t = .ok e) :
    Expr.evaluation builtins p.scope n.position (.text (evaluated t)) >>= Action.embedded =
      e.evalIn (p.scope.names builtins) (evaluated t) n.position >>=
        Placeholders.single (looksLikeFormat t) := by
  have hname : p.scope.names builtins Scope.formatName = some (.function .format) := by
    rw [Scope.names, hscope, hformat]
  simp only [Expr.evaluation, Expr.source, Expr.evaluate, Expr.compiled, compile_evaluated ht,
    pure_bind]
  cases looksLikeFormat t with
  | false => exact bind_congr fun v => (Placeholders.single_false v).symm
  | true =>
      rw [if_pos rfl, Expr.evalIn_format hname]
      simp only [bind_assoc, pure_bind, Placeholders.embedded_text, bind_pure]

/-- **Single expressions.**  A content that is one expression evaluates it once, whether or not it
looks like a format, puts the form of its value into markup and escapes that.  It fails where the
expression fails.  The form is the usual one, unless the expression looks like a format and its value
is a text with two percent signs in a row. -/
theorem content_single (heng : eng.evaluation = Expr.evaluation builtins)
    (hformat : builtins.lookup? Scope.formatName = some (.function .format))
    (hscope : p.scope.lookup? Scope.formatName = none) (hn : n.unescaped = false)
    (hw : w.toList.all Text.isBlank = true) (hcontent : n.content = .text (w ++ "=" ++ t))
    (ht : Expr.compile t = .ok e) :
    (Render.content eng p n g = do
      Rendering.note (.evaluated eng.id p.scope n.position (.text (evaluated t)))
      let v ← Rendering.onHeap (e.evalIn (p.scope.names builtins) (evaluated t) n.position)
      let s ← Rendering.onHeap (Placeholders.single (looksLikeFormat t) v)
      return (← eng.escape (.text s), g.dynamic)) ∧
    (∀ v, Placeholders.single (looksLikeFormat t) v = Action.embedded v ↔
      ¬ (looksLikeFormat t = true ∧ ∃ s, v = .text s ∧ ['%', '%'] <:+: s.toList)) ∧
    (∀ (u : World) (f : Fault), ((e.eval (p.scope.names builtins)).run.run u.heap).1 = .error f →
      (Rendering.exec (Render.content eng p n g) u).1 =
        .error (Expr.located (evaluated t) n.position f)) := by
  have hcontent : Render.content eng p n g = do
      Rendering.note (.evaluated eng.id p.scope n.position (.text (evaluated t)))
      let v ← Rendering.onHeap (e.evalIn (p.scope.names builtins) (evaluated t) n.position)
      let s ← Rendering.onHeap (Placeholders.single (looksLikeFormat t) v)
      return (← eng.escape (.text s), g.dynamic) := by
    have hsearch : Markup.searchable n.content = .ok (w ++ "=" ++ t).toList := by
      rw [hcontent, Markup.searchable]
    simp only [Render.content, hn, Bool.false_eq_true, if_false, hsearch, Rendering.ofCause, pure_bind,
      expression?_append hw]
    calc _ = (do
            Rendering.note (.evaluated eng.id p.scope n.position (.text (evaluated t)))
            let s ← Rendering.onHeap
              (Expr.evaluation builtins p.scope n.position (.text (evaluated t)) >>= Action.embedded)
            return (← eng.escape (.text s), g.dynamic)) := by
          simp only [Rendering.onHeap_bind, Render.evaluate, Engine.evaluate, heng, bind_assoc]
          rfl
      _ = _ := by
          rw [embedded_evaluated hformat hscope ht]
          simp only [Rendering.onHeap_bind, bind_assoc]
  refine ⟨hcontent, fun v => Placeholders.single_eq_iff, fun u f hf => ?_⟩
  -- a failure of the expression is located at the node before anything is embedded
  have heval : ((e.evalIn (p.scope.names builtins) (evaluated t) n.position).run.run u.heap).1 =
      .error (Expr.located (evaluated t) n.position f) := by
    rw [Expr.evalIn, Action.run_tryCatch]
    rcases hr : (e.eval (p.scope.names builtins)).run.run u.heap with ⟨f' | v, h⟩ <;> rw [hr] at hf
    · obtain rfl := Except.error.inj hf
      rfl
    · cases hf
  rw [hcontent, Rendering.exec_bind_ok (Rendering.exec_note _ _), Rendering.exec_bind,
    Rendering.exec_onHeap]
  simp only [heval]

end Contents

namespace Single

open Header

open Samples (engine)

/-- The first item of a list that looks like a format with an argument. -/
def source (s : String) : String := " [\"" ++ s ++ "\", 1][0]"

/-- A tag with the first item of such a list. -/
def paragraph (s : String) : Node :=
  Samples.leaf 0 "p" ("" ++ "=" ++ source s)

/-- The compiled list. -/
def item (s : String) : Expr :=
  .factor (.list [.literal (.text s), .literal (.whole 1)]) [.index (.literal (.whole 0))]

theorem content_single_item :
    looksLikeFormat (source "50%") = true ∧
    (Render.content (engine 0) ⟨[], none⟩ (paragraph "50%") Group.start = do
      Rendering.note (.evaluated 0 [] .none (.text "__format([\"50%\", 1][0])"))
      let v ← Rendering.onHeap
        ((item "50%").evalIn (Scope.names [] Scope.builtin) "__format([\"50%\", 1][0])" .none)
      let s ← Rendering.onHeap (Placeholders.single true v)
      return (← (engine 0).escape (.text s), Group.start.dynamic)) ∧
    Placeholders.single true (.text "50%") = Action.embedded (.text "50%") := by
  have compiled : Expr.compile (source "50%") = .ok (item "50%") := by cbv
  have format : looksLikeFormat (source "50%") = true := by decide
  have language : (engine 0).evaluation = Expr.evaluation Scope.builtin := rfl
  obtain ⟨hcontent, hsame, -⟩ :=
    content_single (p := ⟨[], none⟩) (n := paragraph "50%") (g := Group.start) (w := "")
      (t := source "50%") language rfl rfl rfl rfl rfl compiled
  rw [format] at hcontent hsame
  exact ⟨format, hcontent, (hsame (.text "50%")).mpr (by simp; decide)⟩

set_option maxRecDepth 2000 in
/-- A percent sign is lost. -/
theorem content_doubled_percent :
    Expr.compile (source "50%% off") = .ok (item "50%% off") ∧
    (((item "50%% off").eval (Scope.names [] Scope.builtin)).run.run Heap.empty).1 =
      .ok (.text "50%% off") ∧
    (engine 0).config.escape (.text "50%% off") = .ok (.text "50%% off") ∧
    (Rendering.exec (Render.content (engine 0) ⟨[], none⟩ (paragraph "50%% off") Group.start)
      World.empty).1.map Prod.fst = .ok (.text "50% off") := by
  refine ⟨by cbv, by cbv, by cbv, by cbv⟩

end Single
end Trellis
