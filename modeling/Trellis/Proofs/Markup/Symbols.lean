import Mathlib.Data.List.TakeWhile
import Trellis.Tree.Symbol

/-!
# Proofs — Markup — Symbols

Symbols of tags, taken apart.  Every symbol is in one way a front and marks, each with a name behind
it, where neither the front nor the names have marks in them (`IsCut`).  Names may be empty.

The parts of a symbol that count are found by a search for a mark with at least one other character
behind it, over and over from where the last one ended (`parts_eq_found`): marks with nothing behind
them are passed over.  So the tag of a symbol is read off the one way to cut it
(`ofSymbol_of_cut`).
-/

namespace Trellis.Tag

variable {s t : List Char} {ps : List (Char × List Char)}

/-- There are no marks in a text. -/
def Unmarked (s : List Char) : Prop :=
  ∀ c ∈ s, isMark c = false

/-- The marks and names of a symbol, as they are written. -/
def written (ps : List (Char × List Char)) : List Char :=
  ps.flatMap fun p => p.1 :: p.2

/-- A symbol is cut at its marks: a front, and marks each with a name behind it. -/
structure IsCut (s t : List Char) (ps : List (Char × List Char)) : Prop where
  whole : s = t ++ written ps
  front : Unmarked t
  marks : ∀ p ∈ ps, isMark p.1 = true
  names : ∀ p ∈ ps, Unmarked p.2

/-! ### There is one cut -/

theorem cut_append (ht : Unmarked t) (s : List Char) :
    cut (t ++ s) = (t ++ (cut s).1, (cut s).2) := by
  induction t with
  | nil => rfl
  | cons c t ih =>
    obtain ⟨hc, ht⟩ := List.forall_mem_cons.mp ht
    rw [List.cons_append, cut, ih ht]
    simp [hc]

theorem cut_written (hmarks : ∀ p ∈ ps, isMark p.1 = true) (hnames : ∀ p ∈ ps, Unmarked p.2) :
    cut (written ps) = ([], ps) := by
  induction ps with
  | nil => rfl
  | cons p ps ih =>
    obtain ⟨hmark, hmarks⟩ := List.forall_mem_cons.mp hmarks
    obtain ⟨hname, hnames⟩ := List.forall_mem_cons.mp hnames
    have hwritten : written (p :: ps) = p.1 :: (p.2 ++ written ps) := rfl
    rw [hwritten, cut, cut_append hname, ih hmarks hnames]
    simp [hmark]

theorem IsCut.cut_eq (h : IsCut s t ps) : cut s = (t, ps) := by
  rw [h.whole, cut_append h.front, cut_written h.marks h.names, List.append_nil]

theorem isCut_cut (s : List Char) : IsCut s (cut s).1 (cut s).2 := by
  induction s with
  | nil => exact ⟨rfl, nofun, nofun, nofun⟩
  | cons c s ih =>
    cases hc : isMark c with
    | true =>
      have hcut : cut (c :: s) = ([], (c, (cut s).1) :: (cut s).2) := by simp [cut, hc]
      rw [hcut]
      refine ⟨congrArg (c :: ·) ih.whole, nofun, ?_, ?_⟩
      · exact List.forall_mem_cons.mpr ⟨hc, ih.marks⟩
      · exact List.forall_mem_cons.mpr ⟨ih.front, ih.names⟩
    | false =>
      have hcut : cut (c :: s) = (c :: (cut s).1, (cut s).2) := by simp [cut, hc]
      rw [hcut]
      exact ⟨congrArg (c :: ·) ih.whole, List.forall_mem_cons.mpr ⟨hc, ih.front⟩, ih.marks,
        ih.names⟩

/-- **There is one way to cut a symbol at its marks.** -/
theorem isCut_iff : IsCut s t ps ↔ cut s = (t, ps) := by
  refine ⟨IsCut.cut_eq, fun h => ?_⟩
  have hcut := isCut_cut s
  rwa [h] at hcut

/-! ### Searching -/

/-- What stands in front of the first mark. -/
def upToMark (s : List Char) : List Char :=
  s.takeWhile fun c => !isMark c

/-- What is left from the first mark on. -/
def fromMark (s : List Char) : List Char :=
  s.dropWhile fun c => !isMark c

/-- The marks with at least one other character behind them, with all other characters up to the
next mark: from the left, each searched for behind the last. -/
def found : List Char → List (Char × List Char)
  | [] => []
  | c :: s =>
    if isMark c && !(upToMark s).isEmpty then (c, upToMark s) :: found (fromMark s) else found s
termination_by s => s.length
decreasing_by
  · exact Nat.lt_succ_of_le (List.length_dropWhile_le _ s)
  · exact Nat.lt_succ_self _

/-- The cut is at the first mark. -/
theorem cut_eq_upToMark (s : List Char) : cut s = (upToMark s, (cut (fromMark s)).2) := by
  have hfront : Unmarked (upToMark s) := fun c hc => by simpa using List.mem_takeWhile_imp hc
  have hbehind : (cut (fromMark s)).1 = [] := by
    cases hs : fromMark s with
    | nil => rfl
    | cons c r =>
      have hc := List.head?_dropWhile_not (fun c => !isMark c) s
      rw [show s.dropWhile (fun c => !isMark c) = c :: r from hs] at hc
      have hc : isMark c = true := by simpa using hc
      simp [cut, hc]
  have hwhole : upToMark s ++ fromMark s = s := List.takeWhile_append_dropWhile
  calc cut s = cut (upToMark s ++ fromMark s) := by rw [hwhole]
    _ = (upToMark s ++ (cut (fromMark s)).1, (cut (fromMark s)).2) := cut_append hfront _
    _ = (upToMark s, (cut (fromMark s)).2) := by rw [hbehind, List.append_nil]

/-- **The parts that count are found by searching.**  By induction on what is left to search. -/
theorem parts_eq_found (s : List Char) : parts s = found s := by
  induction s using found.induct with
  | case1 =>
    rw [found]
    rfl
  | case2 c s hfound ih =>
    obtain ⟨hc, hname⟩ := Bool.and_eq_true_iff.mp hfound
    rw [found, if_pos hfound, ← ih, parts, cut, cut_eq_upToMark s]
    simp [hc, hname, parts]
  | case3 c s hnone ih =>
    rw [found, if_neg hnone, ← ih, parts, cut]
    cases hc : isMark c with
    | true =>
      -- a mark with nothing behind it is passed over
      have hname : (upToMark s).isEmpty = true := by simpa [hc] using hnone
      have hfront : (cut s).1.isEmpty = true := by rwa [cut_eq_upToMark s]
      simp [hfront, parts]
    | false => simp [parts]

/-! ### The tag -/

/-- The names behind a mark that are not empty, in order. -/
def named (mark : Char) (ps : List (Char × List Char)) : List String :=
  (ps.filter fun p => p.1 = mark ∧ p.2 ≠ []).map fun p => String.ofList p.2

theorem behind_parts (mark : Char) (s : List Char) :
    behind mark (parts s) = named mark (cut s).2 := by
  have hfilter (p : Char × List Char) :
      (decide (p.1 = mark) && !p.2.isEmpty) = decide (p.1 = mark ∧ p.2 ≠ []) := by
    cases p.2 <;> simp
  rw [behind, parts, List.filter_filter, named]
  simp only [hfilter]

/-- **A symbol is split without loss.**  It is in one way a front and marks with names behind them,
and the parts that count are what the search for a mark and a name finds.  The front is the name of
the tag, which is `div` if the front is empty; the last name behind a hash that is not empty is the
identity; and the names behind dots that are not empty are the classes, in order with a blank
between each two. -/
theorem ofSymbol_of_cut (s : String) :
    ∃ t ps, (∀ t' ps', IsCut s.toList t' ps' ↔ t' = t ∧ ps' = ps) ∧
      found s.toList = ps.filter (fun p => p.2 ≠ []) ∧
      ∃ tag, ofValue (.text s) = .ok tag ∧
        tag.name = (if t = [] then "div" else String.ofList t) ∧
        tag.identity = (named '#' ps).getLast? ∧
        tag.classText =
          if named '.' ps = [] then none else some (" ".intercalate (named '.' ps)) := by
  refine ⟨(cut s.toList).1, (cut s.toList).2, fun t' ps' => ?_, ?_, ofSymbol s, rfl, ?_, ?_, ?_⟩
  · rw [isCut_iff, eq_comm, Prod.ext_iff]
  · rw [← parts_eq_found, parts]
    refine List.filter_congr fun p _ => ?_
    cases p.2 <;> rfl
  · simp only [ofSymbol, List.isEmpty_iff]
    rfl
  · rw [← behind_parts]
    rfl
  · rw [← behind_parts]
    simp only [classText, ofSymbol, List.isEmpty_iff]

/-- Marks that follow each other, a mark at the end, and the identity twice. -/
example : ofSymbol "a.#x..b#y.#" = ⟨"a", some "y", ["b"]⟩ := by decide

end Trellis.Tag
