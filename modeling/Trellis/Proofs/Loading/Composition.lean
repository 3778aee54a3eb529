import Trellis.Proofs.Loading.Assignments
import Trellis.Proofs.Loading.Paths

/-!
# Proofs — Loading — Composition

How paths compose.  A path leads from a stack of names to another (`Path.along`), and two paths are
`Alike` if they have the same root and lead to the same stack.  Alike paths have the same normal
form, a path is alike its own normal form (`alike_normalChars`), and joining and going to the parent
keep paths alike.

So the canonical form is one of a joined path, whether the joining is done before or afterwards
(`alike_join_join`), and it is its own canonical form (`canonical_compose`).
-/

namespace Trellis.Path

open Rendering (exec)

variable {b : Bool} {s t d p : List Char} {st : List (List Char)}

/-! ### Where a path leads -/

/-- Where the components of a path lead from a stack of names. -/
def along (rooted : Bool) (st : List (List Char)) (s : List Char) : List (List Char) :=
  (components s).foldl (walk rooted) st

theorem along_nil : along b st [] = st :=
  rfl

/-- Going along two paths is going along the first and then the second. -/
theorem along_append (s t : List Char) :
    along b st (s ++ '/' :: t) = along b (along b st s) t := by
  rw [along, components_append, List.foldl_append]
  rfl

/-- A slash in front is an empty component. -/
theorem components_slash (s : List Char) : components ('/' :: s) = [] :: components s :=
  components_append [] s

/-- Slashes at the end lead nowhere else. -/
theorem along_slashes (ht : t.all (· = '/') = true) : along b st (s ++ t) = along b st s := by
  induction t generalizing s st with
  | nil => rw [List.append_nil]
  | cons c t ih =>
    obtain ⟨hc, ht⟩ : c = '/' ∧ t.all (· = '/') = true := by simpa using ht
    have hrest : along b (along b st s) ([] ++ t) = along b (along b st s) [] := ih ht
    rw [hc, along_append]
    rwa [List.nil_append, along_nil] at hrest

/-- A path without slashes is its only component. -/
theorem components_of_no_slash (h : '/' ∉ s) : components s = [s] := by
  rw [components_eq_splitOn, List.splitOn_eq_singleton h]

/-- A path without slashes is not absolute. -/
theorem relative_of_no_slash (h : '/' ∉ s) : isAbsolute s = false := by
  cases s with
  | nil => rfl
  | cons c s =>
    have hc : c ≠ '/' := fun he => h (he ▸ List.mem_cons_self)
    simpa [isAbsolute] using hc

theorem components_ne_nil (s : List Char) : components s ≠ [] := by
  rw [components_eq_splitOn]
  exact List.splitOn_ne_nil '/' s

/-! ### Roots -/

/-- A path is absolute if it has a root. -/
theorem isAbsolute_eq (s : List Char) : isAbsolute s = !(rootOf s).isEmpty := by
  cases s with
  | nil => rfl
  | cons c s =>
    by_cases hc : c = '/'
    · subst hc
      unfold rootOf
      split <;> simp_all [isAbsolute]
    · have hrelative : isAbsolute (c :: s) = false := by simpa [isAbsolute] using hc
      rw [rootOf_of_relative hrelative, hrelative]
      rfl

/-- The root is one slash or two. -/
theorem rootOf_of_absolute (h : isAbsolute s = true) :
    rootOf s = ['/'] ∨ rootOf s = ['/', '/'] := by
  have hne : (rootOf s).isEmpty = false := by simpa [isAbsolute_eq] using h
  unfold rootOf at hne ⊢
  split <;> simp_all

/-- The root is told by the slashes at the front. -/
theorem rootOf_append (h : (∃ c ∈ s, c ≠ '/') ∨ t.head? ≠ some '/') :
    rootOf (s ++ t) = rootOf s := by
  have hne (c : Char) (hc : c ≠ '/') (u : List Char) : rootOf (c :: u) = [] :=
    rootOf_of_relative (by simpa [isAbsolute] using hc)
  obtain _ | ⟨x, _ | ⟨y, _ | ⟨z, s⟩⟩⟩ := s
  · refine rootOf_of_relative ?_
    have ht : t.head? ≠ some '/' := h.resolve_left (by simp)
    simpa [isAbsolute] using ht
  · cases t <;> by_cases hx : x = '/' <;> simp_all [rootOf]
  · by_cases hx : x = '/'
    · by_cases hy : y = '/'
      · cases t <;> simp_all [rootOf]
      · simp_all [rootOf]
    · simp_all
  · by_cases hx : x = '/'
    · by_cases hy : y = '/'
      · by_cases hz : z = '/' <;> simp_all [rootOf]
      · simp_all [rootOf]
    · simp_all

/-! ### Joining -/

/-- An absolute path stands for itself, wherever it is written. -/
theorem join_of_absolute (ht : isAbsolute t = true) : join d t = t := by
  rw [join, if_pos ht]

/-- A relative path is joined by a slash, unless there is one already or nothing in front. -/
theorem join_cases (ht : isAbsolute t = false) :
    d = [] ∧ join d t = t ∨
      ∃ e, (d = e ∧ (∃ c ∈ e, c ≠ '/') ∨ d = e ++ ['/']) ∧ join d t = e ++ '/' :: t := by
  unfold join
  rw [ht, if_neg Bool.false_ne_true]
  by_cases hempty : d = []
  · exact .inl ⟨hempty, by simp [hempty]⟩
  · refine .inr ?_
    by_cases hlast : d.getLast? = some '/'
    · obtain ⟨e, rfl⟩ := List.getLast?_eq_some_iff.mp hlast
      exact ⟨e, .inr rfl, by simp⟩
    · refine ⟨d, .inl ⟨rfl, d.getLast hempty, List.getLast_mem hempty, fun h => hlast ?_⟩, ?_⟩
      · rw [List.getLast?_eq_some_getLast hempty, h]
      · simp [hempty, hlast]

/-- A relative path has the root of where it is written. -/
theorem rootOf_join (ht : isAbsolute t = false) : rootOf (join d t) = rootOf d := by
  have hhead : t.head? ≠ some '/' := by simpa [isAbsolute] using ht
  obtain ⟨rfl, hjoin⟩ | ⟨e, ⟨rfl, he⟩ | rfl, hjoin⟩ := join_cases (d := d) ht
  · rw [hjoin, rootOf_of_relative ht]
    rfl
  · rw [hjoin, rootOf_append (.inl he)]
  · rw [hjoin, List.append_cons, rootOf_append (.inr hhead)]

/-- Going along a joined path is going along both parts. -/
theorem along_join (ht : isAbsolute t = false) :
    along b st (join d t) = along b (along b st d) t := by
  obtain ⟨rfl, hjoin⟩ | ⟨e, ⟨rfl, -⟩ | rfl, hjoin⟩ := join_cases (d := d) ht
  · rw [hjoin, along_nil]
  · rw [hjoin, along_append]
  · rw [hjoin, along_append, along_slashes (t := ['/']) rfl]

/-- The last component is that of the path that is written. -/
theorem getLast?_components_join (ht : isAbsolute t = false) :
    (components (join d t)).getLast? = (components t).getLast? := by
  obtain ⟨-, hjoin⟩ | ⟨e, -, hjoin⟩ := join_cases (d := d) ht
  · rw [hjoin]
  · obtain ⟨c, hc⟩ := Option.ne_none_iff_exists'.mp
      (mt List.getLast?_eq_none_iff.mp (components_ne_nil t))
    rw [hjoin, components_append, List.getLast?_append, hc]
    rfl

/-! ### Parents -/

/-- Behind the parent stand slashes and the last component. -/
theorem exists_parent (s : List Char) : ∃ t c, s = join (parent s ++ t) c ∧ '/' ∉ c ∧
    t.all (· = '/') = true ∧ ((∃ x ∈ parent s, x ≠ '/') ∨ t = []) := by
  have hsplit : s = (s.reverse.dropWhile (· ≠ '/')).reverse ++
      (s.reverse.takeWhile (· ≠ '/')).reverse := by
    rw [← List.reverse_append, List.takeWhile_append_dropWhile, List.reverse_reverse]
  have hname : '/' ∉ (s.reverse.takeWhile (· ≠ '/')).reverse := by
    intro h
    simpa using List.mem_takeWhile_imp (List.mem_reverse.mp h)
  have hlast : ∀ c ∈ (s.reverse.dropWhile (· ≠ '/')).reverse.getLast?, c = '/' := by
    intro c hc
    rw [List.getLast?_reverse] at hc
    have := List.head?_dropWhile_not (fun x => decide (x ≠ '/')) s.reverse
    rw [hc] at this
    simpa using this
  -- the text is cut behind its last slash, with slashes at the end of the front
  unfold parent
  generalize (s.reverse.dropWhile (· ≠ '/')).reverse = front at hsplit hlast ⊢
  generalize (s.reverse.takeWhile (· ≠ '/')).reverse = c at hsplit hname
  have hrelative := relative_of_no_slash hname
  have hjoin : join front c = s := by
    rw [join, hrelative, if_neg Bool.false_ne_true, if_pos, hsplit]
    cases hf : front.getLast? with
    | none => simp [List.getLast?_eq_none_iff.mp hf]
    | some x => simp [hlast x hf]
  -- a front of slashes is kept, from any other they are taken
  by_cases hall : front.all (· = '/') = true
  · refine ⟨[], c, ?_, hname, rfl, .inr rfl⟩
    simp only [hall, if_true, List.append_nil, hjoin]
  · obtain ⟨slashes, hfront, hslashes, hx⟩ :=
      Text.exists_dropLeading (· = '/') front.reverse
    have hcut : front = Text.dropTrailing (· = '/') front ++ slashes.reverse := by
      rw [Text.dropTrailing, ← List.reverse_append]
      exact List.reverse_eq_iff.mp hfront
    rw [if_neg hall]
    refine ⟨slashes.reverse, c, ?_, hname, by rwa [List.all_reverse], .inl ?_⟩
    · rw [← hcut, hjoin]
    · by_contra hnone
      refine hall ?_
      rw [hcut, List.all_append, List.all_reverse, hslashes, Bool.and_true, List.all_eq_true]
      intro x hx
      by_contra hne
      exact hnone ⟨x, hx, by simpa using hne⟩

/-- From its parent a path leads one component further. -/
theorem along_parent (s : List Char) : ∃ c, (components s).getLast? = some c ∧
    rootOf s = rootOf (parent s) ∧ ∀ b st, along b st s = walk b (along b st (parent s)) c := by
  obtain ⟨t, c, hs, hc, ht, hroot⟩ := exists_parent s
  have hcomponents := components_of_no_slash hc
  have hrelative := relative_of_no_slash hc
  refine ⟨c, ?_, ?_, fun b st => ?_⟩
  · rw [hs, getLast?_components_join hrelative, hcomponents]
    rfl
  · calc rootOf s = rootOf (parent s ++ t) := (congrArg rootOf hs).trans (rootOf_join hrelative)
      _ = rootOf (parent s) := by
        rcases hroot with hroot | rfl
        · exact rootOf_append (.inl hroot)
        · rw [List.append_nil]
  · calc along b st s = along b (along b st (parent s ++ t)) c :=
          (congrArg (along b st) hs).trans (along_join hrelative)
      _ = walk b (along b st (parent s)) c := by
        rw [along_slashes ht, along, hcomponents]
        rfl

/-! ### Normal forms -/

/-- A stack that a walk can lead to: names, and below them as many `..` as lead above the start, of
which there are none at a root. -/
inductive Risen (rooted : Bool) : List (List Char) → Prop where
  | nil : Risen rooted []
  | name {c : List Char} {st : List (List Char)} (hc : IsName c) (h : Risen rooted st) :
      Risen rooted (c :: st)
  | up {st : List (List Char)} (hrooted : rooted = false) (hst : ∀ d ∈ st.head?, d = up)
      (h : Risen rooted st) : Risen rooted (up :: st)

namespace Risen

/-- A stack that has risen stays so by one component. -/
theorem walk (h : Risen b st) {c : List Char} (hc : '/' ∉ c) : Risen b (walk b st c) := by
  unfold Path.walk
  by_cases hhere : c = [] ∨ c = ['.']
  · simpa [hhere] using h
  · rw [if_neg (by simpa using hhere)]
    obtain ⟨hempty, hhere⟩ := not_or.mp hhere
    by_cases hup : c = Path.up
    · rw [if_pos hup]
      cases h with
      | nil =>
        cases b with
        | true => exact .nil
        | false => exact .up rfl (fun _ hd => nomatch hd) .nil
      | name hd h =>
        simpa [hd.not_up] using h
      | @up st hrooted hst h =>
        have htop : ∀ d ∈ (Path.up :: st).head?, d = Path.up :=
          fun d hd => (Option.mem_some.mp hd).symm
        simpa using Risen.up hrooted htop (.up hrooted hst h)
    · rw [if_neg hup]
      exact .name ⟨⟨hempty, hc⟩, hhere, hup⟩ h

/-- So it does along a whole path. -/
theorem along (h : Risen b st) (s : List Char) : Risen b (along b st s) := by
  unfold Path.along
  have hcs : ∀ c ∈ components s, '/' ∉ c := fun c hc => slash_not_mem_components hc
  generalize components s = cs at hcs
  induction cs generalizing st with
  | nil => exact h
  | cons c cs ih =>
    obtain ⟨hc, hcs⟩ := List.forall_mem_cons.mp hcs
    exact ih (h.walk hc) hcs

/-- What is on such a stack are parts of paths. -/
theorem parts (h : Risen b st) : ∀ c ∈ st, IsPart c := by
  induction h with
  | nil => exact fun _ hc => nomatch hc
  | name hc _ ih => exact List.forall_mem_cons.mpr ⟨hc.toIsPart, ih⟩
  | up _ _ _ ih => exact List.forall_mem_cons.mpr ⟨⟨by decide, by decide⟩, ih⟩

/-- A walk along the components of such a stack leads to it again. -/
theorem replay (h : Risen b st) : st.reverse.foldl (Path.walk b) [] = st := by
  induction h with
  | nil => rfl
  | @name c st hc _ ih =>
    rw [List.reverse_cons, List.foldl_append, ih]
    simp [Path.walk, hc.nonempty, hc.not_here, hc.not_up]
  | @up st hrooted hst _ ih =>
    rw [List.reverse_cons, List.foldl_append, ih, hrooted]
    exact (Walks.bottom hst).eq

end Risen

/-- A path with a root in normal form is the root and what is walked along the path. -/
theorem normalChars_of_absolute (h : isAbsolute s = true) :
    normalChars s = rootOf s ++ ['/'].intercalate (along true [] s).reverse := by
  have hroot : (rootOf s).isEmpty = false := by simpa [isAbsolute_eq] using h
  unfold normalChars normalComponents
  rw [hroot]
  have hne : rootOf s ≠ [] := by simpa using hroot
  simp [along, hne]

/-- Parts with slashes between them do not begin with a slash. -/
theorem head?_intercalate {cs : List (List Char)} (h : ∀ c ∈ cs, IsPart c) :
    (['/'].intercalate cs).head? ≠ some '/' := by
  by_cases hne : cs = []
  · simp [hne]
  · simpa [spell, hne, isAbsolute] using isAbsolute_spell h

/-- The components of a path in normal form are, behind the root, what is walked along the path. -/
theorem components_normalChars (s : List Char) : ∃ front, (∀ c ∈ front, c = []) ∧
    components (normalChars s) = front ++
      if along (isAbsolute s) [] s = [] then [if isAbsolute s then [] else ['.']]
      else (along (isAbsolute s) [] s).reverse := by
  have hrisen : Risen (isAbsolute s) (along (isAbsolute s) [] s) := Risen.nil.along s
  have hparts : ∀ c ∈ (along (isAbsolute s) [] s).reverse, IsPart c :=
    fun c hc => hrisen.parts c (List.mem_reverse.mp hc)
  cases h : isAbsolute s with
  | false =>
    rw [h] at hparts
    refine ⟨[], by simp, ?_⟩
    have hspell := components_spell hparts
    rw [normalChars_of_relative h]
    simpa [stack, along] using hspell
  | true =>
    rw [h] at hparts
    rw [normalChars_of_absolute h]
    have hspelt : components (['/'].intercalate (along true [] s).reverse) =
        if along true [] s = [] then [[]] else (along true [] s).reverse := by
      split
      · next hnil =>
        rw [hnil]
        rfl
      · next hne =>
        exact components_intercalate (fun c hc => (hparts c hc).no_slash) (by simpa using hne)
    -- a root of one slash or of two, with an empty component for each
    rcases rootOf_of_absolute h with hroot | hroot
    · refine ⟨[[]], by simp, ?_⟩
      rw [hroot, List.cons_append, List.nil_append, components_slash, hspelt]
      rfl
    · refine ⟨[[], []], by simp, ?_⟩
      rw [hroot, List.cons_append, List.cons_append, List.nil_append, components_slash,
        components_slash, hspelt]
      rfl

/-! ### Alike paths -/

/-- The paths have the same root and lead to the same stack. -/
structure Alike (s t : List Char) : Prop where
  root : rootOf s = rootOf t
  stack : along (isAbsolute s) [] s = along (isAbsolute s) [] t

namespace Alike

/-- Paths that are alike are absolute together. -/
theorem isAbsolute (h : Alike s t) : isAbsolute s = Path.isAbsolute t := by
  rw [isAbsolute_eq, isAbsolute_eq, h.root]

/-- What is alike to a third one between is alike. -/
theorem trans {u : List Char} (h : Alike s t) (h' : Alike t u) : Alike s u :=
  ⟨h.root.trans h'.root, h.stack.trans (h.isAbsolute ▸ h'.stack)⟩

theorem symm (h : Alike s t) : Alike t s :=
  ⟨h.root.symm, h.isAbsolute ▸ h.stack.symm⟩

/-- Alike paths have the same normal form. -/
theorem normalChars (h : Alike s t) : normalChars s = normalChars t := by
  have hstack := h.stack
  rw [isAbsolute_eq] at hstack
  unfold along at hstack
  unfold Path.normalChars normalComponents
  rw [hstack, h.root]

/-- Joining a relative path to alike ones gives alike ones. -/
theorem join (h : Alike s t) (hp : Path.isAbsolute p = false) : Alike (join s p) (join t p) := by
  have hroot : rootOf (Path.join s p) = rootOf s := rootOf_join hp
  refine ⟨?_, ?_⟩
  · rw [hroot, rootOf_join hp, h.root]
  · rw [isAbsolute_eq, hroot, ← isAbsolute_eq, along_join hp, along_join hp, h.stack]

/-- Alike paths that end with names have alike parents. -/
theorem parent (h : Alike s t) (hs : ∀ c ∈ (components s).getLast?, IsName c)
    (ht : ∀ c ∈ (components t).getLast?, IsName c) : Alike (parent s) (parent t) := by
  obtain ⟨c, hc, hroot, hstep⟩ := along_parent s
  obtain ⟨c', hc', hroot', hstep'⟩ := along_parent t
  have name {c : List Char} (hc : IsName c) (b : Bool) (st : List (List Char)) :
      walk b st c = c :: st := by
    simp [walk, hc.nonempty, hc.not_here, hc.not_up]
  refine ⟨by rw [← hroot, ← hroot', h.root], ?_⟩
  have hstack := h.stack
  rw [hstep, hstep', name (hs c hc), name (ht c' hc')] at hstack
  rw [isAbsolute_eq, ← hroot, ← isAbsolute_eq]
  exact (List.cons.inj hstack).2

end Alike

/-- **A path is alike its normal form.** -/
theorem alike_normalChars (s : List Char) : Alike (normalChars s) s := by
  have hrisen : Risen (isAbsolute s) (along (isAbsolute s) [] s) := Risen.nil.along s
  have hroot : rootOf (normalChars s) = rootOf s := by
    have hparts : ∀ c ∈ (along (isAbsolute s) [] s).reverse, IsPart c :=
      fun c hc => hrisen.parts c (List.mem_reverse.mp hc)
    cases h : isAbsolute s with
    | false =>
      rw [normalChars_of_relative h, rootOf_of_relative h]
      rw [h] at hparts
      exact rootOf_of_relative (isAbsolute_spell hparts)
    | true =>
      rw [h] at hparts
      rw [normalChars_of_absolute h, rootOf_append (.inr (head?_intercalate hparts))]
      rcases rootOf_of_absolute h with hroot | hroot <;> rw [hroot] <;> rfl
  refine ⟨hroot, ?_⟩
  rw [isAbsolute_eq, hroot, ← isAbsolute_eq]
  obtain ⟨front, hfront, hcomponents⟩ := components_normalChars s
  -- the empty components of the root do not move the walk
  have hskip : front.foldl (walk (isAbsolute s)) [] = [] := by
    rw [List.eq_replicate_of_mem hfront]
    induction front.length with
    | zero => rfl
    | succ n ih => exact ih
  rw [along, hcomponents, List.foldl_append, hskip]
  split
  · next hnil =>
    rw [hnil]
    cases isAbsolute s <;> rfl
  · exact hrisen.replay

/-! ### Canonical forms -/

/-- The directory that paths in a file at a location are joined to. -/
def base (location : Option String) : List Char :=
  parent (location.getD "").toList

/-- The canonical path is the normal form of the joined one. -/
theorem canonical_eq (s : String) (location : Option String) :
    canonical s location = String.ofList (normalChars (join (base location) s.toList)) := by
  have hnone : join (base none) s.toList = s.toList := by
    unfold join
    split
    · rfl
    · rfl
  cases location with
  | none => rw [hnone]; rfl
  | some l =>
    by_cases hl : l = ""
    · subst hl
      exact (congrArg (fun t => String.ofList (normalChars t)) hnone).symm
    · unfold canonical
      by_cases hs : isAbsolute s.toList = true
      · rw [join_of_absolute hs]
        simp [hs, Path.normal]
      · simp [hs, hl, base]

/-- The path of a file: its last component names something. -/
def NamesFile (s : String) : Prop :=
  ∀ c ∈ (components s.toList).getLast?, c ≠ [] ∧ c ≠ ['.'] ∧ c ≠ up

instance (s : String) : Decidable (NamesFile s) :=
  inferInstanceAs (Decidable (∀ c ∈ (components s.toList).getLast?, c ≠ [] ∧ c ≠ ['.'] ∧ c ≠ up))

/-- The last component of a path that names a file is a name. -/
theorem NamesFile.isName {s : String} (h : NamesFile s) :
    ∀ c ∈ (components s.toList).getLast?, IsName c := by
  intro c hc
  obtain ⟨hempty, hhere, hup⟩ := h c hc
  exact ⟨⟨hempty, slash_not_mem_components (List.mem_of_getLast? hc)⟩, hhere, hup⟩

/-- The last component of a normal form names something if that of the path does. -/
theorem isName_of_normalChars (h : ∀ c ∈ (components s).getLast?, IsName c) :
    ∀ c ∈ (components (normalChars s)).getLast?, IsName c := by
  obtain ⟨c, hc, -, hstep⟩ := along_parent s
  have hname := h c hc
  have hstack : along (isAbsolute s) [] s = c :: along (isAbsolute s) [] (parent s) := by
    rw [hstep]
    simp [walk, hname.nonempty, hname.not_here, hname.not_up]
  obtain ⟨front, -, hcomponents⟩ := components_normalChars s
  intro d hd
  rw [hcomponents, hstack] at hd
  obtain rfl : c = d := by simpa using hd
  exact hname

/-- In the directory of a file in a directory, a path is what it is in the joined one. -/
theorem alike_join_join {q : List Char} (hp : isAbsolute p = false)
    (hname : ∀ c ∈ (components p).getLast?, IsName c) (hq : isAbsolute q = false) :
    Alike (join (parent (join d p)) q) (join d (join (parent p) q)) := by
  obtain ⟨c, hc, hroot, hstep⟩ := along_parent p
  obtain ⟨c', hc', hroot', hstep'⟩ := along_parent (join d p)
  have hrelative : isAbsolute (parent p) = false := by
    rw [isAbsolute_eq, ← hroot, ← isAbsolute_eq, hp]
  have hjoined : isAbsolute (join (parent p) q) = false := by
    rw [isAbsolute_eq, rootOf_join hq, ← isAbsolute_eq, hrelative]
  have hdir : Alike (parent (join d p)) (join d (parent p)) := by
    obtain rfl : c = c' := by
      rw [getLast?_components_join hp, hc] at hc'
      exact Option.some.inj hc'
    have hname := hname c hc
    refine ⟨by rw [← hroot', rootOf_join hp, rootOf_join hrelative], ?_⟩
    -- both come from the one path by leaving the name at its end
    generalize isAbsolute (parent (join d p)) = b
    have hwalk := hstep' b []
    rw [along_join hp, hstep] at hwalk
    rw [along_join hrelative]
    simpa [walk, hname.nonempty, hname.not_here, hname.not_up] using hwalk.symm
  refine (hdir.join hq).trans ⟨?_, ?_⟩
  · rw [rootOf_join hq, rootOf_join hrelative, rootOf_join hjoined]
  · rw [along_join hq, along_join hrelative, along_join hjoined, along_join hq]

/-- **Paths compose.**  In a file at a canonical path, a path means what it means joined to the
directory of that path; a loader finds the same there.  A canonical path means itself. -/
theorem canonical_compose {p : String} (hp : NamesFile p) (q : String) (location : Option String) :
    let joined := String.ofList (join (parent p.toList) q.toList)
    canonical q (some (canonical p location)) = canonical joined location ∧
    (∀ (w : World) (number : Nat) (t : Sources) (wanted : Wanted), w.loader number = .sources t →
      (exec (Engine.load number q (some (canonical p location)) wanted) w).1.toOption =
        (exec (Engine.load number joined location wanted) w).1.toOption) ∧
    ∀ (r : String) (l : Option String), canonical (canonical r l) none = canonical r l := by
  intro joined
  have hmeans : canonical q (some (canonical p location)) = canonical joined location := by
    rw [canonical_eq q, canonical_eq p, canonical_eq joined, base, Option.getD_some,
      String.toList_ofList, String.toList_ofList]
    generalize base location = d
    congr 1
    by_cases hq : isAbsolute q.toList = true
    · rw [join_of_absolute hq, join_of_absolute hq, join_of_absolute hq]
    · have hq : isAbsolute q.toList = false := by simpa using hq
      have hname : ∀ c ∈ (components (join d p.toList)).getLast?, IsName c := by
        by_cases habsolute : isAbsolute p.toList = true
        · rw [join_of_absolute habsolute]
          exact hp.isName
        · rw [getLast?_components_join (by simpa using habsolute)]
          exact hp.isName
      have hfile : Alike (join (parent (normalChars (join d p.toList))) q.toList)
          (join (parent (join d p.toList)) q.toList) :=
        ((alike_normalChars _).parent (isName_of_normalChars hname) hname).join hq
      refine hfile.normalChars.trans ?_
      by_cases habsolute : isAbsolute p.toList = true
      · have hparent : isAbsolute (join (parent p.toList) q.toList) = true := by
          obtain ⟨-, -, hroot, -⟩ := along_parent p.toList
          rw [isAbsolute_eq, rootOf_join hq, ← hroot, ← isAbsolute_eq, habsolute]
        rw [join_of_absolute habsolute, join_of_absolute hparent]
      · exact (alike_join_join (by simpa using habsolute) hp.isName hq).normalChars
  refine ⟨hmeans, fun w number t wanted hw => ?_, fun r l => ?_⟩
  · rw [(Loader.load_left hw q _ wanted).1, (Loader.load_left hw joined _ wanted).1, hmeans]
    cases (t.load (canonical joined location)).run w.nextNode with
    | error f => rfl
    | ok r =>
      -- the request as it was made shows in complaints only
      show (Loader.serve _ _ _ r.1.1).toOption = (Loader.serve _ _ _ r.1.1).toOption
      cases r.1.1 <;> cases wanted <;> rfl
  · rw [canonical_eq r, canonical, Path.normal, String.toList_ofList]
    exact congrArg String.ofList (alike_normalChars _).normalChars

/-- A path out of the directory of an included file, which stands above that of the first one. -/
theorem canonical_compose_upwards :
    NamesFile "../x//y.min" ∧ canonical "../x//y.min" (some "//a/b") = "//x/y.min" ∧
    canonical "../../c" (some "//x/y.min") =
      canonical (String.ofList (join (parent "../x//y.min".toList) "../../c".toList))
        (some "//a/b") ∧
    canonical (canonical "../../c" (some "//x/y.min")) none =
      canonical "../../c" (some "//x/y.min") := by
  have hfile : NamesFile "../x//y.min" := by decide
  have hincluded : canonical "../x//y.min" (some "//a/b") = "//x/y.min" := by decide
  have hmeans := canonical_compose hfile "../../c" (some "//a/b")
  rw [hincluded] at hmeans
  exact ⟨hfile, hincluded, hmeans.1, hmeans.2.2 "../../c" (some "//x/y.min")⟩

end Trellis.Path
