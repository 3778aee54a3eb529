import Trellis.Path
import Trellis.Proofs.Text.Cutting

/-!
# Proofs — Loading — Paths

Paths in a directory.  A path is `Local` if it is relative, not `.` and does not start with the
component `..`, and `Inside` if it is in normal form too: it spells some names (`Inside.names`).  In
a directory that is spelt by names itself (`Directory`) it gets these in front (`relocate_names`).

The canonical form of a path in a file inside moves along with the file, as long as it stays inside
(`canonical_relocate`).  This rests on the walk along the components: a `..` that has come to the
bottom never goes away (`up_mem_foldl_walk`), so a walk without one at its end never looks below its
start (`foldl_walk_append`).
-/

namespace Trellis.Path

/-! ### Components -/

/-- The components of a path are what stands between slashes. -/
theorem components_eq_splitOn (s : List Char) : components s = s.splitOn '/' :=
  Text.splitOn_singleton '/' s

/-- A slash separates components. -/
theorem components_append (s t : List Char) :
    components (s ++ '/' :: t) = components s ++ components t := by
  simp only [components_eq_splitOn]
  exact List.splitOn_append_cons_self s t

/-- Components without slashes are read back from the path that they make. -/
theorem components_intercalate {cs : List (List Char)} (h : ∀ c ∈ cs, '/' ∉ c) (hne : cs ≠ []) :
    components (['/'].intercalate cs) = cs := by
  rw [components_eq_splitOn]
  exact List.splitOn_intercalate '/' h hne

/-- There is no slash in a component. -/
theorem slash_not_mem_components {s c : List Char} (h : c ∈ components s) : '/' ∉ c := by
  rw [components_eq_splitOn] at h
  induction s generalizing c with
  | nil =>
    obtain rfl := List.mem_singleton.mp h
    simp
  | cons d s ih =>
    rw [List.splitOn_cons_eq_if_modifyHead] at h
    split at h
    · rcases List.mem_cons.mp h with rfl | h
      · simp
      · exact ih h
    · next hd =>
      have hd : d ≠ '/' := by simpa using hd
      generalize hs : s.splitOn '/' = ps at h ih
      cases ps with
      | nil => cases h
      | cons p ps =>
        rcases List.mem_cons.mp h with rfl | h
        · simpa [Ne.symm hd] using ih List.mem_cons_self
        · exact ih (List.mem_cons_of_mem _ h)

/-! ### Walks -/

/-- The names walked along the components of a relative path, last first. -/
def stack (s : List Char) : List (List Char) :=
  (components s).foldl (walk false) []

/-- A component that is not empty. -/
structure IsPart (c : List Char) : Prop where
  nonempty : c ≠ []
  no_slash : '/' ∉ c

/-- A component that names something. -/
structure IsName (c : List Char) : Prop extends IsPart c where
  not_here : c ≠ ['.']
  not_up : c ≠ up

theorem IsName.parts {cs : List (List Char)} (h : ∀ c ∈ cs, IsName c) : ∀ c ∈ cs, IsPart c :=
  fun c hc => (h c hc).toIsPart

/-- What one component makes of a stack. -/
inductive Walks : List (List Char) → List Char → List (List Char) → Prop where
  | here {st : List (List Char)} {c : List Char} (h : c = [] ∨ c = ['.']) : Walks st c st
  | into {st : List (List Char)} {c : List Char} (hempty : c ≠ []) (hhere : c ≠ ['.'])
      (hup : c ≠ up) : Walks st c (c :: st)
  | out {d : List Char} {ds : List (List Char)} (h : d ≠ up) : Walks (d :: ds) up ds
  /-- There is nothing to leave. -/
  | bottom {st : List (List Char)} (h : ∀ d ∈ st.head?, d = up) : Walks st up (up :: st)

/-- A walk leads to one stack only. -/
theorem Walks.eq {st st' : List (List Char)} {c : List Char} (h : Walks st c st') :
    walk false st c = st' := by
  cases h with
  | here h => simp [walk, h]
  | into hempty hhere hup => simp [walk, hempty, hhere, hup]
  | @out d _ h =>
    show (if d = up then up :: d :: st' else st') = st'
    rw [if_neg h]
  | bottom h =>
    cases st with
    | nil => rfl
    | cons d ds => simp [walk, up, h d rfl]

/-- Every component walks somewhere. -/
theorem walks (st : List (List Char)) (c : List Char) : Walks st c (walk false st c) := by
  have hstep {st' : List (List Char)} (h : Walks st c st') : Walks st c (walk false st c) :=
    h.eq ▸ h
  by_cases hhere : c = [] ∨ c = ['.']
  · exact hstep (.here hhere)
  · obtain ⟨hempty, hhere⟩ := not_or.mp hhere
    by_cases hup : c = up
    · subst hup
      cases st with
      | nil => exact hstep (.bottom fun _ h => nomatch h)
      | cons d ds =>
        by_cases hd : d = up
        · exact hstep (.bottom fun e he => Option.some.inj he ▸ hd)
        · exact hstep (.out hd)
    · exact hstep (.into hempty hhere hup)

/-- Names are put on the stack one after the other. -/
theorem foldl_walk_names {cs : List (List Char)} (h : ∀ c ∈ cs, IsName c) (st : List (List Char)) :
    cs.foldl (walk false) st = cs.reverse ++ st := by
  induction cs generalizing st with
  | nil => rfl
  | cons c cs ih =>
    obtain ⟨hc, hcs⟩ := List.forall_mem_cons.mp h
    have hstep : walk false st c = c :: st := (Walks.into hc.nonempty hc.not_here hc.not_up).eq
    rw [List.foldl_cons, hstep, ih hcs]
    simp

/-- What is on the stack was there or was walked along. -/
theorem mem_foldl_walk {cs st : List (List Char)} {d : List Char}
    (h : d ∈ cs.foldl (walk false) st) : d ∈ st ∨ d ∈ cs ∧ d ≠ [] ∧ d ≠ ['.'] := by
  induction cs generalizing st with
  | nil => exact .inl h
  | cons c cs ih =>
    have hcs : d ∈ cs ∧ d ≠ [] ∧ d ≠ ['.'] → d ∈ st ∨ d ∈ c :: cs ∧ d ≠ [] ∧ d ≠ ['.'] :=
      fun h => .inr ⟨List.mem_cons_of_mem _ h.1, h.2⟩
    refine (ih h).elim (fun hd => ?_) hcs
    have hw := walks st c
    generalize walk false st c = st' at hw hd
    cases hw with
    | here => exact .inl hd
    | out => exact .inl (List.mem_cons_of_mem _ hd)
    | into hempty hhere =>
      rcases List.mem_cons.mp hd with rfl | hd
      · exact .inr ⟨List.mem_cons_self, hempty, hhere⟩
      · exact .inl hd
    | bottom =>
      rcases List.mem_cons.mp hd with rfl | hd
      · exact .inr ⟨List.mem_cons_self, by decide, by decide⟩
      · exact .inl hd

/-- Where `..` occurs on a stack, it is at the bottom. -/
def Bottomed (st : List (List Char)) : Prop :=
  up ∈ st → st.getLast? = some up

/-- A stack that cannot rise above its start stays so. -/
theorem Bottomed.walks {st st' : List (List Char)} {c : List Char} (h : Bottomed st)
    (hw : Walks st c st') : Bottomed st' := by
  have below {d : List Char} {ds : List (List Char)} (h : Bottomed (d :: ds)) : Bottomed ds := by
    intro hup
    have hlast := h (List.mem_cons_of_mem _ hup)
    cases ds with
    | nil => cases hup
    | cons e ds => rwa [List.getLast?_cons_cons] at hlast
  cases hw with
  | here => exact h
  | out => exact below h
  | into _ _ hc =>
    intro hup
    have hst : up ∈ st := (List.mem_cons.mp hup).resolve_left fun he => hc he.symm
    rw [List.getLast?_cons, h hst]
    rfl
  | bottom hd =>
    intro _
    cases st with
    | nil => rfl
    | cons d ds =>
      rw [List.getLast?_cons_cons]
      exact h (hd d rfl ▸ List.mem_cons_self)

/-- So it does along components in a row. -/
theorem Bottomed.foldl_walk {st : List (List Char)} (h : Bottomed st) (cs : List (List Char)) :
    Bottomed (cs.foldl (walk false) st) := by
  induction cs generalizing st with
  | nil => exact h
  | cons c cs ih => exact ih (h.walks (Path.walks st c))

/-- A `..` never goes away. -/
theorem up_mem_foldl_walk {st : List (List Char)} (cs : List (List Char)) (h : up ∈ st) :
    up ∈ cs.foldl (walk false) st := by
  induction cs generalizing st with
  | nil => exact h
  | cons c cs ih =>
    refine ih ?_
    have hw := walks st c
    generalize walk false st c = st' at hw
    cases hw with
    | here => exact h
    | out hd => exact (List.mem_cons.mp h).resolve_left fun he => hd he.symm
    | into | bottom => exact List.mem_cons_of_mem _ h

/-- **A walk without `..` at its end does the same on top of other names.** -/
theorem foldl_walk_append {cs st : List (List Char)} (base : List (List Char))
    (h : up ∉ cs.foldl (walk false) st) :
    cs.foldl (walk false) (st ++ base) = cs.foldl (walk false) st ++ base := by
  induction cs generalizing st with
  | nil => rfl
  | cons c cs ih =>
    have hst : up ∉ walk false st c := fun hup => h (up_mem_foldl_walk cs hup)
    have hstep : walk false (st ++ base) c = walk false st c ++ base := by
      have hw := walks st c
      generalize walk false st c = st' at hst hw
      cases hw with
      | here hc => exact (Walks.here hc).eq
      | into hempty hhere hup => exact (Walks.into hempty hhere hup).eq
      | out hd => exact (Walks.out hd).eq
      | bottom =>
        -- the only step that looks below is one that leaves a `..` for good
        exact absurd List.mem_cons_self hst
    rw [List.foldl_cons, List.foldl_cons, hstep]
    exact ih h

/-! ### Spellings -/

/-- The path that names spell. -/
def spell (cs : List (List Char)) : List Char :=
  if cs = [] then ['.'] else ['/'].intercalate cs

/-- A component at the end stands behind a slash. -/
theorem intercalate_concat {cs : List (List Char)} (hne : cs ≠ []) (c : List Char) :
    ['/'].intercalate (cs ++ [c]) = ['/'].intercalate cs ++ '/' :: c := by
  induction cs with
  | nil => exact absurd rfl hne
  | cons d ds ih =>
    cases ds with
    | nil => simp [List.intercalate_cons_cons]
    | cons e es =>
      have hes := ih (List.cons_ne_nil e es)
      simp only [List.cons_append] at hes ⊢
      rw [List.intercalate_cons_cons, hes, List.intercalate_cons_cons]
      simp

/-- A relative path has no root. -/
theorem rootOf_of_relative {s : List Char} (h : isAbsolute s = false) : rootOf s = [] := by
  cases s with
  | nil => rfl
  | cons c s =>
    have hc : c ≠ '/' := by simpa [isAbsolute] using h
    unfold rootOf
    split <;> simp_all

/-- What is walked along a path. -/
theorem isPart_of_mem_stack {s c : List Char} (h : c ∈ stack s) : IsPart c ∧ c ≠ ['.'] := by
  obtain h | ⟨h, hempty, hhere⟩ := mem_foldl_walk h
  · cases h
  · exact ⟨⟨hempty, slash_not_mem_components h⟩, hhere⟩

section

variable {cs : List (List Char)} (hcs : ∀ c ∈ cs, IsPart c)
include hcs

/-- The components of a spelled path are those that it was spelled with. -/
theorem components_spell : components (spell cs) = if cs = [] then [['.']] else cs := by
  unfold spell
  by_cases hne : cs = []
  · subst hne
    rfl
  · rw [if_neg hne, if_neg hne]
    exact components_intercalate (fun c hc => (hcs c hc).no_slash) hne

/-- No component of a spelling is empty, so slashes stand neither at its front nor at its end. -/
theorem nil_not_mem_components_spell : [] ∉ components (spell cs) := by
  rw [components_spell hcs]
  split
  · simp
  · exact fun h => (hcs _ h).nonempty rfl

theorem spell_ne_nil : spell cs ≠ [] := by
  intro h
  refine nil_not_mem_components_spell hcs ?_
  rw [h]
  exact List.mem_singleton_self _

/-- A spelled path is relative. -/
theorem isAbsolute_spell : isAbsolute (spell cs) = false := by
  have hnil := nil_not_mem_components_spell hcs
  cases hs : spell cs with
  | nil => rfl
  | cons c s =>
    rw [hs] at hnil
    by_contra h
    obtain rfl : c = '/' := by simpa [isAbsolute] using h
    exact hnil (components_append [] s ▸ List.mem_append_left _ (List.mem_singleton_self _))

theorem getLast?_spell : (spell cs).getLast? ≠ some '/' := by
  intro h
  obtain ⟨s, hs⟩ := List.getLast?_eq_some_iff.mp h
  refine nil_not_mem_components_spell hcs ?_
  rw [hs, components_append s []]
  exact List.mem_append_right _ (List.mem_singleton_self _)

end

/-- A relative path in normal form spells what is walked along it. -/
theorem normalChars_of_relative {s : List Char} (h : isAbsolute s = false) :
    normalChars s = spell (stack s).reverse := by
  have hroot := rootOf_of_relative h
  have hwalked : normalComponents s = (stack s).reverse := by
    unfold normalComponents stack
    rw [hroot]
    rfl
  have hspelt : spell (stack s).reverse ≠ [] :=
    spell_ne_nil fun c hc => (isPart_of_mem_stack (List.mem_reverse.mp hc)).1
  unfold normalChars
  unfold spell at hspelt ⊢
  rw [hroot, hwalked]
  by_cases hne : (stack s).reverse = []
  · rw [hne]
    rfl
  · rw [if_neg hne] at hspelt ⊢
    simp [hspelt]

section

variable {cs : List (List Char)} (hcs : ∀ c ∈ cs, IsName c)
include hcs

/-- Along a spelled path, its names are put on the stack. -/
theorem foldl_walk_spell (st : List (List Char)) :
    (components (spell cs)).foldl (walk false) st = cs.reverse ++ st := by
  rw [components_spell (IsName.parts hcs)]
  by_cases hne : cs = []
  · subst hne
    rfl
  · rw [if_neg hne]
    exact foldl_walk_names hcs st

/-- They are the stack of the path. -/
theorem stack_spell : stack (spell cs) = cs.reverse := by
  rw [stack, foldl_walk_spell hcs, List.append_nil]

/-- A spelled path is normal. -/
theorem normalChars_spell : normalChars (spell cs) = spell cs := by
  rw [normalChars_of_relative (isAbsolute_spell (IsName.parts hcs)), stack_spell hcs,
    List.reverse_reverse]

/-- A relative path is walked along on top of the directory that it is joined to. -/
theorem join_spell {s : List Char} (hs : isAbsolute s = false) :
    isAbsolute (join (spell cs) s) = false ∧
      stack (join (spell cs) s) = (components s).foldl (walk false) cs.reverse := by
  have hnil := spell_ne_nil (IsName.parts hcs)
  have hjoin : join (spell cs) s = spell cs ++ '/' :: s := by
    unfold join
    rw [hs, if_neg Bool.false_ne_true, if_neg]
    simp [hnil, getLast?_spell (IsName.parts hcs)]
  have habsolute := isAbsolute_spell (IsName.parts hcs)
  rw [hjoin]
  refine ⟨?_, ?_⟩
  · unfold isAbsolute at habsolute ⊢
    cases hspell : spell cs with
    | nil => exact absurd hspell hnil
    | cons c t => rwa [hspell] at habsolute
  · rw [stack, components_append, List.foldl_append, foldl_walk_spell hcs, List.append_nil]

/-- Different names spell different paths. -/
theorem spell_inj {ds : List (List Char)} (hds : ∀ d ∈ ds, IsName d) (h : spell cs = spell ds) :
    cs = ds := by
  have hstack := congrArg stack h
  rw [stack_spell hcs, stack_spell hds] at hstack
  exact List.reverse_inj.mp hstack

/-- In front of the last name stand the others. -/
theorem parent_spell {c : List Char} (hc : IsName c) :
    parent (spell (cs ++ [c])) = if cs = [] then [] else spell cs := by
  have hname : ∀ d ∈ c.reverse, decide (d ≠ '/') = true := by
    intro d hd
    exact decide_eq_true fun he => hc.no_slash (he ▸ List.mem_reverse.mp hd)
  by_cases hne : cs = []
  · subst hne
    have hspell : spell ([] ++ [c]) = c := by simp [spell]
    rw [hspell, if_pos rfl, parent, List.dropWhile_eq_nil_iff.mpr hname]
    rfl
  · have hspell : spell (cs ++ [c]) = spell cs ++ '/' :: c := by
      unfold spell
      rw [if_neg (by simp), if_neg hne, intercalate_concat hne]
    -- the name is cut off at the back, and then the slash in front of it
    have hfront : ((spell cs ++ '/' :: c).reverse.dropWhile (· ≠ '/')).reverse =
        spell cs ++ ['/'] := by
      rw [List.reverse_append, List.reverse_cons, List.append_assoc,
        List.dropWhile_append_of_pos hname]
      simp
    have hhead : (spell cs ++ ['/']).all (· = '/') = false := by
      have habsolute := isAbsolute_spell (IsName.parts hcs)
      have hnil := spell_ne_nil (IsName.parts hcs)
      cases hs : spell cs with
      | nil => exact absurd hs hnil
      | cons d s =>
        rw [hs] at habsolute
        have hd : d ≠ '/' := by simpa [isAbsolute] using habsolute
        simp [hd]
    -- no other slash goes with it, since the last component is not empty
    have hlast : (spell cs).reverse.dropWhile (· = '/') = (spell cs).reverse := by
      have hlast := getLast?_spell (IsName.parts hcs)
      rw [← List.head?_reverse] at hlast
      cases hs : (spell cs).reverse with
      | nil => rfl
      | cons d s =>
        rw [hs] at hlast
        have hd : d ≠ '/' := fun he => hlast (congrArg some he)
        simp [hd]
    rw [hspell, if_neg hne, parent, hfront, hhead, Text.dropTrailing, List.reverse_append]
    simp only [List.reverse_singleton, List.singleton_append, List.dropWhile_cons, decide_true,
      if_true, Bool.false_eq_true, if_false]
    rw [hlast, List.reverse_reverse]

end

/-- The normal form of a relative path spells what is walked along it. -/
theorem normal_of_stack {s : String} {cs : List (List Char)} (hs : isAbsolute s.toList = false)
    (h : stack s.toList = cs.reverse) : Path.normal s = String.ofList (spell cs) := by
  rw [Path.normal, normalChars_of_relative hs, h, List.reverse_reverse]

/-- The normal form of a relative path is relative. -/
theorem normal_relative {s : String} (h : isAbsolute s.toList = false) :
    isAbsolute (Path.normal s).toList = false := by
  rw [Path.normal, String.toList_ofList, normalChars_of_relative h]
  exact isAbsolute_spell fun c hc => (isPart_of_mem_stack (List.mem_reverse.mp hc)).1

/-- The canonical form of a relative path in a file is walked on top of the names in front of the
file's own. -/
theorem canonical_spell {cs : List (List Char)} {c : List Char} (hcs : ∀ d ∈ cs, IsName d)
    (hc : IsName c) {p : String} (hp : isAbsolute p.toList = false) :
    ∃ s : String, isAbsolute s.toList = false ∧
      stack s.toList = (components p.toList).foldl (walk false) cs.reverse ∧
      canonical p (some (String.ofList (spell (cs ++ [c])))) = Path.normal s := by
  have hall := List.forall_mem_append.mpr ⟨hcs, List.forall_mem_singleton.mpr hc⟩
  have hempty : (String.ofList (spell (cs ++ [c]))).isEmpty = false := by
    simpa using spell_ne_nil (IsName.parts hall)
  have hjoin : isAbsolute (join (parent (spell (cs ++ [c]))) p.toList) = false ∧
      stack (join (parent (spell (cs ++ [c]))) p.toList) =
        (components p.toList).foldl (walk false) cs.reverse := by
    rw [parent_spell hcs hc]
    -- a file without names in front has no parent to be joined to
    by_cases hne : cs = []
    · subst hne
      have hjoin : join [] p.toList = p.toList := by
        unfold join
        rw [hp]
        rfl
      rw [if_pos rfl, hjoin]
      exact ⟨hp, rfl⟩
    · rw [if_neg hne]
      exact join_spell hcs hp
  refine ⟨String.ofList (join (parent (spell (cs ++ [c]))) p.toList), ?_, ?_, ?_⟩
  · simpa using hjoin.1
  · simpa using hjoin.2
  · unfold canonical Path.normal
    simp only [hempty, hp, Bool.false_or, Bool.false_eq_true, if_false, String.toList_ofList]

/-! ### Directories -/

/-- A relative path that is not `.` and does not start with the component `..`. -/
structure Local (s : String) : Prop where
  relative : isAbsolute s.toList = false
  proper : s ≠ "."
  below : (components s.toList).head? ≠ some up

/-- Such a path in normal form. -/
structure Inside (s : String) : Prop extends Local s where
  normal : Path.normal s = s

/-- A relative path in normal form that never leaves a directory. -/
structure Directory (s : String) : Prop where
  normal : Path.normal s = s
  relative : isAbsolute s.toList = false
  below : up ∉ components s.toList

/-- The path in a directory. -/
def relocate (directory s : String) : String :=
  String.ofList (normalChars (join directory.toList s.toList))

/-- A directory is spelled with names. -/
theorem Directory.names {directory : String} (h : Directory directory) :
    ∃ ds, (∀ d ∈ ds, IsName d) ∧ directory.toList = spell ds := by
  refine ⟨(stack directory.toList).reverse, fun d hd => ?_, ?_⟩
  · have hmem := List.mem_reverse.mp hd
    obtain ⟨hpart, hhere⟩ := isPart_of_mem_stack hmem
    refine ⟨hpart, hhere, fun hup => h.below ?_⟩
    obtain hc | hc := mem_foldl_walk hmem
    · cases hc
    · exact hup ▸ hc.1
  · rw [← normalChars_of_relative h.relative]
    have hnormal := congrArg String.toList h.normal
    rw [Path.normal, String.toList_ofList] at hnormal
    exact hnormal.symm

/-- A path whose normal form is relative is relative. -/
theorem relative_of_normal {s : String} (h : isAbsolute (Path.normal s).toList = false) :
    isAbsolute s.toList = false := by
  rw [Path.normal, String.toList_ofList] at h
  by_contra habsolute
  cases hs : s.toList with
  | nil => exact habsolute (hs ▸ rfl)
  | cons c t =>
    obtain rfl : c = '/' := by simpa [hs, isAbsolute] using habsolute
    obtain ⟨r, hr⟩ : ∃ r, rootOf ('/' :: t) = '/' :: r := by
      unfold rootOf
      split <;> simp_all
    simp [hs, normalChars, hr, isAbsolute] at h

/-- What is walked along a path are names if its normal form is local. -/
theorem Local.stack {s : String} (h : Local (Path.normal s)) :
    ∃ cs, cs ≠ [] ∧ (∀ c ∈ cs, IsName c) ∧ stack s.toList = cs.reverse := by
  have hrelative := relative_of_normal h.relative
  have hspell : (Path.normal s).toList = spell (Path.stack s.toList).reverse := by
    rw [Path.normal, String.toList_ofList, normalChars_of_relative hrelative]
  have hne : (Path.stack s.toList).reverse ≠ [] := by
    intro hnil
    rw [hnil] at hspell
    exact h.proper (String.toList_inj.mp hspell)
  -- a `..` on the stack would stand at its bottom, which is the front of the path
  have hparts : ∀ c ∈ (Path.stack s.toList).reverse, IsPart c ∧ c ≠ ['.'] :=
    fun c hc => isPart_of_mem_stack (List.mem_reverse.mp hc)
  have hhead : (Path.stack s.toList).getLast? ≠ some up := by
    have hbelow := h.below
    rwa [hspell, components_spell fun c hc => (hparts c hc).1, if_neg hne,
      List.head?_reverse] at hbelow
  have hbottomed : Bottomed (Path.stack s.toList) :=
    Bottomed.foldl_walk (fun hup => absurd hup List.not_mem_nil) _
  refine ⟨_, hne, fun c hc => ⟨(hparts c hc).1, (hparts c hc).2, ?_⟩,
    (List.reverse_reverse _).symm⟩
  rintro rfl
  exact hhead (hbottomed (List.mem_reverse.mp hc))

/-- A local path stays inside in its normal form. -/
theorem Local.inside {s : String} (h : Local (Path.normal s)) : Inside (Path.normal s) := by
  obtain ⟨cs, -, hcs, hstack⟩ := h.stack
  refine ⟨h, ?_⟩
  rw [normal_of_stack (relative_of_normal h.relative) hstack, Path.normal, String.toList_ofList,
    normalChars_spell hcs]

/-- A path inside spells names. -/
theorem Inside.names {s : String} (h : Inside s) :
    ∃ cs, cs ≠ [] ∧ (∀ c ∈ cs, IsName c) ∧ s = String.ofList (spell cs) := by
  obtain ⟨cs, hne, hcs, hstack⟩ := Local.stack (h.normal.symm ▸ h.toLocal)
  exact ⟨cs, hne, hcs, h.normal.symm.trans (normal_of_stack h.relative hstack)⟩

/-- The last name of a path inside, and those in front of it. -/
theorem Inside.names_concat {s : String} (h : Inside s) :
    ∃ cs c, (∀ d ∈ cs, IsName d) ∧ IsName c ∧ s = String.ofList (spell (cs ++ [c])) := by
  obtain ⟨ns, hne, hns, rfl⟩ := h.names
  obtain ⟨cs, c, rfl⟩ : ∃ cs c, ns = cs ++ [c] :=
    ⟨_, _, (List.dropLast_concat_getLast hne).symm⟩
  obtain ⟨hcs, hc⟩ := List.forall_mem_append.mp hns
  exact ⟨cs, c, hcs, List.forall_mem_singleton.mp hc, rfl⟩

section

variable {directory : String} (hd : Directory directory)
include hd

/-- In a directory that names spell, these stand in front. -/
theorem relocate_names : ∃ ds, (∀ d ∈ ds, IsName d) ∧
    (∀ (s : String) (cs : List (List Char)), isAbsolute s.toList = false →
      (∀ c ∈ cs, IsName c) → Path.stack s.toList = cs.reverse →
      relocate directory s = String.ofList (spell (ds ++ cs))) ∧
    ∀ cs, (∀ c ∈ cs, IsName c) →
      relocate directory (String.ofList (spell cs)) = String.ofList (spell (ds ++ cs)) := by
  obtain ⟨ds, hds, hspell⟩ := hd.names
  have hrelocate (s : String) (cs : List (List Char)) (hs : isAbsolute s.toList = false)
      (hcs : ∀ c ∈ cs, IsName c) (hstack : Path.stack s.toList = cs.reverse) :
      relocate directory s = String.ofList (spell (ds ++ cs)) := by
    obtain ⟨hrelative, hjoin⟩ := join_spell hds hs
    -- names have no `..` among them, so the walk is the same on top of the directory
    have hup : up ∉ (components s.toList).foldl (walk false) [] := by
      show up ∉ Path.stack s.toList
      rw [hstack]
      exact fun h => (hcs up (List.mem_reverse.mp h)).not_up rfl
    have hbase := foldl_walk_append ds.reverse hup
    rw [List.nil_append] at hbase
    rw [relocate, hspell, normalChars_of_relative hrelative, hjoin, hbase]
    show String.ofList (spell (Path.stack s.toList ++ ds.reverse).reverse) = _
    rw [hstack, ← List.reverse_append, List.reverse_reverse]
  refine ⟨ds, hds, hrelocate, fun cs hcs => hrelocate _ cs ?_ hcs ?_⟩
  · rw [String.toList_ofList]
    exact isAbsolute_spell (IsName.parts hcs)
  · rw [String.toList_ofList]
    exact stack_spell hcs

/-- A path that means one inside gets the same place as that one. -/
theorem normal_relocate {s : String} (h : Local (Path.normal s)) :
    Path.normal (relocate directory s) = relocate directory (Path.normal s) := by
  obtain ⟨ds, hds, hrelocate, hplace⟩ := relocate_names hd
  obtain ⟨cs, -, hcs, hstack⟩ := h.stack
  have hrelative := relative_of_normal h.relative
  have hall := List.forall_mem_append.mpr ⟨hds, hcs⟩
  rw [hrelocate s cs hrelative hcs hstack, normal_of_stack hrelative hstack, hplace cs hcs,
    Path.normal, String.toList_ofList, normalChars_spell hall]

/-- Different paths inside get different places. -/
theorem relocate_inj {s t : String} (hs : Inside s) (ht : Inside t)
    (h : relocate directory s = relocate directory t) : s = t := by
  obtain ⟨ds, hds, -, hplace⟩ := relocate_names hd
  obtain ⟨as, -, has, rfl⟩ := hs.names
  obtain ⟨bs, -, hbs, rfl⟩ := ht.names
  rw [hplace as has, hplace bs hbs, String.ofList_inj] at h
  have happend := spell_inj (List.forall_mem_append.mpr ⟨hds, has⟩)
    (List.forall_mem_append.mpr ⟨hds, hbs⟩) h
  rw [List.append_cancel_left happend]

omit hd in
/-- A relative path in a file inside has a relative canonical form. -/
theorem canonical_relative {p l : String} (hl : Inside l) (hp : isAbsolute p.toList = false) :
    isAbsolute (canonical p (some l)).toList = false := by
  obtain ⟨cs, c, hcs, hc, rfl⟩ := hl.names_concat
  obtain ⟨s, hs, -, hcanonical⟩ := canonical_spell hcs hc hp
  rw [hcanonical]
  exact normal_relative hs

/-- **Canonical forms move along with the file.** -/
theorem canonical_relocate {p l : String} (hl : Inside l) (hp : isAbsolute p.toList = false)
    (hc : Inside (canonical p (some l))) :
    canonical p (some (relocate directory l)) = relocate directory (canonical p (some l)) := by
  obtain ⟨ds, hds, -, hplace⟩ := relocate_names hd
  obtain ⟨cs, c, hcs, hname, rfl⟩ := hl.names_concat
  have hls := List.forall_mem_append.mpr ⟨hcs, List.forall_mem_singleton.mpr hname⟩
  have hall := List.forall_mem_append.mpr ⟨hds, hcs⟩
  -- where the walk leads from the file, and from its new place
  obtain ⟨s, hs, hstack, hcanonical⟩ := canonical_spell hcs hname hp
  obtain ⟨s', hs', hstack', hcanonical'⟩ := canonical_spell hall hname hp
  rw [hcanonical] at hc ⊢
  obtain ⟨ns, -, hns, hwalk⟩ := hc.toLocal.stack
  have hup : up ∉ (components p.toList).foldl (walk false) cs.reverse := by
    rw [← hstack, hwalk]
    exact fun h => (hns up (List.mem_reverse.mp h)).not_up rfl
  have hwalk' : Path.stack s'.toList = (ds ++ ns).reverse := by
    rw [hstack', List.reverse_append, foldl_walk_append _ hup, ← hstack, hwalk,
      ← List.reverse_append]
  rw [hplace _ hls, ← List.append_assoc, hcanonical', normal_of_stack hs' hwalk',
    normal_of_stack hs hwalk, hplace ns hns]

end

end Trellis.Path
