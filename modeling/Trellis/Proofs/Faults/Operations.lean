import Trellis.Proofs.Faults.Tame

/-!
# Proofs — Faults — Operations

What is read off tame values, and what operators make of them, is tame (`Action.Tames.index`,
`Action.Tames.member`, `Action.Tames.apply`).  The items of what is made were items before: those
of a set that is arranged anew (`Places.mem_arranged`), and those of a sequence that is repeated
(`Operation.mem_copies`).
-/

namespace Trellis

open Value (TameItems TameEntries)

/-! ### Sets and sequences -/

namespace Places

/-- All items of the table satisfy `P`. -/
def Only (P : Nat × Value → Prop) (t : Places) : Prop :=
  ∀ e, some e ∈ t → P e

variable {P : Nat × Value → Prop} {t : Places} {e : Nat × Value} {es : List (Nat × Value)}

/-- Putting in an element of the kind keeps a table to the kind. -/
theorem Only.insert (h : t.Only P) (he : P e) : (t.insert e).Only P := by
  unfold Places.insert
  split
  · intro d hd
    obtain hd | hd := Array.mem_or_eq_of_mem_setIfInBounds hd
    · exact h d hd
    · exact Option.some.inj hd ▸ he
  · exact h

/-- The elements of such a table are of the kind. -/
theorem Only.items (h : t.Only P) : ∀ e ∈ t.items, P e := by
  intro e he
  obtain ⟨o, ho, rfl⟩ := List.mem_filterMap.mp he
  exact h e (Array.mem_toList_iff.mp ho)

theorem Only.insertAll (h : t.Only P) (hes : ∀ e ∈ es, P e) : (es.foldl Places.insert t).Only P := by
  induction es generalizing t with
  | nil => exact h
  | cons e es ih =>
    obtain ⟨he, hes⟩ := List.forall_mem_cons.mp hes
    exact ih (h.insert he) hes

/-- A table that is built of elements of a kind holds no others. -/
theorem build_only (n : Nat) (hes : ∀ e ∈ es, P e) : (build n es).Only P := by
  refine Only.insertAll (fun e he => ?_) hes
  cases (Array.mem_replicate.mp he).2

/-- Growth by one more keeps a table to the kind. -/
theorem Only.add (h : t.Only P) (count : Nat) (he : P e) : (t.add count e).Only P := by
  have ht := h.insert he
  unfold Places.add
  dsimp only
  split
  · exact build_only _ ht.items
  · exact ht

theorem Only.addAll (h : t.Only P) (hes : ∀ e ∈ es, P e) : (t.addAll es).Only P := by
  -- the induction is on the items with their numbers, which are no longer those of `es`
  have hadd (l : List ((Nat × Value) × Nat)) (hl : ∀ x ∈ l, P x.1) {t : Places} (h : t.Only P) :
      Only P (l.foldl (fun t x => t.add x.2 x.1) t) := by
    induction l generalizing t with
    | nil => exact h
    | cons x l ih =>
      obtain ⟨hx, hl⟩ := List.forall_mem_cons.mp hl
      exact ih hl (h.add x.2 hx)
  exact hadd es.zipIdx (fun x hx => hes x.1 (List.fst_mem_of_mem_zipIdx hx)) h

theorem roomy_only (count : Nat) : (roomy count).Only P := by
  have none : ∀ e ∈ ([] : List (Nat × Value)), P e := fun _ he => nomatch he
  unfold roomy
  dsimp only
  split <;> exact build_only _ none

/-- What has arrived was sent. -/
theorem mem_arrived {a : Arrival} (h : e ∈ (arrived es a).items) : e ∈ es := by
  have none : ∀ e ∈ ([] : List (Nat × Value)), e ∈ es := fun _ he => nomatch he
  cases a with
  | single => exact ((build_only 0 none).addAll fun _ h => h).items e h
  | counted => exact ((roomy_only _).addAll fun _ h => h).items e h
  | placed size =>
    unfold arrived at h
    dsimp only at h
    split at h
    · exact h
    · exact ((roomy_only _).insertAll fun _ h => h).items e h

/-- What is kept was there. -/
theorem Layout.mem_keep {l : Layout (Nat × Value)} {kept : Value → Bool}
    (h : e ∈ (l.keep kept).items) : e ∈ l.items := by
  have hfilter : ∀ e ∈ l.items.filter fun e => kept e.2, e ∈ l.items :=
    fun _ he => (List.mem_filter.mp he).1
  unfold Layout.keep at h
  dsimp only at h
  split at h
  · exact (build_only _ hfilter).items e h
  · exact hfilter e h

/-- Arranging items makes no new ones. -/
theorem mem_arranged {a : Arrival} {xs : List Value} {kept : Value → Bool} {x : Value}
    (h : x ∈ (arranged a xs kept).items) : x ∈ xs := by
  unfold arranged at h
  split at h
  · next ns _ =>
    obtain ⟨e, he, rfl⟩ := List.mem_map.mp h
    exact (List.of_mem_zip (mem_arrived (Layout.mem_keep he))).2
  · exact (List.mem_filter.mp h).1

end Places

/-- Repeating items makes no new ones. -/
theorem Operation.mem_copies {xs : List Value} (n : Nat) {x : Value}
    (h : x ∈ copies (· ++ ·) [] xs n) : x ∈ xs := by
  induction n using Nat.strongRecOn with
  | ind n ih =>
    unfold copies at h
    split at h
    · cases h
    · next hn =>
      -- two halves, and the items once more if the number is odd
      have half : x ∈ copies (· ++ ·) [] xs (n / 2) → x ∈ xs := ih _ (by omega)
      dsimp only at h
      split at h
      · exact (List.mem_append.mp h).elim half half
      · obtain h | h := List.mem_append.mp h
        · exact (List.mem_append.mp h).elim half half
        · exact h

/-! ### Parts of values -/

namespace Value

variable {v w : Value}

/-- A type with an argument is tame. -/
theorem tame_genericAt? (i : Value) (hw : genericAt? v i = some w) : w.Tame := by
  unfold genericAt? at hw
  dsimp only at hw
  split at hw
  · obtain rfl := Option.some.inj hw
    simp
  · obtain rfl := Option.some.inj hw
    simp
  · cases hw

/-- What an object holds under a name. -/
theorem tame_lookup {fs : List (String × Value)} {name : String} (hfs : (object fs).Tame)
    (hw : fs.lookup name = some w) : w.Tame := by
  obtain ⟨front, back, rfl, -⟩ := List.lookup_eq_some_iff.mp hw
  exact tame_object.mp hfs (name, w) (by simp)

theorem tame_none (hw : Option.none = some w) : w.Tame :=
  nomatch hw

theorem tame_ite {c : Prop} [Decidable c] {o : Option Value} (hv : v.Tame)
    (ho : o = some w → w.Tame) (hw : (if c then some v else o) = some w) : w.Tame := by
  split at hw
  · exact Option.some.inj hw ▸ hv
  · exact ho hw

/-- A method of a value is tame. -/
theorem tame_methodOf? {names : List String} {o : Origin} {name : String}
    (hw : methodOf? names v o name = some w) : w.Tame :=
  tame_ite (.method v name o) tame_none hw

/-- Whatever attribute a tame value has is tame. -/
theorem tame_attributeOf? (hv : v.Tame) {h : Heap} {o : Origin} {name : String}
    (hw : attributeOf? h v o name = some w) : w.Tame := by
  -- attributes are numbers, the value itself, what an object holds, and methods
  unfold attributeOf? at hw
  split at hw
  · exact tame_ite (.int _) (tame_ite (.int _) tame_none) hw
  · exact tame_ite (.int _) (tame_ite (.int _) tame_none) hw
  · exact tame_ite hv (tame_ite (.float _) tame_none) hw
  · exact tame_ite hv (tame_ite (.float _) tame_none) hw
  · exact tame_methodOf? hw
  · exact tame_ite (.int _) (tame_ite (.int _) (tame_ite (.int _) tame_none)) hw
  · exact tame_lookup hv hw
  · exact tame_methodOf? hw
  · exact tame_methodOf? hw
  · exact tame_methodOf? hw
  · exact tame_methodOf? hw
  · split at hw
    · exact tame_ite (.int _) tame_methodOf? hw
    · cases hw
  · cases hw

end Value

namespace Action.Tames

variable {α : Type} {P : α → Prop} {v w d i : Value} {xs ys args : List Value}
  {es : List (Value × Value)}

/-! ### Parts -/

/-- A value that is looked for. -/
theorem sought (v : Value) : Tames (fun _ => True) (Action.key v) := by
  unfold Action.key
  split
  · exact fail _
  · exact pure trivial

/-- A place in a sequence is a number, counted from the end if it is negative. -/
theorem placeIn (name : String) (n : Int) (length : Nat) :
    Tames (fun _ => True) (Value.placeIn name n length) := by
  refine ite _ (fail _) ?_
  split
  · exact pure trivial
  · exact fail _

/-- An item at a place is one of the items. -/
theorem itemAt (name : String) (hxs : TameItems xs) (i : Value) :
    Tames Value.Tame (Value.itemAt name xs i) := by
  unfold Value.itemAt
  split
  · exact (placeIn _ _ _).bind fun n _ => pure (hxs.getD n)
  · exact fail _

theorem characterAt (s : String) (i : Value) : Tames Value.Tame (Value.characterAt s i) := by
  unfold Value.characterAt
  split
  · exact (placeIn _ _ _).bind fun _ _ => pure (.text _)
  · exact fail _

/-- A value under a key is one of the values. -/
theorem entryAt (hes : TameEntries es) (k : Value) : Tames Value.Tame (Value.entryAt es k) := by
  refine (sought k).bind fun k _ => ?_
  split
  · next v hv => exact pure (hes.lookup? k hv)
  · exact (shown _).bind fun _ _ => fail _

/-- What a range has at a place is a number. -/
theorem rangeAt (a b c : Int) (i : Value) : Tames Value.Tame (Value.rangeAt a b c i) := by
  unfold Value.rangeAt
  split
  · split
    · exact pure (.int _)
    · exact fail _
  · exact fail _

/-- What a tame value has at an index or under a key is tame. -/
theorem index (hv : v.Tame) (i : Value) : Tames Value.Tame (Value.index v i) := by
  refine (view hv).bind fun u hu => ?_
  split
  · exact itemAt "list" (Value.tame_list.mp hu) i
  · exact itemAt "tuple" (Value.tame_tuple.mp hu) i
  · exact characterAt _ i
  · exact entryAt (Value.tame_dict.mp hu) i
  · exact rangeAt _ _ _ i
  · exact (shown _).bind fun _ _ => fail _
  · split
    · next hw => exact pure (Value.tame_genericAt? i hw)
    · exact fail _
    · exact fail _

/-- The items of a range are numbers. -/
theorem rangeItems (a b c : Int) : Tames TameItems (Value.rangeItems a b c) :=
  ite _ (fail _) (ite _ (pure (.map fun _ => .int _)) (fail _))

/-- The entries of a dictionary are tame if it is. -/
theorem entriesOf (hv : v.Tame) : Tames TameEntries (Value.entriesOf v) := by
  refine (view hv).bind fun u hu => ?_
  split
  · exact pure (Value.tame_dict.mp hu)
  · exact pure .nil

/-- So are the items of a value, if it has any. -/
theorem items? (hv : v.Tame) : Tames (fun o => ∀ xs ∈ o, TameItems xs) (Value.items? v) := by
  have some {xs : List Value} (hxs : TameItems xs) : ∀ ys ∈ some xs, TameItems ys :=
    fun _ hy => Option.some.inj hy ▸ hxs
  refine (view hv).bind fun u hu => ?_
  split
  · exact pure (some (Value.tame_list.mp hu))
  · exact pure (some (Value.tame_tuple.mp hu))
  · exact pure (some (.map fun _ => .text _))
  · exact pure (some (Value.tame_dict.mp hu).keys)
  · exact (rangeItems _ _ _).bind fun xs hxs => pure (some hxs)
  · exact pure (some (Value.tame_set.mp hu))
  · exact (entriesOf (Value.tame_view.mp hu)).bind fun es hes => pure (some (hes.viewItems _))
  · exact pure (some (by simpa using Value.tame_generic.mp hu))
  · exact pure fun _ hy => nomatch hy

theorem items (hv : v.Tame) : Tames TameItems (Value.items v) := by
  refine (items? hv).bind fun o ho => ?_
  cases o with
  | some xs => exact pure (ho xs rfl)
  | none => exact fail _

/-- A length is a number; values without one are refused. -/
theorem length (hv : v.Tame) : Tames (fun _ => True) (Value.length v) := by
  refine (view hv).bind fun u hu => ?_
  split
  · exact pure trivial
  · exact pure trivial
  · exact pure trivial
  · exact pure trivial
  · exact pure trivial
  · exact (entriesOf (Value.tame_view.mp hu)).bind fun _ _ => pure trivial
  · exact ite _ (fail _) (pure trivial)
  · exact fail _

/-! ### Attributes -/

/-- An attribute of a type is a method, or there is none. -/
theorem typeAttribute (f : Function) (name : String) :
    Tames Value.Tame (Value.typeAttribute f name) :=
  ite _ (pure (.descriptor f name)) (fail _)

/-- Where a value comes from is known for methods that need it. -/
theorem knownOrigin (o : Option Origin) : Tames (fun _ => True) (Value.knownOrigin o) := by
  cases o with
  | some o => exact pure trivial
  | none => exact freshMark.bind fun _ _ => pure trivial

/-- An attribute of a tame value is tame, or the failure is ordinary. -/
theorem attributeOf (hv : v.Tame) (o : Option Origin) (name : String) :
    Tames Value.Tame (Value.attributeOf v o name) := by
  refine (knownOrigin o).bind fun o _ => get.bind fun h _ => ?_
  split
  · next hw => exact pure (Value.tame_attributeOf? hv hw)
  · split
    · exact typeAttribute _ name
    · exact fail _

/-- A member is an attribute, or what a dictionary has under the name. -/
theorem member (hv : v.Tame) (o : Option Origin) (name : String) :
    Tames Value.Tame (Value.member v o name) := by
  refine (view hv).bind fun u hu => ?_
  split
  · split
    · next hw => exact pure ((Value.tame_dict.mp hu).lookup? _ hw)
    · exact attributeOf hv o name
  · exact attributeOf hv o name

/-- A part with its origin. -/
theorem part (t : Traced) (i : Value) (hw : w.Tame) :
    Tames (fun t => t.value.Tame) (t.part i w) :=
  get.bind fun _ _ => pure hw

/-! ### Membership and sets -/

/-- Membership is a question: it changes nothing. -/
theorem contains (v w : Value) : Tames (fun _ => True) (Membership.contains v w) := by
  refine get.bind fun h _ => ?_
  split
  · split
    · exact pure trivial
    · exact fail _
  · exact pure trivial
  · exact pure trivial
  · exact (sought v).bind fun _ _ => pure trivial
  · exact pure trivial
  · exact ite _ (pure trivial) ((sought v).bind fun _ _ => pure trivial)
  · split
    · exact (sought v).bind fun _ _ => pure trivial
    · exact pure trivial
    · split
      · refine (sought _).bind fun _ _ => ?_
        split <;> exact pure trivial
      · exact pure trivial
    · exact pure trivial
  · exact pure trivial
  · exact fail _

/-- A set is made of some of the items. -/
theorem distinct (hxs : TameItems xs) : Tames TameItems (Membership.distinct xs) := by
  induction xs with
  | nil => exact pure .nil
  | cons x xs ih =>
    obtain ⟨hx, hxs⟩ := TameItems.cons.mp hxs
    refine (key hx).bind fun x hx => (ih hxs).bind fun ys hys => pure ?_
    exact TameItems.cons.mpr ⟨hx, hys.subset fun _ hy => (List.mem_filter.mp hy).1⟩

/-- Whether values can be keys is a question. -/
theorem keys (xs : List Value) : Tames (fun _ => True) (Membership.keys xs) := by
  induction xs with
  | nil => exact pure trivial
  | cons x xs ih => exact (sought x).bind fun _ _ => ih.bind fun _ _ => pure trivial

/-- Items that are taken away leave a tame set. -/
theorem without (a : Places.Arrival) (hxs : TameItems xs) (ys : List Value) :
    (Membership.without a xs ys).Tame :=
  Value.tame_set.mpr (hxs.subset fun _ hx => Places.mem_arranged hx)

/-- A difference of sets is a set of items of the first. -/
theorem setDifference (hxs : TameItems xs) (size : Nat) (ys : List Value) :
    (Membership.setDifference xs size ys).Tame := by
  unfold Membership.setDifference
  split
  · exact without _ hxs ys
  · exact without _ (hxs.subset fun _ hx => (List.mem_filter.mp hx).1) []

/-- The difference of two values is tame if they are. -/
theorem difference (hv : v.Tame) (hw : w.Tame) : Tames Value.Tame (Membership.difference v w) := by
  refine (items hv).bind fun xs hxs => (distinct hxs).bind fun xs hxs => ?_
  refine (items hw).bind fun ys _ => (keys ys).bind fun ys _ => ?_
  exact (view hv).bind fun u _ => pure (without _ hxs ys)

/-- Whether all values are in another is asked one by one. -/
theorem allIn (w : Value) (xs : List Value) : Tames (fun _ => True) (Membership.allIn w xs) := by
  induction xs with
  | nil => exact pure trivial
  | cons x xs ih => exact (contains x w).bind fun _ _ => ite _ ih (pure trivial)

/-- Comparing for equality makes nothing new. -/
theorem equal (hv : v.Tame) (hw : w.Tame) : Tames (fun _ => True) (Membership.equal v w) := by
  refine (items hv).bind fun xs _ => (items hw).bind fun ys _ => ?_
  exact ite _ (pure trivial) (ite _ (allIn w xs) (allIn v ys))

/-- Whether a set is part of another is a question. -/
theorem included (c : Comparison) (hv : v.Tame) (hw : w.Tame) :
    Tames (fun _ => True) (Membership.included c v w) := by
  refine (items hv).bind fun xs _ => (items hw).bind fun ys _ => ?_
  cases c with
  | lt => exact ite _ (allIn w xs) (pure trivial)
  | le => exact ite _ (allIn w xs) (pure trivial)
  | gt => exact ite _ (allIn v ys) (pure trivial)
  | ge => exact ite _ (allIn v ys) (pure trivial)

/-! ### Arithmetic -/

/-- An operator on numbers gives what it gives for whole numbers, for others, or otherwise. -/
theorem arithmetic {ints : Int → Int → Action Value} {floats : Float → Float → Action Value}
    {otherwise : Action Value} (hints : ∀ m n, Tames Value.Tame (ints m n))
    (hfloats : ∀ x y, Tames Value.Tame (floats x y)) (hother : Tames Value.Tame otherwise) :
    Tames Value.Tame (Operation.arithmetic v w ints floats otherwise) := by
  unfold Operation.arithmetic
  split
  · exact hints _ _
  · exact hfloats _ _
  · exact fail _
  · exact hother

/-- The sum of two values is tame if they are: lists and texts are put together. -/
theorem plus (hv : v.Tame) (hw : w.Tame) : Tames Value.Tame (Operation.plus v w) := by
  refine arithmetic (fun _ _ => pure (.int _)) (fun _ _ => float _) ?_
  refine (view hv).bind fun v' hv' => (view hw).bind fun w' hw' => ?_
  split
  · exact newList (TameItems.append.mpr ⟨Value.tame_list.mp hv', Value.tame_list.mp hw'⟩)
  · exact fail _
  · exact pure (.tuple (TameItems.append.mpr ⟨Value.tame_tuple.mp hv', Value.tame_tuple.mp hw'⟩))
  · exact fail _
  · exact fail _

/-- The same, as the operator does it. -/
theorem add (hv : v.Tame) (hw : w.Tame) : Tames Value.Tame (Operation.add v w) := by
  unfold Operation.add
  split
  · exact (embedded w).bind fun _ _ => pure (.text _)
  · exact (embedded v).bind fun _ _ => pure (.text _)
  · exact plus hv hw

/-- The difference as the operator does it. -/
theorem sub (hv : v.Tame) (hw : w.Tame) : Tames Value.Tame (Operation.sub v w) := by
  refine arithmetic (fun _ _ => pure (.int _)) (fun _ _ => float _) ?_
  split
  · exact pure (setDifference (Value.tame_set.mp hv) _ _)
  · exact ite _ (difference hv hw) (fail _)

/-- How many times something is repeated is a number. -/
theorem times (w : Value) : Tames (fun _ => True) (Operation.times w) := by
  unfold Operation.times
  split
  · exact ite _ (fail _) (pure trivial)
  · exact fail _

theorem repeatText (s : String) (n : Nat) : Tames Value.Tame (Operation.repeatText s n) :=
  ite _ (fail _) (ite _ (fail _) (ite _ (pure (.text _)) (pure (.text _))))

/-- Repeated items are the items. -/
theorem repeatItems (hxs : TameItems xs) (n : Nat) : Tames TameItems (Operation.repeatItems xs n) :=
  ite _ (pure .nil) (ite _ (pure (hxs.subset fun _ hx => Operation.mem_copies n hx)) (fail _))

/-- What is repeated is tame if it is. -/
theorem repeated? (hv : v.Tame) (w : Value) :
    Tames (fun o => ∀ r ∈ o, r.Tame) (Operation.repeated? v w) := by
  have some {r : Value} (hr : r.Tame) : ∀ q ∈ some r, q.Tame := fun _ hq => Option.some.inj hq ▸ hr
  refine (view hv).bind fun u hu => ?_
  split
  · exact (times w).bind fun n _ => (repeatText _ n).bind fun r hr => pure (some hr)
  · refine (times w).bind fun n _ => (repeatItems (Value.tame_list.mp hu) n).bind fun xs hxs => ?_
    exact (newList hxs).bind fun r hr => pure (some hr)
  · refine (times w).bind fun n _ => (repeatItems (Value.tame_tuple.mp hu) n).bind fun xs hxs => ?_
    exact pure (some (.tuple hxs))
  · exact pure fun _ hq => nomatch hq

/-- The product as the operator does it. -/
theorem mul (hv : v.Tame) (hw : w.Tame) : Tames Value.Tame (Operation.mul v w) := by
  refine arithmetic (fun _ _ => pure (.int _)) (fun _ _ => float _) ?_
  -- what is repeated stands in front or behind
  refine (repeated? hv w).bind fun o ho => ?_
  cases o with
  | some r => exact pure (ho r rfl)
  | none =>
    refine (repeated? hw v).bind fun o ho => ?_
    cases o with
    | some r => exact pure (ho r rfl)
    | none => exact fail _

/-- A quotient is a number, or the division fails. -/
theorem div (v w : Value) : Tames Value.Tame (Operation.div v w) :=
  arithmetic (fun _ _ => (ofExcept _ fun _ _ => trivial).bind fun _ (_ : True) => pure (.float _))
    (fun _ _ => ite _ (fail _) (float _)) (fail _)

/-- A remainder is a number, and `%` behind a text formats it. -/
theorem mod (v w : Value) : Tames Value.Tame (Operation.mod v w) := by
  have operand : Tames (fun _ => True) (Operation.operandOf w) := by
    refine get.bind fun h _ => ?_
    dsimp only
    split <;> exact pure trivial
  unfold Operation.mod
  split
  · refine operand.bind fun o _ => (ofExcept _ fun _ _ => trivial).bind fun _ (_ : True) => ?_
    exact pure (.text _)
  · exact arithmetic (fun _ _ => ite _ (fail _) (pure (.int _)))
      (fun _ _ => ite _ (fail _) (float _)) (fail _)

/-- The negative of a value is a number. -/
theorem neg (v : Value) : Tames Value.Tame (Operation.neg v) := by
  unfold Operation.neg
  split
  · exact float _
  · exact float _
  · split
    · exact pure (.int _)
    · exact fail _

/-! ### Relations -/

/-- Loose equality is a question. -/
theorem looseEq (hv : v.Tame) (hw : w.Tame) : Tames (fun _ => True) (Operation.looseEq v w) :=
  ite _ (equal hv hw) ((deep v).bind fun _ _ => (deep w).bind fun _ _ => pure trivial)

/-- So is strict equality. -/
theorem strictEq (hv : v.Tame) (hw : w.Tame) : Tames (fun _ => True) (Operation.strictEq v w) :=
  ite _ (ite _ (equal hv hw) (pure trivial))
    ((deep v).bind fun _ _ => (deep w).bind fun _ _ => pure trivial)

/-- So is every comparison; values without an order are refused. -/
theorem compare (c : Comparison) (hv : v.Tame) (hw : w.Tame) :
    Tames (fun _ => True) (Operation.compare c v w) :=
  ite _ (included c hv hw)
    ((deep v).bind fun _ _ => (deep w).bind fun _ _ => ofExcept _ fun _ _ => trivial)

/-- **The result of an operator is tame.** -/
theorem apply (o : Operator) (hv : v.Tame) (hw : w.Tame) :
    Tames Value.Tame (Operation.apply o v w) := by
  have related {r : Value → Value → Action Bool} (hr : Tames (fun _ => True) (r v w)) :
      Tames Value.Tame (Operation.related r v w) :=
    hr.bind fun _ _ => pure (.bool _)
  have unrelated {r : Value → Value → Action Bool} (hr : Tames (fun _ => True) (r v w)) :
      Tames Value.Tame (Operation.unrelated r v w) :=
    hr.bind fun _ _ => pure (.bool _)
  cases o with
  | add => exact add hv hw
  | sub => exact sub hv hw
  | mul => exact mul hv hw
  | div => exact div v w
  | mod => exact mod v w
  | eq => exact related (looseEq hv hw)
  | ne => exact unrelated (looseEq hv hw)
  | strictEq => exact related (strictEq hv hw)
  | strictNe => exact unrelated (strictEq hv hw)
  | lt => exact related (compare .lt hv hw)
  | le => exact related (compare .le hv hw)
  | gt => exact related (compare .gt hv hw)
  | ge => exact related (compare .ge hv hw)
  | isIn => exact related (contains v w)
  | notIn => exact unrelated (contains v w)

end Action.Tames
end Trellis
