import Trellis.Proofs.Faults.Operations

/-!
# Proofs — Faults — Calls

What tame values give when they are called is tame (`Action.Tames.call`): there is one lemma for each
method, and one for each function but the one that raises complaints.  Sorting moves items about
(`Sorting.mem_sort`), and what is read of a serialized text has no functions in it
(`Json.tame_read`).
-/

namespace Trellis

open Value (TameItems TameEntries)

/-! ### Sorting -/

namespace Sorting

variable {α : Type} {lt : α → α → Except Cause Bool} {x y : α} {xs run sorted : List α}

/-- What a run takes and what it leaves was there before. -/
theorem mem_takeRun {descends : Bool} {r : List α × List α}
    (h : takeRun lt descends y run xs = .ok r) (hx : x ∈ r.1 ∨ x ∈ r.2) :
    x ∈ y :: run ∨ x ∈ xs := by
  induction xs generalizing y run with
  | nil =>
    cases h
    exact .inl (hx.resolve_right List.not_mem_nil)
  | cons z zs ih =>
    unfold takeRun at h
    cases hlt : lt z y with
    | error c =>
      rw [hlt] at h
      cases h
    | ok b =>
      rw [hlt] at h
      change (if (b == descends) = true then _ else _) = Except.ok r at h
      split at h
      · -- the run goes on with `z`, which was at the front of the rest
        obtain hx | hx := ih h
        · obtain rfl | hx := List.mem_cons.mp hx
          · exact .inr List.mem_cons_self
          · exact .inl hx
        · exact .inr (List.mem_cons_of_mem z hx)
      · cases h
        exact hx

/-- Sorting into a list adds nothing but what is sorted. -/
theorem mem_sortInto (hx : x ∈ (sortInto lt sorted xs).1) : x ∈ sorted ∨ x ∈ xs := by
  induction xs generalizing sorted with
  | nil => exact .inl hx
  | cons y ys ih =>
    unfold sortInto at hx
    split at hx
    · obtain hx | hx := ih hx
      · obtain hx | hx := List.mem_append.mp hx
        · exact .inl (List.mem_of_mem_take hx)
        · obtain rfl | hx := List.mem_cons.mp hx
          · exact .inr List.mem_cons_self
          · exact .inl (List.mem_of_mem_drop hx)
      · exact .inr (List.mem_cons_of_mem y hx)
    · exact List.mem_append.mp hx

/-- Sorting makes no new items. -/
theorem mem_sort (hx : x ∈ (sort lt xs).1) : x ∈ xs := by
  unfold sort at hx
  split at hx
  · next a b cs =>
    split at hx
    · exact hx
    · split at hx
      · exact hx
      · next descends _ _ run rest hrun =>
        have hrest : x ∈ run ∨ x ∈ rest := by
          obtain hx | hx := mem_sortInto hx
          · -- a run that goes down is reversed
            left
            split at hx
            · exact hx
            · exact List.mem_reverse.mp hx
          · exact .inr hx
        obtain hx | hx := mem_takeRun hrun hrest
        · simp only [List.mem_cons, List.not_mem_nil, or_false] at hx
          obtain rfl | rfl := hx <;> simp
        · simp [hx]
  · exact hx

end Sorting

/-! ### Reading -/

namespace Json

variable {α β : Type} {P : α → Prop} {Q : β → Prop}

/-- What is read satisfies `P`. -/
def Gives (P : α → Prop) (x : Except Problem α) : Prop :=
  ∀ a, x = .ok a → P a

theorem Gives.ok {a : α} (h : P a) : Gives P (.ok a) := by
  intro b hb
  cases hb
  exact h

theorem Gives.error (p : Problem) : Gives P (.error p) := by
  intro a ha
  cases ha

/-- Readers in a row give what the last one gives. -/
theorem Gives.bind {x : Except Problem α} {f : α → Except Problem β} (hx : Gives P x)
    (hf : ∀ a, P a → Gives Q (f a)) : Gives Q (x >>= f) := by
  cases x with
  | error p => exact .error p
  | ok a => exact hf a (hx a rfl)

theorem Gives.any (x : Except Problem α) : Gives (fun _ => True) x :=
  fun _ _ => trivial

/-- The step reads tame values. -/
def ReadsTame (item : Step Value) : Prop :=
  ∀ s, Gives (fun r => r.1.Tame) (item s)

/-- A number that is read is tame, as all numbers are. -/
theorem tame_magnitude (negative : Bool) (s : List Char) :
    Gives (fun r => r.1.Tame) (magnitude negative s) := by
  unfold magnitude
  split
  · exact .error _
  · dsimp only
    split
    · split
      · exact .error _
      · exact .ok (.int _)
    · exact .ok (.float _)

/-- So are the words that stand for values. -/
theorem tame_constants : ∀ p ∈ constants, p.2.Tame := by
  simp [constants]

/-- What is read without containers is tame. -/
theorem tame_scalar : ReadsTame scalar := by
  intro s
  unfold scalar
  split
  · next r hr =>
    obtain ⟨p, hp, hword⟩ := List.exists_of_findSome?_eq_some hr
    unfold word? at hword
    split at hword
    · cases hword
      exact .ok (tame_constants p hp)
    · cases hword
  · split <;> exact tame_magnitude _ _

/-- What holds of all that is read as a part of a container holds of its parts. -/
theorem gives_parts {part : Step α} (hpart : ∀ s, Gives (fun r => P r.1) (part s)) (close : Char)
    (s : List Char) : Gives (fun r => ∀ x ∈ r.1, P x) (parts part close s) := by
  have more (fuel : Nat) (s : List Char) :
      Gives (fun r => ∀ x ∈ r.1, P x) (moreParts part close fuel s) := by
    induction fuel generalizing s with
    | zero => exact .error _
    | succ fuel ih =>
      unfold moreParts
      dsimp only
      split
      · exact .ok nofun
      · split
        · refine (hpart _).bind fun r hr => (ih r.2).bind fun q hq => ?_
          exact .ok (List.forall_mem_cons.mpr ⟨hr, hq⟩)
        · exact .error _
  unfold parts
  dsimp only
  split
  · exact .ok nofun
  · refine (hpart _).bind fun r hr => (more _ r.2).bind fun q hq => ?_
    exact .ok (List.forall_mem_cons.mpr ⟨hr, hq⟩)

/-- An entry is tame if its value is; its key is a text. -/
theorem tame_entry {item : Step Value} (hitem : ReadsTame item) (s : List Char) :
    Gives (fun r => r.1.1.Tame ∧ r.1.2.Tame) (entry item s) := by
  unfold entry
  split
  · refine (Gives.any _).bind fun k _ => ?_
    dsimp only
    split
    · exact (hitem _).bind fun r hr => .ok ⟨.text _, hr⟩
    · exact .error _
  · exact .error _

/-- Whatever is read from a serialized text is tame, at any depth of nesting. -/
theorem tame_value (depth : Nat) : ReadsTame (value depth) := by
  induction depth with
  | zero => exact fun _ => .error _
  | succ depth ih =>
    intro s
    unfold value
    split
    · exact (Gives.any _).bind fun r _ => .ok (.text _)
    · exact (gives_parts ih _ _).bind fun r hr => .ok (.list hr)
    · refine (gives_parts (P := fun e => e.1.Tame ∧ e.2.Tame) (tame_entry ih) _ _).bind
        fun r hr => .ok ?_
      exact Value.tame_dict.mpr (TameEntries.nil.insertAll hr)
    · exact tame_scalar _

/-- What a serialized text stands for is tame. -/
theorem tame_read {s : String} {v : Value} (h : read s = .ok v) : v.Tame := by
  have hall : Gives Value.Tame (readAll s.toList) := by
    unfold readAll
    split
    · exact .error _
    · refine (tame_value _ _).bind fun r hr => ?_
      dsimp only
      split
      · exact .ok hr
      · exact .error _
  unfold read at h
  split at h
  · next hv =>
    cases h
    exact hall v hv
  · cases h

end Json

namespace Action.Tames

variable {v w : Value} {xs args : List Value} {es : List (Value × Value)}

/-! ### Storing -/

mutual

/-- What is stored is tame as it was before. -/
theorem store : (v : Value) → v.Tame → Tames Value.Tame (Action.store v)
  | .list xs, h => (storeItems xs (Value.tame_list.mp h)).bind fun _ hxs => newList hxs
  | .dict es, h => (storeEntries es (Value.tame_dict.mp h)).bind fun _ hes => newDict hes
  | .tuple xs, h => (storeItems xs (Value.tame_tuple.mp h)).bind fun _ hxs => pure (.tuple hxs)
  | .object fs, h => (storeFields fs (Value.tame_object.mp h)).bind fun _ hfs => pure (.object hfs)
  | .view p d m, h => (store d (Value.tame_view.mp h)).bind fun _ hd => pure (.view p m hd)
  | .none, h | .bool _, h | .int _, h | .float _, h | .nan _, h | .text _, h | .range .., h
  | .set .., h | .function _, h | .generic .., h | .descriptor .., h | .method .., h | .ref .., h
  | .cut _, h => pure h
termination_by structural v => v

/-- Items are stored one by one, and what stands for them is tame if they are. -/
theorem storeItems : (xs : List Value) → TameItems xs → Tames TameItems (Action.storeItems xs)
  | [], _ => pure .nil
  | x :: xs, h => by
    obtain ⟨hx, hxs⟩ := TameItems.cons.mp h
    refine (store x hx).bind fun y hy => (storeItems xs hxs).bind fun ys hys => ?_
    exact pure (TameItems.cons.mpr ⟨hy, hys⟩)
termination_by structural xs => xs

/-- Entries are stored one by one as well. -/
theorem storeEntries : (es : List (Value × Value)) → TameEntries es →
    Tames TameEntries (Action.storeEntries es)
  | [], _ => pure .nil
  | e :: es, h => by
    obtain ⟨he, hes⟩ := TameEntries.cons.mp h
    refine (storeEntry e he).bind fun f hf => (storeEntries es hes).bind fun fs hfs => ?_
    exact pure (TameEntries.cons.mpr ⟨hf, hfs⟩)
termination_by structural es => es

theorem storeEntry : (e : Value × Value) → e.1.Tame ∧ e.2.Tame →
    Tames (fun e => e.1.Tame ∧ e.2.Tame) (Action.storeEntry e)
  | (_, v), h => (store v h.2).bind fun _ hw => pure ⟨h.1, hw⟩
termination_by structural e => e

theorem storeFields : (fs : List (String × Value)) → (∀ f ∈ fs, f.2.Tame) →
    Tames (fun gs => ∀ g ∈ gs, g.2.Tame) (Action.storeFields fs)
  | [], _ => pure fun _ hg => nomatch hg
  | f :: fs, h => by
    obtain ⟨hf, hfs⟩ := List.forall_mem_cons.mp h
    refine (storeField f hf).bind fun g hg => (storeFields fs hfs).bind fun gs hgs => ?_
    exact pure (List.forall_mem_cons.mpr ⟨hg, hgs⟩)
termination_by structural fs => fs

theorem storeField : (f : String × Value) → f.2.Tame → Tames (fun g => g.2.Tame) (Action.storeField f)
  | (_, v), h => (store v h).bind fun _ hw => pure hw
termination_by structural f => f

end

/-! ### Arguments -/

/-- A call without arguments finds none, or fails as its kind does. -/
theorem takeNone (function : String) (args : List Value) :
    Tames (fun _ => True) (Value.takeNone function args) :=
  ite _ (pure trivial) (fail _)

/-- The only argument of a call is one of its arguments. -/
theorem takeOne (function : String) (hargs : TameItems args) :
    Tames Value.Tame (Value.takeOne function args) := by
  unfold Value.takeOne
  split
  · exact pure (TameItems.cons.mp hargs).1
  · exact fail _

/-- A wrong number of arguments is a fault of the ordinary kind. -/
theorem expectBetween (function : String) (low high : Nat) (args : List Value) :
    Tames (fun _ => True) (Value.expectBetween function low high args) :=
  ite _ (fail _) (ite _ (fail _) (pure trivial))

theorem takeBetween (function : String) (low high : Nat) (args : List Value) :
    Tames (fun _ => True) (Value.takeBetween function low high args) :=
  ite _ (fail _) (ite _ (fail _) (pure trivial))

/-- A value that is to be a whole number is one, or the call fails. -/
theorem whole (v : Value) : Tames (fun _ => True) (Value.whole v) := by
  unfold Value.whole
  split
  · exact pure trivial
  · exact fail _

theorem size (v : Value) : Tames (fun _ => True) (Value.size v) :=
  (whole v).bind fun _ _ => ite _ (fail _) (pure trivial)

/-- A bound that is left out is the default. -/
theorem boundOr (default length : Nat) (o : Option Value) :
    Tames (fun _ => True) (Value.boundOr default length o) := by
  unfold Value.boundOr
  split
  · exact pure trivial
  · split
    · exact pure trivial
    · exact fail _
  · exact pure trivial

theorem plainBoundOr (default length : Nat) (o : Option Value) :
    Tames (fun _ => True) (Value.plainBoundOr default length o) := by
  unfold Value.plainBoundOr
  split
  · split
    · exact pure trivial
    · exact fail _
  · exact pure trivial

/-! ### Numbers -/

/-- Digits in a base are read as a number, or not at all. -/
theorem readWhole (base : Nat) (s : String) : Tames Value.Tame (Value.readWhole base s) := by
  unfold Value.readWhole
  split
  · exact pure (.int _)
  · exact fail _
  · exact fail _

/-- Conversion to a whole number gives one or fails. -/
theorem toInt (v : Value) : Tames Value.Tame (Value.toInt v) := by
  unfold Value.toInt
  split
  · exact readWhole 10 _
  · split
    · exact pure (.int _)
    · exact fail _
    · exact fail _
  · exact fail _
  · split
    · exact pure (.int _)
    · exact fail _

/-- The same, in a base. -/
theorem toIntIn (v base : Value) : Tames Value.Tame (Value.toIntIn v base) := by
  refine (whole base).bind fun b _ => ite _ (fail _) ?_
  split
  · exact readWhole _ _
  · exact fail _

/-- Conversion to a floating-point number gives one or fails. -/
theorem toFloat (v : Value) : Tames Value.Tame (Value.toFloat v) := by
  unfold Value.toFloat
  split
  · split
    · exact float _
    · exact fail _
  · exact pure (.float _)
  · exact pure (.nan _)
  · split
    · exact ite _ (fail _) (pure (.float _))
    · exact fail _

/-! ### Methods of texts -/

section

variable (s : List Char) (args : List Value)

/-- The methods that change letters give texts. -/
theorem mapped (name : String) (f : List Char → List Char) :
    Tames Value.Tame (Value.TextMethod.mapped name f s args) :=
  (takeNone _ args).bind fun _ _ => pure (.text _)

theorem isdigit : Tames Value.Tame (Value.TextMethod.isdigit s args) :=
  (takeNone _ args).bind fun _ _ => pure (.bool _)

/-- Stripping a text gives a text. -/
theorem strip : Tames Value.Tame (Value.TextMethod.strip s args) := by
  refine (expectBetween _ _ _ args).bind fun _ _ => ?_
  split
  · exact pure (.text _)
  · exact pure (.text _)
  · exact pure (.text _)
  · exact fail _

/-- Replacing in a text gives a text. -/
theorem replace : Tames Value.Tame (Value.TextMethod.replace s args) := by
  have argument (i : Nat) (v : Value) :
      Tames (fun _ => True) (Value.TextMethod.replaceArgument i v) := by
    unfold Value.TextMethod.replaceArgument
    split
    · exact pure trivial
    · exact fail _
  refine (expectBetween _ _ _ args).bind fun _ _ => ?_
  refine (argument 1 _).bind fun _ _ => (argument 2 _).bind fun _ _ => ?_
  dsimp only
  split
  · exact (size _).bind fun _ _ => pure (.text _)
  · exact pure (.text _)

/-- Splitting a text gives texts. -/
theorem splitText : Tames Value.Tame (Value.TextMethod.split s args) := by
  have done (parts : List (List Char)) :
      Tames Value.Tame (Action.newList (parts.map fun p => .text (String.ofList p))) :=
    newList (.map fun _ => .text _)
  unfold Value.TextMethod.split
  dsimp only
  refine ite _ (fail_bind _ _) ?_
  -- a limit is read first; what follows is the same without one
  split
  case' h_1 => refine (size _).bind fun _ _ => ?_
  all_goals
    split
    · exact done _
    · exact done _
    · exact ite _ (fail_bind _ _) (done _)
    · exact fail _

/-- What is joined must be texts; anything else is refused with its place. -/
theorem joinable (i : Nat) (vs : List Value) :
    Tames (fun _ => True) (Value.TextMethod.joinable i vs) := by
  induction vs generalizing i with
  | nil => exact pure trivial
  | cons v vs ih =>
    cases v with
    | text t => exact (ih _).bind fun _ _ => pure trivial
    | _ => exact fail _

/-- The arguments of a search are a text and two bounds. -/
theorem searchArguments (name : String) :
    Tames (fun _ => True) (Value.TextMethod.searchArguments name s args) :=
  (takeBetween _ _ _ args).bind fun _ _ =>
    ((boundOr _ _ _).bind fun _ _ => (boundOr _ _ _).bind fun _ _ => pure trivial).bind
      fun _ (_ : True) => pure trivial

/-- One text after the other is tried at the end of the text. -/
theorem hasAnyAffix (name : String) (atEnd : Bool) (sl : Value.Slice) (vs : List Value) :
    Tames (fun _ => True) (Value.TextMethod.hasAnyAffix name atEnd s sl vs) := by
  induction vs with
  | nil => exact pure trivial
  | cons v vs ih =>
    cases v with
    | text t => exact ite _ (pure trivial) ih
    | _ => exact fail _

/-- Asking for the start or the end of a text gives a truth value. -/
theorem affix (name : String) (atEnd : Bool) :
    Tames Value.Tame (Value.TextMethod.affix name atEnd s args) := by
  refine (searchArguments s args name).bind fun r _ => ?_
  dsimp only
  split
  · exact pure (.bool _)
  · exact (hasAnyAffix s name atEnd _ _).bind fun _ _ => pure (.bool _)
  · exact fail _

/-- The arguments of `find` and its kin are those of a search for a text. -/
theorem needleArguments (name : String) :
    Tames (fun _ => True) (Value.TextMethod.needleArguments name s args) := by
  refine (searchArguments s args name).bind fun r _ => ?_
  dsimp only
  split
  · exact pure trivial
  · exact fail _

/-- Finding a text gives a number. -/
theorem find : Tames Value.Tame (Value.TextMethod.find s args) :=
  (needleArguments s args _).bind fun _ _ => pure (.int _)

/-- So does asking for its place, which fails if there is none. -/
theorem indexOf : Tames Value.Tame (Value.TextMethod.index s args) := by
  refine (needleArguments s args _).bind fun r _ => ?_
  dsimp only
  split
  · exact pure (.int _)
  · exact fail _

/-- So does counting. -/
theorem count : Tames Value.Tame (Value.TextMethod.count s args) :=
  (needleArguments s args _).bind fun _ _ => ite _ (pure (.int _)) (pure (.int _))

end

/-- The result of a method of a text is tame, whatever the arguments are. -/
theorem callText (s name : String) (args : List Value) (hargs : TameItems args) :
    Tames Value.Tame (Value.TextMethod.call s name args) := by
  have join : Tames Value.Tame (Value.TextMethod.join s.toList args) := by
    refine (takeOne _ hargs).bind fun v hv => (items? hv).bind fun o _ => ?_
    cases o with
    | some vs => exact (joinable 0 vs).bind fun _ _ => pure (.text _)
    | none => exact fail _
  unfold Value.TextMethod.call
  dsimp only
  split
  · exact mapped _ _ _ _
  · exact mapped _ _ _ _
  · exact mapped _ _ _ _
  · exact mapped _ _ _ _
  · exact isdigit _ _
  · exact strip _ _
  · exact replace _ _
  · exact splitText _ _
  · exact join
  · exact affix _ _ _ _
  · exact affix _ _ _ _
  · exact find _ _
  · exact indexOf _ _
  · exact count _ _
  · exact fail _

/-! ### Methods of lists -/

section

variable (a : Nat)

/-- The items of a list that the heap holds are tame. -/
theorem itemsAt : Tames TameItems (Value.ListMethod.itemsAt a) := by
  refine (view (.ref .list a)).bind fun u hu => ?_
  split
  · exact pure (Value.tame_list.mp hu)
  · exact pure .nil

/-- A list that is overwritten with tame items stays tame. -/
theorem write (hxs : TameItems xs) : Tames Value.Tame (Value.ListMethod.write a xs) :=
  (assign a (c := .list xs) hxs).bind fun _ _ => pure .none

/-- Looking for a value compares, and makes nothing new. -/
theorem position? (xs : List Value) (v : Value) :
    Tames (fun _ => True) (Value.ListMethod.position? xs v) :=
  get.bind fun _ _ => pure trivial

theorem listIndex (args : List Value) : Tames Value.Tame (Value.ListMethod.index a args) := by
  refine (expectBetween _ _ _ args).bind fun _ _ => (itemsAt a).bind fun xs _ => ?_
  refine (plainBoundOr _ _ _).bind fun _ _ => (plainBoundOr _ _ _).bind fun _ _ => ?_
  refine (position? _ _).bind fun o _ => ?_
  cases o with
  | some n => exact pure (.int _)
  | none => exact (shown _).bind fun _ _ => fail _

/-- An item that is popped was one of the list. -/
theorem listPop (args : List Value) : Tames Value.Tame (Value.ListMethod.pop a args) := by
  refine (expectBetween _ _ _ args).bind fun _ _ => ?_
  dsimp only
  -- an index is read first; what follows is the same without one
  split
  case' h_1 => refine (size _).bind fun n _ => ?_
  all_goals
    refine (itemsAt a).bind fun xs hxs => ite _ (fail _) ?_
    split
    · next i _ =>
      have hrest : TameItems (xs.eraseIdx i) := hxs.subset fun _ hx => List.mem_of_mem_eraseIdx hx
      exact (assign a (c := .list (xs.eraseIdx i)) hrest).bind fun _ _ => pure (hxs.getD i)
    · exact fail _

/-- A sorted list has the items that it had. -/
theorem listSort (args : List Value) : Tames Value.Tame (Value.ListMethod.sort a args) := by
  unfold Value.ListMethod.sort
  dsimp only
  refine ite _ (fail_bind _ _) (ite _ (fail_bind _ _) ?_)
  refine get.bind fun h _ => (itemsAt a).bind fun xs hxs => ?_
  refine (assign a (c := .list _) ?_).bind fun _ _ => ?_
  · -- the items are sorted beside their forms, also when a comparison fails
    intro x hx
    obtain ⟨y, hy, rfl⟩ := List.mem_map.mp hx
    obtain ⟨z, hz, rfl⟩ := List.mem_map.mp (Sorting.mem_sort hy)
    exact hxs z hz
  · split
    · exact fail _
    · exact pure .none

/-- An inserted item comes from the arguments. -/
theorem listInsert (hargs : TameItems args) :
    Tames Value.Tame (Value.ListMethod.insert a args) := by
  unfold Value.ListMethod.insert
  split
  · obtain ⟨-, hv⟩ := TameItems.cons.mp hargs
    refine (size _).bind fun n _ => (itemsAt a).bind fun xs hxs => write a ?_
    refine TameItems.append.mpr ⟨hxs.subset fun _ => List.mem_of_mem_take, ?_⟩
    exact TameItems.cons.mpr ⟨(TameItems.cons.mp hv).1, hxs.subset fun _ => List.mem_of_mem_drop⟩
  · exact fail _

/-- Removing an item leaves the others. -/
theorem listRemove (hargs : TameItems args) :
    Tames Value.Tame (Value.ListMethod.remove a args) := by
  refine (takeOne _ hargs).bind fun v _ => (itemsAt a).bind fun xs hxs => ?_
  refine (position? xs v).bind fun o _ => ?_
  cases o with
  | some n => exact write a (hxs.subset fun _ hx => List.mem_of_mem_eraseIdx hx)
  | none => exact fail _

/-- The result of a method of a list is tame. -/
theorem callList (name : String) (hargs : TameItems args) :
    Tames Value.Tame (Value.ListMethod.call a name args) := by
  unfold Value.ListMethod.call
  split
  · exact listIndex a args
  · refine (takeOne _ hargs).bind fun v _ => get.bind fun _ _ => ?_
    exact (itemsAt a).bind fun _ _ => pure (.int _)
  · refine (takeOne _ hargs).bind fun v hv => (itemsAt a).bind fun xs hxs => write a ?_
    exact TameItems.append.mpr ⟨hxs, TameItems.cons.mpr ⟨hv, .nil⟩⟩
  · refine (takeOne _ hargs).bind fun v hv => (items hv).bind fun vs hvs => ?_
    exact (itemsAt a).bind fun xs hxs => write a (TameItems.append.mpr ⟨hxs, hvs⟩)
  · exact listPop a args
  · exact (takeNone _ args).bind fun _ _ => (itemsAt a).bind fun xs hxs => newList hxs
  · exact listSort a args
  · refine (takeNone _ args).bind fun _ _ => (itemsAt a).bind fun xs hxs => write a ?_
    exact hxs.subset fun _ => List.mem_reverse.mp
  · exact (takeNone _ args).bind fun _ _ => write a .nil
  · exact listInsert a hargs
  · exact listRemove a hargs
  · exact fail _

/-! ### Methods of dictionaries -/

/-- A dictionary that is changed tamely stays tame. -/
theorem change {f : Slots → Slots} (hf : ∀ s : Slots, s.Tame → (f s).Tame) :
    Tames (fun _ => True) (Value.DictMethod.change a f) :=
  (slots (.ref .dict a)).bind fun s hs => assign a (c := .dict (f s)) (hf s hs)

/-- What a dictionary gives is one of its values or the default. -/
theorem dictGet (hargs : TameItems args) : Tames Value.Tame (Value.DictMethod.get a args) := by
  refine (expectBetween _ _ _ args).bind fun _ _ => (sought _).bind fun k _ => ?_
  refine (entriesOf (.ref .dict a)).bind fun es hes => pure ?_
  cases hv : Value.lookup? k es with
  | some v => exact hes.lookup? k hv
  | none => exact hargs.getD 1

/-- A default that is set comes from the arguments. -/
theorem dictSetdefault (hargs : TameItems args) :
    Tames Value.Tame (Value.DictMethod.setdefault a args) := by
  refine (expectBetween _ _ _ args).bind fun _ _ => (key (hargs.getD 0)).bind fun k hk => ?_
  refine (entriesOf (.ref .dict a)).bind fun es hes => ?_
  split
  · next hv => exact pure (hes.lookup? k hv)
  · exact (change a fun s hs => hs.put hk (hargs.getD 1)).bind fun _ _ => pure (hargs.getD 1)

/-- What is popped was in the dictionary, or is the default. -/
theorem dictPop (hargs : TameItems args) : Tames Value.Tame (Value.DictMethod.pop a args) := by
  refine (expectBetween _ _ _ args).bind fun _ _ => (entriesOf (.ref .dict a)).bind fun es hes => ?_
  dsimp only
  -- in an empty dictionary nothing is looked for
  split
  case' isFalse => refine (sought _).bind fun k _ => ?_
  all_goals
    refine (pure (P := fun o => ∀ v ∈ o, v.Tame) ?_).bind fun found hfound => ?_
    · first
      | exact fun _ hv => hes.lookup? _ hv
      | simp
    · split
      · exact (change a fun s hs => hs.erase _).bind fun _ _ => pure (hfound _ rfl)
      · next d hd => exact pure (hargs d (List.mem_of_getElem? hd))
      · exact (shown _).bind fun _ _ => fail _

/-- The views of a dictionary hold nothing but what it holds. -/
theorem dictPart (p : Part) (name : String) (args : List Value) :
    Tames Value.Tame (Value.DictMethod.part p name a args) :=
  (takeNone _ args).bind fun _ _ => freshMark.bind fun m _ => pure (.view p m (.ref .dict a))

/-- Pairs are written one by one, up to the first that is no pair. -/
theorem writePairs (i : Nat) {vs : List Value} (hvs : TameItems vs) :
    Tames (fun _ => True) (Value.DictMethod.writePairs a i vs) := by
  have pairOf (i : Nat) {v : Value} (hv : v.Tame) :
      Tames (fun e => e.1.Tame ∧ e.2.Tame) (Value.DictMethod.pairOf i v) := by
    refine (items? hv).bind fun o ho => ?_
    split
    · exact fail _
    · next k w =>
      obtain ⟨hk, hw⟩ := TameItems.cons.mp (ho _ rfl)
      exact (key hk).bind fun k hk => pure ⟨hk, (TameItems.cons.mp hw).1⟩
    · exact fail _
  induction vs generalizing i with
  | nil => exact pure trivial
  | cons v vs ih =>
    obtain ⟨hv, hvs⟩ := TameItems.cons.mp hvs
    refine (pairOf i hv).bind fun e he => ?_
    exact (change a fun s hs => hs.put he.1 he.2).bind fun _ _ => ih _ hvs

/-- What a supply gives next is one of the items that are left in it. -/
theorem nextSupply : Tames Value.Tame (Value.nextSupply a) := by
  refine get.bind fun h hh => ?_
  split
  · next v vs hc =>
    obtain ⟨hv, hvs⟩ := TameItems.cons.mp (hh a _ hc)
    exact (assign a (c := .supply vs) hvs).bind fun _ _ => pure hv
  · exact pure .none

/-- What a tame object holds for its keys is called. -/
theorem toldKeys (hv : v.Tame) : Tames TameItems (Value.toldKeys w v) := by
  have call : Tames Value.Tame (Value.callHeld v) := by
    unfold Value.callHeld
    split
    · exact newList .nil
    · -- a tame value does not raise complaints
      exact absurd rfl (Value.tame_function.mp hv)
    · exact nextSupply _
    · exact fail _
  refine call.bind fun told htold => (items? htold).bind fun o ho => ?_
  cases o with
  | some ks => exact pure (ho ks rfl)
  | none => exact fail _

/-- An update takes entries from dictionaries, or pairs from anything that can be walked over. -/
theorem updateFrom (hv : v.Tame) : Tames (fun _ => True) (Value.DictMethod.updateFrom a v) := by
  refine (view hv).bind fun u hu => ?_
  split
  · split
    · next hheld =>
      exact (toldKeys (Value.tame_lookup hu hheld)).bind fun ks _ => ite _ (fail _) (pure trivial)
    · exact fail _
  · refine (slots hv).bind fun s hs => ite _ (pure trivial) ?_
    exact change a fun t ht => ht.absorb hs
  · exact ite _ (pure trivial) (fail _)
  · exact fail _
  · exact (items hu).bind fun xs hxs => writePairs a 0 hxs

theorem dictUpdate (hargs : TameItems args) :
    Tames Value.Tame (Value.DictMethod.update a args) := by
  refine (expectBetween _ _ _ args).bind fun _ _ => ?_
  split
  · exact (updateFrom a (TameItems.cons.mp hargs).1).bind fun _ _ => pure .none
  · exact pure .none

omit a in
/-- A new dictionary is an update of an empty one. -/
theorem construct (hargs : TameItems args) : Tames Value.Tame (Value.DictMethod.construct args) := by
  refine (expectBetween _ _ _ args).bind fun _ _ => get.bind fun h _ => ?_
  refine (newDict .nil).bind fun d hd => ?_
  split
  · exact (updateFrom _ (TameItems.cons.mp hargs).1).bind fun _ _ => pure hd
  · exact pure hd

/-- The result of a method of a dictionary is tame. -/
theorem callDict (name : String) (hargs : TameItems args) :
    Tames Value.Tame (Value.DictMethod.call a name args) := by
  unfold Value.DictMethod.call
  split
  · exact dictGet a hargs
  · exact dictSetdefault a hargs
  · exact dictPop a hargs
  · exact dictPart a _ _ args
  · exact dictPart a _ _ args
  · exact dictPart a _ _ args
  · exact dictUpdate a hargs
  · exact fail _

end

/-! ### Functions -/

/-- Formatting gives a text, whatever the arguments are. -/
theorem format (v : Value) (args : List Value) :
    Tames (fun _ => True) (Placeholders.format v args) := by
  have apply (k : Placeholders.Conversion) (v : Value) : Tames (fun _ => True) (k.apply v) := by
    cases k with
    | text => exact embedded v
    | whole => exact (toInt v).bind fun _ _ => embedded _
    | floating => exact (toFloat v).bind fun _ _ => embedded _
    | serialized => exact written v
  have fill (ps : List Placeholders.Piece) (vs : List Value) :
      Tames (fun _ => True) (Placeholders.fill ps vs) := by
    induction ps generalizing vs with
    | nil => exact pure trivial
    | cons q ps ih =>
      cases q with
      | plain c => exact (ih vs).bind fun _ _ => pure trivial
      | percent => exact (ih vs).bind fun _ _ => pure trivial
      | slot c k =>
        cases vs with
        | nil => exact (ih []).bind fun _ _ => pure trivial
        | cons v vs => exact (apply k v).bind fun _ _ => (ih vs).bind fun _ _ => pure trivial
  have all (vs : List Value) : Tames (fun _ => True) (Placeholders.embeddedAll vs) := by
    induction vs with
    | nil => exact pure trivial
    | cons v vs ih => exact (embedded v).bind fun _ _ => ih.bind fun _ _ => pure trivial
  unfold Placeholders.format
  split
  · exact (fill _ _).bind fun _ _ => (all _).bind fun _ _ => pure trivial
  · exact (all _).bind fun _ _ => pure trivial

/-- A function of one argument is given it by place. -/
theorem onlyArgument (function parameter : String) (hargs : TameItems args) :
    Tames Value.Tame (Value.onlyArgument function parameter args) := by
  unfold Value.onlyArgument
  split
  · exact pure (TameItems.cons.mp hargs).1
  · exact fail _
  · exact fail _

/-- A range has three numbers, however many of them are given. -/
theorem makeRange (args : List Value) : Tames Value.Tame (Value.makeRange args) := by
  refine (expectBetween _ _ _ args).bind fun _ _ => ?_
  dsimp only
  split
  · exact (whole _).bind fun _ _ => pure (.range _ _ _)
  · refine (whole _).bind fun _ _ => (whole _).bind fun _ _ => ?_
    split
    · exact (whole _).bind fun _ _ => ite _ (fail _) (pure (.range _ _ _))
    · exact (pure trivial).bind fun _ (_ : True) => ite _ (fail _) (pure (.range _ _ _))
  · exact pure .none

theorem makeInt (args : List Value) : Tames Value.Tame (Value.makeInt args) := by
  unfold Value.makeInt
  split
  · exact pure (.int 0)
  · exact toInt _
  · exact toIntIn _ _
  · exact fail _

theorem makeFloat (args : List Value) : Tames Value.Tame (Value.makeFloat args) := by
  refine (expectBetween _ _ _ args).bind fun _ _ => ?_
  split
  · exact toFloat _
  · exact pure (.float 0)

/-- A list that is made of a value has the items of the value. -/
theorem makeList (hargs : TameItems args) : Tames Value.Tame (Value.makeList args) := by
  refine (expectBetween _ _ _ args).bind fun _ _ => ?_
  split
  · exact (items (TameItems.cons.mp hargs).1).bind fun _ hxs => newList hxs
  · exact newList .nil

/-- The result of a function is tame, unless it is the one that raises complaints. -/
theorem callFunction {f : Function} (hf : f ≠ .raise) (hargs : TameItems args) :
    Tames Value.Tame (Value.callFunction f args) := by
  cases f with
  | toText =>
    exact (onlyArgument _ _ hargs).bind fun _ _ => (embedded _).bind fun _ _ => pure (.text _)
  | length => exact (takeOne _ hargs).bind fun _ hv => (length hv).bind fun _ _ => pure (.int _)
  | toInt => exact makeInt args
  | toFloat => exact makeFloat args
  | range => exact makeRange args
  | list => exact makeList hargs
  | dict => exact construct hargs
  | format =>
    cases args with
    | nil => exact fail _
    | cons v vs => exact (format v vs).bind fun _ _ => pure (.text _)
  | stringify =>
    exact (onlyArgument _ _ hargs).bind fun v _ => (written v).bind fun _ _ => pure (.text _)
  | parse =>
    refine (onlyArgument _ _ hargs).bind fun v _ => ?_
    split
    · exact (ofExcept _ fun _ => Json.tame_read).bind fun v hv => store v hv
    · exact fail _
  | collect => exact newList hargs
  | raise => exact absurd rfl hf

/-- A counter gives numbers. -/
theorem stepCounter (a : Nat) (args : List Value) : Tames Value.Tame (Value.stepCounter a args) := by
  unfold Value.stepCounter
  dsimp only
  refine ite _ (fail_bind _ _) (get.bind fun h _ => ?_)
  split
  · refine (assign a (c := .counter _ _) trivial).bind fun _ _ => (deep _).bind fun _ _ => ?_
    exact (ofExcept _ fun _ _ => trivial).bind fun _ (_ : True) => pure (.bool _)
  · exact pure .none

/-- A method that is called gives something tame if its arguments are. -/
theorem callMethod (v : Value) (name : String) (hargs : TameItems args) :
    Tames Value.Tame (Value.callMethod v name args) := by
  unfold Value.callMethod
  split
  · exact callText _ _ _ hargs
  · exact callList _ _ hargs
  · exact callDict _ _ hargs
  · exact stepCounter _ _
  · exact fail _

/-- So does a method that is called through its type, with the value in front. -/
theorem callDescriptor (f : Function) (name : String) (hargs : TameItems args) :
    Tames Value.Tame (Value.callDescriptor f name args) := by
  unfold Value.callDescriptor
  split
  · exact callList _ _ (TameItems.cons.mp hargs).2
  · exact callDict _ _ (TameItems.cons.mp hargs).2
  all_goals exact fail _

/-- **The result of a call is tame.** -/
theorem call (hv : v.Tame) (hargs : TameItems args) : Tames Value.Tame (Value.call v args) := by
  unfold Value.call
  split
  · exact callFunction (Value.tame_function.mp hv) hargs
  · exact callFunction (Value.tame_generic.mp hv) hargs
  · exact callDescriptor _ _ hargs
  · exact callMethod _ _ hargs
  · exact nextSupply _
  · exact fail _

end Action.Tames
end Trellis
