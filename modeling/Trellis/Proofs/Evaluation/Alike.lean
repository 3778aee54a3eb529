import Trellis.Proofs.Registry.Keys
import Mathlib.Data.List.Perm.Basic

/-!
# Proofs — Evaluation — Alike

What it is for two values to be equal.  `Value.Alike` says that two values differ in two things at
most, at any depth: in the order of the entries of dictionaries, and in truth values that stand in
the place of the numbers zero and one.  It asks for no search and for no order of comparing; that it
is an equivalence is plain (`Alike.refl`, `Alike.symm`, `Alike.trans`).

On data, which are the values built of empty values, truth values, whole numbers and texts, this
relation is what the comparison of two values decides (`sameItem_iff_alike`).  The comparison goes
through the entries of one dictionary and looks the keys up in the other.  It finds the entry that
belongs to a key, if there is one, since the keys of a dictionary are distinct; and it leaves out
none of the other's entries, since no two of the one find the same (`exists_forall₂_perm`).
-/

namespace Trellis.Value

open List (Forall₂ Perm)

/-- The values that are built of empty values, truth values, whole numbers and texts.  The keys of a
dictionary are distinct. -/
inductive IsData : Value → Prop where
  | none : IsData .none
  | bool (b : Bool) : IsData (.bool b)
  | int (n : Int) : IsData (.int n)
  | text (s : String) : IsData (.text s)
  | list {xs : List Value} (items : ∀ x ∈ xs, IsData x) : IsData (.list xs)
  | tuple {xs : List Value} (items : ∀ x ∈ xs, IsData x) : IsData (.tuple xs)
  | dict {es : List (Value × Value)} (keys : ∀ e ∈ es, IsData e.1) (values : ∀ e ∈ es, IsData e.2)
      (distinct : Distinct (es.map (·.1))) : IsData (.dict es)

/-- The values are the same but for the order of the entries of dictionaries, and for truth values
in the place of zero and one. -/
inductive Alike : Value → Value → Prop where
  | none : Alike .none .none
  | number {v w : Value} {n : Int} (left : v.asInt? = some n) (right : w.asInt? = some n) :
      Alike v w
  | text (s : String) : Alike (.text s) (.text s)
  | list {xs ys : List Value} (length : xs.length = ys.length)
      (items : ∀ p ∈ xs.zip ys, Alike p.1 p.2) : Alike (.list xs) (.list ys)
  | tuple {xs ys : List Value} (length : xs.length = ys.length)
      (items : ∀ p ∈ xs.zip ys, Alike p.1 p.2) : Alike (.tuple xs) (.tuple ys)
  /-- The entries `gs`, which are those of the second dictionary in some order, correspond to those
  of the first one after another. -/
  | dict {es fs gs : List (Value × Value)} (order : gs.Perm fs) (length : es.length = gs.length)
      (keys : ∀ p ∈ es.zip gs, Alike p.1.1 p.2.1) (values : ∀ p ∈ es.zip gs, Alike p.1.2 p.2.2) :
      Alike (.dict es) (.dict fs)

/-! ### Lists that correspond -/

section Correspondence

variable {α β γ : Type} {R : α → β → Prop} {S : β → γ → Prop} {T : α → γ → Prop}

/-- Lists are related item by item if they are as long, and items in the same place are related. -/
theorem forall₂_iff_zip {xs : List α} {ys : List β} :
    Forall₂ R xs ys ↔ xs.length = ys.length ∧ ∀ p ∈ xs.zip ys, R p.1 p.2 :=
  List.forall₂_iff_zip.trans (and_congr_right' ⟨fun h _ hp => h hp, fun h _ _ hp => h _ hp⟩)

/-- Related lists are related over a third one between them. -/
theorem forall₂_comp (hT : ∀ a b c, R a b → S b c → T a c) {xs : List α} {ys : List β}
    {zs : List γ} (hxy : Forall₂ R xs ys) (hyz : Forall₂ S ys zs) : Forall₂ T xs zs := by
  induction hxy generalizing zs with
  | nil =>
    cases hyz
    exact .nil
  | cons hab _ ih =>
    cases hyz with
    | cons hbc hyz => exact .cons (hT _ _ _ hab hbc) (ih hyz)

/-- Each item has one that belongs to it. -/
theorem exists_of_mem_left {xs : List α} {ys : List β} (h : Forall₂ R xs ys) {x : α}
    (hx : x ∈ xs) : ∃ y ∈ ys, R x y := by
  induction h with
  | nil => cases hx
  | @cons a b _ _ hab _ ih =>
    rcases List.mem_cons.mp hx with rfl | hx
    · exact ⟨b, List.mem_cons_self, hab⟩
    · obtain ⟨y, hy, hxy⟩ := ih hx
      exact ⟨y, List.mem_cons_of_mem _ hy, hxy⟩

/-- If each item of a list has one that belongs to it in another of the same length, and no two have
the same, then the items correspond one after another to those of the other list in some order. -/
theorem exists_forall₂_perm {xs : List α} {ys : List β} (hlength : xs.length = ys.length)
    (hxs : xs.Pairwise fun x x' => ∀ y, R x y → ¬ R x' y) (hR : ∀ x ∈ xs, ∃ y ∈ ys, R x y) :
    ∃ zs, zs.Perm ys ∧ Forall₂ R xs zs := by
  induction xs generalizing ys with
  | nil => exact ⟨[], by rw [List.length_eq_zero_iff.mp hlength.symm], .nil⟩
  | cons x xs ih =>
    obtain ⟨hx, hxs⟩ := List.pairwise_cons.mp hxs
    obtain ⟨y, hy, hxy⟩ := hR x List.mem_cons_self
    obtain ⟨ys, hperm⟩ : ∃ rest, (y :: rest).Perm ys := by
      obtain ⟨as, bs, rfl⟩ := List.append_of_mem hy
      exact ⟨as ++ bs, List.perm_middle.symm⟩
    have hlength' : xs.length = ys.length := by
      simpa [← hperm.length_eq] using hlength
    -- what belongs to another item is not `y`, which is taken
    have hrest (x') (hx' : x' ∈ xs) : ∃ y' ∈ ys, R x' y' := by
      obtain ⟨y', hy', hxy'⟩ := hR x' (List.mem_cons_of_mem _ hx')
      rcases List.mem_cons.mp (hperm.mem_iff.mpr hy') with rfl | hy'
      · exact absurd hxy' (hx x' hx' _ hxy)
      · exact ⟨y', hy', hxy'⟩
    obtain ⟨zs, hzs, hR'⟩ := ih hlength' hxs hrest
    exact ⟨y :: zs, (hzs.cons y).trans hperm, .cons hxy hR'⟩

end Correspondence

/-! ### Alike values -/

/-- The keys are alike, and so are the values. -/
def AlikeEntry (e f : Value × Value) : Prop :=
  Alike e.1 f.1 ∧ Alike e.2 f.2

namespace Alike

variable {v w u : Value} {xs ys : List Value} {es fs gs : List (Value × Value)}

/-- Lists with alike items are alike. -/
theorem of_items (h : Forall₂ Alike xs ys) : Alike (.list xs) (.list ys) :=
  .list (forall₂_iff_zip.mp h).1 (forall₂_iff_zip.mp h).2

/-- So are tuples. -/
theorem of_tuple_items (h : Forall₂ Alike xs ys) : Alike (.tuple xs) (.tuple ys) :=
  .tuple (forall₂_iff_zip.mp h).1 (forall₂_iff_zip.mp h).2

/-- Dictionaries with alike entries, in some order, are alike. -/
theorem of_entries (horder : gs.Perm fs) (h : Forall₂ AlikeEntry es gs) :
    Alike (.dict es) (.dict fs) := by
  obtain ⟨hlength, h⟩ := forall₂_iff_zip.mp h
  exact .dict horder hlength (fun p hp => (h p hp).1) fun p hp => (h p hp).2

/-- Nothing is alike but nothing. -/
theorem none_iff : Alike .none w ↔ w = .none := by
  refine ⟨fun h => ?_, fun h => h ▸ .none⟩
  cases h with
  | none => rfl
  | number h _ => cases h

/-- A whole number is alike to what is the same number, truth values included. -/
theorem number_iff {n : Int} (hv : v.asInt? = some n) : Alike v w ↔ w.asInt? = some n := by
  refine ⟨fun h => ?_, .number hv⟩
  cases h with
  | number hv' hw => exact hw.trans (hv'.symm.trans hv)
  | _ => cases hv

/-- A text is alike to itself only. -/
theorem text_iff {s : String} : Alike (.text s) w ↔ w = .text s := by
  refine ⟨fun h => ?_, fun h => h ▸ .text s⟩
  cases h with
  | text => rfl
  | number h _ => cases h

/-- A list is alike to lists with alike items only. -/
theorem list_iff : Alike (.list xs) w ↔ ∃ ys, w = .list ys ∧ Forall₂ Alike xs ys := by
  constructor
  · intro h
    cases h with
    | list hlength h => exact ⟨_, rfl, forall₂_iff_zip.mpr ⟨hlength, h⟩⟩
    | number h _ => cases h
  · rintro ⟨ys, rfl, h⟩
    exact of_items h

/-- A tuple is alike to tuples with alike items only. -/
theorem tuple_iff : Alike (.tuple xs) w ↔ ∃ ys, w = .tuple ys ∧ Forall₂ Alike xs ys := by
  constructor
  · intro h
    cases h with
    | tuple hlength h => exact ⟨_, rfl, forall₂_iff_zip.mpr ⟨hlength, h⟩⟩
    | number h _ => cases h
  · rintro ⟨ys, rfl, h⟩
    exact of_tuple_items h

/-- A dictionary is alike to dictionaries with alike entries only, in any order. -/
theorem dict_iff :
    Alike (.dict es) w ↔ ∃ fs gs, w = .dict fs ∧ gs.Perm fs ∧ Forall₂ AlikeEntry es gs := by
  constructor
  · intro h
    cases h with
    | dict horder hlength hkeys hvalues =>
      exact ⟨_, _, rfl, horder,
        forall₂_iff_zip.mpr ⟨hlength, fun p hp => ⟨hkeys p hp, hvalues p hp⟩⟩⟩
    | number h _ => cases h
  · rintro ⟨fs, gs, rfl, horder, h⟩
    exact of_entries horder h

/-- A value is like itself. -/
theorem refl (hv : v.IsData) : Alike v v := by
  induction hv with
  | none => exact .none
  | bool b => exact .number rfl rfl
  | int n => exact .number rfl rfl
  | text s => exact .text s
  | list _ ih => exact of_items (List.forall₂_same.mpr ih)
  | tuple _ ih => exact of_tuple_items (List.forall₂_same.mpr ih)
  | dict _ _ _ ihk ihv =>
    exact of_entries (.refl _) (List.forall₂_same.mpr fun e he => ⟨ihk e he, ihv e he⟩)

/-- A dictionary in another order is alike. -/
theorem of_perm (hes : IsData (.dict es)) (horder : es.Perm fs) : Alike (.dict es) (.dict fs) := by
  cases hes with
  | dict hkeys hvalues _ =>
    exact of_entries horder
      (List.forall₂_same.mpr fun e he => ⟨refl (hkeys e he), refl (hvalues e he)⟩)

/-- Being alike goes both ways. -/
theorem symm (h : Alike v w) : Alike w v := by
  induction h with
  | none => exact .none
  | number hv hw => exact .number hw hv
  | text s => exact .text s
  | list hlength _ ih => exact of_items (Forall₂.flip (forall₂_iff_zip.mpr ⟨hlength, ih⟩))
  | tuple hlength _ ih => exact of_tuple_items (Forall₂.flip (forall₂_iff_zip.mpr ⟨hlength, ih⟩))
  | dict horder hlength _ _ ihk ihv =>
    have hback := Forall₂.flip (R := AlikeEntry)
      (forall₂_iff_zip.mpr ⟨hlength, fun p hp => ⟨ihk p hp, ihv p hp⟩⟩)
    -- the order of one dictionary is carried over to the other
    obtain ⟨hs, hforall, horder'⟩ := List.perm_comp_forall₂ horder.symm hback
    exact of_entries horder' hforall

/-- Being alike goes on. -/
theorem trans (h : Alike v w) (h' : Alike w u) : Alike v u := by
  induction h generalizing u with
  | none => exact h'
  | number hv hw => exact .number hv ((number_iff hw).mp h')
  | text s => exact h'
  | list hlength _ ih =>
    obtain ⟨zs, rfl, hzs⟩ := list_iff.mp h'
    have hys := (forall₂_iff_zip (R := fun x y => ∀ {u}, Alike y u → Alike x u)).mpr ⟨hlength, ih⟩
    exact of_items (forall₂_comp (fun _ _ _ h h' => h h') hys hzs)
  | tuple hlength _ ih =>
    obtain ⟨zs, rfl, hzs⟩ := tuple_iff.mp h'
    have hys := (forall₂_iff_zip (R := fun x y => ∀ {u}, Alike y u → Alike x u)).mpr ⟨hlength, ih⟩
    exact of_tuple_items (forall₂_comp (fun _ _ _ h h' => h h') hys hzs)
  | @dict es fs gs horder hlength _ _ ihk ihv =>
    obtain ⟨ks, ls, rfl, horder', hks⟩ := dict_iff.mp h'
    -- the entries of the last dictionary are put into the order of the first
    obtain ⟨ms, hforall, horder''⟩ := List.perm_comp_forall₂ horder hks
    have hfirst : Forall₂ (fun e g => (∀ {u}, Alike g.1 u → Alike e.1 u) ∧
        ∀ {u}, Alike g.2 u → Alike e.2 u) es gs :=
      forall₂_iff_zip.mpr ⟨hlength, fun p hp => ⟨ihk p hp, ihv p hp⟩⟩
    exact of_entries (horder''.trans horder')
      (forall₂_comp (fun _ _ _ h h' => ⟨h.1 h'.1, h.2 h'.2⟩) hfirst hforall)

end Alike

/-! ### The comparison of data -/

section Comparison

variable {v w : Value} {xs ys : List Value} {es fs : List (Value × Value)}

/-- Items are equal one by one. -/
theorem eqItems_iff : eqItems xs ys = true ↔ Forall₂ (fun x y => sameItem x y = true) xs ys := by
  induction xs generalizing ys with
  | nil => cases ys <;> simp [eqItems]
  | cons x xs ih =>
    cases ys with
    | nil => simp [eqItems]
    | cons y ys => rw [eqItems, Bool.and_eq_true, List.forall₂_cons, ih, sameItem]

/-- Entries are in a dictionary if each is. -/
theorem entriesIn_iff : entriesIn es fs = true ↔ ∀ e ∈ es, entryIn e fs = true := by
  induction es with
  | nil => simp [entriesIn]
  | cons e es ih => rw [entriesIn, Bool.and_eq_true, ih, List.forall_mem_cons]

/-- An entry is in a dictionary if its key is, with an equal value. -/
theorem entryIn_iff {e : Value × Value} : entryIn e fs = true ↔
    ∃ f, (fs.find? fun f => sameItem e.1 f.1) = some f ∧ sameItem e.2 f.2 = true := by
  obtain ⟨k, v⟩ := e
  rw [entryIn]
  simp only [sameItem]
  cases fs.find? fun f => eqWith true k f.1 <;> simp

/-- The comparison of the two values decides whether they are alike. -/
def Decided (v w : Value) : Prop :=
  sameItem v w = true ↔ Alike v w

/-- No two keys of a dictionary are alike, if comparing them decides it. -/
theorem pairwise_not_alike (hdistinct : Distinct (es.map (·.1)))
    (h : ∀ e ∈ es, ∀ f ∈ es, Decided e.1 f.1) : es.Pairwise fun e f => ¬ Alike e.1 f.1 := by
  refine (List.pairwise_map.mp hdistinct).imp_of_mem fun {e f} he hf hne halike => ?_
  rw [(h f hf e he).mpr halike.symm] at hne
  cases hne

/-- The entry that is found is the one that is alike, if there is one. -/
theorem entryIn_iff_alike {e : Value × Value} (hfs : fs.Pairwise fun f g => ¬ Alike f.1 g.1)
    (hkeys : ∀ f ∈ fs, Decided e.1 f.1) (hvalues : ∀ f ∈ fs, Decided e.2 f.2) :
    entryIn e fs = true ↔ ∃ f ∈ fs, AlikeEntry e f := by
  rw [entryIn_iff]
  constructor
  · rintro ⟨f, hfind, hvalue⟩
    have hf := List.mem_of_find?_eq_some hfind
    have hkey := List.find?_some (p := fun f : Value × Value => sameItem e.1 f.1) hfind
    exact ⟨f, hf, (hkeys f hf).mp hkey, (hvalues f hf).mp hvalue⟩
  · rintro ⟨f, hf, hkey, hvalue⟩
    obtain ⟨g, hfind⟩ : ∃ g, (fs.find? fun f => sameItem e.1 f.1) = some g :=
      Option.isSome_iff_exists.mp (List.find?_isSome.mpr ⟨f, hf, (hkeys f hf).mpr hkey⟩)
    have hg := List.mem_of_find?_eq_some hfind
    have hkey' := List.find?_some (p := fun f : Value × Value => sameItem e.1 f.1) hfind
    have : Std.Symm fun f g : Value × Value => ¬ Alike f.1 g.1 := ⟨fun _ _ h h' => h h'.symm⟩
    have hgf : g = f := by
      by_contra hne
      exact hfs.forall hg hf hne (((hkeys g hg).mp hkey').symm.trans hkey)
    exact ⟨g, hfind, (hvalues g hg).mpr (hgf ▸ hvalue)⟩

/-- Dictionaries are compared by their entries, whatever the order. -/
theorem decided_dict (hes : es.Pairwise fun e f => ¬ Alike e.1 f.1)
    (hfs : fs.Pairwise fun f g => ¬ Alike f.1 g.1)
    (hkeys : ∀ e ∈ es, ∀ f ∈ fs, Decided e.1 f.1) (hvalues : ∀ e ∈ es, ∀ f ∈ fs, Decided e.2 f.2) :
    Decided (.dict es) (.dict fs) := by
  have hfound (e) (he : e ∈ es) := entryIn_iff_alike hfs (hkeys e he) (hvalues e he)
  have hsame : sameItem (.dict es) (.dict fs) = true ↔
      es.length = fs.length ∧ ∀ e ∈ es, entryIn e fs = true := by
    rw [sameItem, eqWith, Bool.and_eq_true, beq_iff_eq, entriesIn_iff]
  rw [Decided, hsame]
  constructor
  · rintro ⟨hlength, hin⟩
    -- no two entries find the same one, as their keys would be alike
    have honce : es.Pairwise fun e e' => ∀ f, AlikeEntry e f → ¬ AlikeEntry e' f :=
      hes.imp fun hne f h h' => hne (h.1.trans h'.1.symm)
    obtain ⟨gs, horder, hforall⟩ := exists_forall₂_perm hlength honce fun e he =>
      (hfound e he).mp (hin e he)
    exact .of_entries horder hforall
  · intro h
    obtain ⟨_, gs, heq, horder, hforall⟩ := Alike.dict_iff.mp h
    obtain rfl := Value.dict.inj heq
    refine ⟨hforall.length_eq.trans horder.length_eq, fun e he => (hfound e he).mpr ?_⟩
    obtain ⟨g, hg, heg⟩ := exists_of_mem_left hforall he
    exact ⟨g, horder.mem_iff.mp hg, heg⟩

/-- Items whose equality is decided are equal just if they are alike. -/
theorem eqItems_iff_alike (h : ∀ x ∈ xs, ∀ y ∈ ys, Decided x y) :
    eqItems xs ys = true ↔ Forall₂ Alike xs ys := by
  rw [eqItems_iff, forall₂_iff_zip, forall₂_iff_zip]
  refine and_congr_right' (forall₂_congr fun p hp => ?_)
  obtain ⟨hx, hy⟩ := List.of_mem_zip hp
  exact h _ hx _ hy

/-- Numbers and truth values are compared as numbers. -/
theorem decided_number {n : Int} (hv : v.asInt? = some n) (hw : w.IsData) : Decided v w := by
  rw [Decided, Alike.number_iff hv, sameItem]
  cases v with
  | bool b =>
    cases Option.some.inj hv
    cases hw with
    | bool c => cases b <;> cases c <;> simp [eqWith, asInt?]
    | int m => simp [eqWith, asInt?, eq_comm (a := m)]
    | _ => simp [eqWith, asInt?]
  | int m =>
    cases Option.some.inj hv
    cases hw with
    | bool c => simp [eqWith, asInt?, eq_comm (a := n)]
    | int k => simp [eqWith, asInt?, eq_comm (a := n)]
    | _ => simp [eqWith, asInt?]
  | _ => cases hv

/-- The parts of an entry are smaller than the entries. -/
theorem sizeOf_entry_lt {e : Value × Value} (he : e ∈ es) :
    sizeOf e.1 < sizeOf es ∧ sizeOf e.2 < sizeOf es := by
  obtain ⟨k, v⟩ := e
  have h := List.sizeOf_lt_of_mem he
  rw [Prod.mk.sizeOf_spec] at h
  simp only
  omega

/-- By induction on a bound for the sizes of both values: the keys of either dictionary are compared
with one another as well. -/
theorem decided_of_sizeOf_lt (n : Nat) {v w : Value} (hv : v.IsData) (hw : w.IsData)
    (hvn : sizeOf v < n) (hwn : sizeOf w < n) : Decided v w := by
  induction n generalizing v w with
  | zero => omega
  | succ n ih =>
    have items {xs ys : List Value} (hxs : ∀ x ∈ xs, x.IsData) (hys : ∀ y ∈ ys, y.IsData)
        (hxn : sizeOf xs < n) (hyn : sizeOf ys < n) :
        eqItems xs ys = true ↔ Forall₂ Alike xs ys :=
      eqItems_iff_alike fun x hx y hy => ih (hxs x hx) (hys y hy)
        (lt_trans (List.sizeOf_lt_of_mem hx) hxn) (lt_trans (List.sizeOf_lt_of_mem hy) hyn)
    cases hv with
    | none => cases hw <;> simp [Decided, sameItem, eqWith, Alike.none_iff]
    | bool b => exact decided_number rfl hw
    | int m => exact decided_number rfl hw
    | text s =>
      cases hw with
      | text t => simp [Decided, sameItem, eqWith, Alike.text_iff, eq_comm (a := s)]
      | _ => simp [Decided, sameItem, eqWith, Alike.text_iff]
    | @list xs hxs =>
      cases hw with
      | @list ys hys =>
        simp only [list.sizeOf_spec] at hvn hwn
        rw [Decided, sameItem, eqWith, items hxs hys (by omega) (by omega)]
        simp [Alike.list_iff]
      | _ => simp [Decided, sameItem, eqWith, Alike.list_iff]
    | @tuple xs hxs =>
      cases hw with
      | @tuple ys hys =>
        simp only [tuple.sizeOf_spec] at hvn hwn
        rw [Decided, sameItem, eqWith, items hxs hys (by omega) (by omega)]
        simp [Alike.tuple_iff]
      | _ => simp [Decided, sameItem, eqWith, Alike.tuple_iff]
    | @dict es hkeys hvalues hdistinct =>
      cases hw with
      | @dict fs hkeys' hvalues' hdistinct' =>
        simp only [dict.sizeOf_spec] at hvn hwn
        -- keys are compared with keys of the same dictionary too, so both are bounded on their own
        have small (es : List (Value × Value)) (hn : sizeOf es < n) (e) (he : e ∈ es) :
            sizeOf e.1 < n ∧ sizeOf e.2 < n :=
          ⟨(sizeOf_entry_lt he).1.trans hn, (sizeOf_entry_lt he).2.trans hn⟩
        have hes := small es (by omega)
        have hfs := small fs (by omega)
        refine decided_dict (pairwise_not_alike hdistinct fun e he f hf => ?_)
          (pairwise_not_alike hdistinct' fun e he f hf => ?_) (fun e he f hf => ?_)
          fun e he f hf => ?_
        · exact ih (hkeys e he) (hkeys f hf) (hes e he).1 (hes f hf).1
        · exact ih (hkeys' e he) (hkeys' f hf) (hfs e he).1 (hfs f hf).1
        · exact ih (hkeys e he) (hkeys' f hf) (hes e he).1 (hfs f hf).1
        · exact ih (hvalues e he) (hvalues' f hf) (hes e he).2 (hfs f hf).2
      | _ => simp [Decided, sameItem, eqWith, Alike.dict_iff]

/-- **Comparing data decides whether they are alike.** -/
theorem sameItem_iff_alike (hv : v.IsData) (hw : w.IsData) : sameItem v w = true ↔ Alike v w :=
  decided_of_sizeOf_lt (max (sizeOf v) (sizeOf w) + 1) hv hw (by omega) (by omega)

/-- What is told of a number that is not a number makes no difference to data. -/
theorem looseEq_eq_sameItem (hv : v.IsData) : looseEq v w = sameItem v w := by
  cases hv <;> cases w <;> rfl

/-- Data is loosely equal just if it is alike. -/
theorem looseEq_iff_alike (hv : v.IsData) (hw : w.IsData) : looseEq v w = true ↔ Alike v w := by
  rw [looseEq_eq_sameItem hv, sameItem_iff_alike hv hw]

/-- The strict comparison asks for values of one type. -/
theorem strictEq_iff_alike (hv : v.IsData) (hw : w.IsData) :
    strictEq v w = true ↔ v.typeName = w.typeName ∧ Alike v w := by
  rw [strictEq, ← looseEq_iff_alike hv hw]
  split
  · next h =>
    -- whole numbers are the only numbers among data
    have htype : v.typeName = w.typeName := by
      cases hv <;> cases hw <;> first | rfl | cases h
    exact ⟨fun h => ⟨htype, h⟩, And.right⟩
  · rw [Bool.and_eq_true, beq_iff_eq]

end Comparison

/-! ### Truth values as numbers -/

mutual

/-- The value with the numbers zero and one in the place of truth values, at any depth and in
keys. -/
def unbool : Value → Value
  | .bool b => .int (if b then 1 else 0)
  | .list xs => .list (unboolItems xs)
  | .tuple xs => .tuple (unboolItems xs)
  | .dict es => .dict (unboolEntries es)
  | v => v
termination_by structural v => v

/-- The items with numbers in the place of truth values. -/
def unboolItems : List Value → List Value
  | [] => []
  | x :: xs => unbool x :: unboolItems xs
termination_by structural xs => xs

/-- The entries with numbers in the place of truth values. -/
def unboolEntries : List (Value × Value) → List (Value × Value)
  | [] => []
  | e :: es => unboolEntry e :: unboolEntries es
termination_by structural es => es

/-- The entry with numbers in the place of truth values. -/
def unboolEntry : Value × Value → Value × Value
  | (k, v) => (unbool k, unbool v)
termination_by structural e => e

end

theorem unboolItems_eq_map (xs : List Value) : unboolItems xs = xs.map unbool := by
  induction xs with
  | nil => rfl
  | cons x xs ih => rw [unboolItems, ih, List.map_cons]

theorem unboolEntries_eq_map (es : List (Value × Value)) :
    unboolEntries es = es.map fun e => (e.1.unbool, e.2.unbool) := by
  induction es with
  | nil => rfl
  | cons e es ih => rw [unboolEntries, ih, List.map_cons, unboolEntry]

section Unbool

variable {v k : Value} {es : List (Value × Value)}

/-- Truth values are alike to the numbers zero and one, at any depth. -/
theorem alike_unbool (hv : v.IsData) : Alike v v.unbool := by
  induction hv with
  | none => exact .none
  | bool b => exact .number rfl rfl
  | int n => exact .number rfl rfl
  | text s => exact .text s
  | list _ ih =>
    rw [unbool, unboolItems_eq_map]
    exact .of_items (List.forall₂_map_right_iff.mpr (List.forall₂_same.mpr ih))
  | tuple _ ih =>
    rw [unbool, unboolItems_eq_map]
    exact .of_tuple_items (List.forall₂_map_right_iff.mpr (List.forall₂_same.mpr ih))
  | dict _ _ _ ihk ihv =>
    rw [unbool, unboolEntries_eq_map]
    exact .of_entries (.refl _)
      (List.forall₂_map_right_iff.mpr (List.forall₂_same.mpr fun e he => ⟨ihk e he, ihv e he⟩))

/-- Data stays data if they are replaced. -/
theorem isData_unbool (hv : v.IsData) : v.unbool.IsData := by
  induction hv with
  | none => exact .none
  | bool b => exact .int _
  | int n => exact .int n
  | text s => exact .text s
  | list _ ih =>
    rw [unbool, unboolItems_eq_map]
    exact .list (List.forall_mem_map.mpr ih)
  | tuple _ ih =>
    rw [unbool, unboolItems_eq_map]
    exact .tuple (List.forall_mem_map.mpr ih)
  | @dict es hkeys _ hdistinct ihk ihv =>
    rw [unbool, unboolEntries_eq_map]
    refine .dict (List.forall_mem_map.mpr ihk) (List.forall_mem_map.mpr ihv) ?_
    -- two keys that have become the same were the same before
    refine List.pairwise_map.mpr (List.pairwise_map.mpr ?_)
    refine (List.pairwise_map.mp hdistinct).imp_of_mem fun {e f} he hf hne => ?_
    rw [Bool.eq_false_iff, ne_eq, sameItem_iff_alike (ihk f hf) (ihk e he)]
    intro halike
    have hsame := ((alike_unbool (hkeys f hf)).trans halike).trans (alike_unbool (hkeys e he)).symm
    rw [(sameItem_iff_alike (hkeys f hf) (hkeys e he)).mpr hsame] at hne
    cases hne

/-- A truth value is looked up as the number is. -/
theorem lookup?_unbool (hk : k.IsData) (hes : ∀ e ∈ es, e.1.IsData) :
    lookup? k.unbool es = lookup? k es := by
  have hsame (e) (he : e ∈ es) : sameItem k.unbool e.1 = sameItem k e.1 := by
    rw [Bool.eq_iff_iff, sameItem_iff_alike (isData_unbool hk) (hes e he),
      sameItem_iff_alike hk (hes e he)]
    exact ⟨(alike_unbool hk).trans, (alike_unbool hk).symm.trans⟩
  rw [lookup?, lookup?, List.find?_congr hsame]

end Unbool
end Trellis.Value
