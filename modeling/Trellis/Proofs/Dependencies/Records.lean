import Trellis.Tracker
import Trellis.Proofs.Registry.Sessions

/-!
# Proofs — Dependencies — Records

What a tracker tells.  `Tracker.Tells` says that a tracker tells of pairs of locations and paths: it
has these pairs and no others, each once.  Recording tells of one more pair (`Tracker.Tells.record`),
so that what a tracker tells of is what has been recorded; the order and the number of times make no
difference (`Tracker.Tells.congr`, `Tracker.Tells.same`).
-/

namespace Trellis

/-- A key that stands once has the value it stands with. -/
theorem Table.get?_of_mem {κ α : Type} [DecidableEq κ] {t : List (κ × α)}
    (h : (t.map (·.1)).Nodup) {e : κ × α} (he : e ∈ t) : get? e.1 t = some e.2 := by
  induction t with
  | nil => cases he
  | cons d ds ih =>
    obtain ⟨hd, hds⟩ := List.nodup_cons.mp h
    rcases List.mem_cons.mp he with rfl | he
    · rw [get?, if_pos rfl]
    · have hne : d.1 ≠ e.1 := by
        intro heq
        exact hd (List.mem_map.mpr ⟨e, he, heq.symm⟩)
      rw [get?, if_neg hne]
      exact ih hds he

namespace Tracker

/-- Pairs recorded one after the other. -/
def recordAll (ps : List (Option String × String)) (t : Tracker) : Tracker :=
  ps.foldl (fun t p => t.record p.1 p.2) t

/-- Pairs are recorded one after the other. -/
theorem recordAll_append (ps qs : List (Option String × String)) (t : Tracker) :
    recordAll (ps ++ qs) t = recordAll qs (recordAll ps t) :=
  List.foldl_append

/-- The tracker has these pairs of locations and paths, each once. -/
structure Tells (t : Tracker) (ps : List (Option String × String)) : Prop where
  mem_from?_iff : ∀ l p, p ∈ t.from? l ↔ (l, p) ∈ ps
  mem_locations_iff : ∀ l, l ∈ t.dependencies.map (·.1) ↔ ∃ p, (l, p) ∈ ps
  nodup_locations : (t.dependencies.map (·.1)).Nodup
  nodup_paths : ∀ l, (t.from? l).Nodup

variable {t t' : Tracker} {ps qs : List (Option String × String)}

/-- A path that is recorded for a location is put in among its paths. -/
theorem from?_record_self (t : Tracker) (l : Option String) (p : String) :
    (t.record l p).from? l = (t.from? l).insert p := by
  simp [record, from?]

/-- The paths of other locations are as they were. -/
theorem from?_record_of_ne {l l' : Option String} (h : l' ≠ l) (t : Tracker) (p : String) :
    (t.record l p).from? l' = t.from? l' := by
  rw [record, from?, Table.get?_put_of_ne h, from?]

namespace Tells

theorem empty : Tracker.empty.Tells [] :=
  ⟨by simp [Tracker.empty, from?], by simp [Tracker.empty], by simp [Tracker.empty],
    by simp [Tracker.empty, from?]⟩

/-- One more pair. -/
theorem record (h : t.Tells ps) (l : Option String) (p : String) :
    (t.record l p).Tells (ps ++ [(l, p)]) := by
  refine ⟨fun l' p' => ?_, fun l' => ?_, ?_, fun l' => ?_⟩
  · by_cases hl : l' = l
    · subst hl
      rw [from?_record_self, List.mem_insert_iff, h.mem_from?_iff]
      simp [or_comm]
    · rw [from?_record_of_ne hl, h.mem_from?_iff]
      simp [hl]
  · -- a location stays in its place, and a new one comes to the end
    rw [Tracker.record, Table.keys_put]
    have hps := h.mem_locations_iff l'
    by_cases hl : l ∈ t.dependencies.map (·.1)
    · rw [if_pos hl, hps]
      constructor
      · rintro ⟨q, hq⟩
        exact ⟨q, List.mem_append_left _ hq⟩
      · rintro ⟨q, hq⟩
        rcases List.mem_append.mp hq with hq | hq
        · exact ⟨q, hq⟩
        · obtain ⟨rfl, rfl⟩ := Prod.mk.inj (List.mem_singleton.mp hq)
          exact (h.mem_locations_iff _).mp hl
    · rw [if_neg hl, List.mem_append, hps, List.mem_singleton]
      constructor
      · rintro (⟨q, hq⟩ | rfl)
        · exact ⟨q, List.mem_append_left _ hq⟩
        · exact ⟨p, by simp⟩
      · rintro ⟨q, hq⟩
        rcases List.mem_append.mp hq with hq | hq
        · exact .inl ⟨q, hq⟩
        · exact .inr (Prod.mk.inj (List.mem_singleton.mp hq)).1
  · rw [Tracker.record, Table.keys_put]
    split
    · exact h.nodup_locations
    · next hl => exact List.concat_eq_append ▸ h.nodup_locations.concat hl
  · by_cases hl : l' = l
    · subst hl
      rw [from?_record_self]
      exact (h.nodup_paths _).insert
    · rw [from?_record_of_ne hl]
      exact h.nodup_paths l'

/-- More pairs, one after the other. -/
theorem recordAll (h : t.Tells ps) (qs : List (Option String × String)) :
    (Tracker.recordAll qs t).Tells (ps ++ qs) := by
  induction qs generalizing t ps with
  | nil => rwa [List.append_nil]
  | cons q qs ih =>
    have hq := ih (h.record q.1 q.2)
    rwa [List.append_assoc] at hq

/-- Neither the order of the pairs nor their number makes a difference. -/
theorem congr (h : t.Tells ps) (hpq : ∀ e, e ∈ ps ↔ e ∈ qs) : t.Tells qs where
  mem_from?_iff l p := (h.mem_from?_iff l p).trans (hpq _)
  mem_locations_iff l := (h.mem_locations_iff l).trans (exists_congr fun _ => hpq _)
  nodup_locations := h.nodup_locations
  nodup_paths := h.nodup_paths

/-- Trackers that tell of the same pairs are the same but for the order of what they have. -/
theorem same (h : t.Tells ps) (h' : t'.Tells ps) :
    (t.dependencies.map (·.1)).Perm (t'.dependencies.map (·.1)) ∧
      ∀ l, (t.from? l).Perm (t'.from? l) := by
  refine ⟨(List.perm_ext_iff_of_nodup h.nodup_locations h'.nodup_locations).mpr fun l => ?_,
    fun l => (List.perm_ext_iff_of_nodup (h.nodup_paths l) (h'.nodup_paths l)).mpr fun p => ?_⟩
  · rw [h.mem_locations_iff, h'.mem_locations_iff]
  · rw [h.mem_from?_iff, h'.mem_from?_iff]

/-- The paths from anywhere are those of all pairs. -/
theorem mem_paths_iff (h : t.Tells ps) (p : String) : p ∈ t.paths ↔ ∃ l, (l, p) ∈ ps := by
  have hget (e) (he : e ∈ t.dependencies) : t.from? e.1 = e.2 := by
    rw [from?, Table.get?_of_mem h.nodup_locations he]
    rfl
  rw [paths, List.mem_eraseDups, List.mem_flatMap]
  constructor
  · rintro ⟨e, he, hp⟩
    exact ⟨e.1, (h.mem_from?_iff e.1 p).mp (hget e he ▸ hp)⟩
  · rintro ⟨l, hl⟩
    have hp := (h.mem_from?_iff l p).mpr hl
    obtain ⟨e, he, rfl⟩ := List.mem_map.mp ((h.mem_locations_iff l).mpr ⟨p, hl⟩)
    exact ⟨e, he, hget e he ▸ hp⟩

end Tells
end Tracker
end Trellis
