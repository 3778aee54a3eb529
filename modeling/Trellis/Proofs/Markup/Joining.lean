import Trellis.Proofs.Sharing.Runs

/-!
# Proofs — Markup — Joining

Pieces of markup are joined if all of them are texts, and then to these texts one after the other,
whatever their positions are (`Markup.joinFrom_eq_ok_iff`).
-/

namespace Trellis.Markup

/-- Texts one after the other. -/
def concat (ts : List String) : String :=
  ts.foldr (· ++ ·) ""

@[simp] theorem concat_nil : concat [] = "" := rfl

@[simp] theorem concat_cons (t : String) (ts : List String) : concat (t :: ts) = t ++ concat ts :=
  rfl

theorem concat_append (ts us : List String) : concat (ts ++ us) = concat ts ++ concat us := by
  induction ts with
  | nil => simp
  | cons t ts ih => simp [ih, String.append_assoc]

/-- What holds of the empty text, and of two texts one after the other if it does of both, holds of
texts one after the other. -/
theorem concat_induction {P : String → Prop} (hnil : P "")
    (happend : ∀ s t, P s → P t → P (s ++ t)) {ts : List String} (h : ∀ t ∈ ts, P t) :
    P (concat ts) := by
  induction ts with
  | nil => exact hnil
  | cons t ts ih =>
    obtain ⟨ht, hts⟩ := List.forall_mem_cons.mp h
    exact happend t _ ht (ih hts)

/-- Texts are joined into one. -/
theorem joinFrom_map_text (ts : List String) :
    ∀ i, joinFrom i (ts.map .text) = .ok (concat ts) := by
  induction ts with
  | nil => exact fun _ => rfl
  | cons t ts ih =>
    intro i
    rw [List.map_cons, joinFrom, ih]
    rfl

/-- Only texts are joined. -/
theorem joinFrom_eq_ok_iff {vs : List Value} {s : String} :
    ∀ {i}, joinFrom i vs = .ok s ↔ ∃ ts : List String, vs = ts.map .text ∧ s = concat ts := by
  intro i
  constructor
  · induction vs generalizing i s with
    | nil =>
      intro h
      exact ⟨[], rfl, (Except.ok.inj h).symm⟩
    | cons v vs ih =>
      intro h
      cases v with
      | text t =>
        rw [joinFrom] at h
        cases hu : joinFrom (i + 1) vs with
        | error c =>
          rw [hu] at h
          cases h
        | ok u =>
          rw [hu] at h
          obtain ⟨ts, rfl, rfl⟩ := ih hu
          exact ⟨t :: ts, rfl, (Except.ok.inj h).symm⟩
      | _ => cases h
  · rintro ⟨ts, rfl, rfl⟩
    exact joinFrom_map_text ts i

/-- Two lists of pieces are joined if both are, and to what they come to. -/
theorem joinFrom_append_iff {vs ws : List Value} {i j k : Nat} {s : String} :
    joinFrom i (vs ++ ws) = .ok s ↔
      ∃ a b, joinFrom j vs = .ok a ∧ joinFrom k ws = .ok b ∧ s = a ++ b := by
  simp only [joinFrom_eq_ok_iff]
  constructor
  · rintro ⟨ts, h, rfl⟩
    obtain ⟨us, us', rfl, rfl, rfl⟩ := List.append_eq_map_iff.mp h
    exact ⟨_, _, ⟨us, rfl, rfl⟩, ⟨us', rfl, rfl⟩, concat_append us us'⟩
  · rintro ⟨a, b, ⟨us, rfl, rfl⟩, ⟨us', rfl, rfl⟩, rfl⟩
    exact ⟨us ++ us', by rw [List.map_append], (concat_append us us').symm⟩

/-- A text in front of other pieces. -/
theorem join_cons {s t : String} {vs : List Value} :
    join (.text s :: vs) = .ok t ↔ ∃ u, join vs = .ok u ∧ t = s ++ u := by
  have hs (a : String) : joinFrom 0 [.text s] = .ok a ↔ a = s := by
    rw [show joinFrom 0 [.text s] = .ok (concat [s]) from joinFrom_map_text [s] 0]
    simp [eq_comm]
  rw [join, ← List.singleton_append, joinFrom_append_iff]
  constructor
  · rintro ⟨a, u, ha, hu, rfl⟩
    exact ⟨u, hu, by rw [(hs a).mp ha]⟩
  · rintro ⟨u, hu, rfl⟩
    exact ⟨s, u, (hs s).mpr rfl, hu, rfl⟩

/-- What is joined to a text, of texts of which `P` holds. -/
theorem of_joinFrom {P : String → Prop} (hnil : P "") (happend : ∀ s t, P s → P t → P (s ++ t))
    {vs : List Value} (h : ∀ s, .text s ∈ vs → P s) {i : Nat} {s : String}
    (hs : joinFrom i vs = .ok s) : P s := by
  obtain ⟨ts, rfl, rfl⟩ := joinFrom_eq_ok_iff.mp hs
  exact concat_induction hnil happend fun t ht => h t (List.mem_map_of_mem ht)

end Trellis.Markup
