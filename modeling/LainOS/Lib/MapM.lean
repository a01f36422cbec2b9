import Mathlib.Tactic

/-!
# Loops that fail on one element

`mapM` over `Option` succeeds if every element does.
-/

namespace List

variable {α β : Type*} {f : α → Option β}

theorem mapM_eq_some_iff {l : List α} {l' : List β} :
    l.mapM f = some l' ↔ Forall₂ (fun a b => f a = some b) l l' := by
  induction l generalizing l' with
  | nil => simp [eq_comm]
  | cons a l ih =>
    rw [mapM_cons, forall₂_cons_left_iff]
    constructor
    · intro h
      obtain ⟨b, hb, h⟩ := Option.bind_eq_some_iff.mp h
      obtain ⟨l₁, hl, h⟩ := Option.bind_eq_some_iff.mp h
      cases h
      exact ⟨b, l₁, hb, ih.mp hl, rfl⟩
    · rintro ⟨b, l₁, hb, hl, rfl⟩
      rw [hb, ih.mpr hl]
      rfl

lemma length_mapM {l : List α} {l' : List β} (h : l.mapM f = some l') : l'.length = l.length :=
  (mapM_eq_some_iff.mp h).length_eq.symm

lemma exists_of_mem_mapM {l : List α} {l' : List β} (h : l.mapM f = some l') {b : β} (hb : b ∈ l') :
    ∃ a ∈ l, f a = some b := by
  obtain ⟨hlength, hget⟩ := forall₂_iff_get.mp (mapM_eq_some_iff.mp h)
  obtain ⟨i, hi, rfl⟩ := getElem_of_mem hb
  exact ⟨_, getElem_mem (hlength ▸ hi), hget i (hlength ▸ hi) hi⟩

end List
