import Mathlib.Data.List.DropRight
import Mathlib.Tactic

/-!
# Trimming

A list is trimmed by dropping the longest run of leading elements that one predicate accepts, and
then the longest run of trailing elements that another one accepts.
-/

namespace Trim

open List Option

variable {α : Type*} {lead trail : α → Bool} {l : List α}

def trim (lead trail : α → Bool) (l : List α) : List α := (l.dropWhile lead).rdropWhile trail

lemma trim_sublist : (trim lead trail l).Sublist l :=
  rdropWhile_prefix _ _ |>.sublist.trans (dropWhile_sublist _)

lemma mem_of_mem_trim {a : α} (h : a ∈ trim lead trail l) : a ∈ l := trim_sublist.mem h

/-- A list is trimmed if neither its first nor its last element would be dropped. -/
lemma trim_eq_self (hfirst : ∀ a ∈ l.head?, lead a = false)
    (hlast : ∀ a ∈ l.getLast?, trail a = false) : trim lead trail l = l := by
  have hdrop : l.dropWhile lead = l := by
    cases l with
    | nil => rfl
    | cons a l =>
      have := hfirst a rfl
      rw [dropWhile_cons, this]
      rfl
  rw [trim, hdrop, rdropWhile_eq_self_iff]
  intro hl
  rw [hlast _ (getLast?_eq_getLast_of_ne_nil hl)]
  decide

/-- The trimmed list begins as what is left after the leading elements. -/
lemma head?_dropWhile_of_trim {a : α} (h : a ∈ (trim lead trail l).head?) :
    (l.dropWhile lead).head? = some a := by
  obtain ⟨t, ht⟩ := rdropWhile_prefix (p := trail) (l := l.dropWhile lead)
  have hhead : ((l.dropWhile lead).rdropWhile trail).head? = some a := h
  rw [← ht, head?_append, hhead]
  rfl

lemma head?_trim {a : α} (h : a ∈ (trim lead trail l).head?) : lead a = false := by
  have := head?_dropWhile_not lead l
  rwa [head?_dropWhile_of_trim h] at this

lemma getLast?_trim {a : α} (h : a ∈ (trim lead trail l).getLast?) : trail a = false := by
  have hne : (l.dropWhile lead).rdropWhile trail ≠ [] := by
    intro hnil
    rw [trim, hnil] at h
    cases h
  have hlast := rdropWhile_last_not trail (l.dropWhile lead) hne
  rw [trim, getLast?_eq_getLast_of_ne_nil hne] at h
  obtain rfl := some.inj h
  simpa using hlast

lemma trim_trim : trim lead trail (trim lead trail l) = trim lead trail l :=
  trim_eq_self (fun _ h => head?_trim h) fun _ h => getLast?_trim h

/-- A list that starts with an element that stays keeps it in front. -/
lemma head?_of_head?_trim {a b : α} (hl : l.head? = some b) (hb : lead b = false)
    (h : a ∈ (trim lead trail l).head?) : a = b := by
  rcases l with _ | ⟨c, l⟩
  · cases hl
  obtain rfl := some.inj hl
  have hdrop := head?_dropWhile_of_trim h
  rw [dropWhile_cons, hb] at hdrop
  exact (some.inj hdrop).symm

end Trim
