import Mathlib.Data.List.Basic

/-!
# Steps in turn

Steps that need not be determined by the state, one for each element of a list.
-/

variable {α β : Type*} {R : α → β → β → Prop} {I P : β → Prop} {l : List α} {b b' : β}

def InTurn (R : α → β → β → Prop) : List α → β → β → Prop
  | [], b, b' => b' = b
  | a :: l, b, b' => ∃ c, R a b c ∧ InTurn R l c b'

namespace InTurn

/-- What no step undoes holds after the steps if one of them brings it about, given an invariant. -/
lemma of_hit (h : InTurn R l b b') (hinv : ∀ a b c, R a b c → I b → I c)
    (hkeep : ∀ a b c, R a b c → P b → P c) (hb : I b)
    (hhit : P b ∨ ∃ a ∈ l, ∀ b c, R a b c → I b → P c) : P b' := by
  induction l generalizing b with
  | nil =>
    obtain rfl : b' = b := h
    simpa using hhit
  | cons a l ih =>
    obtain ⟨c, hstep, h⟩ := h
    refine ih h (hinv a b c hstep hb) ?_
    rw [List.exists_mem_cons_iff] at hhit
    rcases hhit with hP | hhit | hhit
    · exact .inl (hkeep a b c hstep hP)
    · exact .inl (hhit b c hstep hb)
    · exact .inr hhit

/-- Steps that are possible as long as an invariant holds are possible in turn. -/
lemma exists_of_inv (hstep : ∀ a b, I b → ∃ c, R a b c ∧ I c) (l : List α) (hb : I b) :
    ∃ b', InTurn R l b b' ∧ I b' := by
  induction l generalizing b with
  | nil => exact ⟨b, rfl, hb⟩
  | cons a l ih =>
    obtain ⟨c, hc, hI⟩ := hstep a b hb
    obtain ⟨b', hb', hI'⟩ := ih hI
    exact ⟨b', ⟨c, hc, hb'⟩, hI'⟩

end InTurn
