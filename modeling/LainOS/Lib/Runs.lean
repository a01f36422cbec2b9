import Mathlib.Tactic

/-!
# Runs of a machine

A machine takes its inputs one by one. `Always P` says that `P` holds of every state of a run and
the input taken there.
-/

namespace Run

variable {σ ι : Type*} {step : σ → ι → σ}

def Always (step : σ → ι → σ) (P : σ → ι → Prop) : σ → List ι → Prop
  | _, [] => True
  | s, i :: is => P s i ∧ Always step P (step s i) is

instance (step : σ → ι → σ) (P : σ → ι → Prop) [∀ s i, Decidable (P s i)] (s : σ) (is : List ι) :
    Decidable (Always step P s is) :=
  match is with
  | [] => .isTrue trivial
  | i :: is =>
    have := instDecidableAlways step P (step s i) is
    inferInstanceAs (Decidable (_ ∧ _))

/-- From a step lemma to a run lemma: if an invariant holds where the run starts and each step that
meets `C` keeps it, then `C` and what it amounts to at states with the invariant hold along the same
runs. -/
theorem always_iff {I : σ → Prop} {L P C : σ → ι → Prop}
    (hiff : ∀ s i, I s → L s i → (P s i ↔ C s i))
    (hstep : ∀ s i, I s → L s i → C s i → I (step s i)) {s : σ} (hs : I s) {is : List ι}
    (hl : Always step L s is) : Always step P s is ↔ Always step C s is := by
  induction is generalizing s with
  | nil => exact Iff.rfl
  | cons i is ih =>
    obtain ⟨hli, hlis⟩ := hl
    constructor
    · rintro ⟨hp, hps⟩
      have hc := (hiff s i hs hli).mp hp
      exact ⟨hc, (ih (hstep s i hs hli hc) hlis).mp hps⟩
    · rintro ⟨hc, hcs⟩
      exact ⟨(hiff s i hs hli).mpr hc, (ih (hstep s i hs hli hc) hlis).mpr hcs⟩

/-- Without a condition: what each step from a state with the invariant does, the whole run does. -/
theorem always_of_invariant {I : σ → Prop} {L P : σ → ι → Prop}
    (hstep : ∀ s i, I s → L s i → I (step s i) ∧ P s i) {s : σ} (hs : I s) {is : List ι}
    (hl : Always step L s is) : Always step P s is := by
  induction is generalizing s with
  | nil => trivial
  | cons i is ih =>
    obtain ⟨hli, hlis⟩ := hl
    obtain ⟨hs', hp⟩ := hstep s i hs hli
    exact ⟨hp, ih hs' hlis⟩

end Run
