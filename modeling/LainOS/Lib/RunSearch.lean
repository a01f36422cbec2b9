import Mathlib.Tactic

/-!
# Searching for a long run

The first-longest-run search of an allocator: skip cells that are taken, measure the run of free
cells behind them up to the length that is needed, and keep the longest run seen. The search stops
early at a run that is long enough.
-/

namespace RunSearch

variable {needed start run low : ℕ} (free : ℕ → Bool) (stop : ℕ)

def skipTaken (start : ℕ) : ℕ :=
  if start < stop ∧ free start = false then skipTaken (start + 1) else start
termination_by stop - start

/-- The position behind the run and its length, which is at most `needed`. -/
def growRun (needed start run : ℕ) : ℕ × ℕ :=
  if start < stop ∧ run < needed ∧ free start = true then growRun needed (start + 1) (run + 1)
  else (start, run)
termination_by stop - start

lemma le_skipTaken (start : ℕ) : start ≤ skipTaken free stop start := by
  fun_induction skipTaken free stop start with
  | case1 start h ih => omega
  | case2 start h => exact le_refl start

lemma free_skipTaken (start : ℕ) (h : skipTaken free stop start < stop) :
    free (skipTaken free stop start) = true := by
  fun_induction skipTaken free stop start with
  | case1 start hs ih => exact ih h
  | case2 start hs => simpa [h] using hs

lemma growRun_snd (needed start run : ℕ) : (growRun free stop needed start run).1 + run
      = start + (growRun free stop needed start run).2 := by
  fun_induction growRun free stop needed start run with
  | case1 start run h ih => omega
  | case2 start run h => rfl

lemma le_growRun_fst (needed start run : ℕ) : start ≤ (growRun free stop needed start run).1 := by
  fun_induction growRun free stop needed start run with
  | case1 start run h ih => omega
  | case2 start run h => exact le_refl start

/-- Behind the cells skipped the run makes progress. -/
lemma lt_growRun (h : start < stop) (hn : 0 < needed) :
    start < (growRun free stop needed (skipTaken free stop start) 0).1 := by
  have hskip := le_skipTaken free stop start
  rcases Nat.lt_or_ge (skipTaken free stop start) stop with hlt | hge
  · rw [growRun, if_pos ⟨hlt, hn, free_skipTaken free stop start hlt⟩]
    have := le_growRun_fst free stop needed (skipTaken free stop start + 1) (0 + 1)
    omega
  · have := le_growRun_fst free stop needed (skipTaken free stop start) 0
    omega

/-- The start and the length of the best run from `start` on; length 0 when there is none. -/
def bestRun (needed start bestStart bestLength : ℕ) : ℕ × ℕ :=
  if _h : start < stop ∧ 0 < needed then
    let runStart := skipTaken free stop start
    let run := growRun free stop needed runStart 0
    if run.2 > bestLength then
      if run.2 = needed then (runStart, run.2) else bestRun needed run.1 runStart run.2
    else bestRun needed run.1 bestStart bestLength
  else (bestStart, bestLength)
termination_by stop - start
decreasing_by
  all_goals
    have := lt_growRun free stop _h.1 _h.2
    omega

variable {free stop}

lemma growRun_le (h : run ≤ needed) : (growRun free stop needed start run).2 ≤ needed := by
  fun_induction growRun free stop needed start run with
  | case1 start run hc ih => exact ih (by omega)
  | case2 start run hc => exact h

lemma growRun_free :
    ∀ s, start ≤ s → s < (growRun free stop needed start run).1 → s < stop ∧ free s = true := by
  fun_induction growRun free stop needed start run with
  | case1 start run h ih =>
    intro s hs hlt
    rcases Nat.eq_or_lt_of_le hs with rfl | hs
    · exact ⟨h.1, h.2.2⟩
    · exact ih s hs hlt
  | case2 start run h => intro s hs hlt; omega

/-- A run of cells that are free, from `low` on and before `stop`, of at most the needed length. -/
structure IsRun (free : ℕ → Bool) (stop low needed : ℕ) (r : ℕ × ℕ) : Prop where
  low_le : 0 < r.2 → low ≤ r.1
  length_le : r.2 ≤ needed
  free : ∀ s, r.1 ≤ s → s < r.1 + r.2 → s < stop ∧ free s = true

lemma isRun_zero : IsRun free stop low needed (0, 0) :=
  ⟨fun h => absurd h (lt_irrefl _), Nat.zero_le _, fun s _ hlt => absurd hlt (Nat.not_lt_zero s)⟩

/-- The best run is a run. -/
theorem bestRun_isRun {bestStart bestLength : ℕ} (hlow : low ≤ start)
    (hbest : IsRun free stop low needed (bestStart, bestLength)) :
    IsRun free stop low needed (bestRun free stop needed start bestStart bestLength) := by
  have hrun : ∀ start, low ≤ start → IsRun free stop low needed
      (skipTaken free stop start, (growRun free stop needed (skipTaken free stop start) 0).2) := by
    intro start hstart
    have hskip := le_skipTaken free stop start
    have hlen := growRun_snd free stop needed (skipTaken free stop start) 0
    refine ⟨fun _ => hstart.trans hskip, growRun_le (Nat.zero_le _), fun s hs hlt => ?_⟩
    have hlt' : s < (growRun free stop needed (skipTaken free stop start) 0).1 := by
      simp only at hlt
      omega
    exact growRun_free s hs hlt'
  fun_induction bestRun free stop needed start bestStart bestLength with
  | case1 start bs bl h runStart run hgt heq => exact hrun start hlow
  | case2 start bs bl h runStart run hgt hne ih =>
    exact ih (hlow.trans (lt_growRun free stop h.1 h.2).le) (hrun start hlow)
  | case3 start bs bl h runStart run hgt ih =>
    exact ih (hlow.trans (lt_growRun free stop h.1 h.2).le) hbest
  | case4 start bs bl h => exact hbest

/-- Without free cells there is no run. -/
lemma bestRun_of_taken (h : ∀ s, start ≤ s → s < stop → free s = false) :
    (bestRun free stop needed start 0 0).2 = 0 := by
  by_contra hne
  have hr : IsRun free stop start needed (bestRun free stop needed start 0 0) :=
    bestRun_isRun (le_refl start) isRun_zero
  obtain ⟨hstop, hfree⟩ := hr.free _ (le_refl _) (by omega)
  rw [h _ (hr.low_le (by omega)) hstop] at hfree
  cases hfree

/-! ### A run at the start -/

lemma growRun_of_free (hrun : run ≤ needed) (hstop : start + (needed - run) ≤ stop)
    (h : ∀ x, start ≤ x → x < start + (needed - run) → free x = true) :
    (growRun free stop needed start run).2 = needed := by
  fun_induction growRun free stop needed start run with
  | case1 start run hc ih =>
    exact ih (by omega) (by omega) fun x hx hlt => h x (by omega) (by omega)
  | case2 start run hc =>
    by_contra hne
    exact hc ⟨by omega, by omega, h start (le_refl _) (by omega)⟩

/-- A search that begins at a long enough run returns it. -/
lemma bestRun_of_free (bestStart : ℕ) (hpos : 0 < needed) (hstop : start + needed ≤ stop)
    (h : ∀ x, start ≤ x → x < start + needed → free x = true) :
    bestRun free stop needed start bestStart 0 = (start, needed) := by
  have hskip : skipTaken free stop start = start := by
    rw [skipTaken, if_neg]
    rintro ⟨-, hf⟩
    rw [h start (le_refl _) (by omega)] at hf
    cases hf
  have hgrow : (growRun free stop needed start 0).2 = needed :=
    growRun_of_free (Nat.zero_le _) (by omega) fun x hx hlt => h x hx (by omega)
  rw [bestRun, dif_pos ⟨by omega, hpos⟩, hskip]
  simp only [hgrow]
  rw [if_pos hpos, if_pos trivial]

end RunSearch
