import LainOS.Lib.RunSearch

/-!
# The run the search settles for

Among the runs of free cells that are at most as long as needed, the search takes the first of the
longest ones. That determines the run, so that the search can be stated without its loops.
-/

namespace RunSearch

variable {free : ℕ → Bool} {low stop needed start bestStart bestLength : ℕ} {r : ℕ × ℕ}

/-- The cells `[b, b + m)` are free and lie between the bounds. -/
def FreeRun (free : ℕ → Bool) (low stop b m : ℕ) : Prop :=
  low ≤ b ∧ b + m ≤ stop ∧ ∀ s, b ≤ s → s < b + m → free s = true

/-- The first of the longest runs of free cells, of those up to the needed length. -/
structure FirstLongest (free : ℕ → Bool) (low stop needed : ℕ) (r : ℕ × ℕ) : Prop where
  pos : 0 < r.2
  le : r.2 ≤ needed
  run : FreeRun free low stop r.1 r.2
  longest : ∀ b m, FreeRun free low stop b m → m ≤ needed → m ≤ r.2
  first : ∀ b, FreeRun free low stop b r.2 → r.1 ≤ b

lemma FirstLongest.unique {q : ℕ × ℕ} (h : FirstLongest free low stop needed r)
    (h' : FirstLongest free low stop needed q) : r = q := by
  have hlength : r.2 = q.2 :=
    le_antisymm (h'.longest _ _ h.run h.le) (h.longest _ _ h'.run h'.le)
  have hrun : FreeRun free low stop q.1 r.2 := by
    rw [hlength]
    exact h'.run
  have hrun' : FreeRun free low stop r.1 q.2 := by
    rw [← hlength]
    exact h.run
  exact Prod.ext (le_antisymm (h.first _ hrun) (h'.first _ hrun')) hlength

lemma taken_of_lt_skipTaken (free : ℕ → Bool) (stop start : ℕ) :
    ∀ s, start ≤ s → s < skipTaken free stop start → s < stop ∧ free s = false := by
  fun_induction skipTaken free stop start with
  | case1 start h ih =>
    intro s hs hlt
    rcases Nat.eq_or_lt_of_le hs with rfl | hs
    · exact h
    · exact ih s hs hlt
  | case2 start h =>
    intro s hs hlt
    omega

/-- A run that stays short has met a taken cell or the end. -/
lemma growRun_stops {run : ℕ} (h : (growRun free stop needed start run).2 < needed) :
    stop ≤ (growRun free stop needed start run).1 ∨
      free (growRun free stop needed start run).1 = false := by
  fun_induction growRun free stop needed start run with
  | case1 start run hc ih => exact ih h
  | case2 start run hc =>
    by_cases hstop : stop ≤ start
    · exact .inl hstop
    · refine .inr ?_
      simpa [not_le.mp hstop, h] using hc

/-- The runs before the start end before it, and none of them is better than the best one. -/
def Passed (free : ℕ → Bool) (low stop start bestStart bestLength : ℕ) : Prop :=
  ∀ b m, FreeRun free low stop b m → 0 < m → b < start →
    b + m ≤ start ∧ m ≤ bestLength ∧ (m = bestLength → bestStart ≤ b)

section

variable (hbefore : Passed free low stop start bestStart bestLength)
include hbefore

/-- No run starts among the cells that are skipped. -/
lemma Passed.skipTaken : Passed free low stop (RunSearch.skipTaken free stop start) bestStart
    bestLength := by
  intro b m hrun hm hb
  by_cases hpast : b < start
  · obtain ⟨hend, hbest⟩ := hbefore b m hrun hm hpast
    exact ⟨hend.trans (le_skipTaken free stop start), hbest⟩
  · have htaken := (taken_of_lt_skipTaken free stop start b (not_lt.mp hpast) hb).2
    rw [hrun.2.2 b le_rfl (by omega)] at htaken
    cases htaken

/-- Behind a short run the search has passed that run too. -/
lemma Passed.growRun (hstart : bestStart ≤ start)
    (hshort : (RunSearch.growRun free stop needed start 0).2 < needed) :
    Passed free low stop (RunSearch.growRun free stop needed start 0).1
      (if bestLength < (RunSearch.growRun free stop needed start 0).2 then start else bestStart)
      (max bestLength (RunSearch.growRun free stop needed start 0).2) := by
  have hlen := growRun_snd free stop needed start 0
  have hstops := growRun_stops hshort
  generalize RunSearch.growRun free stop needed start 0 = g at hlen hstops ⊢
  intro b m hrun hm hb
  by_cases hpast : b < start
  · obtain ⟨hend, hle, hfirst⟩ := hbefore b m hrun hm hpast
    refine ⟨by omega, by omega, fun heq => ?_⟩
    rw [if_neg (by omega)]
    exact hfirst (by omega)
  · -- the run cannot reach beyond the cell that stopped the search
    have hend : b + m ≤ g.1 := by
      by_contra hcon
      rcases hstops with hstop | htaken
      · have := hrun.2.1
        omega
      · rw [hrun.2.2 g.1 (by omega) (by omega)] at htaken
        cases htaken
    refine ⟨hend, by omega, fun heq => ?_⟩
    split_ifs <;> omega

end

lemma bestRun_firstLongest (hneeded : 0 < needed) (hlow : low ≤ start) (hshort : bestLength < needed)
    (hstart : bestStart ≤ start)
    (hbest : 0 < bestLength → FreeRun free low stop bestStart bestLength)
    (hbefore : Passed free low stop start bestStart bestLength) :
    ((bestRun free stop needed start bestStart bestLength).2 = 0 ∧
      ∀ b m, FreeRun free low stop b m → m = 0) ∨
    FirstLongest free low stop needed (bestRun free stop needed start bestStart bestLength) := by
  fun_induction bestRun free stop needed start bestStart bestLength with
  | case1 start bs bl h runStart run hgt heq =>
    have hskip : start ≤ runStart := le_skipTaken free stop start
    have hlen : run.1 + 0 = runStart + run.2 := growRun_snd free stop needed runStart 0
    have hcells : ∀ s, runStart ≤ s → s < run.1 → s < stop ∧ free s = true := growRun_free
    refine .inr ⟨by omega, by omega, ⟨hlow.trans hskip, ?_, ?_⟩, ?_, ?_⟩
    · have := (hcells (runStart + run.2 - 1) (by omega) (by omega)).1
      omega
    · exact fun s hs hlt => (hcells s hs (by simp only at hlt; omega)).2
    · intro b m _ hm
      simp only
      omega
    · intro b hrun
      by_contra hlt
      have := (hbefore.skipTaken b run.2 hrun (by omega) (not_le.mp hlt)).2.1
      omega
  | case2 start bs bl h runStart run hgt hne ih =>
    have hskip : start ≤ runStart := le_skipTaken free stop start
    have hlen : run.1 + 0 = runStart + run.2 := growRun_snd free stop needed runStart 0
    have hcells : ∀ s, runStart ≤ s → s < run.1 → s < stop ∧ free s = true := growRun_free
    have hle : run.2 ≤ needed := growRun_le (Nat.zero_le _)
    have hpassed := hbefore.skipTaken.growRun (hstart.trans hskip) (show run.2 < needed by omega)
    rw [if_pos hgt, max_eq_right hgt.le] at hpassed
    refine ih (by omega) (by omega) (by omega) (fun _ => ⟨hlow.trans hskip, ?_, ?_⟩) hpassed
    · have := (hcells (runStart + run.2 - 1) (by omega) (by omega)).1
      omega
    · exact fun s hs hlt => (hcells s hs (by omega)).2
  | case3 start bs bl h runStart run hgt ih =>
    have hnext : start ≤ run.1 := (lt_growRun free stop h.1 h.2).le
    have hpassed := hbefore.skipTaken.growRun (hstart.trans (le_skipTaken free stop start))
      (show run.2 < needed by omega)
    rw [if_neg hgt, max_eq_left (not_lt.mp hgt)] at hpassed
    exact ih (hlow.trans hnext) hshort (hstart.trans hnext) hbest hpassed
  | case4 start bs bl h =>
    have hend : stop ≤ start := by
      by_contra hlt
      exact h ⟨not_le.mp hlt, hneeded⟩
    have hall : ∀ b m, FreeRun free low stop b m → 0 < m →
        b + m ≤ start ∧ m ≤ bl ∧ (m = bl → bs ≤ b) := fun b m hrun hm =>
      hbefore b m hrun hm (by have := hrun.2.1; omega)
    rcases Nat.eq_zero_or_pos bl with rfl | hpos
    · refine .inl ⟨rfl, fun b m hrun => ?_⟩
      by_contra hm
      have := (hall b m hrun (Nat.pos_of_ne_zero hm)).2.1
      omega
    · refine .inr ⟨hpos, hshort.le, hbest hpos, fun b m hrun _ => ?_, fun b hrun => ?_⟩
      · rcases Nat.eq_zero_or_pos m with rfl | hm
        · exact Nat.zero_le _
        · exact (hall b m hrun hm).2.1
      · exact (hall b bl hrun hpos).2.2 rfl

lemma bestRun_spec (free : ℕ → Bool) (low stop : ℕ) (hneeded : 0 < needed) :
    ((bestRun free stop needed low 0 0).2 = 0 ∧ ∀ b m, FreeRun free low stop b m → m = 0) ∨
    FirstLongest free low stop needed (bestRun free stop needed low 0 0) :=
  bestRun_firstLongest hneeded le_rfl hneeded (Nat.zero_le low) (fun h => absurd h (lt_irrefl 0))
    fun _ _ hrun _ hlt => absurd hrun.1 (not_le.mpr hlt)

/-- The search finds the first longest run, if there is a free cell. -/
theorem bestRun_eq_iff (hneeded : 0 < needed) : FirstLongest free low stop needed r ↔
    bestRun free stop needed low 0 0 = r ∧ 0 < r.2 := by
  have hspec := bestRun_spec free low stop hneeded
  constructor
  · intro h
    rcases hspec with ⟨-, hempty⟩ | hfound
    · exact absurd (hempty _ _ h.run) h.pos.ne'
    · exact ⟨hfound.unique h, h.pos⟩
  · rintro ⟨rfl, hpos⟩
    rcases hspec with ⟨hzero, -⟩ | hfound
    · omega
    · exact hfound

end RunSearch
