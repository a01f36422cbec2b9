import LainOS.Lib.FirstRun

/-!
# The longest runs

The maximal runs of free cells between two bounds, and the total length of the longest of them. The
search for a long run finds a longest maximal run unless it meets one that is long enough, and taking
a maximal run away leaves the others as they are, so a greedy choice is a best one
(`longestRuns_succ`).
-/

namespace RunSearch

open Finset

variable {s : ℕ}

/-- A run of cells with `P` in `[low, stop)` that cannot be made longer. -/
structure MaximalRun (P : ℕ → Prop) (low stop : ℕ) (r : ℕ × ℕ) : Prop where
  pos : 0 < r.2
  low_le : low ≤ r.1
  le_stop : r.1 + r.2 ≤ stop
  cells : ∀ s, r.1 ≤ s → s < r.1 + r.2 → P s
  left : r.1 = low ∨ ¬ P (r.1 - 1)
  right : r.1 + r.2 = stop ∨ ¬ P (r.1 + r.2)

/-- The cells with `P` outside a run. -/
def without (P : ℕ → Prop) (r : ℕ × ℕ) (s : ℕ) : Prop := P s ∧ ¬ (r.1 ≤ s ∧ s < r.1 + r.2)

section

variable {P Q : ℕ → Prop} {low stop : ℕ} {q r : ℕ × ℕ}

section

variable (h : MaximalRun P low stop r) (h' : MaximalRun P low stop q)
include h h'

lemma MaximalRun.start_le (hs : q.1 ≤ s) (hlt : s < r.1 + r.2) : q.1 ≤ r.1 := by
  by_contra hcon
  have hlow := h.low_le
  rcases h'.left with heq | hnot
  · omega
  · exact hnot (h.cells (q.1 - 1) (by omega) (by omega))

lemma MaximalRun.end_le (hs : r.1 ≤ s) (hlt : s < q.1 + q.2) : r.1 + r.2 ≤ q.1 + q.2 := by
  by_contra hcon
  have hstop := h.le_stop
  rcases h'.right with heq | hnot
  · omega
  · exact hnot (h.cells (q.1 + q.2) (by omega) (by omega))

/-- Maximal runs with a common cell are equal. -/
lemma MaximalRun.eq_of_common (hs : r.1 ≤ s) (hlt : s < r.1 + r.2) (hs' : q.1 ≤ s)
    (hlt' : s < q.1 + q.2) : q = r := by
  have hle := h.start_le h' hs' hlt
  have hge := h'.start_le h hs hlt'
  have hend := h.end_le h' hs hlt'
  have hend' := h'.end_le h hs' hlt
  exact Prod.ext (by omega) (by omega)

end

/-- Every run of cells lies in a maximal one. -/
lemma exists_maximalRun {n : ℕ} (hn : 0 < n) (hlow : low ≤ s) (hstop : s + n ≤ stop)
    (hcells : ∀ x, s ≤ x → x < s + n → P x) : ∃ r, MaximalRun P low stop r ∧ n ≤ r.2 := by
  -- induction on the room that is left on both sides
  induction hroom : (s - low) + (stop - (s + n)) using Nat.strong_induction_on generalizing s n with
  | _ room ih =>
    by_cases hleft : s = low ∨ ¬ P (s - 1)
    · by_cases hright : s + n = stop ∨ ¬ P (s + n)
      · exact ⟨(s, n), ⟨hn, hlow, hstop, hcells, hleft, hright⟩, le_rfl⟩
      rw [not_or, not_not] at hright
      have hlonger : ∀ x, s ≤ x → x < s + (n + 1) → P x := by
        intro x hx hlt
        rcases Nat.lt_or_ge x (s + n) with hin | hend
        · exact hcells x hx hin
        · obtain rfl : x = s + n := by omega
          exact hright.2
      obtain ⟨r, hr, hle⟩ := ih _ (by omega) (Nat.succ_pos n) hlow (by omega) hlonger rfl
      exact ⟨r, hr, by omega⟩
    · rw [not_or, not_not] at hleft
      have hlonger : ∀ x, s - 1 ≤ x → x < s - 1 + (n + 1) → P x := by
        intro x hx hlt
        rcases Nat.lt_or_ge x s with hbefore | hin
        · obtain rfl : x = s - 1 := by omega
          exact hleft.2
        · exact hcells x hin (by omega)
      obtain ⟨r, hr, hle⟩ := ih _ (by omega) (Nat.succ_pos n) (by omega) (by omega) hlonger rfl
      exact ⟨r, hr, by omega⟩

/-- Taking a maximal run away leaves the other maximal runs. -/
lemma maximalRun_without (hr : MaximalRun P low stop r) :
    MaximalRun (without P r) low stop q ↔ MaximalRun P low stop q ∧ q ≠ r := by
  have hrpos := hr.pos
  constructor
  · intro hq
    have hpos := hq.pos
    have hstop := hq.le_stop
    have hlow := hq.low_le
    have hfirst := (hq.cells q.1 le_rfl (by omega)).2
    have hlast := (hq.cells (q.1 + q.2 - 1) (by omega) (by omega)).2
    refine ⟨⟨hpos, hlow, hstop, fun s hs hlt => (hq.cells s hs hlt).1, ?_, ?_⟩, ?_⟩
    · refine hq.left.imp_right fun hnot hP => hnot ⟨hP, fun hin => ?_⟩
      -- the run would begin right behind the one taken away
      have hend : r.1 + r.2 = q.1 := by omega
      rcases hr.right with heq | hnr
      · omega
      · exact hnr (hend ▸ (hq.cells q.1 le_rfl (by omega)).1)
    · refine hq.right.imp_right fun hnot hP => hnot ⟨hP, fun hin => ?_⟩
      have hbegin : r.1 - 1 = q.1 + q.2 - 1 ∧ r.1 ≠ low := by omega
      rcases hr.left with heq | hnl
      · exact hbegin.2 heq
      · exact hnl (hbegin.1 ▸ (hq.cells (q.1 + q.2 - 1) (by omega) (by omega)).1)
    · rintro rfl
      omega
  · rintro ⟨hq, hne⟩
    refine ⟨hq.pos, hq.low_le, hq.le_stop, fun s hs hlt => ⟨hq.cells s hs hlt, fun hin => ?_⟩,
      hq.left.imp_right fun hnot hP => hnot hP.1, hq.right.imp_right fun hnot hP => hnot hP.1⟩
    exact hne (hr.eq_of_common hq hin.1 hin.2 hs hlt)

lemma maximalRun_congr (h : ∀ s, low ≤ s → s < stop → (P s ↔ Q s)) :
    MaximalRun P low stop r ↔ MaximalRun Q low stop r := by
  have hone : ∀ {P Q : ℕ → Prop}, (∀ s, low ≤ s → s < stop → (P s ↔ Q s)) →
      MaximalRun P low stop r → MaximalRun Q low stop r := by
    intro P Q h hr
    have hpos := hr.pos
    have hlow := hr.low_le
    have hstop := hr.le_stop
    refine ⟨hpos, hlow, hstop, fun s hs hlt => (h s (by omega) (by omega)).mp (hr.cells s hs hlt),
      ?_, ?_⟩
    · by_cases heq : r.1 = low
      · exact .inl heq
      · exact .inr fun hQ => hr.left.elim heq fun hnot => hnot ((h _ (by omega) (by omega)).mpr hQ)
    · by_cases heq : r.1 + r.2 = stop
      · exact .inl heq
      · exact .inr fun hQ => hr.right.elim heq fun hnot => hnot ((h _ (by omega) (by omega)).mpr hQ)
  exact ⟨hone h, hone fun s hs hlt => (h s hs hlt).symm⟩

end

/-! ### The total length of the longest runs -/

open Classical in
noncomputable def maximalRuns (P : ℕ → Prop) (low stop : ℕ) : Finset (ℕ × ℕ) :=
  (Finset.range stop ×ˢ Finset.range (stop + 1)).filter (MaximalRun P low stop)

/-- The total length of the `k` longest maximal runs, or of all if there are fewer. -/
noncomputable def longestRuns (k : ℕ) (P : ℕ → Prop) (low stop : ℕ) : ℕ :=
  ((((maximalRuns P low stop).val.map Prod.snd).sort (· ≥ ·)).take k).sum

section

variable {P Q : ℕ → Prop} {low stop k n : ℕ} {r : ℕ × ℕ}

@[simp] lemma mem_maximal : r ∈ maximalRuns P low stop ↔ MaximalRun P low stop r := by
  simp only [maximalRuns, mem_filter, mem_product, mem_range, and_iff_right_iff_imp]
  intro h
  have := h.pos
  have := h.le_stop
  omega

lemma maximalRuns_congr (h : ∀ s, low ≤ s → s < stop → (P s ↔ Q s)) :
    maximalRuns P low stop = maximalRuns Q low stop := by
  ext r
  rw [mem_maximal, mem_maximal, maximalRun_congr h]

lemma longestRuns_congr (h : ∀ s, low ≤ s → s < stop → (P s ↔ Q s)) :
    longestRuns k P low stop = longestRuns k Q low stop := by
  rw [longestRuns, maximalRuns_congr h, longestRuns]

@[simp] lemma longestRuns_zero : longestRuns 0 P low stop = 0 := rfl

lemma longestRuns_of_none (h : ∀ r, ¬ MaximalRun P low stop r) : longestRuns k P low stop = 0 := by
  have hempty : maximalRuns P low stop = ∅ :=
    eq_empty_of_forall_notMem fun r hr => h r (mem_maximal.mp hr)
  simp [longestRuns, hempty]

/-- A longest maximal run is among the longest ones, and the rest are those of the other cells. -/
theorem longestRuns_succ (hr : MaximalRun P low stop r)
    (hmax : ∀ q, MaximalRun P low stop q → q.2 ≤ r.2) :
    longestRuns (k + 1) P low stop = r.2 + longestRuns k (without P r) low stop := by
  have herase : maximalRuns (without P r) low stop = (maximalRuns P low stop).erase r := by
    ext q
    rw [mem_maximal, maximalRun_without hr, mem_erase, mem_maximal, and_comm]
  have hcons : (maximalRuns P low stop).val = r ::ₘ (maximalRuns (without P r) low stop).val := by
    rw [herase, erase_val, Multiset.cons_erase (mem_maximal.mpr hr)]
  rw [longestRuns, hcons, Multiset.map_cons, Multiset.sort_cons, List.take_succ_cons, List.sum_cons,
    longestRuns]
  intro n hn
  obtain ⟨q, hq, rfl⟩ := Multiset.mem_map.mp hn
  exact hmax q ((maximalRun_without hr).mp (mem_maximal.mp hq)).1

lemma le_longestRuns (hr : MaximalRun P low stop r) : r.2 ≤ longestRuns (k + 1) P low stop := by
  obtain ⟨q, hq, hmax⟩ := exists_max_image (maximalRuns P low stop) Prod.snd ⟨r, mem_maximal.mpr hr⟩
  rw [longestRuns_succ (mem_maximal.mp hq) fun p hp => hmax p (mem_maximal.mpr hp)]
  exact (hmax r (mem_maximal.mpr hr)).trans (Nat.le_add_right _ _)

end

/-! ### What the search finds -/

variable {free : ℕ → Bool} {low stop needed : ℕ} {r : ℕ × ℕ}

/-- A run of the needed length if there is one, else a longest maximal run. -/
def Finds (free : ℕ → Bool) (low stop needed : ℕ) (r : ℕ × ℕ) : Prop :=
  r.2 = needed ∧ (∃ q, MaximalRun (free ·) low stop q ∧ needed ≤ q.2) ∨
  r.2 < needed ∧ (∀ q, MaximalRun (free ·) low stop q → q.2 ≤ r.2) ∧
    (r.2 = 0 ∨ MaximalRun (free ·) low stop r)

/-- A run that is shorter than needed is a maximal one, and none is longer. -/
lemma FirstLongest.finds (h : FirstLongest free low stop needed r) :
    Finds free low stop needed r := by
  obtain ⟨hpos, hle, ⟨hlow, hstop, hcells⟩, hlongest, -⟩ := h
  rcases hle.eq_or_lt with heq | hshort
  · obtain ⟨q, hq, hle⟩ := exists_maximalRun (P := (free ·)) hpos hlow hstop hcells
    exact .inl ⟨heq, q, hq, heq ▸ hle⟩
  have hnone (b : ℕ) : ¬ FreeRun free low stop b (r.2 + 1) := fun hrun =>
    absurd (hlongest b (r.2 + 1) hrun hshort) (by omega)
  refine .inr ⟨hshort, fun q hq => ?_, .inr ⟨hpos, hlow, hstop, hcells, ?_, ?_⟩⟩
  · by_contra hlt
    have := hq.le_stop
    exact hnone q.1 ⟨hq.low_le, by omega, fun s hs hs' => hq.cells s hs (by omega)⟩
  · refine or_iff_not_imp_left.mpr fun hne hfree => hnone (r.1 - 1) ⟨by omega, by omega, ?_⟩
    intro s hs hlt
    rcases Nat.lt_or_ge s r.1 with hbefore | hin
    · rwa [show s = r.1 - 1 by omega]
    · exact hcells s hin (by omega)
  · refine or_iff_not_imp_left.mpr fun hne hfree => hnone r.1 ⟨hlow, by omega, ?_⟩
    intro s hs hlt
    rcases Nat.lt_or_ge s (r.1 + r.2) with hin | hend
    · exact hcells s hs hin
    · rwa [show s = r.1 + r.2 by omega]

/-- A whole scan. -/
lemma bestRun_scan (free : ℕ → Bool) (low stop : ℕ) (hneeded : 0 < needed) :
    Finds free low stop needed (bestRun free stop needed low 0 0) := by
  rcases bestRun_spec free low stop hneeded with ⟨hzero, hempty⟩ | hfirst
  · refine .inr ⟨by omega, fun q hq => ?_, .inl hzero⟩
    rw [hempty q.1 q.2 ⟨hq.low_le, hq.le_stop, hq.cells⟩]
    exact Nat.zero_le _
  · exact hfirst.finds

end RunSearch
