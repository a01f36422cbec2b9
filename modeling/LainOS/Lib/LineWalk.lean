import Mathlib.Tactic

/-!
# Walking along a line with an error term

A walk on the grid from `(0, 0)` in the direction of `(D, E)`. The error of `(i, j)` is
`(j + 1) * D - (i + 1) * E`; a pass first decides whether to advance along the first axis and then,
with the error of where it is by then, whether to advance along the second.

The second decision with the new error makes the walk hit `(D, E)` for `D ≤ E` and for `2 * E < D`
only; between these slopes it climbs too soon and passes over it.
-/

namespace LineWalk

variable {D E : ℕ} {p : ℕ × ℕ}

def error (D E : ℕ) (p : ℕ × ℕ) : ℤ := (p.2 + 1) * D - (p.1 + 1) * E

def stepX (D E : ℕ) (p : ℕ × ℕ) : ℕ × ℕ :=
  if -(E : ℤ) ≤ 2 * error D E p then (p.1 + 1, p.2) else p

def stepY (D E : ℕ) (p : ℕ × ℕ) : ℕ × ℕ :=
  if 2 * error D E p ≤ D then (p.1, p.2 + 1) else p

def pass (D E : ℕ) (p : ℕ × ℕ) : ℕ × ℕ := stepY D E (stepX D E p)

/-- Where the walk is after `n` passes. -/
def walk (D E : ℕ) : ℕ → ℕ × ℕ
  | 0 => (0, 0)
  | n + 1 => pass D E (walk D E n)

@[simp] lemma error_right (i j : ℕ) : error D E (i + 1, j) = error D E (i, j) - E := by
  simp only [error]
  push_cast
  ring

@[simp] lemma error_up (i j : ℕ) : error D E (i, j + 1) = error D E (i, j) + D := by
  simp only [error]
  push_cast
  ring

lemma stepX_cases (D E i j : ℕ) :
    (-(E : ℤ) ≤ 2 * error D E (i, j) ∧ stepX D E (i, j) = (i + 1, j)) ∨
      (2 * error D E (i, j) < -(E : ℤ) ∧ stepX D E (i, j) = (i, j)) := by
  rw [stepX]
  split_ifs with h
  · exact Or.inl ⟨h, rfl⟩
  · exact Or.inr ⟨not_le.mp h, rfl⟩

lemma stepY_cases (D E i j : ℕ) : (2 * error D E (i, j) ≤ D ∧ stepY D E (i, j) = (i, j + 1)) ∨
      ((D : ℤ) < 2 * error D E (i, j) ∧ stepY D E (i, j) = (i, j)) := by
  rw [stepY]
  split_ifs with h
  · exact Or.inl ⟨h, rfl⟩
  · exact Or.inr ⟨not_le.mp h, rfl⟩

/-- A pass advances by at most one along each axis. -/
lemma pass_bounds (D E : ℕ) (p : ℕ × ℕ) : (p.1 ≤ (pass D E p).1 ∧ (pass D E p).1 ≤ p.1 + 1) ∧
      (p.2 ≤ (pass D E p).2 ∧ (pass D E p).2 ≤ p.2 + 1) := by
  obtain ⟨i, j⟩ := p
  rw [pass]
  rcases stepX_cases D E i j with ⟨-, hx⟩ | ⟨-, hx⟩
  · rw [hx]
    rcases stepY_cases D E (i + 1) j with ⟨-, hy⟩ | ⟨-, hy⟩ <;> simp [hy]
  · rw [hx]
    rcases stepY_cases D E i j with ⟨-, hy⟩ | ⟨-, hy⟩ <;> simp [hy]

lemma walk_mono {m n : ℕ} (h : m ≤ n) :
    (walk D E m).1 ≤ (walk D E n).1 ∧ (walk D E m).2 ≤ (walk D E n).2 := by
  induction n, h using Nat.le_induction with
  | base => exact ⟨le_rfl, le_rfl⟩
  | succ n _ ih =>
    obtain ⟨⟨hx, -⟩, hy, -⟩ := pass_bounds D E (walk D E n)
    exact ⟨ih.1.trans hx, ih.2.trans hy⟩

lemma walk_le (D E n : ℕ) : (walk D E n).1 ≤ n ∧ (walk D E n).2 ≤ n := by
  induction n with
  | zero => exact ⟨le_rfl, le_rfl⟩
  | succ n ih =>
    obtain ⟨⟨-, hx⟩, -, hy⟩ := pass_bounds D E (walk D E n)
    exact ⟨hx.trans (Nat.succ_le_succ ih.1), hy.trans (Nat.succ_le_succ ih.2)⟩

/-! ### Steep lines -/

/-- The errors on a line with `D ≤ E`: at most half of `E` away from the one of the line. -/
def Steep (D E : ℕ) (p : ℕ × ℕ) : Prop :=
  2 * (D : ℤ) - 3 * E ≤ 2 * error D E p ∧ 2 * error D E p < 2 * (D : ℤ) - E

lemma Steep.pass (h : Steep D E p) (hDE : D ≤ E) :
    (pass D E p).2 = p.2 + 1 ∧ Steep D E (pass D E p) := by
  obtain ⟨hlow, hhigh⟩ := h
  obtain ⟨i, j⟩ := p
  rw [LineWalk.pass]
  rcases stepX_cases D E i j with ⟨hx, hstep⟩ | ⟨hx, hstep⟩
  · rw [hstep]
    rcases stepY_cases D E (i + 1) j with ⟨hy, hstep'⟩ | ⟨hy, hstep'⟩
    · rw [hstep']
      rw [error_right] at hy
      refine ⟨rfl, ?_⟩
      rw [Steep, error_up, error_right]
      omega
    · rw [error_right] at hy
      omega
  · rw [hstep]
    rcases stepY_cases D E i j with ⟨hy, hstep'⟩ | ⟨hy, hstep'⟩
    · rw [hstep']
      refine ⟨rfl, ?_⟩
      rw [Steep, error_up]
      omega
    · omega

lemma walk_steep (hDE : D ≤ E) (hE : 0 < E) (n : ℕ) :
    (walk D E n).2 = n ∧ Steep D E (walk D E n) := by
  induction n with
  | zero =>
    refine ⟨rfl, ?_⟩
    simp only [Steep, walk, error]
    omega
  | succ n ih =>
    obtain ⟨hup, hsteep⟩ := ih.2.pass hDE
    exact ⟨hup.trans (congrArg (· + 1) ih.1), hsteep⟩

/-! ### Flat lines -/

/-- The errors on a line with `E < D`. -/
def Flat (D E : ℕ) (p : ℕ × ℕ) : Prop :=
  -(E : ℤ) ≤ 2 * error D E p ∧ 2 * error D E p ≤ 3 * D

lemma Flat.pass (h : Flat D E p) (hED : E < D) : (pass D E p).1 = p.1 + 1 ∧ Flat D E (pass D E p) ∧
      ((pass D E p).2 = p.2 + 1 ∧ error D E (pass D E p) = error D E p + D - E ∨
        (D : ℤ) < 2 * error D E (pass D E p) ∧ (pass D E p).2 = p.2) := by
  obtain ⟨hlow, hhigh⟩ := h
  obtain ⟨i, j⟩ := p
  rw [LineWalk.pass]
  rcases stepX_cases D E i j with ⟨-, hstep⟩ | ⟨hx, -⟩
  · rw [hstep]
    rcases stepY_cases D E (i + 1) j with ⟨hy, hstep'⟩ | ⟨hy, hstep'⟩
    · rw [hstep']
      rw [error_right] at hy
      refine ⟨rfl, ?_, Or.inl ⟨rfl, ?_⟩⟩
      · rw [Flat, error_up, error_right]
        omega
      · rw [error_up, error_right]
        omega
    · rw [hstep']
      refine ⟨rfl, ?_, Or.inr ⟨hy, rfl⟩⟩
      rw [error_right] at hy
      rw [Flat, error_right]
      omega
  · omega

lemma walk_flat (hED : E < D) (n : ℕ) : (walk D E n).1 = n ∧ Flat D E (walk D E n) := by
  induction n with
  | zero =>
    refine ⟨rfl, ?_⟩
    simp only [Flat, walk, error]
    omega
  | succ n ih =>
    obtain ⟨hright, hflat, -⟩ := ih.2.pass hED
    exact ⟨hright.trans (congrArg (· + 1) ih.1), hflat⟩

/-- Once the error is over half of `D` it stays there. -/
lemma lt_error_pass (h : Flat D E p) (hED : E < D) (hhalf : (D : ℤ) < 2 * error D E p) :
    (D : ℤ) < 2 * error D E (pass D E p) := by
  obtain ⟨-, -, ⟨-, herror⟩ | ⟨hlt, -⟩⟩ := h.pass hED
  · rw [herror]
    omega
  · exact hlt

/-! ### Hitting the end -/

lemma eq_of_mul_close {a b c : ℕ} (h : -(c : ℤ) < a * c - b * c) (h' : (a : ℤ) * c - b * c < c) :
    a = b := by
  have hlt : (a : ℤ) * c < (b + 1) * c := by linarith
  have hgt : (b : ℤ) * c < (a + 1) * c := by linarith
  have hc : (0 : ℤ) ≤ c := Int.natCast_nonneg c
  have := lt_of_mul_lt_mul_right hlt hc
  have := lt_of_mul_lt_mul_right hgt hc
  omega

/-- On these slopes the walk hits the end. -/
theorem walk_hits (h : D ≤ E ∨ 2 * E < D) : walk D E (max D E) = (D, E) := by
  rcases h with hDE | hED
  · rw [max_eq_right hDE]
    rcases Nat.eq_zero_or_pos E with rfl | hE
    · rw [Nat.le_zero.mp hDE]
      rfl
    · obtain ⟨hup, hlow, hhigh⟩ := walk_steep hDE hE E
      have hright : (walk D E E).1 = D := by
        refine (eq_of_mul_close (c := E) ?_ ?_).symm <;> rw [error, hup] at * <;> linarith
      exact Prod.ext hright hup
  · rw [max_eq_left (by omega)]
    have hlt : E < D := by omega
    obtain ⟨hright, -, hhigh⟩ := walk_flat hlt D
    have hhalf : ∀ n, (D : ℤ) < 2 * error D E (walk D E n) := by
      intro n
      induction n with
      | zero =>
        simp only [walk, error]
        omega
      | succ n ih => exact lt_error_pass (walk_flat hlt n).2 hlt ih
    have hend := hhalf D
    have hup : (walk D E D).2 = E := by
      refine eq_of_mul_close (c := D) ?_ ?_ <;> rw [error, hright] at * <;> linarith
    exact Prod.ext hright hup

/-- It does not hit the end before. -/
lemma walk_ne_of_lt {n : ℕ} (h : n < max D E) : walk D E n ≠ (D, E) := by
  intro heq
  obtain ⟨hx, hy⟩ := walk_le D E n
  rw [heq] at hx hy
  exact absurd (max_le hx hy) (not_le.mpr h)

/-- Between the slopes it passes over the end: until the error is over half of `D` it climbs in every
pass, and from then on it is above the line. -/
theorem walk_misses (hED : E < D) (hDE : D ≤ 2 * E) (n : ℕ) : walk D E n ≠ (D, E) := by
  have hclimb : ∀ n, (walk D E n).2 = n ∨ (D : ℤ) < 2 * error D E (walk D E n) := by
    intro n
    induction n with
    | zero => exact Or.inl rfl
    | succ n ih =>
      rcases ih with hup | hhalf
      · rcases ((walk_flat hED n).2.pass hED).2.2 with ⟨hup', -⟩ | ⟨hlt, -⟩
        · exact Or.inl (hup'.trans (congrArg (· + 1) hup))
        · exact Or.inr hlt
      · exact Or.inr (lt_error_pass (walk_flat hED n).2 hED hhalf)
  intro heq
  have hright := (walk_flat hED n).1
  rw [heq] at hright
  rcases hclimb n with hup | hhalf
  · rw [heq] at hup
    exact absurd (hup.trans hright.symm) hED.ne
  · rw [heq, error] at hhalf
    have herror : ((E : ℤ) + 1) * D - (D + 1) * E = D - E := by ring
    simp only [herror] at hhalf
    omega

/-- The errors that the walk meets stay small. -/
lemma abs_error_walk (D E n : ℕ) :
    |2 * error D E (walk D E n)| ≤ 3 * max (D : ℤ) E ∧
      |2 * error D E (stepX D E (walk D E n))| ≤ 3 * max (D : ℤ) E := by
  have hbounds : -(3 * max (D : ℤ) E) ≤ 2 * error D E (walk D E n) ∧
      2 * error D E (walk D E n) ≤ 3 * max (D : ℤ) E := by
    rcases Nat.lt_or_ge E D with hED | hDE
    · obtain ⟨-, hlow, hhigh⟩ := walk_flat hED n
      omega
    rcases Nat.eq_zero_or_pos E with rfl | hE
    · obtain rfl := Nat.le_zero.mp hDE
      simp [error]
    · obtain ⟨-, hlow, hhigh⟩ := walk_steep hDE hE n
      omega
  refine ⟨abs_le.mpr hbounds, abs_le.mpr ?_⟩
  generalize walk D E n = p at hbounds
  obtain ⟨i, j⟩ := p
  rcases stepX_cases D E i j with ⟨hx, hstep⟩ | ⟨-, hstep⟩
  · rw [hstep, error_right]
    omega
  · rwa [hstep]

end LineWalk
