import LainOS.Lib.LineWalk

/-!
# Line drawing

`graphics_draw_line` walks from one point to the other with an error term and stops only when it is
exactly at the end. The second test of a pass reads the error that the first one has updated, so the
end is passed over on lines that are flat, but not flat enough.
-/

namespace Graphics

open LineWalk Option

variable {n a : ℤ} {s : Pen} {i : ℕ}

/-- A value of type `int32_t`. Signed overflow is undefined, and the kernel is not built with
`-fwrapv`. -/
def int32 (n : ℤ) : Option ℤ :=
  if -2 ^ 31 ≤ n ∧ n < 2 ^ 31 then some n else none

/-- The conversion of a `uint32_t` to `int32_t`. -/
def asInt32 (n : UInt32) : ℤ := n.toBitVec.toInt

/-- A call of `graphics_put_pixel`. -/
structure Pixel where
  x : UInt32
  y : UInt32
  rgbColor : UInt32
  deriving DecidableEq, Repr

/-- The locals of `graphics_draw_line` that its loop only reads. -/
structure Line where
  sx : ℤ
  sy : ℤ
  dx : ℤ
  dy : ℤ
  x1 : ℤ
  y1 : ℤ
  rgbColor : UInt32
  deriving DecidableEq, Repr

/-- The locals that the loop changes. -/
structure Pen where
  err : ℤ
  x : ℤ
  y : ℤ
  deriving DecidableEq, Repr

def absI32 (value : ℤ) : Option ℤ :=
  if value < 0 then int32 (-value) else some value

/-- The call of `graphics_put_pixel` at the head of the loop. -/
def putPixel (l : Line) (p : Pen) : List Pixel :=
  if 0 ≤ p.x ∧ 0 ≤ p.y then [⟨UInt32.ofNat p.x.toNat, UInt32.ofNat p.y.toNat, l.rgbColor⟩] else []

def lineStepX (l : Line) (p : Pen) : Option Pen := do
  let e2 ← int32 (p.err * 2)
  if e2 ≥ l.dy then
    let err ← int32 (p.err + l.dy)
    let x ← int32 (p.x + l.sx)
    return { p with err, x }
  else return p

def lineStepY (l : Line) (p : Pen) : Option Pen := do
  let e2 ← int32 (p.err * 2)
  if e2 ≤ l.dx then
    let err ← int32 (p.err + l.dx)
    let y ← int32 (p.y + l.sy)
    return { p with err, y }
  else return p

/-- The loop, with fuel. The result is `none` if the fuel runs out or an addition overflows. -/
def drawLineLoop (l : Line) : ℕ → Pen → Option (List Pixel)
  | 0, _ => none
  | fuel + 1, p =>
    if p.x = l.x1 ∧ p.y = l.y1 then some (putPixel l p)
    else do
      let p' ← lineStepX l p
      let p' ← lineStepY l p'
      let rest ← drawLineLoop l fuel p'
      return putPixel l p ++ rest

def graphicsDrawLine (fuel : ℕ) (x0 y0 x1 y1 rgbColor : UInt32) : Option (List Pixel) := do
  let sx : ℤ := if x0 < x1 then 1 else -1
  let sy : ℤ := if y0 < y1 then 1 else -1
  let dx ← absI32 (← int32 (asInt32 x1 - asInt32 x0))
  let dy ← absI32 (← int32 (asInt32 y1 - asInt32 y0))
  let err ← int32 (dx + -dy)
  drawLineLoop ⟨sx, sy, dx, -dy, asInt32 x1, asInt32 y1, rgbColor⟩ fuel ⟨err, asInt32 x0, asInt32 y0⟩

/-- The distance of two coordinates. -/
def distance (a b : UInt32) : ℕ := (Int.natAbs (b.toNat - a.toNat))

/-- Two pixels that touch, be it at a corner. -/
def Adjacent (p q : Pixel) : Prop := distance p.x q.x ≤ 1 ∧ distance p.y q.y ≤ 1

/-- The line is drawn: the loop ends, at the end point, after as many pixels as the longer side has,
each next to the one before. -/
def DrawsLine (x0 y0 x1 y1 rgbColor : UInt32) : Prop :=
  ∃ fuel pixels, graphicsDrawLine fuel x0 y0 x1 y1 rgbColor = some pixels ∧
    pixels.getLast? = some ⟨x1, y1, rgbColor⟩ ∧
    pixels.length = max (distance x0 x1) (distance y0 y1) + 1 ∧
    pixels.IsChain Adjacent

/-! ### The loop follows the walk -/

lemma int32_of_abs (h : |n| < 2 ^ 31) : int32 n = some n := by
  rw [abs_lt] at h
  exact if_pos ⟨h.1.le, h.2⟩

lemma int32_eq_some {m : ℤ} (h : int32 n = some m) : m = n := by
  rw [int32] at h
  split_ifs at h
  exact (some.inj h).symm

/-- What `graphics_draw_line` computes of a line from `(x0, y0)` that is `D` wide and `E` high. -/
structure LineFrom (l : Line) (x0 y0 : ℤ) (D E : ℕ) : Prop where
  sx : l.sx = 1 ∨ l.sx = -1
  sy : l.sy = 1 ∨ l.sy = -1
  dx : l.dx = D
  dy : l.dy = -E
  x1 : l.x1 = x0 + l.sx * D
  y1 : l.y1 = y0 + l.sy * E

/-- The pen after `p.1` steps along the first axis and `p.2` along the second. -/
def penAt (l : Line) (x0 y0 : ℤ) (D E : ℕ) (p : ℕ × ℕ) : Pen :=
  ⟨error D E p, x0 + l.sx * p.1, y0 + l.sy * p.2⟩

section

variable {l : Line} {x0 y0 : ℤ} {D E : ℕ} {p : ℕ × ℕ}

lemma int32_half (h : |2 * n| < 2 ^ 31) : int32 n = some n := by
  refine int32_of_abs ?_
  rw [abs_lt] at *
  omega

/-- What both tests of a pass do, to the error and to the coordinate `c`. -/
def stepOf (test : ℤ → Prop) [DecidablePred test] (err d c sign : ℤ) (moved : ℤ → ℤ → Pen)
    (p : Pen) : Option Pen := do
  let e2 ← int32 (err * 2)
  if test e2 then
    let err ← int32 (err + d)
    let c ← int32 (c + sign)
    return moved err c
  else return p

/-- Whenever a step is defined, it leads to `next`. It is defined if the errors and the coordinate
it may move to are small. -/
lemma stepOf_spec {test : ℤ → Prop} [DecidablePred test] {err d c sign err' c' : ℤ}
    {moved : ℤ → ℤ → Pen} {p next : Pen}
    (hmove : test (err * 2) → err + d = err' ∧ c + sign = c' ∧ moved err' c' = next)
    (hstay : ¬ test (err * 2) → p = next) :
    (∀ s, stepOf test err d c sign moved p = some s → s = next) ∧
      (|2 * err| < 2 ^ 31 → |2 * err'| < 2 ^ 31 → |c'| < 2 ^ 31 →
        stepOf test err d c sign moved p = some next) := by
  by_cases htest : test (err * 2)
  · obtain ⟨rfl, rfl, rfl⟩ := hmove htest
    refine ⟨fun s h => ?_, fun herr herr' hc => ?_⟩
    · obtain ⟨e2, he2, h⟩ := bind_eq_some_iff.mp h
      obtain rfl := int32_eq_some he2
      rw [if_pos htest] at h
      obtain ⟨e, he, h⟩ := bind_eq_some_iff.mp h
      obtain ⟨x, hx, h⟩ := bind_eq_some_iff.mp h
      rw [← int32_eq_some he, ← int32_eq_some hx]
      exact (some.inj h).symm
    · rw [mul_comm] at herr
      simp [stepOf, int32_of_abs herr, if_pos htest, int32_half herr', int32_of_abs hc]
  · obtain rfl := hstay htest
    refine ⟨fun s h => ?_, fun herr _ _ => ?_⟩
    · obtain ⟨e2, he2, h⟩ := bind_eq_some_iff.mp h
      obtain rfl := int32_eq_some he2
      rw [if_neg htest] at h
      exact (some.inj h).symm
    · rw [mul_comm] at herr
      simp [stepOf, int32_of_abs herr, if_neg htest]

section

variable (hl : LineFrom l x0 y0 D E)
include hl

lemma lineStepX_spec :
    (∀ s, lineStepX l (penAt l x0 y0 D E p) = some s → s = penAt l x0 y0 D E (stepX D E p)) ∧
      (|2 * error D E p| < 2 ^ 31 → |2 * error D E (stepX D E p)| < 2 ^ 31 →
        |x0 + l.sx * (stepX D E p).1| < 2 ^ 31 →
        lineStepX l (penAt l x0 y0 D E p) = some (penAt l x0 y0 D E (stepX D E p))) := by
  obtain ⟨i, j⟩ := p
  refine stepOf_spec (fun htest => ?_) (fun htest => ?_)
  all_goals
    rw [hl.dy, penAt, mul_comm] at htest
    rcases stepX_cases D E i j with ⟨hmove, hstep⟩ | ⟨hstay, hstep⟩
  · rw [hstep]
    refine ⟨?_, ?_, rfl⟩
    · rw [hl.dy, error_right]
      rfl
    · simp only [penAt]
      push_cast
      ring
  · exact absurd htest (not_le.mpr hstay)
  · exact absurd hmove htest
  · rw [hstep]

lemma lineStepY_spec :
    (∀ s, lineStepY l (penAt l x0 y0 D E p) = some s → s = penAt l x0 y0 D E (stepY D E p)) ∧
      (|2 * error D E p| < 2 ^ 31 → |2 * error D E (stepY D E p)| < 2 ^ 31 →
        |y0 + l.sy * (stepY D E p).2| < 2 ^ 31 →
        lineStepY l (penAt l x0 y0 D E p) = some (penAt l x0 y0 D E (stepY D E p))) := by
  obtain ⟨i, j⟩ := p
  refine stepOf_spec (fun htest => ?_) (fun htest => ?_)
  all_goals
    rw [hl.dx, penAt, mul_comm] at htest
    rcases stepY_cases D E i j with ⟨hmove, hstep⟩ | ⟨hstay, hstep⟩
  · rw [hstep]
    refine ⟨?_, ?_, rfl⟩
    · rw [hl.dx, error_up]
      rfl
    · simp only [penAt]
      push_cast
      ring
  · exact absurd htest (not_le.mpr hstay)
  · exact absurd hmove htest
  · rw [hstep]

/-- The end of the line. -/
lemma penAt_end_iff :
    (penAt l x0 y0 D E p).x = l.x1 ∧ (penAt l x0 y0 D E p).y = l.y1 ↔ p = (D, E) := by
  obtain ⟨i, j⟩ := p
  have hx : x0 + l.sx * i = x0 + l.sx * D ↔ i = D := by rcases hl.sx with h | h <;> rw [h] <;> omega
  have hy : y0 + l.sy * j = y0 + l.sy * E ↔ j = E := by rcases hl.sy with h | h <;> rw [h] <;> omega
  rw [hl.x1, hl.y1, Prod.mk.injEq]
  exact and_congr hx hy

/-- A walk that misses the end draws on until a coordinate overflows. -/
lemma drawLineLoop_of_misses (hmiss : ∀ n, walk D E n ≠ (D, E)) (fuel n : ℕ) :
    drawLineLoop l fuel (penAt l x0 y0 D E (walk D E n)) = none := by
  induction fuel generalizing n with
  | zero => rfl
  | succ fuel ih =>
    rw [drawLineLoop, if_neg (mt (penAt_end_iff hl).mp (hmiss n))]
    simp only [bind_eq_bind, bind_eq_none_iff]
    intro s hs t ht rest hrest
    obtain rfl := (lineStepX_spec hl).1 _ hs
    obtain rfl := (lineStepY_spec hl).1 _ ht
    have hnext : drawLineLoop l fuel (penAt l x0 y0 D E (stepY D E (stepX D E (walk D E n)))) =
        none := ih (n + 1)
    rw [hnext] at hrest
    cases hrest

end

/-! ### Lines that are drawn -/

lemma coordinate_bounds {s : ℤ} (hs : s = 1 ∨ s = -1) (ha : 0 ≤ a ∧ a < 2 ^ 29)
    (hb : 0 ≤ a + s * D ∧ a + s * D < 2 ^ 29) (hi : i ≤ D) :
    0 ≤ a + s * i ∧ a + s * i < 2 ^ 29 := by
  rcases hs with rfl | rfl <;> omega

/-- Both ends of the line are in the square of coordinates below `2 ^ 29`. -/
structure InSquare (l : Line) (x0 y0 : ℤ) : Prop where
  x0 : 0 ≤ x0 ∧ x0 < 2 ^ 29
  y0 : 0 ≤ y0 ∧ y0 < 2 ^ 29
  x1 : 0 ≤ l.x1 ∧ l.x1 < 2 ^ 29
  y1 : 0 ≤ l.y1 ∧ l.y1 < 2 ^ 29

/-- Every point of the walk up to the end is in the square. -/
lemma InSquare.penAt (hin : InSquare l x0 y0) (hl : LineFrom l x0 y0 D E) (hi : p.1 ≤ D)
    (hj : p.2 ≤ E) : (0 ≤ x0 + l.sx * p.1 ∧ x0 + l.sx * p.1 < 2 ^ 29) ∧
      (0 ≤ y0 + l.sy * p.2 ∧ y0 + l.sy * p.2 < 2 ^ 29) :=
  ⟨coordinate_bounds hl.sx hin.x0 (hl.x1 ▸ hin.x1) hi,
    coordinate_bounds hl.sy hin.y0 (hl.y1 ▸ hin.y1) hj⟩

lemma InSquare.extent_lt (hin : InSquare l x0 y0) (hl : LineFrom l x0 y0 D E) :
    3 * max (D : ℤ) E < 2 ^ 31 := by
  have hx0 := hin.x0
  have hy0 := hin.y0
  have hx1 := hin.x1
  have hy1 := hin.y1
  rw [hl.x1] at hx1
  rw [hl.y1] at hy1
  have hD : (D : ℤ) < 2 ^ 29 := by rcases hl.sx with h | h <;> rw [h] at hx1 <;> omega
  have hE : (E : ℤ) < 2 ^ 29 := by rcases hl.sy with h | h <;> rw [h] at hy1 <;> omega
  omega

/-- A pass of the loop before the end is a pass of the walk, and nothing overflows. -/
lemma lineStep_walk (hl : LineFrom l x0 y0 D E) (hin : InSquare l x0 y0) {n : ℕ}
    (hx : (walk D E (n + 1)).1 ≤ D) (hy : (walk D E (n + 1)).2 ≤ E) :
    lineStepX l (penAt l x0 y0 D E (walk D E n)) =
        some (penAt l x0 y0 D E (stepX D E (walk D E n))) ∧
      lineStepY l (penAt l x0 y0 D E (stepX D E (walk D E n))) =
        some (penAt l x0 y0 D E (walk D E (n + 1))) := by
  have hsmall := hin.extent_lt hl
  obtain ⟨herr, herr'⟩ := abs_error_walk D E n
  obtain ⟨hnext, -⟩ := abs_error_walk D E (n + 1)
  obtain ⟨hbx, hby⟩ := hin.penAt hl hx hy
  have hsame : (stepX D E (walk D E n)).1 = (walk D E (n + 1)).1 := by
    rw [walk, LineWalk.pass]
    generalize stepX D E (walk D E n) = q
    obtain ⟨i, j⟩ := q
    rcases stepY_cases D E i j with ⟨-, h⟩ | ⟨-, h⟩ <;> rw [h]
  refine ⟨(lineStepX_spec hl).2 (by omega) (by omega) ?_, (lineStepY_spec hl).2 (by omega) ?_ ?_⟩
  · rw [hsame, abs_lt]
    omega
  · exact lt_of_le_of_lt hnext hsmall
  · rw [abs_lt]
    change _ < y0 + l.sy * (walk D E (n + 1)).2 ∧ y0 + l.sy * (walk D E (n + 1)).2 < _
    omega

def pixelAt (l : Line) (x0 y0 : ℤ) (p : ℕ × ℕ) : Pixel :=
  ⟨UInt32.ofNat (x0 + l.sx * p.1).toNat, UInt32.ofNat (y0 + l.sy * p.2).toNat, l.rgbColor⟩

lemma putPixel_penAt (hin : InSquare l x0 y0) (hl : LineFrom l x0 y0 D E) (hi : p.1 ≤ D)
    (hj : p.2 ≤ E) : putPixel l (penAt l x0 y0 D E p) = [pixelAt l x0 y0 p] := by
  obtain ⟨hx, hy⟩ := hin.penAt hl hi hj
  exact if_pos ⟨hx.1, hy.1⟩

lemma distance_ofNat {b : ℤ} (ha : 0 ≤ a ∧ a < 2 ^ 29) (hb : 0 ≤ b ∧ b < 2 ^ 29) :
    distance (UInt32.ofNat a.toNat) (UInt32.ofNat b.toNat) = (b - a).natAbs := by
  rw [distance, UInt32.toNat_ofNat', UInt32.toNat_ofNat']
  omega

lemma distance_step {s : ℤ} {j : ℕ} (hs : s = 1 ∨ s = -1) (hi : 0 ≤ a + s * i ∧ a + s * i < 2 ^ 29)
    (hj : 0 ≤ a + s * j ∧ a + s * j < 2 ^ 29) (hle : i ≤ j) (hstep : j ≤ i + 1) :
    distance (UInt32.ofNat (a + s * i).toNat) (UInt32.ofNat (a + s * j).toNat) ≤ 1 := by
  rw [distance_ofNat hi hj]
  rcases hs with rfl | rfl <;> omega

lemma adjacent_pass (hl : LineFrom l x0 y0 D E) (hin : InSquare l x0 y0) (hx : (pass D E p).1 ≤ D)
    (hy : (pass D E p).2 ≤ E) : Adjacent (pixelAt l x0 y0 p) (pixelAt l x0 y0 (pass D E p)) := by
  obtain ⟨⟨hi, hi'⟩, hj, hj'⟩ := pass_bounds D E p
  obtain ⟨hbx, hby⟩ := hin.penAt hl (hi.trans hx) (hj.trans hy)
  obtain ⟨hbx', hby'⟩ := hin.penAt hl hx hy
  exact ⟨distance_step hl.sx hbx hbx' hi hi', distance_step hl.sy hby hby' hj hj'⟩

/-- A walk that hits the end draws one pixel for each pass, and one at the end. -/
lemma drawLineLoop_of_hits (hl : LineFrom l x0 y0 D E) (hin : InSquare l x0 y0)
    (hhit : walk D E (max D E) = (D, E)) (k n : ℕ) (hn : n + k = max D E) :
    ∃ pixels, drawLineLoop l (k + 1) (penAt l x0 y0 D E (walk D E n)) = some pixels ∧
      pixels.head? = some (pixelAt l x0 y0 (walk D E n)) ∧
      pixels.getLast? = some (pixelAt l x0 y0 (D, E)) ∧ pixels.length = k + 1 ∧
      pixels.IsChain Adjacent := by
  have hwithin : ∀ m ≤ max D E, (walk D E m).1 ≤ D ∧ (walk D E m).2 ≤ E := by
    intro m hm
    have := walk_mono (D := D) (E := E) hm
    rwa [hhit] at this
  induction k generalizing n with
  | zero =>
    obtain rfl : n = max D E := hn
    rw [drawLineLoop, if_pos ((penAt_end_iff hl).mpr hhit), hhit,
      putPixel_penAt hin hl le_rfl le_rfl]
    exact ⟨_, rfl, rfl, rfl, rfl, List.isChain_singleton _⟩
  | succ k ih =>
    obtain ⟨rest, hrest, hhead, hlast, hlength, hchain⟩ := ih (n + 1) (by omega)
    have hhere := hwithin n (by omega)
    have hnext := hwithin (n + 1) (by omega)
    obtain ⟨hX, hY⟩ := lineStep_walk hl hin hnext.1 hnext.2
    refine ⟨pixelAt l x0 y0 (walk D E n) :: rest, ?_, rfl, ?_, by rw [List.length_cons, hlength], ?_⟩
    · rw [drawLineLoop, if_neg (mt (penAt_end_iff hl).mp (walk_ne_of_lt (by omega))), hX]
      simp only [bind_eq_bind, bind_some, hY, hrest, putPixel_penAt hin hl hhere.1 hhere.2]
      rfl
    · rw [List.getLast?_cons, hlast]
      rfl
    · refine List.isChain_cons.mpr ⟨fun q hq => ?_, hchain⟩
      rw [hhead] at hq
      obtain rfl := some.inj hq
      exact adjacent_pass hl hin hnext.1 hnext.2

end

/-! ### The call -/

lemma asInt32_of_lt {n : UInt32} (h : n.toNat < 2 ^ 29) : asInt32 n = n.toNat := by
  rw [asInt32, BitVec.toInt_eq_toNat_cond, if_pos]
  · rfl
  · change 2 * n.toNat < 2 ^ 32
    omega

/-- The locals of a call for the line between these points. -/
def lineBetween (x0 y0 x1 y1 rgbColor : UInt32) : Line :=
  ⟨if x0 < x1 then 1 else -1, if y0 < y1 then 1 else -1, distance x0 x1, -distance y0 y1, x1.toNat,
    y1.toNat, rgbColor⟩

/-- The sign of a coordinate and the distance lead to the other end. -/
lemma add_sign_mul_distance (a b : UInt32) :
    (b.toNat : ℤ) = a.toNat + (if a < b then 1 else -1) * distance a b := by
  simp only [UInt32.lt_iff_toNat_lt, distance]
  split_ifs <;> omega

lemma lineFrom_lineBetween (x0 y0 x1 y1 rgbColor : UInt32) :
    LineFrom (lineBetween x0 y0 x1 y1 rgbColor) x0.toNat y0.toNat (distance x0 x1)
      (distance y0 y1) where
  sx := ite_eq_or_eq _ _ _
  sy := ite_eq_or_eq _ _ _
  dx := rfl
  dy := rfl
  x1 := add_sign_mul_distance x0 x1
  y1 := add_sign_mul_distance y0 y1

lemma absI32_distance {a b : UInt32} (ha : a.toNat < 2 ^ 29) (hb : b.toNat < 2 ^ 29) :
    ((int32 (asInt32 b - asInt32 a)).bind absI32) = some (distance a b : ℤ) := by
  rw [asInt32_of_lt ha, asInt32_of_lt hb, int32_of_abs (by rw [abs_lt]; omega), bind_some, absI32]
  split_ifs with hneg
  · rw [int32_of_abs (by rw [abs_lt]; omega), distance]
    exact congrArg some (by omega)
  · rw [distance]
    exact congrArg some (by omega)

section

variable {x0 y0 x1 y1 : UInt32}

lemma drawLine_eq (fuel : ℕ) (rgbColor : UInt32) (hx0 : x0.toNat < 2 ^ 29)
    (hy0 : y0.toNat < 2 ^ 29) (hx1 : x1.toNat < 2 ^ 29) (hy1 : y1.toNat < 2 ^ 29) :
    graphicsDrawLine fuel x0 y0 x1 y1 rgbColor =
      drawLineLoop (lineBetween x0 y0 x1 y1 rgbColor) fuel
        (penAt (lineBetween x0 y0 x1 y1 rgbColor) x0.toNat y0.toNat (distance x0 x1)
          (distance y0 y1) (walk (distance x0 x1) (distance y0 y1) 0)) := by
  have herr : int32 ((distance x0 x1 : ℤ) + -distance y0 y1) =
      some ((distance x0 x1 : ℤ) + -distance y0 y1) := by
    refine int32_of_abs ?_
    rw [abs_lt, distance, distance]
    omega
  have hpen : (⟨(distance x0 x1 : ℤ) + -distance y0 y1, asInt32 x0, asInt32 y0⟩ : Pen) =
      penAt (lineBetween x0 y0 x1 y1 rgbColor) x0.toNat y0.toNat (distance x0 x1)
        (distance y0 y1) (walk (distance x0 x1) (distance y0 y1) 0) := by
    simp only [penAt, walk, error, asInt32_of_lt hx0, asInt32_of_lt hy0, Pen.mk.injEq]
    refine ⟨by push_cast; ring, by simp, by simp⟩
  obtain ⟨dx, hdx, hdx'⟩ := bind_eq_some_iff.mp (absI32_distance hx0 hx1)
  obtain ⟨dy, hdy, hdy'⟩ := bind_eq_some_iff.mp (absI32_distance hy0 hy1)
  simp only [graphicsDrawLine, bind_eq_bind, hdx, hdx', hdy, hdy', herr, bind_some, hpen]
  rw [asInt32_of_lt hx1, asInt32_of_lt hy1]
  rfl

/-- Between the slopes the loop never ends. -/
lemma drawLine_eq_none (rgbColor : UInt32) (hx0 : x0.toNat < 2 ^ 29)
    (hy0 : y0.toNat < 2 ^ 29) (hx1 : x1.toNat < 2 ^ 29) (hy1 : y1.toNat < 2 ^ 29)
    (hflat : distance y0 y1 < distance x0 x1) (hsteep : distance x0 x1 ≤ 2 * distance y0 y1)
    (fuel : ℕ) : graphicsDrawLine fuel x0 y0 x1 y1 rgbColor = none := by
  rw [drawLine_eq fuel rgbColor hx0 hy0 hx1 hy1]
  exact drawLineLoop_of_misses (lineFrom_lineBetween x0 y0 x1 y1 rgbColor)
    (walk_misses hflat hsteep) fuel 0

end

/-- For coordinates below `2 ^ 29` the line is drawn exactly on these slopes. -/
theorem drawsLine_iff {x0 y0 x1 y1 : UInt32} (rgbColor : UInt32) (hx0 : x0.toNat < 2 ^ 29)
    (hy0 : y0.toNat < 2 ^ 29) (hx1 : x1.toNat < 2 ^ 29) (hy1 : y1.toNat < 2 ^ 29) :
    DrawsLine x0 y0 x1 y1 rgbColor ↔
      distance x0 x1 ≤ distance y0 y1 ∨ 2 * distance y0 y1 < distance x0 x1 := by
  constructor
  · rintro ⟨fuel, pixels, hdrawn, -⟩
    by_contra hslope
    obtain ⟨hflat, hsteep⟩ := not_or.mp hslope
    rw [drawLine_eq_none rgbColor hx0 hy0 hx1 hy1 (not_le.mp hflat)
      (not_lt.mp hsteep)] at hdrawn
    cases hdrawn
  intro hslope
  have hin : InSquare (lineBetween x0 y0 x1 y1 rgbColor) x0.toNat y0.toNat :=
    ⟨⟨Int.natCast_nonneg _, Int.ofNat_lt.mpr hx0⟩, ⟨Int.natCast_nonneg _, Int.ofNat_lt.mpr hy0⟩,
      ⟨Int.natCast_nonneg _, Int.ofNat_lt.mpr hx1⟩, ⟨Int.natCast_nonneg _, Int.ofNat_lt.mpr hy1⟩⟩
  have hline := lineFrom_lineBetween x0 y0 x1 y1 rgbColor
  obtain ⟨pixels, hdrawn, -, hlast, hlength, hchain⟩ :=
    drawLineLoop_of_hits hline hin (walk_hits hslope) (max (distance x0 x1) (distance y0 y1)) 0
      (Nat.zero_add _)
  refine ⟨_, pixels, (drawLine_eq _ rgbColor hx0 hy0 hx1 hy1).trans hdrawn, ?_, hlength,
    hchain⟩
  rw [hlast, pixelAt, ← hline.x1, ← hline.y1]
  simp [lineBetween]

theorem drawsLine_iff_flat :
    DrawsLine 0 0 5 2 0xFFFFFF ∧ DrawsLine 7 9 4 1 0xFFFFFF :=
  ⟨(drawsLine_iff 0xFFFFFF (by decide) (by decide) (by decide) (by decide)).mpr (by decide),
    (drawsLine_iff 0xFFFFFF (by decide) (by decide) (by decide) (by decide)).mpr (by decide)⟩

/-- From `(0, 0)` to `(2, 1)` the pen is at `(1, 1)`, then at `(2, 2)`, and never comes back. -/
theorem line_two_one_never_ends :
    (∀ fuel, graphicsDrawLine fuel 0 0 2 1 0xFFFFFF = none) ∧ ¬ DrawsLine 0 0 2 1 0xFFFFFF := by
  have hnone : ∀ fuel, graphicsDrawLine fuel 0 0 2 1 0xFFFFFF = none :=
    drawLine_eq_none 0xFFFFFF (by decide) (by decide) (by decide) (by decide) (by decide)
      (by decide)
  refine ⟨hnone, ?_⟩
  rintro ⟨fuel, pixels, hdrawn, -⟩
  rw [hnone] at hdrawn
  cases hdrawn

end Graphics
