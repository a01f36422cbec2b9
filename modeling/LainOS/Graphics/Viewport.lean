import Mathlib.Data.Fin.Basic

/-!
# Viewports

Drawing code pushes the rectangle it draws into and pops it when it is done. The stack has four
places. A push onto a full stack does nothing, but the pop that belongs to it takes a viewport off.
-/

namespace Graphics

/-- `GRAPHICS_VIEWPORT_STACK_MAX` -/
def viewportStackMax : ℕ := 4

/-- A rectangle of the screen. -/
structure Viewport where
  x : UInt32
  y : UInt32
  width : UInt32
  height : UInt32
deriving DecidableEq

/-- `graphics_viewport_stack` and `graphics_viewport_depth` -/
structure Viewports where
  stack : Fin viewportStackMax → Viewport
  depth : ℕ
  depth_le : depth ≤ viewportStackMax

/-- A side that leaves the framebuffer, or wraps around, ends with it. -/
def clipSide (start size whole : UInt32) : UInt32 :=
  if start + size < start ∨ whole < start + size then whole - start else size

/-- `fb` is the size of the framebuffer. -/
def graphicsViewportPush (fb : UInt32 × UInt32) (s : Viewports) (r : Viewport) : Viewports :=
  if h : s.depth < viewportStackMax then
    let v : Viewport := if fb.1 ≤ r.x ∨ fb.2 ≤ r.y then { r with width := 0, height := 0 }
      else { r with
        width := clipSide r.x r.width fb.1
        height := clipSide r.y r.height fb.2 }
    ⟨Function.update s.stack ⟨s.depth, h⟩ v, s.depth + 1, h⟩
  else s

def graphicsViewportPop (s : Viewports) : Viewports :=
  { s with depth := s.depth - 1, depth_le := (Nat.sub_le _ _).trans s.depth_le }

section

variable (fb : UInt32 × UInt32) (s : Viewports)

/-- A field of the viewport on top, or what holds without one. -/
def atTop (field : Viewport → UInt32) (whole : UInt32) : UInt32 :=
  if h : 0 < s.depth then field (s.stack ⟨s.depth - 1, by have := s.depth_le; omega⟩) else whole

def graphicsWidth : UInt32 := atTop s (·.width) fb.1

def graphicsHeight : UInt32 := atTop s (·.height) fb.2

def graphicsViewportX : UInt32 := atTop s (·.x) 0

def graphicsViewportY : UInt32 := atTop s (·.y) 0

def graphicsViewportActive : Bool := 0 < s.depth

/-- Whether a viewport is active, and where drawing code draws. -/
def activeViewport : Bool × Viewport :=
  (graphicsViewportActive s,
    ⟨graphicsViewportX s, graphicsViewportY s, graphicsWidth fb s, graphicsHeight fb s⟩)

end

/-! ### Balanced calls -/

/-- A balanced sequence of calls: none, or a push, the calls nested in it, its pop and the rest. -/
inductive Balanced where
  | nil
  | nest (r : Viewport) (inner rest : Balanced)

namespace Balanced

def run (fb : UInt32 × UInt32) : Balanced → Viewports → Viewports
  | nil, s => s
  | nest r inner rest, s =>
    rest.run fb (graphicsViewportPop (inner.run fb (graphicsViewportPush fb s r)))

/-- How deep the pushes are nested. -/
def depth : Balanced → ℕ
  | nil => 0
  | nest _ inner rest => max (inner.depth + 1) rest.depth

end Balanced

variable {fb : UInt32 × UInt32} {s s' : Viewports} {r : Viewport}

lemma push_depth : (graphicsViewportPush fb s r).depth = min (s.depth + 1) viewportStackMax := by
  have hle := s.depth_le
  rw [graphicsViewportPush]
  by_cases hroom : s.depth < viewportStackMax
  · simp only [dif_pos hroom]
    omega
  · rw [dif_neg hroom]
    omega

lemma push_stack {i : Fin viewportStackMax} (h : i < s.depth) :
    (graphicsViewportPush fb s r).stack i = s.stack i := by
  rw [graphicsViewportPush]
  by_cases hroom : s.depth < viewportStackMax
  · have hne : i ≠ ⟨s.depth, hroom⟩ := by
      rintro rfl
      exact lt_irrefl _ h
    simp only [dif_pos hroom, Function.update_of_ne hne]
  · rw [dif_neg hroom]

/-- Calls nested `n` deep leave at most `4 - n` viewports, and those they leave are unchanged. -/
lemma Balanced.run_spec (fb : UInt32 × UInt32) (b : Balanced) (s : Viewports) :
    (b.run fb s).depth = min s.depth (viewportStackMax - b.depth) ∧
      ∀ i : Fin viewportStackMax, i < (b.run fb s).depth → (b.run fb s).stack i = s.stack i := by
  induction b generalizing s with
  | nil => exact ⟨(min_eq_left s.depth_le).symm, fun _ _ => rfl⟩
  | nest r inner rest ihInner ihRest =>
    obtain ⟨hinner, hbelow⟩ := ihInner (graphicsViewportPush fb s r)
    obtain ⟨hrest, hkept⟩ := ihRest (graphicsViewportPop (inner.run fb (graphicsViewportPush fb s r)))
    have hpop : (graphicsViewportPop (inner.run fb (graphicsViewportPush fb s r))).depth =
        (inner.run fb (graphicsViewportPush fb s r)).depth - 1 := rfl
    rw [push_depth] at hinner
    rw [hpop] at hrest
    simp only [run, depth]
    refine ⟨by omega, fun i hi => ?_⟩
    rw [hkept i hi]
    exact (hbelow i (by omega)).trans (push_stack (by omega))

lemma activeViewport_of_top {i : Fin viewportStackMax} (h : i + 1 = s.depth) :
    activeViewport fb s = (true, s.stack i) := by
  have hpos : 0 < s.depth := by omega
  have htop : (⟨s.depth - 1, by omega⟩ : Fin viewportStackMax) = i :=
    Fin.ext (Nat.sub_eq_of_eq_add h.symm)
  simp only [activeViewport, graphicsViewportActive, graphicsViewportX, graphicsViewportY,
    graphicsWidth, graphicsHeight, atTop, dif_pos hpos, decide_eq_true hpos, htop]

/-- Where a viewport is active, the one on top decides. -/
lemma activeViewport_eq_iff (hs : 0 < s.depth) : activeViewport fb s' = activeViewport fb s ↔
    ∃ i j : Fin viewportStackMax, i + 1 = s'.depth ∧ j + 1 = s.depth ∧ s'.stack i = s.stack j := by
  have hle := s.depth_le
  have hle' := s'.depth_le
  rcases Nat.eq_zero_or_pos s'.depth with h0 | hs'
  · simp [activeViewport, graphicsViewportActive, h0, hs]
  obtain ⟨i, hi⟩ : ∃ i : Fin viewportStackMax, i + 1 = s'.depth :=
    ⟨⟨s'.depth - 1, by omega⟩, Nat.sub_add_cancel hs'⟩
  obtain ⟨j, hj⟩ : ∃ j : Fin viewportStackMax, j + 1 = s.depth :=
    ⟨⟨s.depth - 1, by omega⟩, Nat.sub_add_cancel hs⟩
  constructor
  · intro h
    rw [activeViewport_of_top hi, activeViewport_of_top hj] at h
    exact ⟨i, j, hi, hj, congrArg Prod.snd h⟩
  · rintro ⟨i, j, hi, hj, h⟩
    rw [activeViewport_of_top hi, activeViewport_of_top hj, h]

/-- Balanced calls restore the active viewport on an empty stack, where every push finds room, and
where the viewport they leave on top equals the one that was there. -/
theorem balanced_activeViewport (fb : UInt32 × UInt32) (s : Viewports) (b : Balanced) :
    activeViewport fb (b.run fb s) = activeViewport fb s ↔
      s.depth = 0 ∨ s.depth + b.depth ≤ viewportStackMax ∨
        ∃ i j : Fin viewportStackMax, i + 1 + b.depth = viewportStackMax ∧ j + 1 = s.depth ∧
          s.stack i = s.stack j := by
  obtain ⟨hdepth, hstack⟩ := b.run_spec fb s
  have hle := s.depth_le
  rcases Nat.eq_zero_or_pos s.depth with h0 | hs
  · have h0' : (b.run fb s).depth = 0 := by omega
    simp [activeViewport, graphicsViewportActive, graphicsViewportX, graphicsViewportY,
      graphicsWidth, graphicsHeight, atTop, h0, h0']
  rw [activeViewport_eq_iff hs]
  constructor
  · rintro ⟨i, j, hi, hj, h⟩
    rw [hstack i (by omega)] at h
    by_cases hroom : s.depth + b.depth ≤ viewportStackMax
    · exact Or.inr (Or.inl hroom)
    · exact Or.inr (Or.inr ⟨i, j, by omega, hj, h⟩)
  · rintro (h0 | hroom | ⟨i, j, hi, hj, h⟩)
    · omega
    · refine ⟨⟨s.depth - 1, by omega⟩, ⟨s.depth - 1, by omega⟩, ?_, Nat.sub_add_cancel hs, ?_⟩
      · simp only
        omega
      · exact hstack _ (by simp only; omega)
    · by_cases hroom : s.depth + b.depth ≤ viewportStackMax
      · exact ⟨j, j, by omega, hj, hstack j (by omega)⟩
      · exact ⟨i, j, by omega, hj, (hstack i (by omega)).trans h⟩

/-- Four places, the first `n` of them in use. -/
def cascade (n : ℕ) (h : n ≤ viewportStackMax) : Viewports :=
  ⟨fun i => ⟨UInt32.ofNat i, 0, 64, 64⟩, n, h⟩

theorem balanced_activeViewport_cascade : (cascade 3 (by decide)).depth + 1 ≤ 4 ∧
    activeViewport (640, 480) ((Balanced.nest ⟨9, 9, 9, 9⟩ .nil .nil).run (640, 480)
      (cascade 3 (by decide))) = activeViewport (640, 480) (cascade 3 (by decide)) :=
  ⟨by decide, (balanced_activeViewport _ _ _).mpr (Or.inr (Or.inl (by decide)))⟩

/-- On a full stack a push and its pop leave one viewport less. -/
theorem full_stack_loses_viewport :
    activeViewport (640, 480) ((Balanced.nest ⟨9, 9, 9, 9⟩ .nil .nil).run (640, 480)
      (cascade 4 le_rfl)) ≠ activeViewport (640, 480) (cascade 4 le_rfl) := by
  decide

end Graphics
