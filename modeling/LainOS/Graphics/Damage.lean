import LainOS.Graphics.Viewport
import LainOS.Smp.Jobs

/-!
# Damage

The desktop notes up to 16 rectangles that it has drawn into, and copies them from the back buffer to
the screen, large ones in bands that it hands to the cores. No viewport is active, so that the screen
has the size of the framebuffer.
-/

namespace Graphics

open List Smp

/-- `DESKTOP_DAMAGE_MAX_RECTS` -/
def damageMaxRects : ℕ := 16

/-- Where a side ends; one that leaves the screen or wraps around ends with it. -/
def clipEnd (start size whole : UInt32) : UInt32 :=
  if start + size < start ∨ whole < start + size then whole else start + size

def desktopDamageRect (fb : UInt32 × UInt32) (rects : List Viewport) (r : Viewport) :
    List Viewport :=
  if r.width = 0 ∨ r.height = 0 ∨ fb.1 ≤ r.x ∨ fb.2 ≤ r.y then rects
  else
    let right := clipEnd r.x r.width fb.1
    let bottom := clipEnd r.y r.height fb.2
    if right ≤ r.x ∨ bottom ≤ r.y then rects
    else if ∃ old ∈ rects, old.x ≤ r.x ∧ old.y ≤ r.y ∧ right ≤ old.x + old.width ∧
        bottom ≤ old.y + old.height then rects
    else if damageMaxRects ≤ rects.length then [⟨0, 0, fb.1, fb.2⟩]
    else rects ++ [⟨r.x, r.y, right - r.x, bottom - r.y⟩]

/-- No side goes beyond the last number; one that wraps around ends there. -/
def desktopDamageIntersectsRect (rects : List Viewport) (r : Viewport) : Bool :=
  r.width = 0 ∨ r.height = 0 ∨ rects = [] ∨
    ∃ d ∈ rects, r.x < d.x + d.width ∧ d.x < clipEnd r.x r.width 0xffffffff ∧
      r.y < d.y + d.height ∧ d.y < clipEnd r.y r.height 0xffffffff

def desktopDamageIsFull (fb : UInt32 × UInt32) : List Viewport → Bool
  | [] => true
  | [d] => d.x = 0 ∧ d.y = 0 ∧ fb.1 ≤ d.width ∧ fb.2 ≤ d.height
  | _ => false

/-- The pixels of a buffer. -/
abbrev Pixels : Type := ℕ → UInt32

/-- The framebuffer and the active back buffer, and the number of cores that are online. -/
structure Screen where
  size : UInt32 × UInt32
  pitch : ℕ
  back : Pixels
  cores : ℕ

/-- `graphics_blit_job_t`; the buffers and the pitch are those of the screen. -/
structure BlitJob where
  x : ℕ
  y : ℕ
  width : ℕ
  height : ℕ
  deriving DecidableEq, Repr

/-- The work queue, whose jobs work on the framebuffer. Items of other callers hold no blit job. -/
abbrev BlitQueue : Type := JobQueue (Option BlitJob) Pixels

namespace Screen

variable (s : Screen)

/-- The row that begins at `start`, two columns at a time. -/
def blitRow (start width : ℕ) (fb : Pixels) (xx : ℕ) : Pixels :=
  let copy fb k := Function.update fb k (s.back k)
  if xx + 1 < width then
    blitRow start width (copy (copy fb (start + xx)) (start + xx + 1)) (xx + 2)
  else if xx < width then copy fb (start + xx)
  else fb
termination_by width - xx

def graphicsBlitJob (job : BlitJob) (fb : Pixels) : Pixels :=
  (range job.height).foldl
    (fun fb yy => s.blitRow ((job.y + yy) * s.pitch + job.x) job.width fb 0) fb

/-- What a core does for a work item; other callers' items leave the framebuffer alone. -/
def work : Option BlitJob → Pixels → Pixels
  | some job, fb => s.graphicsBlitJob job fb
  | none, fb => fb

def graphicsSmpWorkerCount (rows : ℕ) : ℕ :=
  if s.cores ≤ 1 ∨ rows ≤ 1 then 1 else min (min s.cores 8) rows

/-- The jobs of `n` workers from worker `i` on, who begins at row `y`. -/
def bands (x width base extra y i : ℕ) : ℕ → List BlitJob
  | 0 => []
  | n + 1 =>
    let rows := base + if i < extra then 1 else 0
    ⟨x, y, width, rows⟩ :: bands x width base extra (y + rows) (i + 1) n

/-- From one state of the work queue and the framebuffer to another. -/
def GraphicsBackbufferFlushRect (r : Viewport) (q q' : BlitQueue) : Prop :=
  if r.width = 0 ∨ r.height = 0 ∨ s.size.1 ≤ r.x ∨ s.size.2 ≤ r.y then q' = q
  else
    let width := (clipSide r.x r.width s.size.1).toNat
    let height := (clipSide r.y r.height s.size.2).toNat
    let workers := s.graphicsSmpWorkerCount height
    if 1 < workers ∧ 65536 ≤ width * height then
      JobQueue.RunJobs s.work s.cores
        ((bands r.x.toNat width (height / workers) (height % workers) r.y.toNat 0 workers).map some)
        q q'
    else
      q' = { q with memory := s.graphicsBlitJob ⟨r.x.toNat, r.y.toNat, width, height⟩ q.memory }

def DesktopFlushDamage (rects : List Viewport) (q q' : BlitQueue) : Prop :=
  if desktopDamageIsFull s.size rects then
    s.GraphicsBackbufferFlushRect ⟨0, 0, s.size.1, s.size.2⟩ q q'
  else InTurn s.GraphicsBackbufferFlushRect rects q q'

end Screen

/-! ### Coverage -/

namespace Viewport

/-- The pixel is in the rectangle, which may reach beyond the screen. -/
def Has (r : Viewport) (p : ℕ × ℕ) : Prop :=
  (r.x.toNat ≤ p.1 ∧ p.1 < r.x.toNat + r.width.toNat) ∧
    r.y.toNat ≤ p.2 ∧ p.2 < r.y.toNat + r.height.toNat

def Inside (fb : UInt32 × UInt32) (r : Viewport) : Prop :=
  r.x.toNat + r.width.toNat ≤ fb.1.toNat ∧ r.y.toNat + r.height.toNat ≤ fb.2.toNat

end Viewport

open Viewport

variable {fb : UInt32 × UInt32} {rects reqs : List Viewport} {r d : Viewport} {p : ℕ × ℕ}
  {start size whole : UInt32} {c : ℕ}

/-- What holds of the recorded rectangles after these requests. -/
structure Covered (fb : UInt32 × UInt32) (reqs rects : List Viewport) : Prop where
  inside : ∀ d ∈ rects, d.Inside fb
  has : ∀ p : ℕ × ℕ, p.1 < fb.1.toNat ∧ p.2 < fb.2.toNat → (∃ r ∈ reqs, r.Has p) →
    ∃ d ∈ rects, d.Has p

lemma clipEnd_le : (clipEnd start size whole).toNat ≤ whole.toNat := by
  grind [clipEnd, UInt32.lt_iff_toNat_lt]

lemma lt_clipEnd (hc : c < start.toNat + size.toNat) (hw : c < whole.toNat) :
    c < (clipEnd start size whole).toNat := by
  grind [clipEnd, UInt32.lt_iff_toNat_lt, UInt32.toNat_add, start.toNat_lt, size.toNat_lt]

lemma add_sub_clipEnd (h : ¬ clipEnd start size whole ≤ start) :
    start.toNat + (clipEnd start size whole - start).toNat = (clipEnd start size whole).toNat := by
  have hle := UInt32.le_of_lt (UInt32.not_le.mp h)
  rw [UInt32.toNat_sub_of_le _ _ hle, Nat.add_sub_cancel' (UInt32.le_iff_toNat_le.mp hle)]

lemma Covered.request (h : Covered fb reqs rects) (r : Viewport) :
    Covered fb (reqs ++ [r]) (desktopDamageRect fb rects r) := by
  have hend {p : ℕ × ℕ} (hon : p.1 < fb.1.toNat ∧ p.2 < fb.2.toNat) (hp : r.Has p) :=
    And.intro (lt_clipEnd hp.1.2 hon.1) (lt_clipEnd hp.2.2 hon.2)
  have hreqs (p : ℕ × ℕ) : (∃ q ∈ reqs ++ [r], q.Has p) → (∃ d ∈ reqs, d.Has p) ∨ r.Has p := by
    simp [or_and_right, exists_or]
  simp only [desktopDamageRect]
  split_ifs with hnone hempty hold _
  · refine ⟨h.inside, fun p hon hp => h.has p hon ((hreqs p hp).resolve_right fun hp => ?_)⟩
    simp only [Has, UInt32.le_iff_toNat_le, ← UInt32.toNat_inj, UInt32.toNat_zero] at hp hnone
    omega
  · refine ⟨h.inside, fun p hon hp => h.has p hon ((hreqs p hp).resolve_right fun hp => ?_)⟩
    have := hend hon hp
    simp only [Has, UInt32.le_iff_toNat_le] at hp hempty
    omega
  · refine ⟨h.inside, fun p hon hp => (hreqs p hp).elim (h.has p hon) fun hp => ?_⟩
    obtain ⟨d, hd, hold⟩ := hold
    refine ⟨d, hd, ?_⟩
    have := hend hon hp
    have hin := h.inside d hd
    simp only [Has, Inside, UInt32.le_iff_toNat_le, UInt32.toNat_add] at hp hin hold ⊢
    omega
  · exact ⟨by simp [Inside], fun p hon _ => ⟨_, mem_singleton_self _, by simp [Has, hon]⟩⟩
  · rw [not_or] at hempty
    have hright := add_sub_clipEnd hempty.1
    have hbottom := add_sub_clipEnd hempty.2
    refine ⟨?_, fun p hon hp => ?_⟩
    · rw [forall_mem_append, forall_mem_singleton]
      exact ⟨h.inside, hright.trans_le clipEnd_le, hbottom.trans_le clipEnd_le⟩
    · rcases hreqs p hp with hp | hp
      · obtain ⟨d, hd, hp⟩ := h.has p hon hp
        exact ⟨d, mem_append_left _ hd, hp⟩
      · refine ⟨_, mem_append_right _ (mem_singleton_self _), ?_⟩
        simp only [Has, hright, hbottom]
        exact ⟨⟨hp.1.1, (hend hon hp).1⟩, hp.2.1, (hend hon hp).2⟩

lemma covered_run (fb : UInt32 × UInt32) (reqs : List Viewport) :
    Covered fb reqs (reqs.foldl (desktopDamageRect fb) []) := by
  induction reqs using List.reverseRecOn with
  | nil => exact ⟨by simp, by simp⟩
  | append_singleton reqs r ih =>
    rw [foldl_append]
    exact ih.request r

lemma intersects_of_has (hin : d.Inside fb) (hd : d ∈ rects) (hp : d.Has p) (hr : r.Has p) :
    desktopDamageIntersectsRect rects r = true := by
  refine decide_eq_true (.inr (.inr (.inr ⟨d, hd, ?_⟩)))
  have := fb.1.toNat_lt
  have := fb.2.toNat_lt
  simp only [Has, Inside] at hin hp hr
  have hx : p.1 < (0xffffffff : UInt32).toNat := show _ < 2 ^ 32 - 1 by omega
  have hy : p.2 < (0xffffffff : UInt32).toNat := show _ < 2 ^ 32 - 1 by omega
  have := lt_clipEnd hr.1.2 hx
  have := lt_clipEnd hr.2.2 hy
  simp only [UInt32.lt_iff_toNat_lt, UInt32.toNat_add]
  omega

/-! ### The flush -/

/-- What no step undoes holds after the steps if one of them brings it about. -/
lemma foldl_of_hit {α β : Type*} {f : β → α → β} {P : β → Prop} {b : β} {l : List α}
    (hkeep : ∀ b a, P b → P (f b a)) (h : P b ∨ ∃ a ∈ l, ∀ b, P (f b a)) : P (l.foldl f b) := by
  induction l generalizing b with
  | nil => simpa using h
  | cons a l ih =>
    refine ih ?_
    rw [exists_mem_cons_iff] at h
    rcases h with h | h | h
    · exact .inl (hkeep b a h)
    · exact .inl (h b)
    · exact .inr h

lemma clipSide_eq (h : start.toNat + size.toNat ≤ whole.toNat) :
    clipSide start size whole = size := by
  have := whole.toNat_lt
  refine if_neg ?_
  simp only [UInt32.lt_iff_toNat_lt, UInt32.toNat_add]
  omega

namespace Screen

variable {s : Screen} {start width x k : ℕ} {front : Pixels}
  {q q' : BlitQueue}

/-- The buffer has the pixel of the back buffer. -/
def Shows (s : Screen) (k : ℕ) (front : Pixels) : Prop := front k = s.back k

lemma shows_blitRow (xx : ℕ) (h : s.Shows k front ∨ start + xx ≤ k ∧ k < start + width) :
    s.Shows k (s.blitRow start width front xx) := by
  fun_induction blitRow s start width front xx with
  | case1 front xx _ copy ih =>
    refine ih ?_
    grind [Shows, Function.update_apply]
  | case2 => grind [Shows, Function.update_apply]
  | case3 => grind

variable (p)

lemma shows_graphicsBlitJob {job : BlitJob} (h : s.Shows (p.2 * s.pitch + p.1) front ∨
      (job.x ≤ p.1 ∧ p.1 < job.x + job.width) ∧ job.y ≤ p.2 ∧ p.2 < job.y + job.height) :
    s.Shows (p.2 * s.pitch + p.1) (s.graphicsBlitJob job front) := by
  refine foldl_of_hit (fun _ _ h => shows_blitRow 0 (.inl h))
    (h.imp_right fun h => ⟨p.2 - job.y, mem_range.mpr (by omega), fun _ => ?_⟩)
  rw [Nat.add_sub_cancel' h.2.1]
  exact shows_blitRow 0 (.inr (by omega))

lemma shows_work (job : Option BlitJob) (front : Pixels) (h : s.Shows (p.2 * s.pitch + p.1) front) :
    s.Shows (p.2 * s.pitch + p.1) (s.work job front) := by
  cases job with
  | none => exact h
  | some job => exact shows_graphicsBlitJob p (.inl h)

/-- Every row is in one of the bands. -/
lemma exists_band {base extra y i n row : ℕ} (hy : y ≤ row)
    (hrow : row < y + n * base + (min (i + n) extra - min i extra)) :
    ∃ job ∈ bands x width base extra y i n,
      (job.x = x ∧ job.width = width) ∧ job.y ≤ row ∧ row < job.y + job.height := by
  induction n generalizing y i with
  | zero => omega
  | succ n ih =>
    rw [Nat.succ_mul] at hrow
    rw [bands, exists_mem_cons_iff]
    refine or_iff_not_imp_left.mpr fun h => ih ?_ ?_ <;> split_ifs at * <;> simp at h <;> omega

lemma shows_flushRect (hflush : s.GraphicsBackbufferFlushRect r q q')
    (h : s.Shows (p.2 * s.pitch + p.1) q.memory ∨ r.Inside s.size ∧ r.Has p) :
    s.Shows (p.2 * s.pitch + p.1) q'.memory := by
  simp only [GraphicsBackbufferFlushRect] at hflush
  split_ifs at hflush with hnone hsmp
  · rw [hflush]
    refine h.resolve_right fun h => ?_
    simp only [Has, Inside, UInt32.le_iff_toNat_le, ← UInt32.toNat_inj, UInt32.toNat_zero] at h hnone
    omega
  · refine hflush.of_hit (shows_work p) (h.imp_right fun h => ?_)
    obtain ⟨hin, hp⟩ := h
    rw [clipSide_eq hin.1, clipSide_eq hin.2] at *
    have hmod := Nat.mod_lt r.height.toNat (one_pos.trans hsmp.1)
    have hdiv := Nat.div_add_mod r.height.toNat (s.graphicsSmpWorkerCount r.height.toNat)
    obtain ⟨job, hjob, ⟨hx, hwidth⟩, hrow⟩ := exists_band (x := r.x.toNat) (i := 0) hp.2.1
      (hp.2.2.trans_eq (by
        rw [Nat.add_assoc, zero_add, min_eq_right hmod.le, Nat.zero_min, Nat.sub_zero, hdiv]))
    exact ⟨some job, mem_map_of_mem hjob,
      fun _ => shows_graphicsBlitJob p (.inr ⟨by rw [hx, hwidth]; exact hp.1, hrow⟩)⟩
  · rw [hflush]
    refine shows_graphicsBlitJob p (h.imp_right fun h => ?_)
    rw [clipSide_eq h.1.1, clipSide_eq h.1.2]
    exact h.2

lemma shows_desktopFlushDamage (hflush : s.DesktopFlushDamage rects q q') (hin : d.Inside s.size)
    (hd : d ∈ rects) (hp : d.Has p) : s.Shows (p.2 * s.pitch + p.1) q'.memory := by
  rw [DesktopFlushDamage] at hflush
  split_ifs at hflush
  · refine shows_flushRect p hflush (.inr ⟨by simp [Inside], ?_⟩)
    simp only [Has, Inside, UInt32.toNat_zero] at hp hin ⊢
    omega
  · exact hflush.of_hit (I := fun _ => True) (P := fun q => s.Shows (p.2 * s.pitch + p.1) q.memory)
      (fun _ _ _ _ _ => trivial) (fun _ _ _ hflush h => shows_flushRect p hflush (.inl h)) trivial
      (.inr ⟨d, hd, fun _ _ hflush _ => shows_flushRect p hflush (.inr ⟨hin, hp⟩)⟩)

omit p in
lemma exists_flushRect (s : Screen) (r : Viewport) (q : BlitQueue) :
    ∃ q', s.GraphicsBackbufferFlushRect r q q' := by
  simp only [GraphicsBackbufferFlushRect]
  split_ifs
  · exact ⟨q, rfl⟩
  · exact JobQueue.exists_runJobs ..
  · exact ⟨_, rfl⟩

omit p in
lemma exists_desktopFlushDamage (s : Screen) (rects : List Viewport) (q : BlitQueue) :
    ∃ q', s.DesktopFlushDamage rects q q' := by
  unfold DesktopFlushDamage
  split_ifs
  · exact exists_flushRect s _ q
  · exact (InTurn.exists_of_inv (I := fun _ => True) (fun r q _ => (exists_flushRect s r q).imp
      fun _ h => ⟨h, trivial⟩) rects trivial).imp fun _ h => h.1

/-- Two cores share the rows of a screen that is just large enough for them. -/
def twoCores : Screen := ⟨(256, 256), 256, fun k => .ofNat k, 2⟩

/-- Every slot is taken by an item of someone else but one. -/
def busyQueue : BlitQueue where
  slots w := if w = 5 then none else some ⟨.running, w + 1, none⟩
  nextWorkId := 65
  memory _ := 0
  issued w item h := by
    split_ifs at h
    · cases h
    · obtain rfl := Option.some.inj h
      exact Nat.succ_lt_succ w.isLt

example : twoCores.graphicsSmpWorkerCount 256 = 2 ∧
    bands 0 256 (256 / 2) (256 % 2) 0 0 2 = [⟨0, 0, 256, 128⟩, ⟨0, 128, 256, 128⟩] := by decide

end Screen

end Graphics
