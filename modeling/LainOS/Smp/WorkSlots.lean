import LainOS.Smp.TaskOnce

/-!
# The slots of the work queue

An id of the work queue is carried by one slot, and a running slot belongs to one core.
-/

namespace Smp

open Parties

variable {work : WorkIndex → WorkSlot} {P J : Type*} [DecidableEq P]

def WorkerCaller.slot : WorkerCaller → Option WorkIndex
  | .item w _ => some w
  | .poll => none

/-- The work slot whose item a call is running. -/
def Pc.workSlot : Pc J → Option WorkIndex
  | .workerStart _ caller | .calling _ _ _ caller | .inside _ _ caller | .workerFinish _ caller =>
    caller.slot
  | .storeDone w _ => some w
  | _ => none

@[simp] lemma RunCaller.back_workSlot (caller : RunCaller) : (caller.back : Pc J).workSlot = none := by
  cases caller <;> rfl

@[simp] lemma WorkerCaller.back_workSlot (caller : WorkerCaller) :
    (caller.back : Pc J).workSlot = caller.slot := by
  cases caller <;> rfl

/-- `smp_submit_work` has returned the id before. -/
def Shared.Issued (s : Shared J) (id : UInt32) : Prop :=
  id ≠ 0 ∧ (s.nextWorkId = 0 ∨ id < s.nextWorkId)

lemma Shared.Issued.take {s : Shared J} {id : UInt32} (h : s.Issued id) (hnext : s.nextWorkId ≠ 0) :
    Shared.Issued { s with work := work, nextWorkId := s.nextWorkId + 1 } id :=
  ⟨h.1, eq_zero_or_lt_add_one (UInt32.le_of_lt (h.2.resolve_left hnext))⟩

lemma Shared.Issued.next {s : Shared J} (hnext : s.nextWorkId ≠ 0) :
    Shared.Issued { s with work := work, nextWorkId := s.nextWorkId + 1 } s.nextWorkId :=
  ⟨hnext, eq_zero_or_lt_add_one (UInt32.le_refl _)⟩

structure WorkInv (c : Cfg P J) : Prop where
  free (w : WorkIndex) : (c.shared.work w).state = .free → (c.shared.work w).id = 0
  issued (w : WorkIndex) : (c.shared.work w).state ≠ .free → c.shared.Issued (c.shared.work w).id
  distinct (w w' : WorkIndex) : (c.shared.work w).id = (c.shared.work w').id →
    (c.shared.work w).id ≠ 0 → w = w'
  running (p : P) (w : WorkIndex) : (c.pc p).workSlot = some w → (c.shared.work w).state = .running
  sole (p q : P) (w : WorkIndex) : (c.pc p).workSlot = some w → (c.pc q).workSlot = some w → p = q

variable {c : Cfg P J} {p : P} {s : Shared J} {l : Pc J} {events : List (Event J)} {t : TaskIndex}
  {w : WorkIndex}

section

variable {α : Type*} {f : Pc J → Option α} {x : α} {q q' : P}

/-- What is known of a party after a step of `p` was known before, or the party is `p`. -/
lemma after_pc_cases {α : Type*} {f : Pc J → α} {x : α}
    (h : f ((after c p s l events).pc q) = x) : q = p ∧ f l = x ∨ q ≠ p ∧ f (c.pc q) = x := by
  by_cases hq : q = p
  · subst hq
    exact .inl ⟨rfl, by simpa using h⟩
  · exact .inr ⟨hq, by rwa [after_pc_of_ne hq] at h⟩

/-- What a party has after a step in which `p` gets nothing new it had before. -/
lemma had_before (hl : f l = none ∨ f l = f (c.pc p))
    (h : f ((after c p s l events).pc q) = some x) : f (c.pc q) = some x := by
  rcases after_pc_cases h with ⟨rfl, hp⟩ | ⟨-, hold⟩
  · rcases hl with hl | hl <;> rw [hl] at hp
    · cases hp
    · exact hp
  · exact hold

/-- One party alone has something after a step in which `p` gets only what nobody else has. -/
lemma sole_after (hold : ∀ q q', f (c.pc q) = some x → f (c.pc q') = some x → q = q')
    (hnew : f l = some x → ∀ q, q ≠ p → f (c.pc q) ≠ some x)
    (h : f ((after c p s l events).pc q) = some x)
    (h' : f ((after c p s l events).pc q') = some x) : q = q' := by
  rcases after_pc_cases h with ⟨hq, hp⟩ | ⟨hq, hqold⟩ <;>
    rcases after_pc_cases h' with ⟨hq', hp'⟩ | ⟨hq', hqold'⟩
  · exact hq.trans hq'.symm
  · exact absurd hqold' (hnew hp q' hq')
  · exact absurd hqold (hnew hp' q hq)
  · exact hold q q' hqold hqold'

end

namespace WorkInv

/-- A step that leaves the work queue as it is. -/
lemma move (h : WorkInv c) (hwork : s.work = c.shared.work)
    (hnext : s.nextWorkId = c.shared.nextWorkId)
    (hl : l.workSlot = none ∨ l.workSlot = (c.pc p).workSlot) : WorkInv (after c p s l events) := by
  refine ⟨fun w => ?_, fun w => ?_, fun w w' => ?_, fun q w hq => ?_,
    fun q q' w hq hq' => h.sole q q' w (had_before hl hq) (had_before hl hq')⟩
  · simpa only [after_shared, hwork] using h.free w
  · simpa only [after_shared, hwork, Shared.Issued, hnext] using h.issued w
  · simpa only [after_shared, hwork] using h.distinct w w'
  · simpa only [after_shared, hwork] using h.running q w (had_before hl hq)

/-- A step that sets a slot of the work queue, which nobody runs afterwards or `p` alone. -/
lemma setWork (h : WorkInv c) {slot : WorkSlot} (hwork : s.work = (c.shared.setWork w slot).work)
    (hmono : ∀ id, c.shared.Issued id → s.Issued id)
    (hfree : slot.state = .free → slot.id = 0) (hissued : slot.state ≠ .free → s.Issued slot.id)
    (hnew : slot.id ≠ 0 → ∀ w', w' ≠ w → (c.shared.work w').id ≠ slot.id)
    (hothers : ∀ q, q ≠ p → (c.pc q).workSlot ≠ some w)
    (hl : l.workSlot = none ∨ l.workSlot = some w ∧ slot.state = .running) :
    WorkInv (after c p s l events) := by
  have hself : s.work w = slot := by rw [hwork, setWork_self]
  have hother {w' : WorkIndex} (hw : w' ≠ w) : s.work w' = c.shared.work w' := by
    rw [hwork, setWork_of_ne hw]
  refine ⟨fun w' => ?_, fun w' => ?_, fun w₁ w₂ heq hne => ?_, fun q w' hq => ?_,
    fun q q' w' => sole_after (fun q q' => h.sole q q' w') fun hp q hq => ?_⟩
  · by_cases hw : w' = w
    · rwa [hw, after_shared, hself]
    · rw [after_shared, hother hw]
      exact h.free w'
  · by_cases hw : w' = w
    · rwa [hw, after_shared, hself]
    · rw [after_shared, hother hw]
      exact fun hstate => hmono _ (h.issued w' hstate)
  · rw [after_shared] at heq hne
    by_cases h₁ : w₁ = w <;> by_cases h₂ : w₂ = w
    · exact h₁.trans h₂.symm
    · rw [h₁, hself] at heq hne
      exact absurd (hother h₂ ▸ heq.symm) (hnew hne w₂ h₂)
    · rw [h₂, hself, hother h₁] at heq
      rw [hother h₁, heq] at hne
      exact absurd heq (hnew hne w₁ h₁)
    · rw [hother h₁] at heq hne
      exact h.distinct w₁ w₂ (hother h₂ ▸ heq) hne
  · rcases after_pc_cases hq with ⟨-, hp⟩ | ⟨hqp, hold⟩
    · rcases hl with hl | ⟨hl, hrunning⟩ <;> rw [hl] at hp
      · cases hp
      · obtain rfl := Option.some.inj hp
        rwa [after_shared, hself]
    · have hw : w' ≠ w := by
        rintro rfl
        exact hothers q hqp hold
      rw [after_shared, hother hw]
      exact h.running q w' hold
  · rcases hl with hl | ⟨hl, -⟩ <;> rw [hl] at hp
    · cases hp
    · obtain rfl := Option.some.inj hp
      exact hothers q hq

omit [DecidableEq P] in
lemma workSlot_ne_of_state (h : WorkInv c) (hstate : (c.shared.work w).state ≠ .running) (q : P) :
    (c.pc q).workSlot ≠ some w :=
  fun hq => hstate (h.running q w hq)

/-- A step that sets the state of a used slot. -/
lemma setState (h : WorkInv c) {state : SlotState} (hused : (c.shared.work w).state ≠ .free)
    (hstate : state ≠ .free) (hothers : ∀ q, q ≠ p → (c.pc q).workSlot ≠ some w)
    (hl : l.workSlot = none ∨ l.workSlot = some w ∧ state = .running) :
    WorkInv (after c p (c.shared.setWork w { c.shared.work w with state := state }) l events) := by
  refine h.setWork rfl (fun _ hid => hid) (fun hfree => absurd hfree hstate)
    (fun _ => h.issued w hused) (fun hne w' hw heq => hw ?_) hothers hl
  exact (h.distinct w w' heq.symm hne).symm

omit [DecidableEq P] in
/-- No slot carries the id that is next. -/
lemma id_ne_nextWorkId (h : WorkInv c) (hnext : c.shared.nextWorkId ≠ 0) (w : WorkIndex) :
    (c.shared.work w).id ≠ c.shared.nextWorkId := by
  intro heq
  have hstate : (c.shared.work w).state ≠ .free := fun hstate => hnext (heq ▸ h.free w hstate)
  have hlt := (h.issued w hstate).2.resolve_left hnext
  rw [heq] at hlt
  exact UInt32.lt_irrefl _ hlt

/-- The queue takes an item under an id that no slot carries. -/
lemma smpQueued (h : WorkInv c) (hnext : c.shared.nextWorkId ≠ 0)
    (hfree : (c.shared.work w).state = .free) (hl : l.workSlot = none) :
    WorkInv (after c p { c.shared.setWork w ⟨.queued, c.shared.nextWorkId, some t⟩ with
      nextWorkId := c.shared.nextWorkId + 1 } l events) :=
  h.setWork rfl (fun _ hid => hid.take hnext) (by simp) (fun _ => .next hnext)
    (fun _ w' _ => h.id_ne_nextWorkId hnext w')
    (fun q _ => h.workSlot_ne_of_state (by simp [hfree]) q) (.inl hl)

/-- Every step keeps the work queue in order, as long as its counter has not gone round. -/
lemma step (h : WorkInv c) (hstep : Step c.shared (c.pc p) s l events)
    (hnext : ∀ async t id, c.pc p = .smpSubmit async t id → c.shared.nextWorkId ≠ 0) :
    WorkInv (after c p s l events) := by
  generalize hp : c.pc p = l₀ at hstep
  cases hstep with
  | smpQueued async t id w hfree =>
    have hne := hnext async t id hp
    rw [takeId, if_neg hne]
    exact h.smpQueued hne hfree rfl
  | releaseWork _ _ _ w _ hdone =>
    exact h.setWork rfl (fun _ hid => hid) (fun _ => rfl) (by simp [freeWork]) (by simp [freeWork])
      (fun q _ => h.workSlot_ne_of_state (by simp [hdone]) q) (.inl rfl)
  | take caller w t hqueued =>
    exact h.setState (by simp [hqueued]) (by simp)
      (fun q _ => h.workSlot_ne_of_state (by simp [hqueued]) q) (.inr ⟨rfl, rfl⟩)
  | storeDone w caller =>
    have hown : (c.pc p).workSlot = some w := by rw [hp]; rfl
    exact h.setState (by simp [h.running p w hown]) (by simp)
      (fun q hq hslot => hq (h.sole q p w hslot hown)) (.inl caller.back_workSlot)
  | startUnset t caller =>
    refine h.move ?_ ?_ (.inr (by rw [hp]; rfl)) <;> rw [Shared.workerStart] <;> split_ifs <;> rfl
  | takeNone caller => exact h.move rfl rfl (.inl caller.back_workSlot)
  | finish t caller | finishLate t caller =>
    exact h.move rfl rfl (.inr (by rw [hp, caller.back_workSlot]; rfl))
  | start | startLate | call | ret => exact h.move rfl rfl (.inr (by rw [hp]; rfl))
  | _ => exact h.move rfl rfl (.inl rfl)

end WorkInv

end Smp
