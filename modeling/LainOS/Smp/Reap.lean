import LainOS.Smp.Submissions

/-!
# Waiting for work that is gone

`kernel_task_release_finished_smp` asks whether work is done, waits for it and clears the record of
it in three regions. Two cores that are both between the first two wait for the same work, and the one
that comes second waits for a slot that the other has freed. If no core passes the question while
another one is inside `smp_wait_work` for the same id, this does not happen, and no slot is lost.
-/

namespace Smp

open Parties Option

variable {id : UInt32} {w : WorkIndex} {i : TaskIndex} {goal : Goal} {P J : Type*} [DecidableEq P]

def RunCaller.waitsFor : RunCaller → Option UInt32
  | .core => none
  | .wait _ smpId _ => some smpId

def WorkerCaller.waitsFor : WorkerCaller → Option UInt32
  | .item _ caller => caller.waitsFor
  | .poll => none

/-- The id for which a call is inside the loop of `smp_wait_work`. -/
def Pc.waitsFor : Pc J → Option UInt32
  | .waiting _ smpId _ => some smpId
  | .takeWork caller | .storeDone _ caller => caller.waitsFor
  | .workerStart _ caller | .calling _ _ _ caller | .inside _ _ caller | .workerFinish _ caller =>
    caller.waitsFor
  | _ => none

/-- The id for which a call is inside `smp_wait_work`. -/
def Pc.reaps : Pc J → Option UInt32
  | .releaseWork _ smpId _ => some smpId
  | l => l.waitsFor

/-- The SMP id that a call has read. -/
def Pc.smpId : Pc J → Option UInt32
  | .storeSmpId _ _ smpId | .check _ smpId _ | .waiting _ smpId _ | .releaseWork _ smpId _
  | .clearSmpId _ smpId _ => some smpId
  | _ => none

/-- What a step from a control point asks of the others and of the counters. -/
def Alone (c : Cfg P J) (p : P) : Pc J → Prop
  | .check _ smpId _ => ∀ q, q ≠ p → (c.pc q).reaps ≠ some smpId
  | .allocTask _ _ => c.shared.nextTaskId ≠ 0
  | .smpSubmit _ _ _ => c.shared.nextWorkId ≠ 0
  | _ => True

/-- A core enters `smp_wait_work` for an id only while no other core is inside it for the same one,
and the counters have not gone round where an id is taken. -/
def ReapsAlone (c : Cfg P J) (p : P) : Prop := Alone c p (c.pc p)

instance [Fintype P] (c : Cfg P J) (p : P) : ∀ l, Decidable (Alone c p l)
  | .check _ smpId _ => inferInstanceAs (Decidable (∀ q, q ≠ p → (c.pc q).reaps ≠ some smpId))
  | .allocTask _ _ => inferInstanceAs (Decidable (c.shared.nextTaskId ≠ 0))
  | .smpSubmit _ _ _ => inferInstanceAs (Decidable (c.shared.nextWorkId ≠ 0))
  | .idle | .storeSmpId _ _ _ | .smpFull _ _ _ | .reap _ _ | .waiting _ _ _ | .releaseWork _ _ _
  | .clearSmpId _ _ _ | .takeWork _ | .workerStart _ _ | .calling _ _ _ _ | .inside _ _ _
  | .workerFinish _ _ | .storeDone _ _ => isTrue trivial

instance [Fintype P] (c : Cfg P J) (p : P) : Decidable (ReapsAlone c p) :=
  inferInstanceAs (Decidable (Alone c p (c.pc p)))

lemma RunCaller.back_of_waitsFor {caller : RunCaller} (h : caller.waitsFor = none) :
    (caller.back : Pc J).smpId = none ∧ (caller.back : Pc J).reaps = none := by
  cases caller with
  | core => exact ⟨rfl, rfl⟩
  | wait => cases h

lemma WorkerCaller.back_of_waitsFor {caller : WorkerCaller} (h : caller.waitsFor = none) :
    (caller.back : Pc J).smpId = none ∧ (caller.back : Pc J).reaps = none := by
  cases caller with
  | item => exact ⟨rfl, h⟩
  | poll => exact ⟨rfl, rfl⟩

structure WaitInv (c : Cfg P J) : Prop where
  task (t : TaskIndex) : (c.shared.tasks t).smpId ≠ 0 → c.shared.Issued (c.shared.tasks t).smpId
  known (p : P) (id : UInt32) : (c.pc p).smpId = some id → c.shared.Issued id
  head (p : P) (id : UInt32) : (c.pc p).waitsFor = some id → ∃ i goal, c.pc p = .waiting i id goal
  carried (p : P) (id : UInt32) : (c.pc p).reaps = some id →
    ∃ w, (c.shared.work w).id = id ∧ (c.shared.work w).state = .done
  sole (p q : P) (id : UInt32) : (c.pc p).reaps = some id → (c.pc q).reaps = some id → p = q
  gone (p : P) (i : TaskIndex) (id : UInt32) (goal : Goal) : c.pc p = .clearSmpId i id goal →
    ∀ w, (c.shared.work w).id ≠ id

/-- The id of a used work slot is recorded in a task slot or held by the core that submits. -/
def Recorded (c : Cfg P J) : Prop :=
  ∀ w, (c.shared.work w).state ≠ .free → (∃ t, (c.shared.tasks t).smpId = (c.shared.work w).id) ∨
    ∃ p t id, c.pc p = .storeSmpId t id (c.shared.work w).id

variable {c : Cfg P J} {p : P} {s : Shared J} {l : Pc J} {events : List (Event J)} {t : TaskIndex}

omit [DecidableEq P] in
/-- `smp_work_done` answers for the slot that carries the id. -/
lemma WorkInv.smpWorkDone_iff (h : WorkInv c) (hid : id ≠ 0) : c.shared.smpWorkDone id ↔
      ∃ w, (c.shared.work w).id = id ∧ (c.shared.work w).state = .done := by
  simp only [Shared.smpWorkDone, Bool.or_eq_true, decide_eq_true_eq, hid, false_or]
  rcases hslot : firstSlot fun w => (c.shared.work w).id = id with _ | w
  · have hnone (w : WorkIndex) : (c.shared.work w).id ≠ id := by simpa using firstSlot_none hslot w
    simp [hnone]
  have hw : (c.shared.work w).id = id := by simpa using firstSlot_some hslot
  simp only [decide_eq_true_eq]
  refine ⟨fun hdone => ⟨w, hw, hdone⟩, ?_⟩
  rintro ⟨w', hw', hdone⟩
  rwa [h.distinct w w' (hw.trans hw'.symm) (hw ▸ hid)]

namespace WaitInv

/-- What a step has to respect. -/
lemma move (h : WaitInv c) (hmono : ∀ id, c.shared.Issued id → s.Issued id)
    (htask : ∀ t, (s.tasks t).smpId ≠ 0 → s.Issued (s.tasks t).smpId)
    (hknown : ∀ id, l.smpId = some id → s.Issued id)
    (hhead : ∀ id, l.waitsFor = some id → ∃ i goal, l = .waiting i id goal)
    (hcarried : ∀ q id, q ≠ p → (c.pc q).reaps = some id → ∀ w, (c.shared.work w).id = id →
      (c.shared.work w).state = .done → (s.work w).id = id ∧ (s.work w).state = .done)
    (hreaps : ∀ id, l.reaps = some id →
      (∃ w, (s.work w).id = id ∧ (s.work w).state = .done) ∧ ∀ q, q ≠ p → (c.pc q).reaps ≠ some id)
    (hgone : ∀ id, c.shared.Issued id → (∀ w, (c.shared.work w).id ≠ id) → ∀ w, (s.work w).id ≠ id)
    (hclear : ∀ i id goal, l = .clearSmpId i id goal → ∀ w, (s.work w).id ≠ id) :
    WaitInv (after c p s l events) := by
  refine ⟨htask, fun q id hq => ?_, fun q id hq => ?_, fun q id hq => ?_,
    fun q q' id => sole_after (fun q q' => h.sole q q' id) fun hp => (hreaps id hp).2,
    fun q i id goal hq => ?_⟩
  · rcases after_pc_cases hq with ⟨-, hp⟩ | ⟨-, hold⟩
    · exact hknown id hp
    · exact hmono id (h.known q id hold)
  · rcases after_pc_cases hq with ⟨rfl, hp⟩ | ⟨hqp, hold⟩
    · simpa using hhead id hp
    · simpa only [after_pc_of_ne hqp] using h.head q id hold
  · rcases after_pc_cases hq with ⟨-, hp⟩ | ⟨hqp, hold⟩
    · exact (hreaps id hp).1
    · obtain ⟨w, hw, hdone⟩ := h.carried q id hold
      exact ⟨w, hcarried q id hqp hold w hw hdone⟩
  · rcases after_pc_cases (f := fun l => l) hq with ⟨-, hp⟩ | ⟨-, hold⟩
    · exact hclear i id goal hp
    · exact hgone id (h.known q id (by rw [hold]; rfl)) (h.gone q i id goal hold)

/-- A step outside of `smp_wait_work` that keeps the ids of the work slots and what is done. -/
lemma keeps (h : WaitInv c) (hnext : s.nextWorkId = c.shared.nextWorkId)
    (hid : ∀ w, (s.work w).id = (c.shared.work w).id)
    (hdone : ∀ w, (c.shared.work w).state = .done → (s.work w).state = .done)
    (htask : ∀ t, (s.tasks t).smpId ≠ 0 → c.shared.Issued (s.tasks t).smpId)
    (hknown : ∀ id, l.smpId = some id → c.shared.Issued id) (hreaps : l.reaps = none)
    (hclear : ∀ i id goal, l ≠ .clearSmpId i id goal) : WaitInv (after c p s l events) := by
  have hissued (id : UInt32) (h : c.shared.Issued id) : s.Issued id := by rwa [Shared.Issued, hnext]
  have hwaits : l.waitsFor = none := by cases l <;> first | exact hreaps | rfl
  refine h.move hissued (fun t ht => hissued _ (htask t ht)) (fun id hl => hissued id (hknown id hl))
    (by simp [hwaits]) (fun q id _ _ w hw hstate => ⟨(hid w).trans hw, hdone w hstate⟩)
    (by simp [hreaps]) (fun id _ hw w => by rw [hid w]; exact hw w)
    (fun i id goal hl => absurd hl (hclear i id goal))

/-- A step that leaves the tables as they are and has read no SMP id. -/
lemma stays (h : WaitInv c) (hnext : s.nextWorkId = c.shared.nextWorkId)
    (hwork : s.work = c.shared.work)
    (htask : ∀ t, (s.tasks t).smpId = (c.shared.tasks t).smpId ∨ (s.tasks t).smpId = 0)
    (hl : l.smpId = none) (hreaps : l.reaps = none) : WaitInv (after c p s l events) := by
  refine h.keeps hnext (fun w => by rw [hwork]) (fun w => by simp [hwork]) (fun t ht => ?_)
    (by simp [hl]) hreaps (fun i id goal heq => by simp [heq, Pc.smpId] at hl)
  have hsame := (htask t).resolve_right ht
  rw [hsame] at ht ⊢
  exact h.task t ht

section

variable (h : WaitInv c)
include h

omit [DecidableEq P] in
/-- Only the head of the loop of `smp_wait_work` is ever reached. -/
lemma waitsFor_eq_none (hp : ∀ i id goal, c.pc p ≠ .waiting i id goal) :
    (c.pc p).waitsFor = none := by
  cases hwaits : (c.pc p).waitsFor with
  | none => rfl
  | some id =>
    obtain ⟨i, goal, heq⟩ := h.head p id hwaits
    exact absurd heq (hp i id goal)

lemma smpQueued (hnext : c.shared.nextWorkId ≠ 0) (hfree : (c.shared.work w).state = .free) :
    WaitInv (after c p { c.shared.setWork w ⟨.queued, c.shared.nextWorkId, some t⟩ with
      nextWorkId := c.shared.nextWorkId + 1 } (.storeSmpId t id c.shared.nextWorkId) []) := by
  refine h.move (fun id hid => hid.take hnext) (fun t ht => (h.task t ht).take hnext)
    (fun id hl => ?_) (by simp [Pc.waitsFor]) (fun q id _ _ w' hw' hdone => ?_)
    (by simp [Pc.reaps, Pc.waitsFor]) (fun id hid hw w' => ?_) (by simp)
  · obtain rfl := some.inj hl
    exact .next hnext
  · have hne : w' ≠ w := by
      rintro rfl
      simp [hfree] at hdone
    rw [setWork_of_ne hne]
    exact ⟨hw', hdone⟩
  · change ((c.shared.setWork w _).work w').id ≠ id
    by_cases hne : w' = w
    · subst hne
      rw [setWork_self]
      rintro rfl
      exact UInt32.lt_irrefl _ (hid.2.resolve_left hnext)
    · rw [setWork_of_ne hne]
      exact hw w'

/-- A core that is alone in `smp_wait_work` frees the slot. -/
lemma releaseWork (hwork : WorkInv c) {smpId : UInt32} (hp : c.pc p = .releaseWork i smpId goal)
    (hw : (c.shared.work w).id = smpId) :
    WaitInv (after c p (c.shared.setWork w freeWork) (.clearSmpId i smpId goal) []) := by
  have hissued : c.shared.Issued smpId := h.known p smpId (by rw [hp]; rfl)
  have hreaps : (c.pc p).reaps = some smpId := by rw [hp]; rfl
  refine h.move (fun _ hid => hid) h.task (fun id hl => ?_) (by simp [Pc.waitsFor])
    (fun q id hq hqreaps w' hw' hdone => ?_) (by simp [Pc.reaps, Pc.waitsFor])
    (fun id hid hnone w' => ?_) (fun i' id goal' heq w' => ?_)
  · obtain rfl := some.inj hl
    exact hissued
  · have hne : w' ≠ w := by
      rintro rfl
      obtain rfl : smpId = id := hw.symm.trans hw'
      exact hq (h.sole q p smpId hqreaps hreaps)
    rw [setWork_of_ne hne]
    exact ⟨hw', hdone⟩
  · by_cases hne : w' = w
    · subst hne
      rw [setWork_self]
      exact hid.1.symm
    · rw [setWork_of_ne hne]
      exact hnone w'
  · obtain ⟨-, rfl, -⟩ := Pc.clearSmpId.inj heq
    by_cases hne : w' = w
    · subst hne
      rw [setWork_self]
      exact hissued.1.symm
    · rw [setWork_of_ne hne]
      exact fun heq' => hne (hwork.distinct w' w (heq'.trans hw.symm) (heq' ▸ hissued.1))

/-- Work that a core finds done is still carried, and the core is alone with it. -/
lemma checkDone (hwork : WorkInv c) {smpId : UInt32} (hp : c.pc p = .check i smpId goal)
    (hdone : c.shared.smpWorkDone smpId) (halone : ∀ q, q ≠ p → (c.pc q).reaps ≠ some smpId) :
    WaitInv (after c p c.shared (.waiting i smpId goal) []) := by
  have hissued : c.shared.Issued smpId := h.known p smpId (by rw [hp]; rfl)
  refine h.move (fun _ hid => hid) h.task (fun id hl => ?_) (fun id hl => ?_)
    (fun _ _ _ _ _ hw hstate => ⟨hw, hstate⟩) (fun id hl => ?_) (fun _ _ hnone => hnone) (by simp)
  · obtain rfl := some.inj hl
    exact hissued
  · obtain rfl := some.inj hl
    exact ⟨i, goal, rfl⟩
  · obtain rfl := some.inj hl
    exact ⟨(hwork.smpWorkDone_iff hissued.1).mp hdone, halone⟩

lemma waitDone {smpId : UInt32} (hp : c.pc p = .waiting i smpId goal) :
    WaitInv (after c p c.shared (.releaseWork i smpId goal) []) := by
  have hreaps : (c.pc p).reaps = some smpId := by rw [hp]; rfl
  refine h.move (fun _ hid => hid) h.task (fun id hl => ?_) (by simp [Pc.waitsFor])
    (fun _ _ _ _ _ hw hstate => ⟨hw, hstate⟩) (fun id hl => ?_) (fun _ _ hnone => hnone) (by simp)
  · obtain rfl := some.inj hl
    exact h.known p smpId (by rw [hp]; rfl)
  · obtain rfl := some.inj hl
    exact ⟨h.carried p smpId hreaps, fun q hq hqreaps => hq (h.sole q p smpId hqreaps hreaps)⟩

/-- Setting the state of a work slot to something other than free, which was not done. -/
lemma setState {state : SlotState} (hstate : state = .done ∨ (c.shared.work w).state ≠ .done)
    (hl : l.smpId = none) (hreaps : l.reaps = none) :
    WaitInv (after c p (c.shared.setWork w { c.shared.work w with state := state }) l []) := by
  refine h.keeps rfl (fun w' => ?_) (fun w' hdone => ?_) h.task (by simp [hl]) hreaps
    (fun i id goal heq => by simp [heq, Pc.smpId] at hl)
  · by_cases hw : w' = w
    · subst hw
      simp
    · rw [setWork_of_ne hw]
  · by_cases hw : w' = w
    · subst hw
      rw [setWork_self]
      exact hstate.resolve_right fun hne => hne hdone
    · rwa [setWork_of_ne hw]

end

lemma smpId_setTask {slot : TaskSlot J} (hslot : slot.smpId = (s.tasks t).smpId ∨ slot.smpId = 0)
    (t' : TaskIndex) : ((s.setTask t slot).tasks t').smpId = (s.tasks t').smpId ∨
      ((s.setTask t slot).tasks t').smpId = 0 := by
  by_cases ht : t' = t
  · subst ht
    simpa using hslot
  · exact .inl (by rw [setTask_of_ne ht])

lemma storeSmpId (h : WaitInv c) {smpId : UInt32} (hp : c.pc p = .storeSmpId t id smpId) :
    WaitInv (after c p (c.shared.setTask t { c.shared.tasks t with smpId := smpId }) .idle
      [.submitted id id]) := by
  refine h.keeps rfl (fun _ => rfl) (fun _ hdone => hdone) (fun t' ht' => ?_) (by simp [Pc.smpId])
    rfl (by simp)
  by_cases ht : t' = t
  · subst ht
    rw [setTask_self]
    exact h.known p smpId (by rw [hp]; rfl)
  · rw [setTask_of_ne ht] at ht' ⊢
    exact h.task t' ht'

/-- A core that enters `smp_wait_work` alone finds its work there. -/
lemma step (h : WaitInv c) (hinv : Inv c) (hwork : WorkInv c)
    (hstep : Step c.shared (c.pc p) s l events) (hok : ReapsAlone c p) :
    WaitInv (after c p s l events) := by
  have hwaits := h.waitsFor_eq_none (p := p)
  generalize hp : c.pc p = l₀ at hstep hwaits
  rw [ReapsAlone, hp] at hok
  cases hstep with
  | alloc => exact h.stays rfl rfl (smpId_setTask (.inr rfl)) rfl rfl
  | smpQueued async t id w hfree =>
    rw [takeId, if_neg hok]
    exact h.smpQueued hok hfree
  | storeSmpId => exact h.storeSmpId hp
  | queue | poll => exact h.stays rfl rfl (smpId_setTask (.inl rfl)) rfl rfl
  | drop | release => exact h.stays rfl rfl (smpId_setTask (.inr rfl)) rfl rfl
  | reapFound i goal _ hne =>
    refine h.keeps rfl (fun _ => rfl) (fun _ hdone => hdone) h.task (fun id hl => ?_) rfl (by simp)
    obtain rfl := some.inj hl
    exact h.task i hne
  | checkDone i smpId goal hdone => exact h.checkDone hwork hp hdone hok
  | waitDone => exact h.waitDone hp
  | waitLoop i smpId goal hnot =>
    have hcarried := h.carried p smpId (by rw [hp]; rfl)
    have hissued := h.known p smpId (by rw [hp]; rfl)
    exact absurd ((hwork.smpWorkDone_iff hissued.1).mpr hcarried) hnot
  | releaseWork i smpId goal w hw => exact h.releaseWork hwork hp hw
  | releaseWorkNone i smpId goal hnone =>
    obtain ⟨w, hw⟩ := h.carried p smpId (by rw [hp]; rfl)
    have hissued := h.known p smpId (by rw [hp]; rfl)
    exact absurd hw (hnone.resolve_left hissued.1 w)
  | clearSmpId => exact h.stays rfl rfl (smpId_setTask (.inr rfl)) rfl rfl
  | takeNone caller =>
    obtain ⟨hl, hreaps⟩ := RunCaller.back_of_waitsFor (J := J) (hwaits (by simp))
    exact h.stays rfl rfl (fun _ => .inl rfl) hl hreaps
  | take caller w t hqueued => exact h.setState (.inr (by simp [hqueued])) rfl (hwaits (by simp))
  | start => exact h.stays rfl rfl (smpId_setTask (.inl rfl)) rfl (hwaits (by simp))
  | startUnset t caller hunset => exact absurd hunset (hinv.job_ne_none hp rfl)
  | startLate | call | ret => exact h.stays rfl rfl (fun _ => .inl rfl) rfl (hwaits (by simp))
  | finish t caller =>
    obtain ⟨hl, hreaps⟩ := WorkerCaller.back_of_waitsFor (J := J) (hwaits (by simp))
    exact h.stays rfl rfl (smpId_setTask (.inl rfl)) hl hreaps
  | finishLate t caller =>
    obtain ⟨hl, hreaps⟩ := WorkerCaller.back_of_waitsFor (J := J) (hwaits (by simp))
    exact h.stays rfl rfl (fun _ => .inl rfl) hl hreaps
  | storeDone w caller =>
    obtain ⟨hl, hreaps⟩ := RunCaller.back_of_waitsFor (J := J) (hwaits (by simp))
    exact h.setState (.inl rfl) hl hreaps
  | _ => exact h.stays rfl rfl (fun _ => .inl rfl) rfl rfl

end WaitInv

/-! ### Records -/

namespace Recorded

variable (h : Recorded c)
include h

/-- A step that forgets no SMP id. -/
lemma move (hwork : WorkInv c) (hused : ∀ w, (s.work w).state ≠ .free →
      (c.shared.work w).state ≠ .free ∧ (s.work w).id = (c.shared.work w).id)
    (htask : ∀ t, (c.shared.tasks t).smpId ≠ 0 → (s.tasks t).smpId = (c.shared.tasks t).smpId)
    (hp : ∀ t id smpId, c.pc p ≠ .storeSmpId t id smpId) : Recorded (after c p s l events) := by
  intro w hw
  obtain ⟨hstate, hid⟩ := hused w hw
  rw [after_shared, hid]
  rcases h w hstate with ⟨t, ht⟩ | ⟨q, t, id, hq⟩
  · refine .inl ⟨t, (htask t ?_).trans ht⟩
    rw [ht]
    exact (hwork.issued w hstate).1
  · refine .inr ⟨q, t, id, ?_⟩
    rw [after_pc_of_ne, hq]
    rintro rfl
    exact hp t id _ hq

/-- A step that sets a slot of the task table, with its SMP id if it had one. -/
lemma setTask (hwork : WorkInv c) {slot : TaskSlot J}
    (hslot : (c.shared.tasks t).smpId ≠ 0 → slot.smpId = (c.shared.tasks t).smpId)
    (hp : ∀ t id smpId, c.pc p ≠ .storeSmpId t id smpId) :
    Recorded (after c p (c.shared.setTask t slot) l events) := by
  refine h.move hwork (fun w hw => ⟨hw, rfl⟩) (fun t' ht' => ?_) hp
  by_cases ht : t' = t
  · subst ht
    simpa using hslot ht'
  · rw [setTask_of_ne ht]

/-- A step that sets a slot of the work queue, free or under the id it had. -/
lemma setWork (hwork : WorkInv c) {slot : WorkSlot}
    (hslot : slot.state ≠ .free → (c.shared.work w).state ≠ .free ∧ slot.id = (c.shared.work w).id)
    (hp : ∀ t id smpId, c.pc p ≠ .storeSmpId t id smpId) :
    Recorded (after c p (c.shared.setWork w slot) l events) := by
  refine h.move hwork (fun w' hw' => ?_) (fun _ _ => rfl) hp
  by_cases hw : w' = w
  · subst hw
    rw [setWork_self] at hw' ⊢
    exact hslot hw'
  · rw [setWork_of_ne hw] at hw' ⊢
    exact ⟨hw', rfl⟩

/-- The core that submits holds the id of the new item. -/
lemma smpQueued {async : Bool} {smpId next : UInt32} (hp : c.pc p = .smpSubmit async t id) :
    Recorded (after c p { c.shared.setWork w ⟨.queued, smpId, some t⟩ with nextWorkId := next }
      (.storeSmpId t id smpId) events) := by
  intro w' hw'
  change ((c.shared.setWork w _).work w').state ≠ .free at hw'
  change (∃ t', (c.shared.tasks t').smpId = ((c.shared.setWork w _).work w').id) ∨
    ∃ q t' id', _ = Pc.storeSmpId t' id' ((c.shared.setWork w _).work w').id
  by_cases hw : w' = w
  · subst hw
    exact .inr ⟨p, t, id, by rw [setWork_self]; simp⟩
  rw [setWork_of_ne hw] at hw' ⊢
  rcases h w' hw' with hrecord | ⟨q, t', id', hq⟩
  · exact .inl hrecord
  · refine .inr ⟨q, t', id', ?_⟩
    rw [after_pc_of_ne, hq]
    rintro rfl
    simp [hp] at hq

/-- At the end of a submission the held id is recorded. -/
lemma storeSmpId (hwork : WorkInv c) {smpId : UInt32} (hp : c.pc p = .storeSmpId t id smpId)
    (hzero : (c.shared.tasks t).smpId = 0) :
    Recorded (after c p (c.shared.setTask t { c.shared.tasks t with smpId := smpId }) .idle
      events) := by
  intro w hw
  rcases h w hw with ⟨t', ht'⟩ | ⟨q, t', id', hq⟩
  · refine .inl ⟨t', ?_⟩
    rw [after_shared, setTask_of_ne, ht']
    · rfl
    · rintro rfl
      exact (hwork.issued w hw).1 (ht'.symm.trans hzero)
  · by_cases hqp : q = p
    · subst hqp
      obtain ⟨-, -, hid⟩ := Pc.storeSmpId.inj (hp.symm.trans hq)
      exact .inl ⟨t, by rw [after_shared, setTask_self]; exact hid⟩
    · exact .inr ⟨q, t', id', by rw [after_pc_of_ne hqp]; exact hq⟩

/-- The id that a core clears is carried by no slot any more. -/
lemma clearSmpId (hwait : WaitInv c) {smpId : UInt32} (hp : c.pc p = .clearSmpId t smpId goal)
    (hsame : (c.shared.tasks t).smpId = smpId) :
    Recorded (after c p (c.shared.setTask t { c.shared.tasks t with smpId := 0 }) l events) := by
  intro w hw
  rcases h w hw with ⟨t', ht'⟩ | ⟨q, t', id', hq⟩
  · refine .inl ⟨t', ?_⟩
    rw [after_shared, setTask_of_ne, ht']
    · rfl
    · rintro rfl
      exact hwait.gone p t' smpId goal hp w (ht'.symm.trans hsame)
  · refine .inr ⟨q, t', id', ?_⟩
    rw [after_pc_of_ne, hq]
    · rfl
    · rintro rfl
      simp [hp] at hq

lemma step (hinv : Inv c) (hwork : WorkInv c) (hsubmit : SubmitInv c) (hwait : WaitInv c)
    (hstep : Step c.shared (c.pc p) s l events) : Recorded (after c p s l events) := by
  generalize hp : c.pc p = l₀ at hstep
  cases hstep with
  | alloc async job t hfree =>
    exact h.move hwork (fun w hw => ⟨hw, rfl⟩) (fun t' ht' => by
      have hne : t' ≠ t := by
        rintro rfl
        exact ht' (hsubmit.free t' hfree)
      exact congrArg _ (setTask_of_ne hne c.shared _)) (by simp [hp])
  | smpQueued async t id w => exact h.smpQueued hp
  | storeSmpId t id smpId =>
    exact h.storeSmpId hwork hp (hsubmit.own p t id (by rw [hp]; rfl)).2.2.1
  | storeSmpIdLate t id smpId hother => exact absurd (hsubmit.own p t id (by rw [hp]; rfl)).1 hother
  | queue | poll | start | finish => exact h.setTask hwork (fun _ => rfl) (by simp [hp])
  | drop t id =>
    have hzero := (hsubmit.own p t id (by rw [hp]; rfl)).2.2.1
    exact h.setTask hwork (fun hne => absurd hzero hne) (by simp [hp])
  | release i t id hsame =>
    have hzero := hsubmit.finished id t (hsubmit.goal p id (by rw [hp]; rfl)) hsame
    exact h.setTask hwork (fun hne => absurd hzero hne) (by simp [hp])
  | releaseWork _ _ _ w => exact h.setWork hwork (by simp [freeWork]) (by simp [hp])
  | clearSmpId i smpId goal hsame => exact h.clearSmpId hwait hp hsame
  | take caller w t hqueued =>
    exact h.setWork hwork (fun _ => ⟨by simp [hqueued], rfl⟩) (by simp [hp])
  | startUnset t caller hunset => exact absurd hunset (hinv.job_ne_none hp rfl)
  | storeDone w caller =>
    have hrunning := hwork.running p w (by rw [hp]; rfl)
    exact h.setWork hwork (fun _ => ⟨by simp [hrunning], rfl⟩) (by simp [hp])
  | _ => exact h.move hwork (fun _ hw => ⟨hw, rfl⟩) (fun _ _ => rfl) (by simp [hp])

end Recorded

/-! ### Whole runs -/

/-- Everything that holds in a run in which the cores reap alone. -/
structure ReapInv (c : Cfg P J) : Prop where
  inv : Inv c
  work : WorkInv c
  submit : SubmitInv c
  wait : WaitInv c
  recorded : Recorded c

namespace ReapInv

omit [DecidableEq P] in
lemma start (n : ℕ) : ReapInv (⟨.start n, fun _ => .idle, []⟩ : Cfg P J) where
  inv := inv_start n
  work := ⟨by simp [Shared.start, freeWork], by simp [Shared.start, freeWork],
    by simp [Shared.start, freeWork], by simp [Pc.workSlot], by simp [Pc.workSlot]⟩
  submit := ⟨by simp [Shared.start, freeTask], by simp [Pc.submission], by simp [Pc.submission],
    by simp [Shared.start, freeTask], by simp [Pc.goal]⟩
  wait := ⟨by simp [Shared.start, freeTask], by simp [Pc.smpId], by simp [Pc.waitsFor],
    by simp [Pc.reaps, Pc.waitsFor], by simp [Pc.reaps, Pc.waitsFor], by simp⟩
  recorded := by simp [Recorded, Shared.start, freeWork]

lemma run (h : ReapInv c) (hok : ReapsAlone c p) : ReapInv (c.run (tasks J) p) := by
  obtain ⟨s, l, events, hstep, heq⟩ := run_eq_after c p
  rw [heq]
  have htask (async : Bool) (job : J) (hp : c.pc p = .allocTask async job) :
      c.shared.nextTaskId ≠ 0 := by
    simpa only [ReapsAlone, hp, Alone] using hok
  have hsmp (async : Bool) (t : TaskIndex) (id : UInt32) (hp : c.pc p = .smpSubmit async t id) :
      c.shared.nextWorkId ≠ 0 := by
    simpa only [ReapsAlone, hp, Alone] using hok
  refine ⟨h.inv.step hstep fun id job hmem => ?_, h.work.step hstep hsmp,
    h.submit.step h.inv hstep htask, h.wait.step h.inv h.work hstep hok,
    h.recorded.step h.inv h.work h.submit h.wait hstep⟩
  -- Only a submission that fills a slot leaves such an event.
  generalize hp : c.pc p = l₀ at hstep
  cases hstep <;> simp at hmem
  exact htask _ _ hp

lemma enter (h : ReapInv c) (hp : c.pc p = .idle) (hbegins : Begins c.log l) :
    ReapInv (c.enter p l) := by
  have heq : c.enter p l = after c p c.shared l [] := by simp [Config.enter, after]
  refine ⟨h.inv.enter hbegins, ?_, ?_, ?_, ?_⟩ <;> rw [heq]
  · cases hbegins <;> exact h.work.move rfl rfl (.inl rfl)
  · exact h.submit.enter hbegins
  · cases hbegins <;> exact h.wait.stays rfl rfl (fun _ => .inl rfl) rfl rfl
  · exact h.recorded.move h.work (fun _ hw => ⟨hw, rfl⟩) (fun _ _ => rfl) (by simp [hp])

omit [DecidableEq P] in
lemma environment (h : ReapInv c) (n : ℕ) :
    ReapInv { c with shared := { c.shared with onlineCoreCount := n } } where
  inv := h.inv.environment n
  work := ⟨h.work.free, h.work.issued, h.work.distinct, h.work.running, h.work.sole⟩
  submit := ⟨h.submit.free, h.submit.own, h.submit.sole, h.submit.finished, h.submit.goal⟩
  wait := ⟨h.wait.task, h.wait.known, h.wait.head, h.wait.carried, h.wait.sole, h.wait.gone⟩
  recorded := h.recorded

lemma of_reachable (hc : Reachable (tasks J) ReapsAlone c) : ReapInv c := by
  induction hc with
  | start s hinit =>
    obtain ⟨n, rfl⟩ := hinit
    exact .start n
  | run p _ hok ih => exact ih.run hok
  | enter p l _ hidle hbegins ih => exact ih.enter hidle hbegins
  | environment s _ hchange ih =>
    obtain ⟨n, rfl⟩ := hchange
    exact ih.environment n

end ReapInv

/-- **No core waits for work that is gone, and no work slot is lost**, in every run in which the cores
enter `smp_wait_work` alone. -/
theorem reaps_what_exists (c : Cfg P J) (hc : Reachable (tasks J) ReapsAlone c) :
    (∀ p id, (c.pc p).waitsFor = some id → ∃ w, (c.shared.work w).id = id) ∧
    ∀ w, (c.shared.work w).state = .done → (∃ t, (c.shared.tasks t).smpId = (c.shared.work w).id) ∨
      ∃ p, (c.pc p).smpId = some (c.shared.work w).id := by
  have h := ReapInv.of_reachable hc
  refine ⟨fun p id hp => ?_, fun w hw => ?_⟩
  · obtain ⟨i, goal, heq⟩ := h.wait.head p id hp
    obtain ⟨w, hw, -⟩ := h.wait.carried p id (by rw [heq]; rfl)
    exact ⟨w, hw⟩
  · rcases h.recorded w (by simp [hw]) with hrecord | ⟨p, t, id, hp⟩
    · exact .inl hrecord
    · exact .inr ⟨p, by rw [hp]; rfl⟩

/-- Core `false` asks alone whether the task is done, up to the loop of `smp_wait_work`. -/
def askAlone : Cfg Bool ℕ :=
  (submitRun.enter false (.reap 0 (.done 1))).runs (tasks ℕ) [false, false]

theorem reaps_what_exists_askAlone : (askAlone.pc false).waitsFor = some 1 ∧
    ∃ w, (askAlone.shared.work w).id = 1 := by
  have hsubmit : Reachable (tasks ℕ) ReapsAlone submitOne :=
    (reachable_enter (.start _ ⟨2, rfl⟩) rfl (.submit false 7)).runs (by decide +kernel)
  have hrun : Reachable (tasks ℕ) ReapsAlone submitRun :=
    (reachable_enter hsubmit (by decide +kernel) .runOneWorkItem).runs (by decide +kernel)
  have hask : Reachable (tasks ℕ) ReapsAlone askAlone :=
    (reachable_enter hrun (by decide +kernel) (.done 1 (by decide))).runs (by decide +kernel)
  have hwaits : (askAlone.pc false).waitsFor = some 1 := by decide +kernel
  exact ⟨hwaits, (reaps_what_exists askAlone hask).1 false 1 hwaits⟩

/-- Both cores ask whether work 1 is done, and then core `false` frees its slot. -/
def askTogether : Cfg Bool ℕ :=
  ((submitRun.enter false (.reap 0 (.done 1))).enter true (.reap 0 .poll)).runs (tasks ℕ)
    [false, true, false, true, false, false, true]

/-- Core `true` is then inside the loop of `smp_wait_work(1)`, which no slot carries. -/
theorem waits_for_gone_work : ∃ c : Cfg Bool ℕ, Reachable (tasks ℕ) (fun _ _ => True) c ∧
    ∃ p id, (c.pc p).waitsFor = some id ∧ ∀ w, (c.shared.work w).id ≠ id := by
  have hmeets (c : Cfg Bool ℕ) (ps : List Bool) : Meets (tasks ℕ) (fun _ _ => True) c ps :=
    Meets.of_forall (fun _ _ => trivial) c ps
  have hask := reachable_enter submitRun_reachable (p := false) (by decide +kernel)
    (.done 1 (by decide))
  refine ⟨askTogether, (reachable_enter hask (by decide +kernel) .poll).runs (hmeets _ _), true, 1,
    ?_, ?_⟩ <;> decide +kernel

end Smp
