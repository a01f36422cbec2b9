import LainOS.Smp.TaskRuns

/-!
# The invariant of the task table
-/

namespace Smp

open Parties List Option Function Shared

variable {w' : WorkIndex} {id smpId : UInt32} {async : Bool} {caller : WorkerCaller} {P J : Type*}
  [DecidableEq P]

structure Inv (c : Cfg P J) : Prop where
  slot (t : TaskIndex) : Slot c t
  distinct (t t' : TaskIndex) : (c.shared.tasks t).id = (c.shared.tasks t').id →
    (c.shared.tasks t).id ≠ 0 → t = t'
  fresh (id : UInt32) (job : J) : .submit id job ∈ c.log →
    c.shared.nextTaskId = 0 ∨ id < c.shared.nextTaskId
  storing (p : P) (t : TaskIndex) (id smpId : UInt32) : c.pc p = .storeSmpId t id smpId →
    ∃ job, .submit id job ∈ c.log
  run : WellRun c.log

variable {c : Cfg P J} {p : P} {s : Shared J} {l : Pc J} {events : List (Event J)} {t : TaskIndex}
  {w : WorkIndex}

/-! ### Updates of the tables -/

@[simp] lemma setTask_self (s : Shared J) (t : TaskIndex) (slot : TaskSlot J) :
    (s.setTask t slot).tasks t = slot := update_self ..

lemma setTask_of_ne {t' : TaskIndex} (h : t' ≠ t) (s : Shared J) (slot : TaskSlot J) :
    (s.setTask t slot).tasks t' = s.tasks t' := update_of_ne h ..

@[simp] lemma setWork_self (s : Shared J) (w : WorkIndex) (slot : WorkSlot) :
    (s.setWork w slot).work w = slot := update_self ..

lemma setWork_of_ne (h : w' ≠ w) (s : Shared J) (slot : WorkSlot) :
    (s.setWork w slot).work w' = s.work w' := update_of_ne h ..

lemma queuedFor_of_setWork {s : Shared J} {slot : WorkSlot} (hslot : slot.state ≠ .queued)
    (h : (s.setWork w slot).QueuedFor w' t) : w' ≠ w ∧ s.QueuedFor w' t := by
  by_cases hw : w' = w
  · subst hw
    exact absurd (by simpa using h.1) hslot
  · refine ⟨hw, ?_⟩
    rwa [Shared.QueuedFor, setWork_of_ne hw] at h

lemma sameTask_setTask {slot : TaskSlot J} (h : SameTask slot (s.tasks t)) (t' : TaskIndex) :
    SameTask ((s.setTask t slot).tasks t') (s.tasks t') := by
  by_cases ht : t' = t
  · subst ht
    simpa using h
  · rw [setTask_of_ne ht]
    exact .rfl

@[simp] lemma RunCaller.back_task (caller : RunCaller) : (caller.back : Pc J).task = none := by
  cases caller <;> rfl

@[simp] lemma WorkerCaller.back_task (caller : WorkerCaller) : (caller.back : Pc J).task = none := by
  cases caller <;> rfl

lemma RunCaller.back_ne (caller : RunCaller) (t : TaskIndex) (id smpId : UInt32) :
    (caller.back : Pc J) ≠ .storeSmpId t id smpId := by
  cases caller <;> simp [RunCaller.back]

lemma WorkerCaller.back_ne (caller : WorkerCaller) (t : TaskIndex) (id smpId : UInt32) :
    (caller.back : Pc J) ≠ .storeSmpId t id smpId := by
  cases caller <;> simp [WorkerCaller.back]

/-! ### Steps in general -/

/-- A call or the end of a given up submission ends the early time of its own id only. -/
def Event.ends (id : UInt32) (e : Event J) : Prop := (∃ job, e = .call id job) ∨ e = .submitted id 0

lemma Early.append {log : List (Event J)} (h : Early id log) (hevents : ∀ e ∈ events, ¬ e.ends id) :
    Early id (log ++ events) := by
  constructor
  · intro job hmem
    rcases mem_append.mp hmem with hmem | hmem
    · exact h.uncalled job hmem
    · exact hevents _ hmem (.inl ⟨job, rfl⟩)
  · intro hmem
    rcases mem_append.mp hmem with hmem | hmem
    · exact h.kept hmem
    · exact hevents _ hmem (.inr rfl)

/-- A step that deals with the slot `t` at most. -/
lemma Inv.slots_of_own (h : Inv c) (hsame : ∀ t' ≠ t, SameTask (s.tasks t') (c.shared.tasks t'))
    (hwork : ∀ t' ≠ t, ∀ w, s.QueuedFor w t' → c.shared.QueuedFor w t')
    (hl : ∀ t' ≠ t, l.task ≠ some t')
    (hends : ∀ e ∈ events, ∀ id, e.ends id → id = (c.shared.tasks t).id ∧ id ≠ 0)
    (hslot : Slot (after c p s l events) t) (t' : TaskIndex) : Slot (after c p s l events) t' := by
  by_cases ht : t' = t
  · exact ht ▸ hslot
  · refine (h.slot t').other (hl t' ht) (hsame t' ht) (hwork t' ht) fun hearly => ?_
    refine hearly.append fun e he hend => ht ?_
    obtain ⟨hid, hne⟩ := hends e he _ hend
    exact h.distinct t' t hid hne

/-- What is left to show where no id is taken. -/
lemma Inv.of_slots (h : Inv c)
    (hids : ∀ t, (s.tasks t).id = (c.shared.tasks t).id ∨ (s.tasks t).id = 0)
    (hnext : s.nextTaskId = c.shared.nextTaskId)
    (hevents : ∀ id job, .submit id job ∉ events) (hrun : WellRun (c.log ++ events))
    (hstoring : ∀ t id smpId, l = .storeSmpId t id smpId → ∃ job, .submit id job ∈ c.log)
    (hslot : ∀ t, Slot (after c p s l events) t) : Inv (after c p s l events) := by
  refine ⟨hslot, fun t t' heq hne => ?_, fun id job hmem => ?_, fun q t id smpId hq => ?_, hrun⟩
  · rw [after_shared] at heq hne
    have ht : (s.tasks t).id = (c.shared.tasks t).id := (hids t).resolve_right hne
    have ht' : (s.tasks t').id = (c.shared.tasks t').id := (hids t').resolve_right (heq ▸ hne)
    exact h.distinct t t' (ht ▸ ht' ▸ heq) (ht ▸ hne)
  · rw [after_shared, hnext]
    exact h.fresh id job ((mem_append.mp hmem).resolve_right (hevents id job))
  · have hold : ∃ job, .submit id job ∈ c.log := by
      by_cases hqp : q = p
      · subst hqp
        exact hstoring t id smpId (by simpa using hq)
      · exact h.storing q t id smpId (by rwa [after_pc_of_ne hqp] at hq)
    obtain ⟨job, hjob⟩ := hold
    exact ⟨job, mem_append_left _ hjob⟩

section

variable (h : Inv c) (hsame : ∀ t, SameTask (s.tasks t) (c.shared.tasks t))
  (hnext : s.nextTaskId = c.shared.nextTaskId)
  (hwork : ∀ w t, s.QueuedFor w t → c.shared.QueuedFor w t) (hl : l.task = none)
  (hstoring : ∀ t id smpId, l ≠ .storeSmpId t id smpId)
include h hsame hnext hwork hl hstoring

/-- A step that neither changes a task nor takes responsibility for one. -/
lemma Inv.quiet (hevents : ∀ id job, .submit id job ∉ events)
    (hends : ∀ e ∈ events, ∀ id, ¬ e.ends id) (hrun : WellRun (c.log ++ events)) :
    Inv (after c p s l events) := by
  refine h.of_slots (fun t => .inl (hsame t).2.1) hnext hevents hrun
    (fun t id smpId heq => absurd heq (hstoring t id smpId)) fun t => ?_
  refine (h.slot t).other (by simp [hl]) (hsame t) (fun w => hwork w t) fun hearly => ?_
  exact hearly.append fun e he => hends e he _

/-- A quiet step without events. -/
lemma Inv.silent : Inv (after c p s l []) :=
  h.quiet hsame hnext hwork hl hstoring (by simp) (by simp) (by simpa using h.run)

end

/-- A silent step that leaves the tables as they are. -/
lemma Inv.moves (h : Inv c) (hl : l.task = none)
    (hstoring : ∀ t id smpId, l ≠ .storeSmpId t id smpId) : Inv (after c p c.shared l []) :=
  h.silent (fun _ => .rfl) rfl (fun _ _ hw => hw) hl hstoring

lemma eq_zero_or_lt_add_one {next : UInt32} (h : id ≤ next) : next + 1 = 0 ∨ id < next + 1 := by
  rw [UInt32.lt_iff_toNat_lt, UInt32.toNat_add, ← UInt32.toNat_inj, UInt32.toNat_add]
  have hle := UInt32.le_iff_toNat_le.mp h
  have hlt := next.toNat_lt
  simp only [UInt32.toNat_one, UInt32.toNat_zero]
  omega

/-! ### Steps that hand on a task -/

/-- What a step that works on the slot `t` may log, and where it may go on. -/
structure Confined (c : Cfg P J) (t : TaskIndex) (l : Pc J) (events : List (Event J)) : Prop where
  storing : ∀ t id smpId, l ≠ .storeSmpId t id smpId
  fresh : ∀ id job, .submit id job ∉ events
  ends : ∀ e ∈ events, ∀ id, e.ends id → id = (c.shared.tasks t).id ∧ id ≠ 0
  run : WellRun (c.log ++ events)

section

variable (h : Inv c)
include h

omit [DecidableEq P] in
/-- The slot of a call is running. -/
lemma Inv.running_at (hp : c.pc p = l) (hl : l.task = some t) :
    (c.shared.tasks t).state = .running := by
  subst hp
  exact (h.slot t).running (.inl p) hl

omit [DecidableEq P] in
lemma Inv.used_at (hp : c.pc p = l) (hl : l.task = some t) : (c.shared.tasks t).id ≠ 0 ∧
    ∃ job, (c.shared.tasks t).job = some job ∧ .submit (c.shared.tasks t).id job ∈ c.log :=
  (h.slot t).used (by simp [h.running_at hp hl])

omit [DecidableEq P] in
lemma Inv.job_ne_none (hp : c.pc p = l) (hl : l.task = some t) : (c.shared.tasks t).job ≠ none := by
  obtain ⟨-, job, hjob, -⟩ := h.used_at hp hl
  simp [hjob]

omit [DecidableEq P] in
lemma Inv.fits_at (hp : c.pc p = l) (hl : l.task = some t) : l.Fits (c.shared.tasks t) c.log := by
  subst hp
  exact (h.slot t).fits p hl

/-- A step that works on the slot `t` by setting it anew. -/
lemma Inv.setTask_own {slot : TaskSlot J} (hid : slot.id = (c.shared.tasks t).id ∨ slot.id = 0)
    (hl : l.task = none ∨ l.task = some t) (hc : Confined c t l events)
    (hslot : Slot (after c p (c.shared.setTask t slot) l events) t) :
    Inv (after c p (c.shared.setTask t slot) l events) := by
  refine h.of_slots (fun t' => ?_) rfl hc.fresh hc.run
    (fun t id smpId heq => absurd heq (hc.storing t id smpId)) (h.slots_of_own
      (fun t' ht => setTask_of_ne ht c.shared slot ▸ .rfl) (fun _ _ _ hw => hw) ?_ hc.ends hslot)
  · by_cases ht : t' = t
    · subst ht
      simpa using hid
    · exact .inl (by rw [setTask_of_ne ht])
  · intro t' ht heq
    rcases hl with hl | hl <;> rw [hl] at heq
    · cases heq
    · exact ht (some.inj heq).symm

omit [DecidableEq P] in
lemma Inv.confined (hstoring : ∀ t id smpId, l ≠ .storeSmpId t id smpId) : Confined c t l [] :=
  ⟨hstoring, by simp, by simp, by simpa using h.run⟩

variable {l₀ : Pc J}

/-- A step of a call that goes on with its task, in a slot of the same id and job. -/
lemma Inv.keeps {slot : TaskSlot J} (hp : c.pc p = l₀) (hl₀ : l₀.task = some t)
    (hl : l.task = some t) (hid : slot.id = (c.shared.tasks t).id)
    (hjob : slot.job = (c.shared.tasks t).job) (hrunning : slot.state = .running)
    (hfits : l.Fits slot (c.log ++ events)) (hc : Confined c t l events) :
    Inv (after c p (c.shared.setTask t slot) l events) := by
  have htask : (c.pc p).task = some t := hp ▸ hl₀
  refine h.setTask_own (.inl hid) (.inr hl) hc (.held_by
    (fun y hy => (hy.only_party (fun _ hw => hw) ((h.slot t).not_holds_of_task htask)).1) ?_ ?_ ?_)
  · simpa using hrunning
  · simpa using hfits
  · simpa [hid, hjob] using (h.slot t).used_append (by simp [h.running_at hp hl₀])

/-- A step of a call that ends its business with a task. -/
lemma Inv.leaves {slot : TaskSlot J} (hp : c.pc p = l₀) (hl₀ : l₀.task = some t)
    (hl : l.task = none) (hid : slot.id = (c.shared.tasks t).id ∨ slot.id = 0)
    (hc : Confined c t l events) (hqueued : slot.state = .queued → Early slot.id (c.log ++ events))
    (hdone : slot.state = .done → .ret slot.id ∈ c.log ++ events)
    (hused : slot.state ≠ .free → slot.id ≠ 0 ∧
      ∃ job, slot.job = some job ∧ .submit slot.id job ∈ c.log ++ events)
    (hfree : slot.state = .free → slot.id = 0) :
    Inv (after c p (c.shared.setTask t slot) l events) := by
  refine h.setTask_own hid (.inl hl) hc (.unheld (fun y hy => ?_)
    (by simpa using hqueued) (by simpa using hdone) (by simpa using hused) (by simpa using hfree))
  obtain ⟨-, htask⟩ := hy.only_party (fun _ hw => hw) ((h.slot t).not_holds_of_task (hp ▸ hl₀))
  rw [hl] at htask
  cases htask

lemma Inv.step_queue (async : Bool) (hp : c.pc p = .smpFull async t id) :
    Inv (after c p (c.shared.setTask t { c.shared.tasks t with state := .queued }) .idle
      [.submitted id id]) := by
  obtain ⟨rfl, hearly⟩ : id = (c.shared.tasks t).id ∧ Early (c.shared.tasks t).id c.log :=
    h.fits_at hp rfl
  have hused := h.used_at hp rfl
  have hends (e : Event J) (he : e ∈ [.submitted (c.shared.tasks t).id (c.shared.tasks t).id])
      (id : UInt32) : ¬ e.ends id := by
    rw [mem_singleton.mp he]
    rintro (⟨job, heq⟩ | heq)
    · cases heq
    · exact hused.1 (Event.submitted.inj heq).2
  obtain ⟨job, hjob, hsubmit⟩ := hused.2
  refine h.leaves hp rfl rfl (.inl rfl) ⟨by simp, by simp, fun e he id hend =>
    absurd hend (hends e he id), .snoc h.run ⟨⟨job, hsubmit⟩, .inl rfl⟩⟩
    (fun _ => hearly.append fun e he => hends e he _) (by simp)
    (fun _ => (h.slot t).used_append (by simp [h.running_at hp rfl])) (by simp)

lemma Inv.step_drop (hp : c.pc p = .smpFull true t id) :
    Inv (after c p (c.shared.setTask t freeTask) .idle [.submitted id 0]) := by
  obtain ⟨rfl, hearly⟩ : id = (c.shared.tasks t).id ∧ Early (c.shared.tasks t).id c.log :=
    h.fits_at hp rfl
  obtain ⟨hne, job, hjob, hsubmit⟩ := h.used_at hp rfl
  refine h.leaves hp rfl rfl (.inr rfl) ⟨by simp, by simp, fun e he id hend => ?_,
    .snoc h.run ⟨⟨job, hsubmit⟩, .inr ⟨rfl, hearly.uncalled⟩⟩⟩ (by simp [freeTask])
    (by simp [freeTask]) (by simp [freeTask]) (by simp [freeTask])
  rw [mem_singleton.mp he] at hend
  rcases hend with ⟨job, heq⟩ | heq
  · cases heq
  · obtain rfl := (Event.submitted.inj heq).1
    exact ⟨rfl, hne⟩

lemma Inv.step_smpRefused (hp : c.pc p = .smpSubmit async t id) :
    Inv (after c p c.shared (.smpFull async t id) []) := by
  have hknown : id = (c.shared.tasks t).id ∧ Early (c.shared.tasks t).id c.log := h.fits_at hp rfl
  have hfits : Pc.Fits (c.shared.tasks t) (c.log ++ []) (.smpFull async t id) := by
    rw [append_nil]
    exact hknown
  have hkeeps := h.keeps hp rfl rfl rfl rfl (h.running_at hp rfl) hfits (h.confined (by simp))
  simpa [setTask] using hkeeps

lemma Inv.step_start {job : J} (hp : c.pc p = .workerStart t caller)
    (hjob : (c.shared.tasks t).job = some job) :
    Inv (after c p (c.shared.setTask t { c.shared.tasks t with state := .running })
      (.calling t (c.shared.tasks t).id job caller) []) := by
  have hearly : Early (c.shared.tasks t).id c.log := h.fits_at hp rfl
  refine h.keeps hp rfl rfl rfl rfl rfl ?_ (h.confined (by simp))
  rw [append_nil]
  exact ⟨rfl, hjob, hearly⟩

lemma Inv.step_call {job : J} (hp : c.pc p = .calling t id job caller) :
    Inv (after c p c.shared (.inside t id caller) [.call id job]) := by
  obtain ⟨rfl, hjob, hearly⟩ : id = (c.shared.tasks t).id ∧ (c.shared.tasks t).job = some job ∧
    Early (c.shared.tasks t).id c.log := h.fits_at hp rfl
  obtain ⟨hne, job', hjob', hsubmit⟩ := h.used_at hp rfl
  obtain rfl : job' = job := some.inj (hjob'.symm.trans hjob)
  have hkeeps : Inv (after c p (c.shared.setTask t (c.shared.tasks t))
      (.inside t (c.shared.tasks t).id caller) [.call (c.shared.tasks t).id job']) := by
    refine h.keeps hp rfl rfl rfl rfl (h.running_at hp rfl) ⟨rfl, job', by simp⟩
      ⟨by simp, by simp, fun e he id hend => ?_, .snoc h.run ⟨hsubmit, hearly⟩⟩
    rw [mem_singleton.mp he] at hend
    rcases hend with ⟨_, heq⟩ | heq
    · obtain rfl := (Event.call.inj heq).1
      exact ⟨rfl, hne⟩
    · cases heq
  simpa [setTask] using hkeeps

lemma Inv.step_ret (hp : c.pc p = .inside t id caller) :
    Inv (after c p c.shared (.workerFinish t caller) [.ret id]) := by
  obtain ⟨rfl, job, hcall⟩ : id = (c.shared.tasks t).id ∧
    ∃ job, Event.call (c.shared.tasks t).id job ∈ c.log := h.fits_at hp rfl
  have hfits : Pc.Fits (c.shared.tasks t) (c.log ++ [.ret (c.shared.tasks t).id])
      (.workerFinish t caller) := mem_append_right _ (mem_singleton_self _)
  have hkeeps := h.keeps hp rfl rfl rfl rfl (h.running_at hp rfl) hfits
    ⟨by simp, by simp, by simp [Event.ends], .snoc h.run ⟨job, hcall⟩⟩
  simpa [setTask] using hkeeps

lemma Inv.step_finish (hp : c.pc p = .workerFinish t caller) :
    Inv (after c p (c.shared.setTask t { c.shared.tasks t with state := .done })
      caller.back []) := by
  have hret : .ret (c.shared.tasks t).id ∈ c.log := h.fits_at hp rfl
  exact h.leaves hp rfl caller.back_task (.inl rfl) (h.confined caller.back_ne) (by simp)
    (fun _ => by simpa using hret)
    (fun _ => (h.slot t).used_append (by simp [h.running_at hp rfl])) (by simp)

/-- `kernel_task_poll` takes over a task that is queued in the table. -/
lemma Inv.step_poll (hqueued : (c.shared.tasks t).state = .queued) :
    Inv (after c p (c.shared.setTask t { c.shared.tasks t with state := .running })
      (.workerStart t .poll) []) := by
  have hearly : Early (c.shared.tasks t).id (c.log ++ []) := by
    simpa using (h.slot t).queued hqueued
  refine h.setTask_own (.inl rfl) (.inr rfl) (h.confined (by simp)) (.held_by
    (fun y hy => (hy.only_party (fun _ hw => hw) fun y _ =>
      (h.slot t).not_holds_of_state (by simp [hqueued]) y).1) (by simp) ?_ ?_)
  · simpa [Pc.Fits] using hearly
  · simpa using (h.slot t).used (by simp [hqueued])

lemma Inv.step_release (hdone : (c.shared.tasks t).state = .done) (hl : l.task = none)
    (hstoring : ∀ t id smpId, l ≠ .storeSmpId t id smpId) :
    Inv (after c p (c.shared.setTask t freeTask) l []) := by
  refine h.setTask_own (.inr rfl) (.inl hl) (h.confined hstoring)
    (.unheld (fun y hy => ?_) (by simp [freeTask]) (by simp [freeTask]) (by simp [freeTask])
      (by simp [freeTask]))
  obtain ⟨-, htask⟩ := hy.only_party (fun _ hw => hw) fun y _ =>
    (h.slot t).not_holds_of_state (by simp [hdone]) y
  rw [hl] at htask
  cases htask

/-- The item of the work queue hands its task to the core that takes it. -/
lemma Inv.step_take (w : WorkIndex) (caller : RunCaller)
    (hqueued : (c.shared.work w).state = .queued) (htask : (c.shared.work w).task = some t) :
    Inv (after c p (c.shared.setWork w { c.shared.work w with state := .running })
      (.workerStart t (.item w caller)) []) := by
  have hw : c.shared.QueuedFor w t := ⟨hqueued, htask⟩
  have hrunning := (h.slot t).running (.inr w) hw
  have hwork {w' : WorkIndex} {t' : TaskIndex}
      (hw' : (c.shared.setWork w { c.shared.work w with state := .running }).QueuedFor w' t') :
      w' ≠ w ∧ c.shared.QueuedFor w' t' := queuedFor_of_setWork (by simp) hw'
  refine h.of_slots (fun _ => .inl rfl) rfl (by simp) (by simpa using h.run) (by simp)
    (h.slots_of_own (t := t) (fun _ _ => .rfl) (fun t' _ w' hw' => (hwork hw').2)
      (fun t' ht heq => ht (some.inj heq).symm) (by simp) (.held_by (fun y hy => ?_)
        hrunning ?_ ((h.slot t).used_append (by simp [hrunning]))))
  · rcases hy.of_after fun w' hw' => (hwork hw').2 with ⟨hy, -⟩ | ⟨-, hheld⟩
    · exact hy
    · -- The item itself is no longer queued.
      obtain rfl := (h.slot t).unique y (.inr w) hheld hw
      exact absurd rfl (hwork hy).1
  · have hearly := (h.slot t).item w hw
    rw [append_nil]
    exact hearly

/-- The submission hands its task to the work queue. -/
lemma Inv.step_smpQueued (w : WorkIndex) (next : UInt32) (hp : c.pc p = .smpSubmit async t id) :
    Inv (after c p { c.shared.setWork w ⟨.queued, smpId, some t⟩ with nextWorkId := next }
      (.storeSmpId t id smpId) []) := by
  have htask : (c.pc p).task = some t := by rw [hp]; rfl
  obtain ⟨rfl, hearly⟩ : id = (c.shared.tasks t).id ∧ Early (c.shared.tasks t).id c.log :=
    h.fits_at hp rfl
  obtain ⟨hne, job, hjob, hsubmit⟩ := h.used_at hp rfl
  have hwork {w' : WorkIndex} {t' : TaskIndex}
      (hw' : (c.shared.setWork w ⟨.queued, smpId, some t⟩).QueuedFor w' t') :
      w' = w ∧ t' = t ∨ c.shared.QueuedFor w' t' := by
    by_cases heq : w' = w
    · subst heq
      simp only [Shared.QueuedFor, setWork_self, true_and] at hw'
      exact .inl ⟨rfl, (some.inj hw').symm⟩
    · right
      rwa [Shared.QueuedFor, setWork_of_ne heq] at hw'
  refine h.of_slots (fun _ => .inl rfl) rfl (by simp) (by simpa using h.run) ?_
    (h.slots_of_own (t := t) (fun _ _ => .rfl)
      (fun t' ht w' hw' => (hwork hw').resolve_left fun heq => ht heq.2) (by simp [Pc.task])
      (by simp) (.held (x := .inr w) (fun y hy => ?_) (h.running_at hp rfl) (by simp)
        (fun _ _ => by simpa [setWork] using hearly) ((h.slot t).used_append
          (by simp [h.running_at hp rfl]))))
  · rintro t' id' smpId' heq
    obtain ⟨-, rfl, -⟩ := Pc.storeSmpId.inj heq
    exact ⟨job, hsubmit⟩
  cases y with
  | inl q =>
    by_cases hq : q = p
    · subst hq
      simp [Holds, Pc.task] at hy
    · have hheld : Holds c (.inl q) t := by simpa [Holds, after_pc_of_ne hq] using hy
      exact absurd hheld ((h.slot t).not_holds_of_task htask _ (by simpa using hq))
  | inr w' =>
    rcases hwork hy with ⟨rfl, -⟩ | hheld
    · rfl
    · exact absurd hheld ((h.slot t).not_holds_of_task htask (.inr w') (by simp))

/-- The end of a submission that the work queue took. -/
lemma Inv.step_storeSmpId {slot : TaskSlot J} (hp : c.pc p = .storeSmpId t id smpId)
    (hslot : SameTask slot (c.shared.tasks t)) :
    Inv (after c p (c.shared.setTask t slot) .idle [.submitted id id]) := by
  obtain ⟨job, hsubmit⟩ := h.storing p t id smpId hp
  refine h.quiet (sameTask_setTask hslot) rfl (fun _ _ hw => hw) rfl (by simp) (by simp)
    (fun e he i hend => ?_) (.snoc h.run ⟨⟨job, hsubmit⟩, .inl rfl⟩)
  rw [mem_singleton.mp he] at hend
  rcases hend with ⟨_, heq⟩ | heq
  · cases heq
  · exact h.run.submit_ne_zero hsubmit (Event.submitted.inj heq).2

/-- `kernel_task_done` returns 1 for a task that has returned. -/
lemma Inv.step_done (id : UInt32) :
    Inv (after c p c.shared .idle [.done id (c.shared.taskDone id)]) := by
  refine h.quiet (fun _ => .rfl) rfl (fun _ _ hw => hw) rfl (by simp) (by simp)
    (by simp [Event.ends]) (.snoc h.run fun htrue => ?_)
  rw [taskDone] at htrue
  rcases hslot : firstSlot fun t => (c.shared.tasks t).id = id with _ | t
  · simp [hslot] at htrue
  have hid : (c.shared.tasks t).id = id := by simpa using firstSlot_some hslot
  have hdone : (c.shared.tasks t).state = .done := by
    simp only [hslot, Bool.decide_and, Bool.and_eq_true, decide_eq_true_eq] at htrue
    exact htrue.1
  exact hid ▸ (h.slot t).done hdone

/-- A submission fills a free slot under an id that was never used. -/
lemma Inv.step_alloc (async : Bool) (job : J) (hnext : c.shared.nextTaskId ≠ 0)
    (hfree : (c.shared.tasks t).state = .free) :
    Inv (after c p { c.shared.setTask t ⟨.running, c.shared.nextTaskId, 0, some job⟩ with
        nextTaskId := c.shared.nextTaskId + 1 }
      (.smpSubmit async t c.shared.nextTaskId) [.submit c.shared.nextTaskId job]) := by
  have hnew (job' : J) : .submit c.shared.nextTaskId job' ∉ c.log := fun hmem =>
    (h.fresh _ job' hmem).elim hnext fun hlt => absurd hlt (UInt32.lt_irrefl _)
  have hearly : Early c.shared.nextTaskId (c.log ++ [.submit c.shared.nextTaskId job]) := by
    refine Early.append ⟨fun job' hmem => hnew job' (h.run.submit_of_call hmem), fun hmem => ?_⟩
      (by simp [Event.ends])
    obtain ⟨job', hsubmit⟩ := h.run.submit_of_submitted hmem
    exact hnew job' hsubmit
  have hother (t' : TaskIndex) : (c.shared.tasks t').id ≠ c.shared.nextTaskId := by
    intro heq
    have hused : (c.shared.tasks t').state ≠ .free := fun hstate =>
      hnext (heq ▸ (h.slot t').free hstate)
    obtain ⟨-, job', -, hsubmit⟩ := (h.slot t').used hused
    exact hnew job' (heq ▸ hsubmit)
  refine ⟨h.slots_of_own (fun t' ht => ?_) (fun _ _ _ hw => hw)
    (fun t' ht heq => ht (some.inj heq).symm) (by simp [Event.ends])
    (.held_by (fun y hy => (hy.only_party (fun _ hw => hw) fun y _ =>
      (h.slot t).not_holds_of_state (by simp [hfree]) y).1) (by simp) ?_ ?_),
    fun t₁ t₂ heq hne => ?_, fun id job' hmem => ?_, fun q t' id smpId hq => ?_,
    .snoc h.run ⟨hnext, hnew⟩⟩
  · exact (setTask_of_ne ht c.shared _).symm ▸ .rfl
  · simpa [Pc.Fits] using hearly
  · exact ⟨by simpa using hnext, job, by simp⟩
  · change ((c.shared.setTask t _).tasks t₁).id = ((c.shared.setTask t _).tasks t₂).id at heq
    change ((c.shared.setTask t _).tasks t₁).id ≠ 0 at hne
    by_cases h₁ : t₁ = t <;> by_cases h₂ : t₂ = t
    · exact h₁.trans h₂.symm
    · rw [h₁, setTask_self, setTask_of_ne h₂] at heq
      exact absurd heq.symm (hother t₂)
    · rw [h₂, setTask_self, setTask_of_ne h₁] at heq
      exact absurd heq (hother t₁)
    · rw [setTask_of_ne h₁] at heq hne
      rw [setTask_of_ne h₂] at heq
      exact h.distinct t₁ t₂ heq hne
  · -- The new id is the greatest so far, unless the counter has just gone round.
    have hle : id ≤ c.shared.nextTaskId := by
      rcases mem_append.mp hmem with hmem | hmem
      · exact UInt32.le_of_lt ((h.fresh id job' hmem).resolve_left hnext)
      · simp only [mem_singleton, Event.submit.injEq] at hmem
        exact hmem.1 ▸ UInt32.le_refl _
    exact eq_zero_or_lt_add_one hle
  · have hq' : c.pc q = .storeSmpId t' id smpId := by
      rwa [after_pc_of_ne] at hq
      rintro rfl
      simp at hq
    obtain ⟨job', hsubmit⟩ := h.storing q t' id smpId hq'
    exact ⟨job', mem_append_left _ hsubmit⟩

/-- Every step keeps the invariant, as long as the counter of the ids has not gone round. -/
lemma Inv.step {s : Shared J} {l : Pc J} {events : List (Event J)}
    (hstep : Step c.shared (c.pc p) s l events)
    (hnext : ∀ id job, .submit id job ∈ events → c.shared.nextTaskId ≠ 0) :
    Inv (after c p s l events) := by
  generalize hp : c.pc p = l₀ at hstep
  cases hstep with
  | idle | refused | reapFound | reapNext | pollNone | releaseNone | look | checkDone | checkNot
  | waitDone | waitLoop | releaseWorkNone | clearSmpIdLate => exact h.moves rfl (by simp)
  | alloc async job t hslot =>
    have hne := hnext _ job (mem_singleton_self _)
    rw [takeId, if_neg hne]
    exact h.step_alloc async job hne hslot
  | smpQueued async t id w => exact h.step_smpQueued w _ hp
  | smpRefused => exact h.step_smpRefused hp
  | storeSmpId => exact h.step_storeSmpId hp ⟨rfl, rfl, rfl⟩
  | storeSmpIdLate t =>
    have hsame : SameTask (c.shared.tasks t) (c.shared.tasks t) := .rfl
    have hstore := h.step_storeSmpId hp hsame
    simpa [setTask] using hstore
  | queue => exact h.step_queue false hp
  | queueLate t id hother | dropLate t id hother =>
    have hknown : id = (c.shared.tasks t).id ∧ Early (c.shared.tasks t).id c.log := h.fits_at hp rfl
    exact absurd ⟨hknown.1.symm, h.running_at hp rfl⟩ hother
  | drop => exact h.step_drop hp
  | poll _ t hqueued => exact h.step_poll hqueued
  | done _ id => exact h.step_done id
  | release _ t id _ hdone => exact h.step_release hdone rfl (by simp)
  | releaseWork _ _ _ w =>
    exact h.silent (fun _ => .rfl) rfl
      (fun _ _ hw => (queuedFor_of_setWork (by simp [freeWork]) hw).2) rfl (by simp)
  | clearSmpId i =>
    exact h.silent (sameTask_setTask ⟨rfl, rfl, rfl⟩) rfl (fun _ _ hw => hw) rfl (by simp)
  | takeNone caller => exact h.moves caller.back_task caller.back_ne
  | take caller w t hqueued htask => exact h.step_take w caller hqueued htask
  | start t caller job _ hjob => exact h.step_start hp hjob
  | startUnset t _ hunset => exact absurd hunset (h.job_ne_none hp rfl)
  | startLate t _ hinactive => exact absurd (.inr (h.running_at hp rfl)) hinactive
  | call => exact h.step_call hp
  | ret => exact h.step_ret hp
  | finish => exact h.step_finish hp
  | finishLate t _ hother => exact absurd (h.running_at hp rfl) hother
  | storeDone w caller =>
    exact h.silent (fun _ => .rfl) rfl (fun _ _ hw => (queuedFor_of_setWork (by simp) hw).2)
      caller.back_task caller.back_ne

lemma Inv.enter (hbegins : Begins c.log l) : Inv (c.enter p l) := by
  have heq : c.enter p l = after c p c.shared l [] := by simp [Config.enter, after]
  rw [heq]
  cases hbegins <;> exact h.moves rfl (by simp)

omit [DecidableEq P] in
lemma Inv.environment (n : ℕ) : Inv { c with shared := { c.shared with onlineCoreCount := n } } where
  slot t := ⟨(h.slot t).unique, (h.slot t).running, (h.slot t).fits, (h.slot t).item,
    (h.slot t).queued, (h.slot t).done, (h.slot t).used, (h.slot t).free⟩
  distinct := h.distinct
  fresh := h.fresh
  storing := h.storing
  run := h.run

end

omit [DecidableEq P] in
lemma inv_start (n : ℕ) : Inv (⟨.start n, fun _ => .idle, []⟩ : Cfg P J) := by
  have hnone (x : P ⊕ WorkIndex) (t : TaskIndex) :
      ¬ Holds (⟨.start n, fun _ => .idle, []⟩ : Cfg P J) x t := by
    cases x <;> simp [Holds, Shared.QueuedFor, start, freeWork, Pc.task]
  exact ⟨fun t => ⟨fun x _ hx => absurd hx (hnone x t), fun x hx => absurd hx (hnone x t),
      fun p hp => absurd hp (hnone (.inl p) t), fun w hw => absurd hw (hnone (.inr w) t),
      by simp [start, freeTask], by simp [start, freeTask],
      by simp [start, freeTask], by simp [start, freeTask]⟩,
    by simp [start, freeTask], by simp, by simp, .nil⟩

/-! ### The counter of the ids -/

/-- The counter stands behind the submissions so far. -/
def Counted (c : Cfg P J) : Prop :=
  c.shared.nextTaskId = .ofNat (c.log.countP Event.isSubmission + 1)

/-- Ids are taken by submissions only. -/
lemma step_counts {s s' : Shared J} {l l' : Pc J} {events : List (Event J)}
    (h : Step s l s' l' events) :
    (events.countP Event.isSubmission = 0 ∧ s'.nextTaskId = s.nextTaskId) ∨
      (events.countP Event.isSubmission = 1 ∧ s'.nextTaskId = (takeId s.nextTaskId).2) := by
  cases h with
  | alloc => exact .inr ⟨rfl, rfl⟩
  | startUnset t =>
    refine .inl ⟨rfl, ?_⟩
    rw [workerStart]
    split_ifs <;> rfl
  | _ => exact .inl ⟨rfl, rfl⟩

omit [DecidableEq P] in
lemma Counted.nextTaskId_ne_zero (h : Counted c)
    (hlt : c.log.countP Event.isSubmission + 1 < 2 ^ 32) : c.shared.nextTaskId ≠ 0 := by
  rw [h, ne_eq, ← UInt32.toNat_inj, UInt32.toNat_ofNat_of_lt' hlt]
  simp

lemma Counted.after (h : Counted c) (hstep : Step c.shared (c.pc p) s l events)
    (hlt : (c.log ++ events).countP Event.isSubmission < 2 ^ 32) :
    Counted (after c p s l events) := by
  rw [countP_append] at hlt
  rw [Counted, after_shared, after_log, countP_append]
  rcases step_counts hstep with ⟨hcount, hnext⟩ | ⟨hcount, hnext⟩
  · rw [hcount, hnext, h, Nat.add_zero]
  · rw [hcount] at hlt ⊢
    rw [hnext, takeId, if_neg (h.nextTaskId_ne_zero hlt), h, ← UInt32.ofNat_one, ← UInt32.ofNat_add]

/-- In a run with fewer than 2 ^ 32 submissions the invariant holds. -/
lemma inv_of_reachable {ok : Cfg P J → P → Prop} (hc : Reachable (tasks J) ok c)
    (hlt : c.log.countP Event.isSubmission < 2 ^ 32) : Inv c ∧ Counted c := by
  induction hc with
  | start s hinit =>
    obtain ⟨n, rfl⟩ := hinit
    exact ⟨inv_start n, rfl⟩
  | @run c p _ _ ih =>
    obtain ⟨s, l, events, hstep, heq⟩ := run_eq_after c p
    rw [heq] at hlt ⊢
    obtain ⟨hinv, hcounted⟩ := ih (by
      rw [after_log, countP_append] at hlt
      exact Nat.lt_of_le_of_lt (Nat.le_add_right _ _) hlt)
    refine ⟨hinv.step hstep fun id job hmem => hcounted.nextTaskId_ne_zero ?_,
      hcounted.after hstep hlt⟩
    have hpos : 0 < events.countP Event.isSubmission := countP_pos_iff.mpr ⟨_, hmem, rfl⟩
    rw [after_log, countP_append] at hlt
    omega
  | enter p l _ _ hbegins ih =>
    obtain ⟨hinv, hcounted⟩ := ih hlt
    exact ⟨hinv.enter hbegins, hcounted⟩
  | environment s _ hchange ih =>
    obtain ⟨n, rfl⟩ := hchange
    obtain ⟨hinv, hcounted⟩ := ih hlt
    exact ⟨hinv.environment n, hcounted⟩

/-- **Tasks run once.** In every run of any number of cores with fewer than 2 ^ 32 submissions, the ids
of the submissions are distinct, the function of each is called at most once and with its own argument,
a submission that returned 0 is never called, and `kernel_task_done` returns 1 only after the call has
returned. -/
theorem tasks_run_once (c : Cfg P J) (hc : Reachable (tasks J) (fun _ _ => True) c)
    (hlt : c.log.countP Event.isSubmission < 2 ^ 32) :
    (∀ id, c.log.countP (Event.isSubmit id) ≤ 1 ∧ c.log.countP (Event.isCall id) ≤ 1) ∧
    (∀ id job before rest, c.log = before ++ .call id job :: rest → .submit id job ∈ before) ∧
    (∀ id, .submitted id 0 ∈ c.log → ∀ job, .call id job ∉ c.log) ∧
    (∀ id before rest, c.log = before ++ .ret id :: rest → ∃ job, .call id job ∈ before) ∧
    ∀ id before rest, c.log = before ++ .done id true :: rest → .ret id ∈ before := by
  have hrun := (inv_of_reachable hc hlt).1.run
  refine ⟨fun id => ⟨hrun.submit_count_le id, hrun.call_count_le id⟩,
    fun id job before rest heq => ?_, fun id hrefused => hrun.not_call_of_refused hrefused,
    fun id before rest heq => ?_, fun id before rest heq => ?_⟩
  · exact (hrun.admits_of_eq heq : _ ∧ Early id before).1
  · exact hrun.admits_of_eq heq
  · exact (hrun.admits_of_eq heq : true = true → Event.ret id ∈ before) rfl

/-- Core `false` submits a task. -/
def submitOne : Cfg Bool ℕ :=
  (Config.enter ⟨.start 2, fun _ => .idle, []⟩ false (.allocTask false 7)).runs (tasks ℕ)
    (List.replicate 3 false)

/-- Core `true` runs it. -/
def submitRun : Cfg Bool ℕ :=
  (submitOne.enter true (.takeWork .core)).runs (tasks ℕ) (List.replicate 6 true)

/-- Core `false` asks whether it is done. -/
def submitRunAsk : Cfg Bool ℕ :=
  (submitRun.enter false (.reap 0 (.done 1))).runs (tasks ℕ) (List.replicate 37 false)

lemma submitRunAsk_log : submitRunAsk.log =
    [.submit 1 7, .submitted 1 1, .call 1 7, .ret 1, .done 1 true] := by
  decide +kernel

/-- A core begins a call. -/
lemma reachable_enter {ok : Cfg P J → P → Prop} (hc : Reachable (tasks J) ok c)
    (hp : c.pc p = .idle) (hl : Begins c.log l) : Reachable (tasks J) ok (c.enter p l) :=
  .enter p l hc hp hl

lemma submitRun_reachable : Reachable (tasks ℕ) (fun _ _ => True) submitRun := by
  have hmeets (c : Cfg Bool ℕ) (ps : List Bool) : Meets (tasks ℕ) (fun _ _ => True) c ps :=
    Meets.of_forall (fun _ _ => trivial) c ps
  have hsubmit : Reachable (tasks ℕ) (fun _ _ => True) submitOne :=
    (reachable_enter (.start _ ⟨2, rfl⟩) rfl (.submit false 7)).runs (hmeets _ _)
  exact (reachable_enter hsubmit (by decide +kernel) .runOneWorkItem).runs (hmeets _ _)

lemma submitRunAsk_reachable : Reachable (tasks ℕ) (fun _ _ => True) submitRunAsk :=
  (reachable_enter submitRun_reachable (by decide +kernel) (.done 1 (by decide))).runs
    (.of_forall (fun _ _ => trivial) _ _)

theorem tasks_run_once_submitRunAsk : submitRunAsk.log =
      [.submit 1 7, .submitted 1 1, .call 1 7, .ret 1, .done 1 true] ∧
    submitRunAsk.log.countP (Event.isCall 1) ≤ 1 ∧
    Event.ret 1 ∈ [Event.submit 1 7, .submitted 1 1, .call 1 7, .ret 1] := by
  have honce := tasks_run_once submitRunAsk submitRunAsk_reachable (by rw [submitRunAsk_log]; decide)
  exact ⟨submitRunAsk_log, (honce.1 1).2, honce.2.2.2.2 1 _ [] submitRunAsk_log⟩

/-- In every run at most one call or queued item is responsible for a task slot, which is then
running. -/
theorem task_one_owner (c : Cfg P J) (hc : Reachable (tasks J) (fun _ _ => True) c)
    (hlt : c.log.countP Event.isSubmission < 2 ^ 32) (t : TaskIndex) (h h' : P ⊕ WorkIndex)
    (hh : Holds c h t) (hh' : Holds c h' t) : h = h' ∧ (c.shared.tasks t).state = .running := by
  have hslot := (inv_of_reachable hc hlt).1.slot t
  exact ⟨hslot.unique h h' hh hh', hslot.running h hh⟩

theorem task_one_owner_submitOne : Holds submitOne (.inr 0) 0 ∧
    ∀ h, Holds submitOne h 0 → h = .inr 0 := by
  have hheld : Holds submitOne (.inr 0) 0 := ⟨by decide +kernel, by decide +kernel⟩
  have hc : Reachable (tasks ℕ) (fun _ _ => True) submitOne :=
    (reachable_enter (.start _ ⟨2, rfl⟩) rfl (.submit false 7)).runs
      (.of_forall (fun _ _ => trivial) _ _)
  exact ⟨hheld, fun h hh => (task_one_owner _ hc (by decide +kernel) 0 h _ hh hheld).1⟩

end Smp
