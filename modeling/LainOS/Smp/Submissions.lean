import LainOS.Smp.WorkSlots

/-!
# Submissions and releases

While a submission is going on, its slot keeps its id and has no SMP id yet. It gets one at most once,
at the end of the submission; so a task that `kernel_task_done` found done after that is released
without an SMP id.
-/

namespace Smp

open Parties List

variable {P J : Type*} [DecidableEq P]

/-- The slot and the id of the submission that a call is. -/
def Pc.submission : Pc J → Option (TaskIndex × UInt32)
  | .smpSubmit _ t id | .smpFull _ t id | .storeSmpId t id _ => some (t, id)
  | _ => none

def RunCaller.goal : RunCaller → Option Goal
  | .core => none
  | .wait _ _ goal => some goal

def WorkerCaller.goal : WorkerCaller → Option Goal
  | .item _ caller => caller.goal
  | .poll => none

/-- What a call is for that has begun with `kernel_task_release_finished_smp`. -/
def Pc.goal : Pc J → Option Goal
  | .reap _ goal | .check _ _ goal | .waiting _ _ goal | .releaseWork _ _ goal
  | .clearSmpId _ _ goal => some goal
  | .takeWork caller | .storeDone _ caller => caller.goal
  | .workerStart _ caller | .calling _ _ _ caller | .inside _ _ caller | .workerFinish _ caller =>
    caller.goal
  | _ => none

@[simp] lemma RunCaller.back_goal (caller : RunCaller) :
    (caller.back : Pc J).goal = caller.goal := by
  cases caller <;> rfl

@[simp] lemma WorkerCaller.back_goal (caller : WorkerCaller) :
    (caller.back : Pc J).goal = caller.goal := by
  cases caller <;> rfl

@[simp] lemma RunCaller.back_submission (caller : RunCaller) :
    (caller.back : Pc J).submission = none := by
  cases caller <;> rfl

@[simp] lemma WorkerCaller.back_submission (caller : WorkerCaller) :
    (caller.back : Pc J).submission = none := by
  cases caller <;> rfl

/-- `kernel_task_done(id)` has returned 1 after the end of the submission. -/
def Finished (log : List (Event J)) (id : UInt32) : Prop :=
  ∃ before rest, log = before ++ .done id true :: rest ∧ .submitted id id ∈ before

namespace Finished

variable {log : List (Event J)} {id : UInt32} {e : Event J}

lemma append (h : Finished log id) (events : List (Event J)) : Finished (log ++ events) id := by
  obtain ⟨before, rest, rfl, hsubmitted⟩ := h
  exact ⟨before, rest ++ events, by simp, hsubmitted⟩

lemma submitted (h : Finished log id) : .submitted id id ∈ log := by
  obtain ⟨before, rest, rfl, hsubmitted⟩ := h
  exact mem_append_left _ hsubmitted

lemma of_snoc (h : Finished (log ++ [e]) id) :
    Finished log id ∨ e = .done id true ∧ .submitted id id ∈ log := by
  obtain ⟨before, rest, heq, hsubmitted⟩ := h
  rcases eq_nil_or_concat rest with rfl | ⟨rest', x, rfl⟩
  · obtain ⟨rfl, heq⟩ := append_inj' heq rfl
    exact .inr ⟨by simpa using heq, hsubmitted⟩
  · rw [concat_eq_append, ← cons_append, ← append_assoc] at heq
    exact .inl ⟨before, rest', (append_inj' heq rfl).1, hsubmitted⟩

end Finished

structure SubmitInv (c : Cfg P J) : Prop where
  free (t : TaskIndex) : (c.shared.tasks t).state = .free → (c.shared.tasks t).smpId = 0
  own (p : P) (t : TaskIndex) (id : UInt32) : (c.pc p).submission = some (t, id) →
    (c.shared.tasks t).id = id ∧ id ≠ 0 ∧ (c.shared.tasks t).smpId = 0 ∧ .submitted id id ∉ c.log
  sole (p q : P) (t : TaskIndex) (id id' : UInt32) : (c.pc p).submission = some (t, id) →
    (c.pc q).submission = some (t, id') → p = q
  finished (id : UInt32) (t : TaskIndex) : Finished c.log id → (c.shared.tasks t).id = id →
    (c.shared.tasks t).smpId = 0
  goal (p : P) (id : UInt32) : (c.pc p).goal = some (.release id) → Finished c.log id

variable {c : Cfg P J} {p : P} {s : Shared J} {l : Pc J} {events : List (Event J)} {t : TaskIndex}
  {id : UInt32}

namespace SubmitInv

/-- The goals that parties have after a step of `p`. -/
lemma goal_after (h : SubmitInv c) (hl : l.goal = none ∨ l.goal = (c.pc p).goal) (q : P)
    (hq : ((after c p s l events).pc q).goal = some (.release id)) :
    Finished (c.log ++ events) id :=
  (h.goal q id (had_before hl hq)).append events

section

variable (h : SubmitInv c) (hid : ∀ t, (s.tasks t).id = (c.shared.tasks t).id)
  (hsmp : ∀ t, (s.tasks t).smpId = (c.shared.tasks t).smpId ∨ (s.tasks t).smpId = 0)
  (hfree : ∀ t, (s.tasks t).state = .free → (c.shared.tasks t).state = .free)
  (hl : l.submission = none ∨ l.submission = (c.pc p).submission)
  (hgoal : l.goal = none ∨ l.goal = (c.pc p).goal)
include h hid hsmp hfree hl hgoal

/-- A step that is not the end of a submission and frees no slot. -/
lemma move (hsubmitted : ∀ id, .submitted id id ∉ events)
    (hfinished : ∀ id t, Finished (c.log ++ events) id → (c.shared.tasks t).id = id →
      (c.shared.tasks t).smpId = 0) : SubmitInv (after c p s l events) := by
  have hzero {t : TaskIndex} (ht : (c.shared.tasks t).smpId = 0) : (s.tasks t).smpId = 0 :=
    (hsmp t).elim (fun heq => heq.trans ht) fun heq => heq
  refine ⟨fun t ht => hzero (h.free t (hfree t ht)), fun q t id hq => ?_,
    fun q q' t id id' hq hq' => h.sole q q' t id id' (had_before hl hq) (had_before hl hq'),
    fun id t hfin ht => hzero (hfinished id t hfin ((hid t).symm.trans ht)),
    fun q id => h.goal_after hgoal q⟩
  obtain ⟨heq, hne, hsmpId, hnot⟩ := h.own q t id (had_before hl hq)
  refine ⟨(hid t).trans heq, hne, hzero hsmpId, ?_⟩
  exact fun hmem => (mem_append.mp hmem).elim hnot (hsubmitted id)

/-- A step without events that leaves the tasks as they are, up to their states. -/
lemma silent : SubmitInv (after c p s l []) :=
  h.move hid hsmp hfree hl hgoal (by simp) (by simpa using h.finished)

end

variable (h : SubmitInv c)
include h

omit [DecidableEq P] in
/-- The other submissions go on where one slot is set that is not theirs. -/
lemma own_other {slot : TaskSlot J} {q : P} {t' : TaskIndex} {id' : UInt32}
    (hq : (c.pc q).submission = some (t', id')) (ht : t' ≠ t)
    (hsubmitted : .submitted id' id' ∉ events) :
    ((c.shared.setTask t slot).tasks t').id = id' ∧ id' ≠ 0 ∧
      ((c.shared.setTask t slot).tasks t').smpId = 0 ∧ .submitted id' id' ∉ c.log ++ events := by
  obtain ⟨heq, hne, hsmpId, hnot⟩ := h.own q t' id' hq
  rw [setTask_of_ne ht]
  refine ⟨heq, hne, hsmpId, ?_⟩
  exact fun hmem => (mem_append.mp hmem).elim hnot hsubmitted

/-- The slot `t`, which no other submission is about, is set, and `p` is done. -/
lemma setSlot {slot : TaskSlot J} (hfree : slot.state = .free → slot.smpId = 0)
    (hslot : ∀ id, Finished c.log id → slot.id = id → slot.smpId = 0)
    (hsole : ∀ q id, q ≠ p → (c.pc q).submission ≠ some (t, id))
    (hlog : ∀ id, Finished (c.log ++ events) id → Finished c.log id)
    (hevents : ∀ q t' id, t' ≠ t → (c.pc q).submission = some (t', id) →
      .submitted id id ∉ events) : SubmitInv (after c p (c.shared.setTask t slot) .idle events) := by
  have hold {q : P} {t' : TaskIndex} {id : UInt32}
      (hq : ((after c p (c.shared.setTask t slot) .idle events).pc q).submission =
        some (t', id)) : t' ≠ t ∧ (c.pc q).submission = some (t', id) := by
    rcases after_pc_cases hq with ⟨-, hidle⟩ | ⟨hqp, hold⟩
    · cases hidle
    refine ⟨?_, hold⟩
    rintro rfl
    exact hsole q id hqp hold
  refine ⟨fun t' => ?_, fun q t' id hq => ?_,
    fun q q' t' i i' hq hq' => h.sole q q' t' i i' (hold hq).2 (hold hq').2,
    fun id t' hfin => ?_, fun q id => h.goal_after (.inl rfl) q⟩
  · by_cases ht : t' = t
    · subst ht
      simpa using hfree
    · rw [after_shared, setTask_of_ne ht]
      exact h.free t'
  · obtain ⟨ht, hother⟩ := hold hq
    exact h.own_other hother ht (hevents q t' id ht hother)
  · by_cases ht : t' = t
    · subst ht
      rw [after_shared, setTask_self]
      exact hslot id (hlog id hfin)
    · rw [after_shared, setTask_of_ne ht]
      exact h.finished id t' (hlog id hfin)

/-- The end of a submission. -/
lemma ends (hinv : Inv c) {slot : TaskSlot J} {result : UInt32}
    (hp : (c.pc p).submission = some (t, id)) (hfree : slot.state = .free → slot.smpId = 0)
    (hslot : slot.id = id ∨ slot.smpId = 0) :
    SubmitInv (after c p (c.shared.setTask t slot) .idle [.submitted id result]) := by
  obtain ⟨heq, hne, -, hnot⟩ := h.own p t id hp
  refine h.setSlot hfree (fun id' hfin hid' => ?_)
    (fun q id' hqp hq => hqp (h.sole q p t id' id hq hp))
    (fun id' hfin => hfin.of_snoc.resolve_right fun hdone => by cases hdone.1)
    fun q t' id' ht hq hmem => ?_
  · rcases hslot with hslot | hslot
    · -- A finished task has ended its submission before.
      obtain rfl : id = id' := hslot.symm.trans hid'
      exact absurd hfin.submitted hnot
    · exact hslot
  · obtain ⟨rfl, -⟩ := Event.submitted.inj (mem_singleton.mp hmem)
    obtain ⟨heq', -⟩ := h.own q t' id' hq
    exact ht (hinv.distinct t' t (heq'.trans heq.symm) (heq' ▸ hne))

/-- A task is released once it is finished. -/
lemma release {n : ℕ} (hp : c.pc p = .reap n (.release id)) (hid : (c.shared.tasks t).id = id) :
    SubmitInv (after c p (c.shared.setTask t freeTask) .idle []) := by
  have hfin : Finished c.log id := h.goal p id (by rw [hp]; rfl)
  refine h.setSlot (fun _ => rfl) (fun _ _ _ => rfl) (fun q id' _ hq => ?_) (by simp) (by simp)
  obtain ⟨heq, -, -, hnot⟩ := h.own q t id' hq
  obtain rfl := hid.symm.trans heq
  exact hnot hfin.submitted

/-- A submission begins in a slot that no other one is about. -/
lemma alloc (hinv : Inv c) (async : Bool) (job : J) (hnext : c.shared.nextTaskId ≠ 0)
    (hfree : (c.shared.tasks t).state = .free) :
    SubmitInv (after c p { c.shared.setTask t ⟨.running, c.shared.nextTaskId, 0, some job⟩ with
        nextTaskId := c.shared.nextTaskId + 1 }
      (.smpSubmit async t c.shared.nextTaskId) [.submit c.shared.nextTaskId job]) := by
  have hnone {q : P} {id : UInt32} : (c.pc q).submission ≠ some (t, id) := by
    intro hq
    obtain ⟨heq, hne, -⟩ := h.own q t id hq
    exact hne (heq ▸ (hinv.slot t).free hfree)
  refine ⟨fun t' => ?_, fun q t' id' hq => ?_, fun q q' t' i i' hq hq' => ?_,
    fun id' t' hfin => ?_, fun q id' => h.goal_after (.inl rfl) q⟩
  · by_cases ht : t' = t
    · subst ht
      simp
    · simpa [Shared.setTask, Function.update_of_ne ht] using h.free t'
  · rcases after_pc_cases hq with
      ⟨-, hp⟩ | ⟨-, hold⟩
    · obtain ⟨rfl, rfl⟩ : t = t' ∧ c.shared.nextTaskId = id' := by simpa [Pc.submission] using hp
      refine ⟨by simp, hnext, by simp, ?_⟩
      simp only [after_log, mem_append, mem_singleton, reduceCtorEq, or_false]
      intro hmem
      obtain ⟨job', hsubmit⟩ := hinv.run.submit_of_submitted hmem
      exact (hinv.fresh _ job' hsubmit).elim hnext (UInt32.lt_irrefl _)
    · refine h.own_other hold ?_ (by simp)
      rintro rfl
      exact hnone hold
  · rcases after_pc_cases hq with
      ⟨hqp, hp⟩ | ⟨hqp, hold⟩ <;>
      rcases after_pc_cases hq' with
        ⟨hqp', hp'⟩ | ⟨hqp', hold'⟩
    · exact hqp.trans hqp'.symm
    · obtain ⟨rfl, -⟩ : t = t' ∧ c.shared.nextTaskId = i := by simpa [Pc.submission] using hp
      exact absurd hold' hnone
    · obtain ⟨rfl, -⟩ : t = t' ∧ c.shared.nextTaskId = i' := by simpa [Pc.submission] using hp'
      exact absurd hold hnone
    · exact h.sole q q' t' i i' hold hold'
  · have hfin' : Finished c.log id' := hfin.of_snoc.resolve_right fun hdone => by cases hdone.1
    by_cases ht : t' = t
    · subst ht
      simp
    · simpa [Shared.setTask, Function.update_of_ne ht] using h.finished id' t' hfin'

/-- What `kernel_task_done` found done, if its submission had ended, has no SMP id. -/
lemma done (hinv : Inv c) (id : UInt32) :
    SubmitInv (after c p c.shared .idle [.done id (c.shared.taskDone id)]) := by
  refine h.move (fun _ => rfl) (fun _ => .inl rfl) (fun _ hfree => hfree) (.inl rfl) (.inl rfl)
    (by simp) fun id' t hfin ht => ?_
  rcases hfin.of_snoc with hfin | ⟨hdone, hsubmitted⟩
  · exact h.finished id' t hfin ht
  obtain ⟨rfl, htrue⟩ := Event.done.inj hdone
  obtain ⟨job, hsubmit⟩ := hinv.run.submit_of_submitted hsubmitted
  have hne := hinv.run.submit_ne_zero hsubmit
  rw [Shared.taskDone] at htrue
  rcases hslot : firstSlot fun t => (c.shared.tasks t).id = id with _ | t'
  · simp [hslot] at htrue
  have hid : (c.shared.tasks t').id = id := by simpa using firstSlot_some hslot
  obtain rfl : t = t' := hinv.distinct t t' (ht.trans hid.symm) (ht ▸ hne)
  simp only [hslot, Bool.decide_and, Bool.and_eq_true, decide_eq_true_eq] at htrue
  exact htrue.2

/-- A step that sets the state of a slot in use. -/
lemma setState {state : SlotState} (hstate : state ≠ .free)
    (hl : l.submission = none ∨ l.submission = (c.pc p).submission)
    (hgoal : l.goal = none ∨ l.goal = (c.pc p).goal) :
    SubmitInv (after c p (c.shared.setTask t { c.shared.tasks t with state := state }) l []) := by
  refine h.silent (fun t' => ?_) (fun t' => .inl ?_) (fun t' => ?_) hl hgoal
  all_goals
    by_cases ht : t' = t
    · subst ht
      simp [hstate]
    · simp [setTask_of_ne ht]

lemma moves (htasks : s.tasks = c.shared.tasks)
    (hl : l.submission = none ∨ l.submission = (c.pc p).submission)
    (hgoal : l.goal = none ∨ l.goal = (c.pc p).goal) : SubmitInv (after c p s l []) :=
  h.silent (fun _ => by rw [htasks]) (fun _ => .inl (by rw [htasks])) (fun _ => by simp [htasks]) hl
    hgoal

lemma clear (hl : l.submission = none) (hgoal : l.goal = (c.pc p).goal) :
    SubmitInv (after c p (c.shared.setTask t { c.shared.tasks t with smpId := 0 }) l []) := by
  refine h.silent (fun t' => ?_) (fun t' => ?_) (fun t' => ?_) (.inl hl) (.inr hgoal)
  all_goals
    by_cases ht : t' = t
    · subst ht
      simp
    · simp [setTask_of_ne ht]

lemma step (hinv : Inv c) (hstep : Step c.shared (c.pc p) s l events)
    (hnext : ∀ async job, c.pc p = .allocTask async job → c.shared.nextTaskId ≠ 0) :
    SubmitInv (after c p s l events) := by
  generalize hp : c.pc p = l₀ at hstep
  cases hstep with
  | alloc async job t hfree =>
    have hne := hnext async job hp
    rw [takeId, if_neg hne]
    exact h.alloc hinv async job hne hfree
  | smpQueued | smpRefused => exact h.moves rfl (.inr (by rw [hp]; rfl)) (.inl rfl)
  | storeSmpId t id smpId hsame =>
    have hown : (c.pc p).submission = some (t, id) := by rw [hp]; rfl
    obtain ⟨heq, hne, -⟩ := h.own p t id hown
    refine h.ends hinv hown (fun hfree => ?_) (.inl hsame)
    exact absurd ((hinv.slot t).free hfree) (heq ▸ hne)
  | storeSmpIdLate t id smpId hother => exact absurd (h.own p t id (by rw [hp]; rfl)).1 hother
  | queue t id hsame => exact h.ends hinv (by rw [hp]; rfl) (by simp) (.inl hsame)
  | queueLate t id hother | dropLate t id hother =>
    have hrunning := hinv.running_at (t := t) hp rfl
    exact absurd ⟨(h.own p t id (by rw [hp]; rfl)).1, hrunning⟩ hother
  | drop t id => exact h.ends hinv (by rw [hp]; rfl) (fun _ => rfl) (.inr rfl)
  | poll i t => exact h.setState (by simp) (.inl rfl) (.inl rfl)
  | done i id => exact h.done hinv id
  | release i t id hsame => exact h.release hp hsame
  | clearSmpId i => exact h.clear rfl (by rw [hp]; rfl)
  | takeNone caller =>
    exact h.moves rfl (.inl caller.back_submission) (.inr (by rw [hp, caller.back_goal]; rfl))
  | start t caller => exact h.setState (by simp) (.inl rfl) (.inr (by rw [hp]; rfl))
  | startUnset t caller hunset => exact absurd hunset (hinv.job_ne_none hp rfl)
  | call | ret =>
    exact h.move (fun _ => rfl) (fun _ => .inl rfl) (fun _ hfree => hfree) (.inl rfl)
      (.inr (by rw [hp]; rfl)) (by simp) fun id t hfin =>
        h.finished id t (hfin.of_snoc.resolve_right fun hdone => by cases hdone.1)
  | finish t caller =>
    exact h.setState (by simp) (.inl caller.back_submission)
      (.inr (by rw [hp, caller.back_goal]; rfl))
  | finishLate t caller =>
    exact h.moves rfl (.inl caller.back_submission) (.inr (by rw [hp, caller.back_goal]; rfl))
  | storeDone w caller =>
    exact h.moves rfl (.inl caller.back_submission) (.inr (by rw [hp, caller.back_goal]; rfl))
  | idle | refused | pollNone | releaseNone | look => exact h.moves rfl (.inl rfl) (.inl rfl)
  | _ => exact h.moves rfl (.inl rfl) (.inr (by rw [hp]; rfl))

/-- A call begins; if it is a release, its task is finished. -/
lemma enter (hbegins : Begins c.log l) : SubmitInv (after c p c.shared l []) := by
  have hidle : SubmitInv (after c p c.shared .idle []) := h.moves rfl (.inl rfl) (.inl rfl)
  have hsame (q : P) : ((after c p c.shared l []).pc q).submission =
      ((after c p c.shared .idle []).pc q).submission := by
    by_cases hq : q = p
    · subst hq
      cases hbegins <;> simp [Pc.submission]
    · rw [after_pc_of_ne hq, after_pc_of_ne hq]
  refine ⟨hidle.free, fun q t id hq => hidle.own q t id (hsame q ▸ hq),
    fun q q' t id id' hq hq' => hidle.sole q q' t id id' (hsame q ▸ hq) (hsame q' ▸ hq'),
    hidle.finished, fun q id hq => ?_⟩
  rw [after_log, append_nil]
  rcases after_pc_cases hq with ⟨-, hp⟩ | ⟨-, hold⟩
  · cases hbegins with
    | release i _ before rest hdone hsubmitted =>
      obtain rfl : i = id := by simpa [Pc.goal] using hp
      exact ⟨before, rest, hdone, hsubmitted⟩
    | _ => cases hp
  · exact h.goal q id hold

end SubmitInv

end Smp
