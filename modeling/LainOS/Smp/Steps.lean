import LainOS.Smp.Tasks

/-!
# What a step can do

`Step` lists the branches of `next` with their guards; the invariants are proved case by case on it.
-/

namespace Smp

open Parties Shared

variable {J : Type*}

lemma firstSlot_some {n : ℕ} {p : Fin n → Bool} {i : Fin n} (h : firstSlot p = some i) : p i :=
  List.find?_some h

lemma firstSlot_none {n : ℕ} {p : Fin n → Bool} (h : firstSlot p = none) (i : Fin n) : ¬ p i :=
  List.find?_eq_none.mp h i (List.mem_finRange i)

/-- The branches of a step from a control point. -/
inductive Step (s : Shared J) : Pc J → Shared J → Pc J → List (Event J) → Prop
  | idle : Step s .idle s .idle []
  | refused (async : Bool) (job : J) : Step s (.allocTask async job) s .idle []
  | alloc (async : Bool) (job : J) (t : TaskIndex) (free : (s.tasks t).state = .free) :
    Step s (.allocTask async job)
      { s.setTask t ⟨.running, (takeId s.nextTaskId).1, 0, some job⟩ with
        nextTaskId := (takeId s.nextTaskId).2 }
      (.smpSubmit async t (takeId s.nextTaskId).1) [.submit (takeId s.nextTaskId).1 job]
  | smpQueued (async : Bool) (t : TaskIndex) (id : UInt32) (w : WorkIndex)
    (free : (s.work w).state = .free) :
    Step s (.smpSubmit async t id)
      { s.setWork w ⟨.queued, (takeId s.nextWorkId).1, some t⟩ with
        nextWorkId := (takeId s.nextWorkId).2 }
      (.storeSmpId t id (takeId s.nextWorkId).1) []
  | smpRefused (async : Bool) (t : TaskIndex) (id : UInt32) :
    Step s (.smpSubmit async t id) s (.smpFull async t id) []
  | storeSmpId (t : TaskIndex) (id smpId : UInt32) (same : (s.tasks t).id = id) :
    Step s (.storeSmpId t id smpId) (s.setTask t { s.tasks t with smpId := smpId }) .idle
      [.submitted id id]
  | storeSmpIdLate (t : TaskIndex) (id smpId : UInt32) (other : (s.tasks t).id ≠ id) :
    Step s (.storeSmpId t id smpId) s .idle [.submitted id id]
  | queue (t : TaskIndex) (id : UInt32) (same : (s.tasks t).id = id)
    (running : (s.tasks t).state = .running) :
    Step s (.smpFull false t id) (s.setTask t { s.tasks t with state := .queued }) .idle
      [.submitted id id]
  | queueLate (t : TaskIndex) (id : UInt32)
    (other : ¬((s.tasks t).id = id ∧ (s.tasks t).state = .running)) :
    Step s (.smpFull false t id) s .idle [.submitted id id]
  | drop (t : TaskIndex) (id : UInt32) (same : (s.tasks t).id = id)
    (running : (s.tasks t).state = .running) :
    Step s (.smpFull true t id) (s.setTask t freeTask) .idle [.submitted id 0]
  | dropLate (t : TaskIndex) (id : UInt32)
    (other : ¬((s.tasks t).id = id ∧ (s.tasks t).state = .running)) :
    Step s (.smpFull true t id) s .idle [.submitted id 0]
  | reapFound (i : TaskIndex) (goal : Goal) (done : (s.tasks i).state = .done)
    (nonzero : (s.tasks i).smpId ≠ 0) :
    Step s (.reap i goal) s (.check i (s.tasks i).smpId goal) []
  | reapNext (i : ℕ) (goal : Goal) : Step s (.reap i goal) s (.reap (i + 1) goal) []
  | pollNone (i : ℕ) : Step s (.reap i .poll) s .idle []
  | poll (i : ℕ) (t : TaskIndex) (queued : (s.tasks t).state = .queued) :
    Step s (.reap i .poll) (s.setTask t { s.tasks t with state := .running })
      (.workerStart t .poll) []
  | done (i : ℕ) (id : UInt32) : Step s (.reap i (.done id)) s .idle [.done id (s.taskDone id)]
  | releaseNone (i : ℕ) (id : UInt32) : Step s (.reap i (.release id)) s .idle []
  | release (i : ℕ) (t : TaskIndex) (id : UInt32) (same : (s.tasks t).id = id)
    (done : (s.tasks t).state = .done) :
    Step s (.reap i (.release id)) (s.setTask t freeTask) .idle []
  | look (i : ℕ) : Step s (.reap i .look) s .idle []
  | checkDone (i : TaskIndex) (smpId : UInt32) (goal : Goal) (done : s.smpWorkDone smpId) :
    Step s (.check i smpId goal) s (.waiting i smpId goal) []
  | checkNot (i : TaskIndex) (smpId : UInt32) (goal : Goal) :
    Step s (.check i smpId goal) s (.reap (i + 1) goal) []
  | waitDone (i : TaskIndex) (smpId : UInt32) (goal : Goal) (done : s.smpWorkDone smpId) :
    Step s (.waiting i smpId goal) s (.releaseWork i smpId goal) []
  | waitLoop (i : TaskIndex) (smpId : UInt32) (goal : Goal) (notDone : ¬ s.smpWorkDone smpId) :
    Step s (.waiting i smpId goal) s (.takeWork (.wait i smpId goal)) []
  | releaseWork (i : TaskIndex) (smpId : UInt32) (goal : Goal) (w : WorkIndex)
    (same : (s.work w).id = smpId) (done : (s.work w).state = .done) :
    Step s (.releaseWork i smpId goal) (s.setWork w freeWork) (.clearSmpId i smpId goal) []
  | releaseWorkNone (i : TaskIndex) (smpId : UInt32) (goal : Goal)
    (none : smpId = 0 ∨ ∀ w, ¬((s.work w).id = smpId ∧ (s.work w).state = .done)) :
    Step s (.releaseWork i smpId goal) s (.clearSmpId i smpId goal) []
  | clearSmpId (i : TaskIndex) (smpId : UInt32) (goal : Goal) (same : (s.tasks i).smpId = smpId) :
    Step s (.clearSmpId i smpId goal) (s.setTask i { s.tasks i with smpId := 0 })
      (.reap (i + 1) goal) []
  | clearSmpIdLate (i : TaskIndex) (smpId : UInt32) (goal : Goal)
    (other : (s.tasks i).smpId ≠ smpId) :
    Step s (.clearSmpId i smpId goal) s (.reap (i + 1) goal) []
  | takeNone (caller : RunCaller) : Step s (.takeWork caller) s caller.back []
  | take (caller : RunCaller) (w : WorkIndex) (t : TaskIndex) (queued : (s.work w).state = .queued)
    (task : (s.work w).task = some t) :
    Step s (.takeWork caller) (s.setWork w { s.work w with state := .running })
      (.workerStart t (.item w caller)) []
  | start (t : TaskIndex) (caller : WorkerCaller) (job : J)
    (active : (s.tasks t).state = .queued ∨ (s.tasks t).state = .running)
    (set : (s.tasks t).job = some job) :
    Step s (.workerStart t caller) (s.setTask t { s.tasks t with state := .running })
      (.calling t (s.tasks t).id job caller) []
  | startUnset (t : TaskIndex) (caller : WorkerCaller) (unset : (s.tasks t).job = none) :
    Step s (.workerStart t caller) (s.workerStart t).2 (.workerFinish t caller) []
  | startLate (t : TaskIndex) (caller : WorkerCaller)
    (inactive : ¬((s.tasks t).state = .queued ∨ (s.tasks t).state = .running)) :
    Step s (.workerStart t caller) s (.workerFinish t caller) []
  | call (t : TaskIndex) (id : UInt32) (job : J) (caller : WorkerCaller) :
    Step s (.calling t id job caller) s (.inside t id caller) [.call id job]
  | ret (t : TaskIndex) (id : UInt32) (caller : WorkerCaller) :
    Step s (.inside t id caller) s (.workerFinish t caller) [.ret id]
  | finish (t : TaskIndex) (caller : WorkerCaller) (running : (s.tasks t).state = .running) :
    Step s (.workerFinish t caller) (s.setTask t { s.tasks t with state := .done }) caller.back []
  | finishLate (t : TaskIndex) (caller : WorkerCaller) (other : (s.tasks t).state ≠ .running) :
    Step s (.workerFinish t caller) s caller.back []
  | storeDone (w : WorkIndex) (caller : RunCaller) :
    Step s (.storeDone w caller) (s.setWork w { s.work w with state := .done }) caller.back []

/-- `l` goes to what `r` says. -/
abbrev Step.To (s : Shared J) (l : Pc J) (r : Shared J × Pc J × List (Event J)) : Prop :=
  Step s l r.1 r.2.1 r.2.2

variable (s : Shared J)

-- makes the equations of `next` once, before the lemmas below unfold it side by side
attribute [local simp] next

lemma step_allocTask (async : Bool) (job : J) :
    Step.To s (.allocTask async job) (next s (.allocTask async job)) := by
  simp only [next]
  split_ifs with h
  · exact .refused async job
  · rw [allocTask]
    cases hslot : firstSlot fun t => (s.tasks t).state = .free with
    | none => exact .refused async job
    | some t => exact .alloc async job t (by simpa using firstSlot_some hslot)

lemma step_smpSubmit (async : Bool) (t : TaskIndex) (id : UInt32) :
    Step.To s (.smpSubmit async t id) (next s (.smpSubmit async t id)) := by
  simp only [next, smpSubmitWork]
  by_cases hcores : s.onlineCoreCount ≤ 1
  · simpa only [if_pos hcores, ne_eq, not_true_eq_false, if_false] using .smpRefused async t id
  rw [if_neg hcores]
  rcases hslot : firstSlot fun w => (s.work w).state = .free with _ | w
  · simpa using .smpRefused async t id
  have hid : (takeId s.nextWorkId).1 ≠ 0 := by
    rw [takeId]
    split_ifs with h
    · simp [h]
    · exact h
  simpa only [if_pos hid] using Step.smpQueued async t id w (by simpa using firstSlot_some hslot)

lemma step_smpFull (async : Bool) (t : TaskIndex) (id : UInt32) :
    Step.To s (.smpFull async t id) (next s (.smpFull async t id)) := by
  cases async with
  | false =>
    simp only [next, queueTask, Bool.false_eq_true, if_false]
    split_ifs with h
    · exact .queue t id h.1 h.2
    · exact .queueLate t id h
  | true =>
    simp only [next, dropTask, if_true]
    split_ifs with h
    · exact .drop t id h.1 h.2
    · exact .dropLate t id h

lemma step_finishGoal (i : ℕ) (goal : Goal) : Step.To s (.reap i goal) (finishGoal s goal) := by
  cases goal with
  | poll =>
    simp only [finishGoal, pollTask]
    cases hslot : firstSlot fun t => (s.tasks t).state = .queued with
    | none => exact .pollNone i
    | some t => exact .poll i t (by simpa using firstSlot_some hslot)
  | done id => exact .done i id
  | release id =>
    simp only [finishGoal, releaseTask]
    cases hslot : firstSlot fun t => (s.tasks t).id = id ∧ (s.tasks t).state = .done with
    | none => exact .releaseNone i id
    | some t =>
      have ht : (s.tasks t).id = id ∧ (s.tasks t).state = .done := by
        simpa using firstSlot_some hslot
      exact .release i t id ht.1 ht.2
  | look => exact .look i

lemma step_reap (i : ℕ) (goal : Goal) : Step.To s (.reap i goal) (next s (.reap i goal)) := by
  simp only [next]
  split_ifs with hi hid
  · rw [finishedSmp] at hid ⊢
    by_cases hdone : (s.tasks ⟨i, hi⟩).state = .done
    · rw [if_pos hdone] at hid ⊢
      exact .reapFound ⟨i, hi⟩ goal hdone hid
    · exact absurd (if_neg hdone) hid
  · exact .reapNext i goal
  · exact step_finishGoal s i goal

lemma step_releaseWork (i : TaskIndex) (smpId : UInt32) (goal : Goal) :
    Step.To s (.releaseWork i smpId goal) (next s (.releaseWork i smpId goal)) := by
  simp only [next, smpReleaseWork]
  split_ifs with h
  · exact .releaseWorkNone i smpId goal (.inl h)
  cases hslot : firstSlot fun w => (s.work w).id = smpId ∧ (s.work w).state = .done with
  | none =>
    refine .releaseWorkNone i smpId goal (.inr fun w => ?_)
    simpa using firstSlot_none hslot w
  | some w =>
    have hw : (s.work w).id = smpId ∧ (s.work w).state = .done := by
      simpa using firstSlot_some hslot
    exact .releaseWork i smpId goal w hw.1 hw.2

lemma step_takeWork (caller : RunCaller) :
    Step.To s (.takeWork caller) (next s (.takeWork caller)) := by
  simp only [next, smpTakeWork]
  rcases hslot : firstSlot fun w => (s.work w).state = .queued ∧ (s.work w).task.isSome with _ | w
  · exact .takeNone caller
  have hw : (s.work w).state = .queued ∧ (s.work w).task.isSome := by
    simpa using firstSlot_some hslot
  obtain ⟨t, ht⟩ := Option.isSome_iff_exists.mp hw.2
  simpa only [ht, Option.map_some] using Step.take caller w t hw.1 ht

lemma step_workerStart (t : TaskIndex) (caller : WorkerCaller) :
    Step.To s (.workerStart t caller) (next s (.workerStart t caller)) := by
  simp only [next]
  by_cases hactive : (s.tasks t).state = .queued ∨ (s.tasks t).state = .running
  · rcases hjob : (s.tasks t).job with _ | job
    · have hstart := Step.startUnset t caller hjob
      simp only [workerStart, if_pos hactive, hjob] at hstart ⊢
      exact hstart
    have hid : ((s.workerStart t).2.tasks t).id = (s.tasks t).id := by
      simp [workerStart, if_pos hactive, setTask]
    have hstart := Step.start t caller job hactive hjob
    rw [← hid] at hstart
    simpa only [workerStart, if_pos hactive, hjob] using hstart
  · simp only [workerStart, if_neg hactive]
    exact .startLate t caller hactive

/-- `Step` covers every branch of `next`. -/
lemma step_next (l : Pc J) : Step.To s l (next s l) := by
  cases l with
  | idle => exact .idle
  | allocTask async job => exact step_allocTask s async job
  | smpSubmit async t id => exact step_smpSubmit s async t id
  | storeSmpId t id smpId =>
    simp only [next, storeSmpId]
    split_ifs with h
    · exact .storeSmpId t id smpId h
    · exact .storeSmpIdLate t id smpId h
  | smpFull async t id => exact step_smpFull s async t id
  | reap i goal => exact step_reap s i goal
  | check i smpId goal =>
    simp only [next]
    split_ifs with h
    · exact .checkDone i smpId goal h
    · exact .checkNot i smpId goal
  | waiting i smpId goal =>
    simp only [next]
    split_ifs with h
    · exact .waitDone i smpId goal h
    · exact .waitLoop i smpId goal h
  | releaseWork i smpId goal => exact step_releaseWork s i smpId goal
  | clearSmpId i smpId goal =>
    simp only [next, clearSmpId]
    split_ifs with h
    · exact .clearSmpId i smpId goal h
    · exact .clearSmpIdLate i smpId goal h
  | takeWork caller => exact step_takeWork s caller
  | workerStart t caller => exact step_workerStart s t caller
  | calling t id job caller => exact .call t id job caller
  | inside t id caller => exact .ret t id caller
  | workerFinish t caller =>
    simp only [next, workerFinish]
    split_ifs with h
    · exact .finish t caller h
    · exact .finishLate t caller h
  | storeDone w caller => exact .storeDone w caller

end Smp
