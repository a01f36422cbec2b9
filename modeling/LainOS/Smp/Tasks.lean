import LainOS.Lib.Parties

/-!
# Kernel tasks on several cores

The SMP work queue and the table of kernel tasks. A step of a core is a region that one of the two
locks protects, the unlocked store at the end of `smp_run_one_work_item`, or the call of a task's
function or its return. The regions are functions on the shared memory; the control points say which
comes next.

Every work item runs `kernel_task_worker` on a slot of the task table, so an item is that slot.
Names and tick counts of the tasks are left out.
-/

namespace Smp

open Parties

inductive SlotState
  | free | queued | running | done
  deriving DecidableEq, Repr

abbrev WorkIndex : Type := Fin 64

abbrev TaskIndex : Type := Fin 32

/-- `smp_work_slot_t`; `task` is the argument of `kernel_task_worker`, if the function is set. -/
structure WorkSlot where
  state : SlotState
  id : UInt32
  task : Option TaskIndex
  deriving DecidableEq, Repr

/-- `kernel_task_slot_t`; `job` is the function with its argument, if it is set. -/
structure TaskSlot (J : Type*) where
  state : SlotState
  id : UInt32
  smpId : UInt32
  job : Option J
  deriving DecidableEq, Repr

structure Shared (J : Type*) where
  onlineCoreCount : ℕ
  work : WorkIndex → WorkSlot
  nextWorkId : UInt32
  tasks : TaskIndex → TaskSlot J
  nextTaskId : UInt32

variable {J : Type*}

def freeWork : WorkSlot := ⟨.free, 0, none⟩

def freeTask : TaskSlot J := ⟨.free, 0, 0, none⟩

/-- The first slot with a property, as the loops over the tables find it. -/
def firstSlot {n : ℕ} (p : Fin n → Bool) : Option (Fin n) := (List.finRange n).find? p

/-- `id = next++`, and once more if that was 0; the id and the counter behind it. -/
def takeId (next : UInt32) : UInt32 × UInt32 :=
  if next = 0 then (next + 1, next + 2) else (next, next + 1)

namespace Shared

variable (s : Shared J)

def setWork (w : WorkIndex) (slot : WorkSlot) : Shared J :=
  { s with work := Function.update s.work w slot }

def setTask (t : TaskIndex) (slot : TaskSlot J) : Shared J :=
  { s with tasks := Function.update s.tasks t slot }

/-! ### Regions of the work queue -/

def smpTakeWork : Option (WorkIndex × TaskIndex) × Shared J :=
  match firstSlot fun w => (s.work w).state = .queued ∧ (s.work w).task.isSome with
  | none => (none, s)
  | some w => ((s.work w).task.map (w, ·), s.setWork w { s.work w with state := .running })

/-- The store at the end of `smp_run_one_work_item`, which no lock protects. -/
def storeDone (w : WorkIndex) : Shared J := s.setWork w { s.work w with state := .done }

def smpSubmitWork (t : TaskIndex) : UInt32 × Shared J :=
  if s.onlineCoreCount ≤ 1 then (0, s)
  else
    match firstSlot fun w => (s.work w).state = .free with
    | none => (0, s)
    | some w => ((takeId s.nextWorkId).1,
        { s.setWork w ⟨.queued, (takeId s.nextWorkId).1, some t⟩ with
          nextWorkId := (takeId s.nextWorkId).2 })

def smpWorkDone (id : UInt32) : Bool :=
  id = 0 ||
    match firstSlot fun w => (s.work w).id = id with
    | none => false
    | some w => (s.work w).state = .done

def smpReleaseWork (id : UInt32) : Shared J :=
  if id = 0 then s
  else
    match firstSlot fun w => (s.work w).id = id ∧ (s.work w).state = .done with
    | none => s
    | some w => s.setWork w freeWork

/-! ### Regions of the task table -/

/-- The first region of both submit functions: the slot and the id of the task. -/
def allocTask (job : J) : Option (TaskIndex × UInt32) × Shared J :=
  match firstSlot fun t => (s.tasks t).state = .free with
  | none => (none, s)
  | some t => (some (t, (takeId s.nextTaskId).1),
      { s.setTask t ⟨.running, (takeId s.nextTaskId).1, 0, some job⟩ with
        nextTaskId := (takeId s.nextTaskId).2 })

def storeSmpId (t : TaskIndex) (id smpId : UInt32) : Shared J :=
  if (s.tasks t).id = id then s.setTask t { s.tasks t with smpId := smpId } else s

/-- `kernel_task_submit_named` leaves the task to `kernel_task_poll`. -/
def queueTask (t : TaskIndex) (id : UInt32) : Shared J :=
  if (s.tasks t).id = id ∧ (s.tasks t).state = .running then
    s.setTask t { s.tasks t with state := .queued }
  else s

/-- `kernel_task_submit_async_named` gives the slot back. -/
def dropTask (t : TaskIndex) (id : UInt32) : Shared J :=
  if (s.tasks t).id = id ∧ (s.tasks t).state = .running then s.setTask t freeTask else s

/-- The first region of `kernel_task_worker`: the function and the argument that it calls. -/
def workerStart (t : TaskIndex) : Option J × Shared J :=
  if (s.tasks t).state = .queued ∨ (s.tasks t).state = .running then
    ((s.tasks t).job, s.setTask t { s.tasks t with state := .running })
  else (none, s)

def workerFinish (t : TaskIndex) : Shared J :=
  if (s.tasks t).state = .running then s.setTask t { s.tasks t with state := .done } else s

/-- The SMP id of a finished task, 0 if there is none. -/
def finishedSmp (t : TaskIndex) : UInt32 :=
  if (s.tasks t).state = .done then (s.tasks t).smpId else 0

def clearSmpId (t : TaskIndex) (smpId : UInt32) : Shared J :=
  if (s.tasks t).smpId = smpId then s.setTask t { s.tasks t with smpId := 0 } else s

def pollTask : Option TaskIndex × Shared J :=
  match firstSlot fun t => (s.tasks t).state = .queued with
  | none => (none, s)
  | some t => (some t, s.setTask t { s.tasks t with state := .running })

def taskDone (id : UInt32) : Bool :=
  match firstSlot fun t => (s.tasks t).id = id with
  | none => false
  | some t => (s.tasks t).state = .done ∧ (s.tasks t).smpId = 0

def releaseTask (id : UInt32) : Shared J :=
  match firstSlot fun t => (s.tasks t).id = id ∧ (s.tasks t).state = .done with
  | none => s
  | some t => s.setTask t freeTask

end Shared

/-! ### Control -/

/-- What follows `kernel_task_release_finished_smp`. -/
inductive Goal
  | poll
  | done (id : UInt32)
  | release (id : UInt32)
  /-- `kernel_task_pending_count` and `kernel_task_snapshot` only read the table. -/
  | look
  deriving DecidableEq, Repr

/-- Who called `smp_run_one_work_item`. -/
inductive RunCaller
  | core
  /-- The loop of `smp_wait_work(smpId)`, for slot `i` of the task table. -/
  | wait (i : TaskIndex) (smpId : UInt32) (goal : Goal)
  deriving DecidableEq, Repr

/-- Who called `kernel_task_worker`. -/
inductive WorkerCaller
  | item (w : WorkIndex) (caller : RunCaller)
  | poll
  deriving DecidableEq, Repr

/-- Where a call is: the region or store that comes next, with the variables of the call. -/
inductive Pc (J : Type*)
  | idle
  | allocTask (async : Bool) (job : J)
  | smpSubmit (async : Bool) (t : TaskIndex) (id : UInt32)
  | storeSmpId (t : TaskIndex) (id smpId : UInt32)
  | smpFull (async : Bool) (t : TaskIndex) (id : UInt32)
  /-- `kernel_task_release_finished_smp` at slot `i`. -/
  | reap (i : ℕ) (goal : Goal)
  | check (i : TaskIndex) (smpId : UInt32) (goal : Goal)
  /-- The head of the loop of `smp_wait_work`. -/
  | waiting (i : TaskIndex) (smpId : UInt32) (goal : Goal)
  | releaseWork (i : TaskIndex) (smpId : UInt32) (goal : Goal)
  | clearSmpId (i : TaskIndex) (smpId : UInt32) (goal : Goal)
  | takeWork (caller : RunCaller)
  | workerStart (t : TaskIndex) (caller : WorkerCaller)
  /-- In front of the call of the task's function; `id` is the task's. -/
  | calling (t : TaskIndex) (id : UInt32) (job : J) (caller : WorkerCaller)
  | inside (t : TaskIndex) (id : UInt32) (caller : WorkerCaller)
  | workerFinish (t : TaskIndex) (caller : WorkerCaller)
  | storeDone (w : WorkIndex) (caller : RunCaller)
  deriving DecidableEq, Repr

inductive Event (J : Type*)
  /-- A slot was filled for a submission, under this id. -/
  | submit (id : UInt32) (job : J)
  /-- The submission with this id returned `result`. -/
  | submitted (id result : UInt32)
  | call (id : UInt32) (job : J)
  | ret (id : UInt32)
  /-- `kernel_task_done(id)` returned `result`. -/
  | done (id : UInt32) (result : Bool)
  deriving DecidableEq, Repr

/-- The way back from `smp_run_one_work_item`. -/
def RunCaller.back : RunCaller → Pc J
  | .core => .idle
  | .wait i smpId goal => .waiting i smpId goal

/-- The way back from `kernel_task_worker`. -/
def WorkerCaller.back : WorkerCaller → Pc J
  | .item w caller => .storeDone w caller
  | .poll => .idle

/-- The last region of a call that began with `kernel_task_release_finished_smp`. -/
def finishGoal (s : Shared J) : Goal → Shared J × Pc J × List (Event J)
  | .poll =>
    match s.pollTask with
    | (none, s) => (s, .idle, [])
    | (some t, s) => (s, .workerStart t .poll, [])
  | .done id => (s, .idle, [.done id (s.taskDone id)])
  | .release id => (s.releaseTask id, .idle, [])
  | .look => (s, .idle, [])

/-- The step of a core at a control point. -/
def next (s : Shared J) : Pc J → Shared J × Pc J × List (Event J)
  | .idle => (s, .idle, [])
  | .allocTask async job =>
    if async ∧ s.onlineCoreCount ≤ 1 then (s, .idle, [])
    else
      match s.allocTask job with
      | (none, s) => (s, .idle, [])
      | (some (t, id), s) => (s, .smpSubmit async t id, [.submit id job])
  | .smpSubmit async t id =>
    if (s.smpSubmitWork t).1 ≠ 0 then
      ((s.smpSubmitWork t).2, .storeSmpId t id (s.smpSubmitWork t).1, [])
    else ((s.smpSubmitWork t).2, .smpFull async t id, [])
  | .storeSmpId t id smpId => (s.storeSmpId t id smpId, .idle, [.submitted id id])
  | .smpFull async t id =>
    if async then (s.dropTask t id, .idle, [.submitted id 0])
    else (s.queueTask t id, .idle, [.submitted id id])
  | .reap i goal =>
    if h : i < 32 then
      if s.finishedSmp ⟨i, h⟩ ≠ 0 then (s, .check ⟨i, h⟩ (s.finishedSmp ⟨i, h⟩) goal, [])
      else (s, .reap (i + 1) goal, [])
    else finishGoal s goal
  | .check i smpId goal =>
    if s.smpWorkDone smpId then (s, .waiting i smpId goal, []) else (s, .reap (i + 1) goal, [])
  | .waiting i smpId goal =>
    if s.smpWorkDone smpId then (s, .releaseWork i smpId goal, [])
    else (s, .takeWork (.wait i smpId goal), [])
  | .releaseWork i smpId goal => (s.smpReleaseWork smpId, .clearSmpId i smpId goal, [])
  | .clearSmpId i smpId goal => (s.clearSmpId i smpId, .reap (i + 1) goal, [])
  | .takeWork caller =>
    match s.smpTakeWork with
    | (none, s) => (s, caller.back, [])
    | (some (w, t), s) => (s, .workerStart t (.item w caller), [])
  | .workerStart t caller =>
    match s.workerStart t with
    | (none, s) => (s, .workerFinish t caller, [])
    | (some job, s) => (s, .calling t (s.tasks t).id job caller, [])
  | .calling t id job caller => (s, .inside t id caller, [.call id job])
  | .inside t id caller => (s, .workerFinish t caller, [.ret id])
  | .workerFinish t caller => (s.workerFinish t, caller.back, [])
  | .storeDone w caller => (s.storeDone w, caller.back, [])

/-- The calls that a core can begin. A task is released once `kernel_task_done` has returned 1 for it,
behind the end of its submission. -/
inductive Begins (log : List (Event J)) : Pc J → Prop
  | submit (async : Bool) (job : J) : Begins log (.allocTask async job)
  | poll : Begins log (.reap 0 .poll)
  | done (id : UInt32) (nonzero : id ≠ 0) : Begins log (.reap 0 (.done id))
  | release (id : UInt32) (nonzero : id ≠ 0) (before after : List (Event J))
    (done : log = before ++ .done id true :: after) (submitted : .submitted id id ∈ before) :
    Begins log (.reap 0 (.release id))
  | look : Begins log (.reap 0 .look)
  | runOneWorkItem : Begins log (.takeWork .core)

/-- The tables at the start. -/
def Shared.start (onlineCoreCount : ℕ) : Shared J where
  onlineCoreCount := onlineCoreCount
  work _ := freeWork
  nextWorkId := 1
  tasks _ := freeTask
  nextTaskId := 1

/-- Cores come online at any time. -/
def tasks (J : Type*) : System (Shared J) (Pc J) (Event J) where
  initial s := ∃ n, s = .start n
  idle := .idle
  next := next
  begins := Begins
  environment s s' := ∃ n, s' = { s with onlineCoreCount := n }

end Smp
