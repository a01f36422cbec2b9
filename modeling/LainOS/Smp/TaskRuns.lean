import LainOS.Smp.Steps

/-!
# Kernel tasks run once

A slot of the task table is somebody's business while its task has not finished: of the call that
submits it or works on it, of the item in the work queue that carries it, or of `kernel_task_poll` if
it is queued in the table itself. The business is handed on and never doubled, so that the function of
a task is called once.
-/

namespace Smp

open Parties List Function

abbrev Cfg (P J : Type*) : Type _ := Config P (Shared J) (Pc J) (Event J)

variable {P J : Type*} [DecidableEq P]

namespace Event

def isSubmission : Event J → Bool
  | .submit _ _ => true
  | _ => false

def isSubmit (id : UInt32) : Event J → Bool
  | .submit i _ => i = id
  | _ => false

def isCall (id : UInt32) : Event J → Bool
  | .call i _ => i = id
  | _ => false

end Event

/-! ### Whose business a task is -/

/-- The task slot that a call is responsible for. -/
def Pc.task : Pc J → Option TaskIndex
  | .smpSubmit _ t _ | .smpFull _ t _ | .workerStart t _ | .calling t _ _ _ | .inside t _ _
  | .workerFinish t _ => some t
  | _ => none

/-- The work slot `w` waits to be taken, for the task slot `t`. -/
def Shared.QueuedFor (s : Shared J) (w : WorkIndex) (t : TaskIndex) : Prop :=
  (s.work w).state = .queued ∧ (s.work w).task = some t

/-- A call or an item of the queue is responsible for the task slot `t`. -/
def Holds (c : Cfg P J) (h : P ⊕ WorkIndex) (t : TaskIndex) : Prop :=
  match h with
  | .inl p => (c.pc p).task = some t
  | .inr w => c.shared.QueuedFor w t

/-- The task `id` has neither been called nor given up. -/
structure Early (id : UInt32) (log : List (Event J)) : Prop where
  uncalled (job : J) : .call id job ∉ log
  kept : .submitted id 0 ∉ log

/-- What a call knows of the slot it is responsible for. -/
def Pc.Fits (slot : TaskSlot J) (log : List (Event J)) : Pc J → Prop
  | .smpSubmit _ _ id | .smpFull _ _ id => id = slot.id ∧ Early slot.id log
  | .workerStart _ _ => Early slot.id log
  | .calling _ id job _ => id = slot.id ∧ slot.job = some job ∧ Early slot.id log
  | .inside _ id _ => id = slot.id ∧ ∃ job, .call slot.id job ∈ log
  | .workerFinish _ _ => .ret slot.id ∈ log
  | _ => True

/-- The facts about a slot of the task table. -/
structure Slot (c : Cfg P J) (t : TaskIndex) : Prop where
  unique (h h' : P ⊕ WorkIndex) : Holds c h t → Holds c h' t → h = h'
  running (h : P ⊕ WorkIndex) : Holds c h t → (c.shared.tasks t).state = .running
  fits (p : P) : (c.pc p).task = some t → (c.pc p).Fits (c.shared.tasks t) c.log
  item (w : WorkIndex) : c.shared.QueuedFor w t → Early (c.shared.tasks t).id c.log
  queued : (c.shared.tasks t).state = .queued → Early (c.shared.tasks t).id c.log
  done : (c.shared.tasks t).state = .done → .ret (c.shared.tasks t).id ∈ c.log
  used : (c.shared.tasks t).state ≠ .free → (c.shared.tasks t).id ≠ 0 ∧
    ∃ job, (c.shared.tasks t).job = some job ∧ .submit (c.shared.tasks t).id job ∈ c.log
  free : (c.shared.tasks t).state = .free → (c.shared.tasks t).id = 0

/-- The configuration that a step of `p` with these effects leads to. -/
def after (c : Cfg P J) (p : P) (s : Shared J) (l : Pc J) (events : List (Event J)) : Cfg P J :=
  ⟨s, update c.pc p l, c.log ++ events⟩

/-- A step of a party is one of the branches. -/
lemma run_eq_after (c : Cfg P J) (p : P) : ∃ s l events, Step c.shared (c.pc p) s l events ∧
    c.run (tasks J) p = after c p s l events :=
  ⟨_, _, _, step_next c.shared (c.pc p), rfl⟩

variable {c : Cfg P J} {p : P} {s : Shared J} {l : Pc J} {events : List (Event J)} {t : TaskIndex}

@[simp] lemma after_shared : (after c p s l events).shared = s := rfl

@[simp] lemma after_log : (after c p s l events).log = c.log ++ events := rfl

@[simp] lemma after_pc_self : (after c p s l events).pc p = l := update_self ..

lemma after_pc_of_ne {q : P} (h : q ≠ p) : (after c p s l events).pc q = c.pc q := update_of_ne h ..

/-- The state, the id and the job of a slot; its SMP id is of no interest here. -/
def SameTask (a b : TaskSlot J) : Prop := a.state = b.state ∧ a.id = b.id ∧ a.job = b.job

lemma SameTask.rfl {a : TaskSlot J} : SameTask a a := ⟨Eq.refl _, Eq.refl _, Eq.refl _⟩

lemma Pc.Fits.mono {a b : TaskSlot J} {log log' : List (Event J)} (hsame : SameTask b a)
    (hlog : log ⊆ log') (hearly : Early a.id log → Early a.id log') (h : l.Fits a log) :
    l.Fits b log' := by
  obtain ⟨-, hid, hjob⟩ := hsame
  cases l with
  | smpSubmit | smpFull => exact ⟨h.1.trans hid.symm, hid ▸ hearly h.2⟩
  | workerStart => exact (hid ▸ hearly h : Early b.id log')
  | calling => exact ⟨h.1.trans hid.symm, hjob.trans h.2.1, hid ▸ hearly h.2.2⟩
  | inside =>
    obtain ⟨heq, job, hcall⟩ := h
    exact ⟨heq.trans hid.symm, job, hid ▸ hlog hcall⟩
  | workerFinish => exact (hid ▸ hlog h : Event.ret b.id ∈ log')
  | _ => trivial

/-- After a step of `p`, a holder is `p` itself or was one before. -/
lemma Holds.of_after {h : P ⊕ WorkIndex} (hwork : ∀ w, s.QueuedFor w t → c.shared.QueuedFor w t)
    (hh : Holds (after c p s l events) h t) : h = .inl p ∧ l.task = some t ∨ h ≠ .inl p ∧
    Holds c h t := by
  cases h with
  | inl q =>
    by_cases hq : q = p
    · subst hq
      exact .inl ⟨rfl, by simpa [Holds] using hh⟩
    · refine .inr ⟨by simpa using hq, ?_⟩
      simpa [Holds, after_pc_of_ne hq] using hh
  | inr w => exact .inr ⟨by simp, hwork w hh⟩

/-- A step leaves alone a slot that it takes no responsibility for. -/
lemma Slot.other (h : Slot c t) (hl : l.task ≠ some t)
    (hsame : SameTask (s.tasks t) (c.shared.tasks t))
    (hwork : ∀ w, s.QueuedFor w t → c.shared.QueuedFor w t)
    (hearly : Early (c.shared.tasks t).id c.log → Early (c.shared.tasks t).id (c.log ++ events)) :
    Slot (after c p s l events) t := by
  have hold {x : P ⊕ WorkIndex} (hx : Holds (after c p s l events) x t) :
      x ≠ .inl p ∧ Holds c x t :=
    (hx.of_after hwork).resolve_left fun hp => hl hp.2
  have hsub : c.log ⊆ c.log ++ events := subset_append_left _ _
  obtain ⟨hstate, hid, hjob⟩ := id hsame
  refine ⟨fun x x' hx hx' => h.unique x x' (hold hx).2 (hold hx').2,
    fun x hx => hstate.trans (h.running x (hold hx).2), fun q hq => ?_,
    fun w hw => hid ▸ hearly (h.item w (hwork w hw)), fun hq => ?_, fun hd => ?_, fun hu => ?_,
    fun hf => hid.trans (h.free (hstate ▸ hf))⟩
  · obtain ⟨hne, hheld⟩ := hold (show Holds (after c p s l events) (.inl q) t from hq)
    rw [after_pc_of_ne fun heq : q = p => hne (congrArg Sum.inl heq)]
    exact (h.fits q hheld).mono hsame hsub hearly
  · exact (hid ▸ hearly (h.queued (hstate ▸ hq)) : Early (s.tasks t).id _)
  · exact (hid ▸ hsub (h.done (hstate ▸ hd)) : Event.ret (s.tasks t).id ∈ _)
  · obtain ⟨hnonzero, job, hset, hsubmit⟩ := h.used (hstate ▸ hu)
    exact ⟨hid ▸ hnonzero, job, hjob.trans hset, hid ▸ hsub hsubmit⟩

/-- A slot that nobody is responsible for any more. -/
lemma Slot.unheld (hnone : ∀ x, ¬ Holds (after c p s l events) x t)
    (hqueued : (s.tasks t).state = .queued → Early (s.tasks t).id (c.log ++ events))
    (hdone : (s.tasks t).state = .done → .ret (s.tasks t).id ∈ c.log ++ events)
    (hused : (s.tasks t).state ≠ .free → (s.tasks t).id ≠ 0 ∧
      ∃ job, (s.tasks t).job = some job ∧ .submit (s.tasks t).id job ∈ c.log ++ events)
    (hfree : (s.tasks t).state = .free → (s.tasks t).id = 0) :
    Slot (after c p s l events) t :=
  ⟨fun x _ hx => absurd hx (hnone x), fun x hx => absurd hx (hnone x),
    fun q hq => absurd (show Holds _ (.inl q) t from hq) (hnone (.inl q)),
    fun w hw => absurd (show Holds _ (.inr w) t from hw) (hnone (.inr w)),
    hqueued, hdone, hused, hfree⟩

/-- A slot with a single responsible, in a configuration after a step. -/
lemma Slot.held {x : P ⊕ WorkIndex} (honly : ∀ y, Holds (after c p s l events) y t → y = x)
    (hrunning : (s.tasks t).state = .running)
    (hparty : ∀ q, x = .inl q → ((after c p s l events).pc q).Fits (s.tasks t) (c.log ++ events))
    (hitem : ∀ w, x = .inr w → Early (s.tasks t).id (c.log ++ events)) (hused : (s.tasks t).id ≠ 0 ∧
      ∃ job, (s.tasks t).job = some job ∧ .submit (s.tasks t).id job ∈ c.log ++ events) :
    Slot (after c p s l events) t := by
  refine ⟨fun y y' hy hy' => (honly y hy).trans (honly y' hy').symm, fun _ _ => hrunning,
    fun q hq => hparty q (honly (.inl q) hq).symm, fun w hw => hitem w (honly (.inr w) hw).symm,
    fun hq => ?_, fun hd => ?_, fun _ => hused, fun hf => ?_⟩
  · simp [hrunning] at hq
  · simp [hrunning] at hd
  · simp [hrunning] at hf

/-- A slot that the party of the step alone is responsible for. -/
lemma Slot.held_by (honly : ∀ y, Holds (after c p s l events) y t → y = .inl p)
    (hrunning : (s.tasks t).state = .running) (hfits : l.Fits (s.tasks t) (c.log ++ events))
    (hused : (s.tasks t).id ≠ 0 ∧
      ∃ job, (s.tasks t).job = some job ∧ .submit (s.tasks t).id job ∈ c.log ++ events) :
    Slot (after c p s l events) t := by
  refine .held honly hrunning (fun q hq => ?_) (fun w hw => by simp at hw) hused
  obtain rfl : p = q := by simpa using hq
  simpa using hfits

/-- Only `p` can be responsible for a slot after a step of `p`, if nobody else was before. -/
lemma Holds.only_party {y : P ⊕ WorkIndex} (hy : Holds (after c p s l events) y t)
    (hwork : ∀ w, s.QueuedFor w t → c.shared.QueuedFor w t)
    (hnone : ∀ y, y ≠ .inl p → ¬ Holds c y t) : y = .inl p ∧ l.task = some t := by
  rcases hy.of_after hwork with h | ⟨hne, hheld⟩
  · exact h
  · exact absurd hheld (hnone y hne)

omit [DecidableEq P] in
/-- Nobody else is responsible for the slot of a call. -/
lemma Slot.not_holds_of_task (h : Slot c t) (hp : (c.pc p).task = some t) (y : P ⊕ WorkIndex)
    (hne : y ≠ .inl p) : ¬ Holds c y t :=
  fun hy => hne (h.unique y (.inl p) hy hp)

omit [DecidableEq P] in
lemma Slot.not_holds_of_state (h : Slot c t) (hstate : (c.shared.tasks t).state ≠ .running)
    (y : P ⊕ WorkIndex) : ¬ Holds c y t :=
  fun hy => hstate (h.running y hy)

omit [DecidableEq P] in
lemma Slot.used_append (h : Slot c t) (hstate : (c.shared.tasks t).state ≠ .free) :
    (c.shared.tasks t).id ≠ 0 ∧ ∃ job, (c.shared.tasks t).job = some job ∧
      .submit (c.shared.tasks t).id job ∈ c.log ++ events := by
  obtain ⟨hne, job, hjob, hsubmit⟩ := h.used hstate
  exact ⟨hne, job, hjob, mem_append_left _ hsubmit⟩

/-! ### Logs -/

/-- What must have happened for an event to come next. -/
def Admits (log : List (Event J)) : Event J → Prop
  | .submit id _ => id ≠ 0 ∧ ∀ job, .submit id job ∉ log
  | .submitted id result => (∃ job, .submit id job ∈ log) ∧
    (result = id ∨ result = 0 ∧ ∀ job, .call id job ∉ log)
  | .call id job => .submit id job ∈ log ∧ Early id log
  | .ret id => ∃ job, .call id job ∈ log
  | .done id result => result = true → .ret id ∈ log

inductive WellRun : List (Event J) → Prop
  | nil : WellRun []
  | snoc {log : List (Event J)} {e : Event J} (run : WellRun log) (admits : Admits log e) :
    WellRun (log ++ [e])

namespace WellRun

variable {log : List (Event J)} {id : UInt32} {job : J} (h : WellRun log)
include h

/-- The events before one of a run admit it. -/
lemma admits_of_eq {before rest : List (Event J)} {e : Event J}
    (heq : log = before ++ e :: rest) : Admits before e := by
  induction h generalizing rest with
  | nil => simp at heq
  | @snoc log' e' _ hadmits ih =>
    rcases eq_nil_or_concat rest with rfl | ⟨rest', x, rfl⟩
    · obtain ⟨rfl, h⟩ := append_inj' heq rfl
      obtain rfl : e' = e := by simpa using h
      exact hadmits
    · rw [concat_eq_append, ← cons_append, ← append_assoc] at heq
      exact ih (append_inj' heq rfl).1

lemma admits_of_mem {e : Event J} (he : e ∈ log) : ∃ before, before ⊆ log ∧ Admits before e := by
  obtain ⟨before, rest, heq⟩ := append_of_mem he
  exact ⟨before, heq ▸ subset_append_left _ _, h.admits_of_eq heq⟩

lemma submit_ne_zero (he : .submit id job ∈ log) : id ≠ 0 := by
  obtain ⟨_, -, hne, -⟩ := h.admits_of_mem he
  exact hne

lemma submit_of_submitted {result : UInt32} (he : .submitted id result ∈ log) :
    ∃ job, .submit id job ∈ log := by
  obtain ⟨before, hsub, ⟨job, hsubmit⟩, -⟩ := h.admits_of_mem he
  exact ⟨job, hsub hsubmit⟩

lemma submit_of_call (he : .call id job ∈ log) : .submit id job ∈ log := by
  obtain ⟨before, hsub, hsubmit, -⟩ := h.admits_of_mem he
  exact hsub hsubmit

/-- Events of a kind that is admitted once only. -/
lemma count_le_one (kind : Event J → Bool)
    (honce : ∀ log e, Admits log e → kind e → ∀ e' ∈ log, ¬ kind e') : log.countP kind ≤ 1 := by
  induction h with
  | nil => simp
  | @snoc log e _ hadmits ih =>
    rw [countP_append, countP_singleton]
    split_ifs with hkind
    · have hnone : log.countP kind = 0 := countP_eq_zero.mpr (honce log e hadmits hkind)
      rw [hnone]
    · exact ih

lemma submit_count_le (id : UInt32) : log.countP (Event.isSubmit id) ≤ 1 := by
  refine h.count_le_one _ fun log e hadmits he e' hmem he' => ?_
  cases e <;> cases e' <;> simp only [Event.isSubmit, decide_eq_true_eq, Bool.false_eq_true] at he he'
  subst he he'
  exact hadmits.2 _ hmem

lemma call_count_le (id : UInt32) : log.countP (Event.isCall id) ≤ 1 := by
  refine h.count_le_one _ fun log e hadmits he e' hmem he' => ?_
  cases e <;> cases e' <;> simp only [Event.isCall, decide_eq_true_eq, Bool.false_eq_true] at he he'
  subst he he'
  exact hadmits.2.uncalled _ hmem

/-- A submission that returned 0 is not called, neither before nor after. -/
lemma not_call_of_refused (he : .submitted id 0 ∈ log) (job : J) : .call id job ∉ log := by
  induction h with
  | nil => simp
  | @snoc log e hrun hadmits ih =>
    intro hcall
    rcases mem_append.mp he with hin | hnew <;>
      rcases mem_append.mp hcall with hcalled | hcalling
    · exact ih hin hcalled
    · obtain rfl : .call id job = e := by simpa using hcalling
      exact hadmits.2.kept hin
    · obtain rfl : .submitted id 0 = e := by simpa using hnew
      rcases hadmits.2 with hzero | ⟨-, huncalled⟩
      · obtain ⟨job', hsubmit⟩ := hadmits.1
        exact hrun.submit_ne_zero hsubmit hzero.symm
      · exact huncalled job hcalled
    · have heq : Event.submitted id 0 = .call id job := by
        rw [mem_singleton.mp hnew, mem_singleton.mp hcalling]
      cases heq

end WellRun

end Smp
