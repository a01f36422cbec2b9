import LainOS.Lib.InTurn
import LainOS.Smp.Steps

/-!
# Jobs on the work queue

What `smp_submit_work` and `smp_wait_work` do for a caller that hands out jobs and waits for all of
them. The jobs work on a memory of their own, on which each takes effect when it ends. Any core may take
an item or finish the one it runs, and other callers may submit and release items at any time. The id
counter has not gone round, so ids are numbers.
-/

namespace Smp

variable {J M : Type*}

/-- How far a work item is. -/
inductive Progress
  | queued | running | done
  deriving DecidableEq, Repr

/-- A `smp_work_slot_t` in use; `job` is the function with its argument. -/
structure WorkItem (J : Type*) where
  state : Progress
  id : ℕ
  job : J

/-- The slots, of which the free ones hold no item, and the memory the jobs work on. -/
structure JobQueue (J M : Type*) where
  slots : WorkIndex → Option (WorkItem J)
  nextWorkId : ℕ
  memory : M
  issued : ∀ w, ∀ item ∈ slots w, item.id < nextWorkId

lemma mem_update {slots : WorkIndex → Option (WorkItem J)} {w v : WorkIndex}
    {new : Option (WorkItem J)} {item : WorkItem J} (h : item ∈ Function.update slots w new v) :
    item ∈ new ∨ item ∈ slots v := by
  rw [Function.update_apply] at h
  split_ifs at h
  exacts [.inl h, .inr h]

namespace JobQueue

variable (exec : J → M → M) (cores : ℕ) (q : JobQueue J M)

/-- The slot with another state of its item. -/
def advance (w : WorkIndex) (state : Progress) : JobQueue J M where
  slots := Function.update q.slots w ((q.slots w).map fun item => { item with state })
  nextWorkId := q.nextWorkId
  memory := q.memory
  issued v item h := by
    rcases mem_update h with h | h
    · obtain ⟨old, hold, rfl⟩ := Option.map_eq_some_iff.mp h
      exact q.issued w old hold
    · exact q.issued v item h

def smpTakeWork : JobQueue J M :=
  match firstSlot fun w => (q.slots w).any (·.state = .queued) with
  | none => q
  | some w => q.advance w .running

/-- The function of the item has returned. -/
def finish (w : WorkIndex) (item : WorkItem J) : JobQueue J M :=
  { q.advance w .done with memory := exec item.job q.memory }

/-- `id = next++`, and once more if that was 0. -/
def newId : ℕ := if q.nextWorkId = 0 then 1 else q.nextWorkId

lemma newId_ne_zero : q.newId ≠ 0 := by
  unfold newId
  split_ifs with h
  exacts [one_ne_zero, h]

lemma nextWorkId_le_newId : q.nextWorkId ≤ q.newId := by
  unfold newId
  split_ifs with h
  exacts [h.trans_le zero_le_one, le_rfl]

/-- The slot with a new item. -/
def enqueue (w : WorkIndex) (job : J) : JobQueue J M where
  slots := Function.update q.slots w (some ⟨.queued, q.newId, job⟩)
  nextWorkId := q.newId + 1
  memory := q.memory
  issued v item h := by
    rcases mem_update h with h | h
    · cases h
      exact Nat.lt_succ_self q.newId
    · exact (q.issued v item h).trans_le (q.nextWorkId_le_newId.trans (Nat.le_succ _))

/-- The id is 0 if the job has not been accepted. -/
def smpSubmitWork (job : J) : ℕ × JobQueue J M :=
  if cores ≤ 1 then (0, q)
  else
    match firstSlot fun w => (q.slots w).isNone with
    | none => (0, q)
    | some w => (q.newId, q.enqueue w job)

def smpWorkDone (id : ℕ) : Bool :=
  if id = 0 then true
  else
    match firstSlot fun w => (q.slots w).any (·.id = id) with
    | none => false
    | some w => (q.slots w).any (·.state = .done)

def smpReleaseWork (id : ℕ) : JobQueue J M :=
  if id = 0 then q
  else
    match firstSlot fun w => (q.slots w).any fun item => item.id = id ∧ item.state = .done with
    | none => q
    | some w =>
      { q with
        slots := Function.update q.slots w none
        issued := fun v item h => q.issued v item ((mem_update h).resolve_left (by simp)) }

/-- A step of some core. -/
inductive Step : JobQueue J M → JobQueue J M → Prop
  | take (q : JobQueue J M) : Step q q.smpTakeWork
  | finish (q : JobQueue J M) (w : WorkIndex) (item : WorkItem J) (slot : q.slots w = some item)
    (running : item.state = .running) : Step q (q.finish exec w item)
  | submit (q : JobQueue J M) (job : J) : Step q (q.smpSubmitWork cores job).2
  | release (q : JobQueue J M) (id : ℕ) : Step q (q.smpReleaseWork id)

def Steps : JobQueue J M → JobQueue J M → Prop := Relation.ReflTransGen (Step exec cores)

/-- The caller carries out a job that has not been accepted. -/
def submitOrRun (job : J) : ℕ × JobQueue J M :=
  let r := q.smpSubmitWork cores job
  if r.1 = 0 then (0, { r.2 with memory := exec job r.2.memory }) else r

/-- The job is submitted after steps of the cores. The ids are those of the caller so far. -/
def Submit (job : J) (c c' : List ℕ × JobQueue J M) : Prop :=
  ∃ p, Steps exec cores c.2 p ∧
    c' = (c.1 ++ [(p.submitOrRun exec cores job).1], (p.submitOrRun exec cores job).2)

/-- The caller's own turns at the queue are among the steps. -/
def SmpWaitWork (id : ℕ) (q q' : JobQueue J M) : Prop :=
  ∃ p, Steps exec cores q p ∧ p.smpWorkDone id = true ∧ q' = p.smpReleaseWork id

/-- The jobs are submitted in turn, and then waited for in turn. -/
def RunJobs (jobs : List J) (q q' : JobQueue J M) : Prop :=
  ∃ ids p, InTurn (Submit exec cores) jobs ([], q) (ids, p) ∧
    InTurn (SmpWaitWork exec cores) ids p q'

/-! ### What has been waited for has been carried out -/

variable {exec cores q} {q' : JobQueue J M} {P : M → Prop} {id : ℕ} {job : J} {jobs : List J}
  {c c' : List ℕ × JobQueue J M}

/-- The item with the id, if there is one, is still to be finished and will bring about `P`. -/
structure Pending (exec : J → M → M) (P : M → Prop) (id : ℕ) (q : JobQueue J M) : Prop where
  ne_zero : id ≠ 0
  issued : id < q.nextWorkId
  item : ∀ w, ∀ item ∈ q.slots w, item.id = id → item.state ≠ .done ∧ ∀ m, P (exec item.job m)

/-- `P` holds, or will when the item with the id is finished. -/
def Assured (exec : J → M → M) (P : M → Prop) (id : ℕ) (q : JobQueue J M) : Prop :=
  P q.memory ∨ Pending exec P id q

lemma smpSubmitWork_cases (cores : ℕ) (q : JobQueue J M) (job : J) :
    q.smpSubmitWork cores job = (0, q) ∨
      ∃ w, q.slots w = none ∧ q.smpSubmitWork cores job = (q.newId, q.enqueue w job) := by
  unfold smpSubmitWork
  split_ifs
  · exact .inl rfl
  · split
    · exact .inl rfl
    · next w hw => exact .inr ⟨w, by simpa using firstSlot_some hw, rfl⟩

lemma assured_zero : Assured exec P 0 q ↔ P q.memory :=
  or_iff_left fun h => h.ne_zero rfl

lemma submitOrRun_cases (exec : J → M → M) (cores : ℕ) (q : JobQueue J M) (job : J) :
    q.submitOrRun exec cores job = (0, { q with memory := exec job q.memory }) ∨
      ∃ w, q.slots w = none ∧ q.submitOrRun exec cores job = (q.newId, q.enqueue w job) := by
  rw [submitOrRun]
  rcases smpSubmitWork_cases cores q job with heq | ⟨w, hw, heq⟩ <;> rw [heq]
  · exact .inl rfl
  · exact .inr ⟨w, hw, if_neg q.newId_ne_zero⟩

lemma Assured.enqueue (h : Assured exec P id q) (w : WorkIndex) (job : J) :
    Assured exec P id (q.enqueue w job) := by
  refine h.imp_right fun ⟨hne, hissued, hitem⟩ => ?_
  have hlt := hissued.trans_le q.nextWorkId_le_newId
  refine ⟨hne, hlt.trans (Nat.lt_succ_self _), fun v item hv => ?_⟩
  rcases mem_update hv with hv | hv
  · cases hv
    exact fun hid => absurd hid hlt.ne'
  · exact hitem v item hv

lemma Assured.release (h : Assured exec P id q) (released : ℕ) :
    Assured exec P id (q.smpReleaseWork released) := by
  unfold smpReleaseWork
  split_ifs
  · exact h
  · split
    · exact h
    · refine h.imp_right fun ⟨hne, hissued, hitem⟩ => ⟨hne, hissued, fun v item hv => ?_⟩
      exact hitem v item ((mem_update hv).resolve_left (by simp))

/-- The job is carried out by the caller, or is the item with the new id. -/
lemma Submit.hit (hsubmit : Submit exec cores job c c')
    (hjob : ∀ m, P (exec job m)) : ∃ id ∈ 0 :: c'.1, Assured exec P id c'.2 := by
  obtain ⟨p, _, hc'⟩ := hsubmit
  rcases submitOrRun_cases exec cores p job with heq | ⟨w, _, heq⟩ <;> rw [hc', heq]
  · exact ⟨0, by simp, .inl (hjob _)⟩
  · refine ⟨p.newId, by simp, .inr ⟨p.newId_ne_zero, Nat.lt_succ_self _, fun v item hv hid => ?_⟩⟩
    rcases mem_update hv with hv | hv
    · cases hv
      exact ⟨by simp, hjob⟩
    · exact absurd hid ((p.issued v item hv).trans_le p.nextWorkId_le_newId).ne

lemma Assured.of_done (h : Assured exec P id q) (hdone : q.smpWorkDone id = true) :
    P q.memory := by
  refine h.resolve_right fun ⟨hne, _, hitem⟩ => ?_
  rw [smpWorkDone, if_neg hne] at hdone
  split at hdone
  · contradiction
  · next w hw =>
    obtain ⟨item, hslot, hid⟩ := Option.any_eq_true .. |>.mp (firstSlot_some hw)
    rw [hslot] at hdone
    exact (hitem w item hslot (by simpa using hid)).1 (by simpa using hdone)

section

variable (hkeep : ∀ job m, P m → P (exec job m))
include hkeep

lemma Step.assured (hstep : Step exec cores q q') (h : Assured exec P id q) :
    Assured exec P id q' := by
  cases hstep with
  | take =>
    unfold smpTakeWork
    split
    · exact h
    · refine h.imp_right fun ⟨hne, hissued, hitem⟩ => ⟨hne, hissued, fun v item hv => ?_⟩
      rcases mem_update hv with hv | hv
      · obtain ⟨old, hold, rfl⟩ := Option.map_eq_some_iff.mp hv
        exact fun hid => ⟨by simp, (hitem _ old hold hid).2⟩
      · exact hitem v item hv
  | finish w item hslot _ =>
    rcases h with h | ⟨hne, hissued, hitem⟩
    · exact .inl (hkeep _ _ h)
    · by_cases hid : item.id = id
      · exact .inl ((hitem w item hslot hid).2 _)
      · refine .inr ⟨hne, hissued, fun v item' hv => ?_⟩
        rcases mem_update hv with hv | hv
        · simp only [hslot, Option.map_some, Option.mem_some_iff] at hv
          subst hv
          exact fun h => absurd h hid
        · exact hitem v item' hv
  | submit job =>
    rcases smpSubmitWork_cases cores q job with heq | ⟨w, _, heq⟩ <;> rw [heq]
    exacts [h, h.enqueue w job]
  | release released => exact h.release released

lemma Steps.assured (hsteps : Steps exec cores q q') (h : Assured exec P id q) :
    Assured exec P id q' := by
  induction hsteps with
  | refl => exact h
  | tail _ hstep ih => exact hstep.assured hkeep ih

lemma SmpWaitWork.assured {waited : ℕ} (hwait : SmpWaitWork exec cores waited q q')
    (h : Assured exec P id q) : Assured exec P id q' := by
  obtain ⟨p, hsteps, _, rfl⟩ := hwait
  exact (hsteps.assured hkeep h).release waited

lemma Submit.assured (hsubmit : Submit exec cores job c c')
    (h : ∃ id ∈ 0 :: c.1, Assured exec P id c.2) : ∃ id ∈ 0 :: c'.1, Assured exec P id c'.2 := by
  obtain ⟨p, hsteps, hc'⟩ := hsubmit
  obtain ⟨id, hid, h⟩ := h
  have h := hsteps.assured hkeep h
  refine ⟨id, by grind, ?_⟩
  rcases submitOrRun_cases exec cores p job with heq | ⟨w, _, heq⟩ <;> rw [hc', heq]
  · exact h.imp (hkeep _ _) fun ⟨hne, hissued, hitem⟩ => ⟨hne, hissued, hitem⟩
  · exact h.enqueue w job

/-- What every job keeps holds after the jobs if one of them brings it about. -/
lemma RunJobs.of_hit (hrun : RunJobs exec cores jobs q q')
    (h : P q.memory ∨ ∃ job ∈ jobs, ∀ m, P (exec job m)) : P q'.memory := by
  obtain ⟨ids, p, hsubmit, hwait⟩ := hrun
  have hassured : ∃ id ∈ 0 :: ids, Assured exec P id p :=
    hsubmit.of_hit (I := fun _ => True) (P := fun c => ∃ id ∈ 0 :: c.1, Assured exec P id c.2)
      (fun _ _ _ _ _ => trivial) (fun _ _ _ h => h.assured hkeep) trivial
      (h.imp (fun h => ⟨0, by simp, .inl h⟩)
        fun ⟨job, hjob, h⟩ => ⟨job, hjob, fun _ _ hs _ => hs.hit h⟩)
  obtain ⟨id, hid, hassured⟩ := hassured
  refine assured_zero.mp (hwait.of_hit (I := Assured exec P id) (P := Assured exec P 0)
    (fun _ _ _ hwait => hwait.assured hkeep) (fun _ _ _ hwait => hwait.assured hkeep) hassured ?_)
  rcases List.mem_cons.mp hid with rfl | hid
  · exact .inl hassured
  · refine .inr ⟨id, hid, ?_⟩
    rintro b c ⟨p, hsteps, hdone, rfl⟩ h
    exact (assured_zero.mpr ((hsteps.assured hkeep h).of_done hdone)).release id

end

/-! ### The cores can always carry out the jobs -/

variable (exec cores)

def idAt (q : JobQueue J M) (w : WorkIndex) : Option ℕ := (q.slots w).map (·.id)

/-- The steps an item still needs. -/
def toDo : Option (WorkItem J) → ℕ
  | some ⟨.queued, _, _⟩ => 2
  | some ⟨.running, _, _⟩ => 1
  | _ => 0

lemma sum_advance_lt {w : WorkIndex} {state : Progress}
    (h : toDo ((q.slots w).map fun item => { item with state }) < toDo (q.slots w)) :
    ∑ v, toDo ((q.advance w state).slots v) < ∑ v, toDo (q.slots v) := by
  refine Finset.sum_lt_sum (fun v _ => ?_) ⟨w, Finset.mem_univ w, by simpa [advance] using h⟩
  by_cases hv : v = w
  · subst hv
    simpa [advance] using h.le
  · simp [advance, hv]

lemma idAt_advance (w : WorkIndex) (state : Progress) : (q.advance w state).idAt = q.idAt := by
  funext v
  by_cases hv : v = w
  · subst hv
    simp [idAt, advance, Function.comp_def]
  · simp [idAt, advance, hv]

lemma exists_step {w : WorkIndex} {item : WorkItem J}
    (hslot : q.slots w = some item) (hdone : item.state ≠ .done) :
    ∃ q', Step exec cores q q' ∧ ∑ v, toDo (q'.slots v) < ∑ v, toDo (q.slots v) ∧
      q'.idAt = q.idAt := by
  cases hfirst : firstSlot fun w => (q.slots w).any (·.state = .queued) with
  | some v =>
    have hany := firstSlot_some hfirst
    obtain ⟨⟨state, id, job⟩, hv, hstate⟩ := Option.any_eq_true .. |>.mp hany
    obtain rfl : state = .queued := by simpa using hstate
    refine ⟨q.advance v .running, ?_, sum_advance_lt (by simp [hv, toDo]), idAt_advance v _⟩
    have htake : Step exec cores q q.smpTakeWork := .take q
    rwa [smpTakeWork, hfirst] at htake
  | none =>
    obtain ⟨state, id, job⟩ := item
    have hqueued := firstSlot_none hfirst w
    obtain rfl : state = .running := by
      cases state <;> simp_all
    exact ⟨q.finish exec w _, .finish q w _ hslot rfl, sum_advance_lt (by simp [hslot, toDo]),
      idAt_advance w _⟩

/-- Cores that take and finish items come to an end, and the items keep their slots. -/
lemma exists_settled (q : JobQueue J M) : ∃ q', Steps exec cores q q' ∧
    (∀ w, ∀ item ∈ q'.slots w, item.state = .done) ∧ q'.idAt = q.idAt := by
  induction hn : ∑ w, toDo (q.slots w) using Nat.strong_induction_on generalizing q with
  | _ n ih =>
    subst hn
    by_cases hall : ∀ w, ∀ item ∈ q.slots w, item.state = .done
    · exact ⟨q, .refl, hall, rfl⟩
    · push Not at hall
      obtain ⟨w, item, hslot, hdone⟩ := hall
      obtain ⟨p, hstep, hlt, hids⟩ := exists_step exec cores hslot hdone
      obtain ⟨q', hsteps, hall, hids'⟩ := ih _ hlt p rfl
      exact ⟨q', .head hstep hsteps, hall, hids'.trans hids⟩

/-- Each of the ids that were given out has an item of its own. -/
structure Waiting (ids : List ℕ) (q : JobQueue J M) : Prop where
  items : ∀ id ∈ ids, id = 0 ∨ ∃ w, q.idAt w = some id
  distinct : ids.Pairwise fun id id' => id' = 0 ∨ id ≠ id'

variable {ids : List ℕ}

lemma Waiting.submit (h : Waiting ids q) (job : J) :
    Waiting (ids ++ [(q.submitOrRun exec cores job).1]) (q.submitOrRun exec cores job).2 := by
  rcases submitOrRun_cases exec cores q job with heq | ⟨w, hw, heq⟩ <;> rw [heq]
  · exact ⟨by simpa [idAt, or_imp, forall_and] using h.items, by
      simpa [List.pairwise_append] using h.distinct⟩
  · have hitems : ∀ id ∈ ids, id = 0 ∨ ∃ v, v ≠ w ∧ q.idAt v = some id := fun id hid =>
      (h.items id hid).imp_right fun ⟨v, hv⟩ => ⟨v, by rintro rfl; simp [idAt, hw] at hv, hv⟩
    refine ⟨fun id hid => ?_, List.pairwise_append.mpr ⟨h.distinct, by simp, fun id hid new hnew => ?_⟩⟩
    · rcases List.mem_append.mp hid with hid | hid
      · refine (hitems id hid).imp_right fun ⟨v, hne, hv⟩ => ⟨v, ?_⟩
        simpa [idAt, enqueue, hne] using hv
      · exact .inr ⟨w, by simpa [idAt, enqueue] using (List.mem_singleton.mp hid).symm⟩
    · obtain rfl := List.mem_singleton.mp hnew
      refine .inr ?_
      rcases hitems id hid with rfl | ⟨v, _, hv⟩
      · exact q.newId_ne_zero.symm
      · obtain ⟨item, hslot, rfl⟩ := Option.map_eq_some_iff.mp hv
        exact ((q.issued v item hslot).trans_le q.nextWorkId_le_newId).ne

lemma smpWorkDone_of_settled {w : WorkIndex} (hw : q.idAt w = some id)
    (hall : ∀ w, ∀ item ∈ q.slots w, item.state = .done) : q.smpWorkDone id = true := by
  unfold smpWorkDone
  split_ifs
  · rfl
  · split
    · next hnone =>
      obtain ⟨item, hslot, rfl⟩ := Option.map_eq_some_iff.mp hw
      exact absurd (by simp [hslot]) (firstSlot_none hnone w)
    · next v hv =>
      obtain ⟨item, hslot, _⟩ := Option.any_eq_true .. |>.mp (firstSlot_some hv)
      simp [hslot, hall v item hslot]

lemma Waiting.release (h : Waiting (id :: ids) q) :
    Waiting ids (q.smpReleaseWork id) := by
  have htail := List.pairwise_cons.mp h.distinct
  refine ⟨fun other hother => ?_, htail.2⟩
  have hitem := h.items other (List.mem_cons_of_mem _ hother)
  unfold smpReleaseWork
  split_ifs
  · exact hitem
  · split
    · exact hitem
    · next w hw =>
      obtain ⟨item, hslot, hid⟩ := Option.any_eq_true .. |>.mp (firstSlot_some hw)
      refine or_iff_not_imp_left.mpr fun hzero => ?_
      obtain ⟨v, hv⟩ := hitem.resolve_left hzero
      have hne : v ≠ w := by
        rintro rfl
        have hother := (htail.1 other hother).resolve_left hzero
        simp_all [idAt]
      exact ⟨v, by simpa [idAt, hne] using hv⟩

lemma exists_waits (h : Waiting ids q) :
    ∃ q', InTurn (SmpWaitWork exec cores) ids q q' := by
  induction ids generalizing q with
  | nil => exact ⟨q, rfl⟩
  | cons id ids ih =>
    obtain ⟨p, hsteps, hall, hids⟩ := exists_settled exec cores q
    have hp : Waiting (id :: ids) p := ⟨by simpa only [hids] using h.items, h.distinct⟩
    have hdone : p.smpWorkDone id = true := by
      rcases hp.items id List.mem_cons_self with rfl | ⟨w, hw⟩
      · rfl
      · exact smpWorkDone_of_settled hw hall
    obtain ⟨q', hrest⟩ := ih hp.release
    exact ⟨q', _, ⟨p, hsteps, hdone, rfl⟩, hrest⟩

/-- The cores can carry out any jobs, whatever the queue holds before. -/
lemma exists_runJobs (jobs : List J) (q : JobQueue J M) :
    ∃ q', RunJobs exec cores jobs q q' := by
  obtain ⟨⟨ids, p⟩, hsubmit, hwaiting⟩ := InTurn.exists_of_inv (R := Submit exec cores)
    (I := fun c => Waiting c.1 c.2) (b := ([], q))
    (fun job c h => ⟨_, ⟨c.2, .refl, rfl⟩, h.submit exec cores job⟩) jobs ⟨by simp, .nil⟩
  obtain ⟨q', hwaits⟩ := exists_waits exec cores hwaiting
  exact ⟨q', ids, p, hsubmit, hwaits⟩

end JobQueue

end Smp
