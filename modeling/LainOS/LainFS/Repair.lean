import LainOS.LainFS.Validate
import LainOS.Lib.RepairLoop

/-!
# The repair step

`repair_directory_once` mends the one defect the validator reported, when it knows how:
a bad parent link is pointed at the root, a directory with data fields is emptied, and extent
metadata that does not decode is dropped when the legacy fields describe a legal run of sectors.
-/

namespace LainFS

open Storage ParentWalk

variable {d : Directory} {k : Fin maxFiles}

def legacyExtentFieldsValid (part : Option Partition) (super : Superblock) (e : Dirent) : Bool :=
  match part with
  | none => false
  | some part =>
    if e.used ≠ entryFile ∨ e.byteSize > fileCapacity then false
    else
      let blocks := allocatedBlocksForEntry e
      let endLba := e.startLba.toUInt64 + blocks.toUInt64
      decide (blocks ≠ 0 ∧ blocks ≤ maxFileBlocks ∧ e.startLba ≥ super.dataStartLba ∧
        endLba ≤ part.blockCount)

/-- The tests `repair_directory_once` makes of a reported parent link. -/
def parentLinkIsBad (d : Directory) (id : UInt32) : Prop :=
  let e := d (indexFromEntryId id)
  let parentId := entryParentId e
  (maxFiles < parentId.toNat ∨ parentId = id) ∨
    (parentId ≠ rootDir ∧ (d (indexFromEntryId parentId)).used ≠ entryDir) ∨
    (e.used = entryDir ∧ (findDirectoryParentCycle d id).isSome)

instance (d : Directory) (id : UInt32) : Decidable (parentLinkIsBad d id) :=
  inferInstanceAs (Decidable (_ ∨ _))

/-- `some d'` when the reported defect was repaired. -/
def repairDirectoryOnce (part : Option Partition) (super : Superblock)
    (defect : CheckReason × UInt32) (d : Directory) : Option Directory :=
  let (reason, entryId) := defect
  if entryId = 0 ∨ maxFiles < entryId.toNat then none
  else
    let i := indexFromEntryId entryId
    let e := d i
    if e.used ≠ entryFile ∧ e.used ≠ entryDir then none
    else if reason = .badParent ∧ parentLinkIsBad d entryId then
      some (d.set i (setEntryParentId e rootDir))
    else if reason = .badDirectory ∧ e.used = entryDir then
      some (d.set i { e with startLba := 0, byteSize := 0 })
    else if reason = .badFileExtent ∧ e.used = entryFile ∧ entryExtentMeta e ≠ 0 ∧
        legacyExtentFieldsValid part super e = true ∧ entryExtents e = none then
      some (d.set i (setEntryExtents e [⟨e.startLba, allocatedBlocksForEntry e⟩]))
    else none

/-- The loop of `lainfs_repair`. -/
def repairLoop (part : Option Partition) (super : Superblock) (d : Directory) :
    RepairLoop.End (CheckReason × UInt32) × Directory :=
  RepairLoop.loop (validateDirectory part super) (repairDirectoryOnce part super) maxFiles 0 d

/-! ### What a repair changes -/

/-- The three ways a repair rewrites an entry. -/
inductive EntryRepair (part : Option Partition) (super : Superblock) (e : Dirent) : Dirent → Prop
  | parent : EntryRepair part super e (setEntryParentId e rootDir)
  | directory (dir : e.used = entryDir) :
    EntryRepair part super e { e with startLba := 0, byteSize := 0 }
  | extents (file : e.used = entryFile)
      (legacy : legacyExtentFieldsValid part super e = true) (bad : entryExtents e = none) :
    EntryRepair part super e (setEntryExtents e [⟨e.startLba, allocatedBlocksForEntry e⟩])

lemma repairDir_eq_some {part : Option Partition} {super : Superblock}
    {defect : CheckReason × UInt32} {d' : Directory}
    (h : repairDirectoryOnce part super defect d = some d') :
    ∃ i e, d' = d.set i e ∧ EntryRepair part super (d i) e := by
  simp only [repairDirectoryOnce] at h
  split_ifs at h with hid htype hparent hdir hext
  · cases h
    exact ⟨_, _, rfl, .parent⟩
  · cases h
    exact ⟨_, _, rfl, .directory hdir.2⟩
  · cases h
    exact ⟨_, _, rfl, .extents hext.2.1 hext.2.2.2.1 hext.2.2.2.2⟩

/-- What both repairs do with a report about an index; they differ in when extents are `broken`. -/
def repairEntry (reason : CheckReason) (i : Fin maxFiles) (broken : Prop) [Decidable broken]
    (d : Directory) : Option Directory :=
  if (d i).used ≠ entryFile ∧ (d i).used ≠ entryDir then none
  else if reason = .badParent ∧ parentLinkIsBad d (entryIdFromIndex i) then
    some (d.set i (setEntryParentId (d i) rootDir))
  else if reason = .badDirectory ∧ (d i).used = entryDir then
    some (d.set i { d i with startLba := 0, byteSize := 0 })
  else if reason = .badFileExtent ∧ broken then
    some (d.set i (setEntryExtents (d i) [⟨(d i).startLba, allocatedBlocksForEntry (d i)⟩]))
  else none

lemma repairDir_entryId (part : Option Partition) (super : Superblock)
    (reason : CheckReason) (i : Fin maxFiles) (d : Directory) :
    repairDirectoryOnce part super (reason, entryIdFromIndex i) d =
      repairEntry reason i ((d i).used = entryFile ∧ entryExtentMeta (d i) ≠ 0 ∧
        legacyExtentFieldsValid part super (d i) = true ∧ entryExtents (d i) = none) d := by
  simp only [repairDirectoryOnce, if_neg (entryId_inRange i), index_entryId, repairEntry]

lemma linkIsBad_of_not_parentSound {i : Fin maxFiles} (h : ¬ ParentSound d i)
    : parentLinkIsBad d (entryIdFromIndex i) := by
  simp only [parentLinkIsBad, index_entryId]
  by_contra hgood
  simp only [not_or, not_and, not_lt, not_not] at hgood
  exact h ⟨hgood.1.1, hgood.1.2, hgood.2.1⟩

lemma linkIsBad_of_cycle (h : Relation.TransGen (Step (parentLink d)) k k) :
    (d k).used = entryDir ∧ parentLinkIsBad d (entryIdFromIndex k) := by
  obtain ⟨j, hstep, -⟩ := Relation.TransGen.head'_iff.mp h
  have hdir := (link_eq_some.mp hstep).1
  refine ⟨hdir, ?_⟩
  simp only [parentLinkIsBad, index_entryId]
  refine Or.inr (Or.inr ⟨hdir, ?_⟩)
  rw [Option.isSome_iff_ne_none, Ne, findCycle_eq_none]
  exact fun hg => hg.not_transGen h

/-- Every bad parent link is repaired. -/
lemma repairDir_badParent (part : Option Partition) (super : Superblock)
    (htype : (d k).used = entryFile ∨ (d k).used = entryDir)
    (hbad : parentLinkIsBad d (entryIdFromIndex k)) :
    repairDirectoryOnce part super (.badParent, entryIdFromIndex k) d
      = some (d.set k (setEntryParentId (d k) rootDir)) := by
  rw [repairDir_entryId, repairEntry, if_neg, if_pos ⟨rfl, hbad⟩]
  exact fun hn => htype.elim hn.1 hn.2

end LainFS
