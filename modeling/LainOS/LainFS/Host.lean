import LainOS.LainFS.Repair

/-!
# The host checker

`tools/lainfs_check_host.c` holds a second copy of the validator and of the repair step, for disk
images. The helpers that decode an entry are the kernel's, line by line, and are shared here; the
functions written differently are modelled again (`rootDir` stands for their literal 0). Two differences are visible: an oversized file
is reported under another reason, and extents that decode but leave the data area are dropped by
the host's repair and refused by the kernel's.
-/

namespace LainFS.Host

open Storage ParentWalk LittleEndian Directory

variable {blockCount : UInt32} {i : Fin maxFiles}

/-! ### The checker -/

/-- The scan of `valid_name`: the number of characters, `none` at a forbidden one. -/
def scanName : List UInt8 → ℕ → Option ℕ
  | [], len => some len
  | c :: rest, len =>
    if c = 0 then some len
    else if isForbiddenChar c then none
    else scanName rest (len + 1)

def validName (name : Vector UInt8 31) : Bool :=
  match scanName name.toList 0 with
  | none => false
  | some len => len ≠ 0 && len < 31

/-- The loop of `find_parent_cycle`. -/
def parentCycleLoop (d : Directory) (seen : Finset (Fin maxFiles)) (current : UInt32) :
    Option UInt32 :=
  if current = rootDir then none
  else if maxFiles < current.toNat then none
  else if indexFromEntryId current ∈ seen then some current
  else if (d (indexFromEntryId current)).used ≠ entryDir then none
  else
    let parentId := entryParentId (d (indexFromEntryId current))
    if maxFiles < parentId.toNat then none
    else parentCycleLoop d (insert (indexFromEntryId current) seen) parentId
termination_by maxFiles - seen.card
decreasing_by
  rename_i hnot _ _
  have hlt : seen.card < Fintype.card (Fin maxFiles) := Finset.card_lt_univ_of_notMem hnot
  rw [Fintype.card_fin] at hlt
  rw [Finset.card_insert_of_notMem hnot]
  omega

def findParentCycle (d : Directory) (dirId : UInt32) : Option UInt32 := parentCycleLoop d ∅ dirId

/-- The loop over the extents of one file. -/
def checkExtents (dataStart blockCount : UInt32) : UInt32 → List Extent → Option CheckReason
  | _, [] => none
  | total, x :: rest =>
    let endLba := x.startLba.toUInt64 + x.blocks.toUInt64
    if x.blocks = 0 ∨ total > maxFileBlocks - x.blocks ∨ x.startLba < dataStart ∨
        endLba > blockCount.toUInt64 then some .badFileExtent
    else if rest.any fun y => rangesOverlap x.startLba x.blocks y.startLba y.blocks then
      some .overlappingExtents
    else checkExtents dataStart blockCount (total + x.blocks) rest

/-- One round of the loop over the entries. -/
def checkEntry (super : Superblock) (blockCount : UInt32) (d : Directory) (i : Fin maxFiles) :
    Option (CheckReason × UInt32) :=
  let e := d i
  let id := entryIdFromIndex i
  let parentId := entryParentId e
  if e.used = 0 then none
  else if e.used ≠ entryFile ∧ e.used ≠ entryDir then some (.badEntryType, id)
  else if validName e.name = false then some (.badName, id)
  else if maxFiles < parentId.toNat ∨ parentId = id then some (.badParent, id)
  else if parentId ≠ rootDir ∧ (d (indexFromEntryId parentId)).used ≠ entryDir then
    some (.badParent, id)
  else if e.used = entryDir then
    if e.startLba ≠ 0 ∨ e.byteSize ≠ 0 then some (.badDirectory, id)
    else
      match findParentCycle d id with
      | some cycleId => some (.badParent, if cycleId ≠ 0 then cycleId else id)
      | none => none
  -- one test for the size and the decoding, under one reason
  else if e.byteSize > fileCapacity then some (.badFileExtent, id)
  else
    match entryExtents e with
    | none => some (.badFileExtent, id)
    | some extents =>
      (checkExtents super.dataStartLba blockCount 0 extents).map fun reason => (reason, id)

def layoutIsBad (super : Superblock) (blockCount : UInt32) : Prop :=
  super.dirStartLba = 0 ∨ super.dirBlocks = 0 ∨ super.dataStartLba ≤ super.dirStartLba ∨
    super.dirStartLba.toUInt64 + super.dirBlocks.toUInt64 > super.dataStartLba.toUInt64 ∨
    super.dataStartLba ≥ blockCount

instance (super : Superblock) (blockCount : UInt32) : Decidable (layoutIsBad super blockCount) :=
  inferInstanceAs (Decidable (_ ∨ _))

/-- `none` when the table is accepted, else the reason and the entry id reported. The loop over
the pairs of files is the kernel's. -/
def checkDirectory (super : Superblock) (blockCount : UInt32) (d : Directory) :
    Option (CheckReason × UInt32) :=
  if layoutIsBad super blockCount then some (.badLayout, 0)
  else
    match (List.finRange maxFiles).findSome? (checkEntry super blockCount d) with
    | some defect => some defect
    | none => checkOverlaps d

/-! ### The repair -/

def legacyFieldsValid (super : Superblock) (blockCount : UInt32) (e : Dirent) : Bool :=
  let blocks := allocatedBlocksForEntry e
  let endLba := e.startLba.toUInt64 + blocks.toUInt64
  decide (e.used = entryFile ∧ e.byteSize ≤ fileCapacity ∧ blocks ≤ maxFileBlocks ∧
    e.startLba ≥ super.dataStartLba ∧ endLba ≤ blockCount.toUInt64)

/-- The extent metadata and the 16 bytes behind it are zeroed. -/
def dropExtentMeta (e : Dirent) : Dirent :=
  let e := setEntryExtentMeta e 0
  { e with reserved := .ofFn fun i => if i.val < 8 then e.reserved.get i else 0 }

/-- `some d'` when the reported defect was repaired. -/
def repairOnce (super : Superblock) (blockCount : UInt32) (result : CheckReason × UInt32)
    (d : Directory) : Option Directory :=
  let (reason, entryId) := result
  if entryId = 0 ∨ maxFiles < entryId.toNat then none
  else
    let i := indexFromEntryId entryId
    let e := d i
    let parentId := entryParentId e
    if e.used ≠ entryFile ∧ e.used ≠ entryDir then none
    else if reason = .badParent ∧
        (maxFiles < parentId.toNat ∨ parentId = entryId ∨
          (parentId ≠ rootDir ∧ (d (indexFromEntryId parentId)).used ≠ entryDir) ∨
          (e.used = entryDir ∧ (findParentCycle d entryId).isSome)) then
      some (d.set i (setEntryParentId e rootDir))
    else if reason = .badDirectory ∧ e.used = entryDir then
      some (d.set i { e with startLba := 0, byteSize := 0 })
    else if reason = .badFileExtent ∧ entryExtentMeta e ≠ 0 ∧
        legacyFieldsValid super blockCount e = true then
      some (d.set i (dropExtentMeta e))
    else none

/-- The loop of `command_repair`. -/
def repairLoop (super : Superblock) (blockCount : UInt32) (d : Directory) :
    RepairLoop.End (CheckReason × UInt32) × Directory :=
  RepairLoop.loop (checkDirectory super blockCount) (repairOnce super blockCount) maxFiles 0 d

/-! ### The copies compute the same -/

lemma scanName_eq (bytes : List UInt8) (n : ℕ) : scanName bytes n =
      if (cString bytes).all fun c => !isForbiddenChar c then some (n + (cString bytes).length)
      else none := by
  induction bytes generalizing n with
  | nil => rfl
  | cons c rest ih =>
    rw [scanName]
    by_cases hc : c = 0
    · simp [hc, cString]
    have hcons : cString (c :: rest) = c :: cString rest := by simp [cString, hc]
    rw [if_neg hc, ih, hcons, List.all_cons, List.length_cons]
    cases isForbiddenChar c with
    | true => simp
    | false => simp [Nat.add_assoc, Nat.add_comm 1]

lemma validName_eq (name : Vector UInt8 31) : validName name = entryNameIsValid name := by
  simp only [validName, scanName_eq, entryNameIsValid, LainFS.validName]
  rcases (cString name.toList).all fun c => !isForbiddenChar c with _ | _
  · simp
  generalize (cString name.toList).length = len
  by_cases h : 31 ≤ len
  · simp [h]
  · by_cases h0 : len = 0
    · simp [h0]
    · simp [h0, show len < 31 by omega, show len ≤ 30 by omega]

lemma cycleLoop_eq (d : Directory) (seen : Finset (Fin maxFiles)) (current : UInt32) :
    parentCycleLoop d seen current = LainFS.parentCycleLoop d seen current := by
  have hin : ∀ {c : UInt32}, ¬ c = rootDir → ¬ maxFiles < c.toNat →
      ¬ (c = 0 ∨ maxFiles < c.toNat) := fun h0 hlt => not_or.mpr ⟨h0, hlt⟩
  fun_induction parentCycleLoop d seen current with
  | case1 seen => rw [LainFS.parentCycleLoop, if_pos rfl]
  | case2 seen current h0 hlt => rw [LainFS.parentCycleLoop, if_neg h0, if_pos (Or.inr hlt)]
  | case3 seen current h0 hlt hmem =>
    rw [LainFS.parentCycleLoop, if_neg h0, if_neg (hin h0 hlt), if_pos hmem]
  | case4 seen current h0 hlt hmem hdir =>
    rw [LainFS.parentCycleLoop, if_neg h0, if_neg (hin h0 hlt), if_neg hmem, if_pos hdir]
  | case5 seen current h0 hlt hmem hdir parentId hp =>
    rw [LainFS.parentCycleLoop, if_neg h0, if_neg (hin h0 hlt), if_neg hmem, if_neg hdir]
    simp only [parentId] at hp
    simp only [if_pos hp, ite_self]
  | case6 seen current h0 hlt hmem hdir parentId hp ih =>
    rw [LainFS.parentCycleLoop, if_neg h0, if_neg (hin h0 hlt), if_neg hmem, if_neg hdir, ih]
    simp only [parentId] at hp ⊢
    rw [if_neg hp]
    split_ifs with hroot
    · rw [hroot, LainFS.parentCycleLoop, if_pos rfl]
    · rfl

lemma findParentCycle_entryId (d : Directory) (i : Fin maxFiles) :
    findParentCycle d (entryIdFromIndex i) = findDirectoryParentCycle d (entryIdFromIndex i) := by
  rw [findParentCycle, cycleLoop_eq, findCycle_eq, cycleLoop_entryId]

lemma checkExtents_eq (dataStart blockCount total : UInt32) (xs : List Extent) :
    checkExtents dataStart blockCount total xs
      = LainFS.checkExtents dataStart blockCount.toUInt64 total xs := by
  induction xs generalizing total with
  | nil => rfl
  | cons x xs ih => simp only [checkExtents, LainFS.checkExtents, ih]

variable {super : Superblock} {blockCount : UInt32}

lemma layoutIsBad_iff :
    layoutIsBad super blockCount ↔ LainFS.layoutIsBad super blockCount.toUInt64 := by
  simp only [layoutIsBad, LainFS.layoutIsBad, ge_iff_le, UInt32.le_iff_toNat_le,
    UInt64.le_iff_toNat_le, UInt32.toNat_toUInt64]

/-- What the host calls a reason of the kernel. -/
def hostReason (report : CheckReason × UInt32) : CheckReason × UInt32 :=
  (if report.1 = .badFileSize then .badFileExtent else report.1, report.2)

lemma hostReason_extent (id : UInt32) :
    hostReason (.badFileExtent, id) = (.badFileExtent, id) := rfl

lemma checkEntry_eq (super : Superblock) (blockCount : UInt32) (d : Directory) (i : Fin maxFiles) :
    checkEntry super blockCount d i
      = (LainFS.checkEntry super blockCount.toUInt64 d i).map hostReason := by
  simp only [checkEntry, LainFS.checkEntry, validName_eq, findParentCycle_entryId, checkExtents_eq]
  split_ifs <;> try rfl
  · cases findDirectoryParentCycle d (entryIdFromIndex i) <;> rfl
  rcases entryExtents (d i) with _ | xs
  · rfl
  cases hx : LainFS.checkExtents super.dataStartLba blockCount.toUInt64 0 xs with
  | none => simp [hx]
  | some reason =>
    -- the loop over the extents reports no size
    rcases checkExtents_eq_some hx with rfl | rfl <;> simp [hx, hostReason]

variable {part : Partition}

/-- The host reports what the kernel reports, under the host's reason. -/
lemma check_eq (super : Superblock)
    (hpart : part.blockCount = blockCount.toUInt64) (d : Directory) :
    checkDirectory super blockCount d = (validateDirectory (some part) super d).map hostReason := by
  simp only [checkDirectory, validateDirectory, layoutIsBad_iff, hpart]
  split_ifs with hlayout
  · rfl
  have hfirst : (List.finRange maxFiles).findSome? (checkEntry super blockCount d) =
      ((List.finRange maxFiles).findSome?
        (LainFS.checkEntry super blockCount.toUInt64 d)).map hostReason := by
    rw [List.map_findSome?]
    exact congrArg (List.findSome? · _) (funext (checkEntry_eq super blockCount d))
  rw [hfirst]
  cases hk : (List.finRange maxFiles).findSome? (LainFS.checkEntry super blockCount.toUInt64 d) with
  | some report => rfl
  | none =>
    cases ho : checkOverlaps d with
    | none => rfl
    | some report =>
      have hall := List.findSome?_eq_none_iff.mp hk
      have hreason := overlaps_eq_some (fun i => hall i (List.mem_finRange i)) ho
      simp [hostReason, hreason, Prod.ext_iff]

/-! ### Agreement of the checks -/

/-- The code numbers and the entry id as the two programs report them. -/
def reportCodes (report : CheckReason × UInt32) : UInt32 × UInt32 := (report.1.code, report.2)

lemma reportCodes_injective : Function.Injective reportCodes := by
  rintro ⟨r, i⟩ ⟨s, j⟩ h
  simp only [reportCodes, Prod.mk.injEq] at h
  obtain ⟨hcode, rfl⟩ := h
  cases r <;> cases s <;> first | rfl | exact absurd hcode (by decide)

/-- The first unsound entry is a file with legal type, name and parent that is too large. -/
def OversizedFirst (super : Superblock) (blockCount : UInt64) (d : Directory) : Prop :=
  ¬ LainFS.layoutIsBad super blockCount ∧
    ∃ i, (d i).used = entryFile ∧ entryNameIsValid (d i).name = true ∧ ParentSound d i ∧
      fileCapacity.toNat < (d i).byteSize.toNat ∧
      ∀ j < i, (d j).used = 0 ∨ EntrySound super blockCount d j

variable {d : Directory} {i : Fin maxFiles}

lemma checkEntry_of_oversized {blockCount : UInt64} (hfile : (d i).used = entryFile)
    (hname : entryNameIsValid (d i).name = true) (hparent : ParentSound d i)
    (hsize : fileCapacity.toNat < (d i).byteSize.toNat) :
    LainFS.checkEntry super blockCount d i = some (.badFileSize, entryIdFromIndex i) := by
  have h0 : (d i).used ≠ 0 := by rw [hfile]; decide
  have hdir : (d i).used ≠ entryDir := by rw [hfile]; decide
  simp only [LainFS.checkEntry, if_neg h0, if_neg hdir]
  rw [if_neg fun h => h.1 hfile, if_neg (by rw [hname]; decide),
    if_neg (sound_iff.mp hparent).1, if_neg (sound_iff.mp hparent).2, if_pos (UInt32.lt_iff_toNat_lt.mpr hsize)]

/-- The kernel reports a file size exactly for an oversized first defect. -/
lemma validate_eq_badFileSize :
    (∃ id, validateDirectory (some part) super d = some (.badFileSize, id)) ↔
      OversizedFirst super part.blockCount d := by
  constructor
  · rintro ⟨id, h⟩
    rcases validate_eq_some h with ⟨-, hreport⟩ | ⟨hlayout, i, hi, hbefore⟩ | ⟨-, hall, hover⟩
    · cases hreport
    · refine ⟨hlayout, i, ?_⟩
      have hbefore' := fun j hj => entry_eq_none.mp (hbefore j hj)
      cases entry_eq_some hi with
      | size hfile hname hparent hsize => exact ⟨hfile, hname, hparent, hsize, hbefore'⟩
      | extents _ _ _ _ _ _ hbad => rcases checkExtents_eq_some hbad with h | h <;> cases h
    · cases overlaps_eq_some hall hover
  · rintro ⟨hlayout, i, hfile, hname, hparent, hsize, hbefore⟩
    exact ⟨entryIdFromIndex i, validate_of_check hlayout
      (checkEntry_of_oversized hfile hname hparent hsize)
      fun j hj => entry_eq_none.mpr (hbefore j hj)⟩

/-- Kernel and host report the same, up to tables whose first defect is an oversized file. -/
theorem checkDirectory_agrees_iff (super : Superblock) (blockCount : UInt32) (part : Partition)
    (hpart : part.blockCount = blockCount.toUInt64) (d : Directory) :
    (validateDirectory (some part) super d).map reportCodes
        = (checkDirectory super blockCount d).map reportCodes ↔
      ¬ OversizedFirst super blockCount.toUInt64 d := by
  rw [← hpart, ← validate_eq_badFileSize, check_eq super hpart,
    (Option.map_injective reportCodes_injective).eq_iff]
  rcases validateDirectory (some part) super d with _ | report
  · simp
  obtain ⟨reason, id⟩ := report
  simp only [Option.map_some, Option.some.injEq, hostReason, Prod.mk.injEq, not_exists]
  by_cases hr : reason = .badFileSize
  · simp [hr]
  · simp [hr]

/-- A volume of 300 sectors with the usual layout. -/
def smallPartition : Partition :=
  { present := true, name := [], deviceIndex := 0, partitionNumber := 1, startLba := 2048,
    blockCount := 300, mbrType := 0x99, fsHint := .lainfs }

lemma smallPartition_size : smallPartition.blockCount = (300 : UInt32).toUInt64 := rfl

def smallSuper : Superblock :=
  { magic0 := 0x4E49414C, magic1 := 0x00315346, version := 1, blockSize := 512, dirStartLba := 1,
    dirBlocks := 256, dataStartLba := 257, maxFiles := 2048 }

/-- A file called `a` in the root, one byte over the capacity. -/
def oversizedFile : Dirent :=
  { Dirent.zero with
    used := entryFile, name := copyName (.replicate 31 0) [0x61], startLba := 257,
    byteSize := fileCapacity + 1 }

theorem checkDirectory_ne_validateDirectory :
    validateDirectory (some smallPartition) smallSuper (single oversizedFile)
        = some (.badFileSize, 1) ∧
      checkDirectory smallSuper 300 (single oversizedFile)
        = some (.badFileExtent, 1) := by
  have hentry : LainFS.checkEntry smallSuper smallPartition.blockCount
      (single oversizedFile) 0 = some (.badFileSize, 1) := by decide
  have hk : validateDirectory (some smallPartition) smallSuper (single oversizedFile)
      = some (.badFileSize, 1) :=
    validate_of_check (by decide) hentry fun j hj => absurd hj (Fin.not_lt_zero j)
  refine ⟨hk, ?_⟩
  rw [check_eq smallSuper smallPartition_size, hk]
  rfl

/-- A file of two sectors whose parent is no entry and whose extent metadata counts five extents. -/
def brokenFile : Dirent :=
  setEntryExtentMeta (setEntryParentId { oversizedFile with byteSize := 1024 } 7) 0x05000001

lemma validate_brokenFile : validateDirectory (some smallPartition) smallSuper (single brokenFile)
    = some (.badParent, entryIdFromIndex 0) :=
  validate_of_check (by decide) (by decide) fun j hj => absurd hj (Fin.not_lt_zero j)

/-- Both report the parent of the file first. -/
theorem checkDirectory_agrees_brokenFile :
    validateDirectory (some smallPartition) smallSuper (single brokenFile)
        = some (.badParent, 1) ∧
      (validateDirectory (some smallPartition) smallSuper (single brokenFile)).map reportCodes
        = (checkDirectory smallSuper 300 (single brokenFile)).map reportCodes := by
  refine ⟨validate_brokenFile,
    (checkDirectory_agrees_iff smallSuper 300 smallPartition rfl _).mpr ?_⟩
  rintro ⟨-, i, hfile, -, -, hsize, -⟩
  obtain rfl := eq_zero_of_single (ne_of_eq_of_ne hfile (by decide))
  exact absurd hsize (by decide)

/-! ### Agreement of the repairs -/

lemma dropExtentMeta_eq (e : Dirent) :
    dropExtentMeta e = setEntryExtents e [⟨e.startLba, allocatedBlocksForEntry e⟩] := by
  have hget (v : Vector UInt8 24) (i : Fin 24) : v.get i = v[i.val] := rfl
  have hbytes : (dropExtentMeta e).reserved = clearExtentBytes e.reserved := by
    ext i hi
    simp only [dropExtentMeta, setEntryExtentMeta, setReservedWord, clearExtentBytes, hget,
      Vector.getElem_ofFn, Vector.getElem_set, le32Byte]
    split_ifs <;> first | rfl | (exfalso; simp at *; omega)
  calc dropExtentMeta e = { e with reserved := (dropExtentMeta e).reserved } := rfl
    _ = setEntryExtents e [⟨e.startLba, allocatedBlocksForEntry e⟩] := by
      rw [hbytes, setExtents_singleton]

lemma legacyFields_eq (super : Superblock)
    (hpart : part.blockCount = blockCount.toUInt64) (e : Dirent) :
    legacyFieldsValid super blockCount e = legacyExtentFieldsValid (some part) super e := by
  have hpos : allocatedBlocksForEntry e ≠ 0 := by
    intro h0
    have := allocated_pos e
    rw [h0] at this
    exact absurd this (by decide)
  simp only [legacyFieldsValid, legacyExtentFieldsValid, hpart]
  split_ifs with h
  · simp only [decide_eq_false_iff_not]
    rintro ⟨hfile, hsize, -⟩
    rcases h with h | h
    · exact h hfile
    · rw [gt_iff_lt, UInt32.lt_iff_toNat_lt] at h
      rw [UInt32.le_iff_toNat_le] at hsize
      omega
  · simp only [not_or, not_not, gt_iff_lt, UInt32.not_lt] at h
    simp [h.1, h.2, hpos]

lemma repairOnce_entryId (super : Superblock) (hpart : part.blockCount = blockCount.toUInt64)
    (reason : CheckReason) (i : Fin maxFiles) (d : Directory) : repairOnce super blockCount
    (reason, entryIdFromIndex i) d =
      repairEntry reason i (entryExtentMeta (d i) ≠ 0 ∧
        legacyExtentFieldsValid (some part) super (d i) = true) d := by
  simp only [repairOnce, if_neg (entryId_inRange i), index_entryId, dropExtentMeta_eq,
    legacyFields_eq super hpart, findParentCycle_entryId, parentLinkIsBad, or_assoc, repairEntry]

/-- Apart from extents the two repairs are the same function of the report. -/
lemma repairOnce_eq_of_ne (super : Superblock) (hpart : part.blockCount = blockCount.toUInt64)
    {reason : CheckReason} (id : UInt32) (d : Directory) (hr : reason ≠ .badFileExtent) :
    repairOnce super blockCount (reason, id) d
      = repairDirectoryOnce (some part) super (reason, id) d := by
  by_cases hid : id = 0 ∨ maxFiles < id.toNat
  · simp only [repairOnce, repairDirectoryOnce, if_pos hid]
  · rw [not_or, not_lt] at hid
    rw [← entryId_index hid.1 hid.2, repairOnce_entryId super hpart, repairDir_entryId]
    simp only [repairEntry, hr, false_and]

/-- A file whose extents decode but leave the data area, and whose legacy fields are legal. -/
def RangeDefect (part : Partition) (super : Superblock) (e : Dirent) : Prop :=
  e.used = entryFile ∧ entryNameIsValid e.name = true ∧ entryExtentMeta e ≠ 0 ∧
    legacyExtentFieldsValid (some part) super e = true ∧
    ∃ xs, entryExtents e = some xs ∧
      LainFS.checkExtents super.dataStartLba part.blockCount 0 xs = some .badFileExtent

/-- The kernel accepts a used entry up to defects its repair mends. -/
@[mk_iff]
structure Mendable (part : Partition) (super : Superblock) (e : Dirent) : Prop where
  type : e.used = entryFile ∨ e.used = entryDir
  name : entryNameIsValid e.name = true
  size : e.used = entryFile → e.byteSize.toNat ≤ fileCapacity.toNat
  legacy : e.used = entryFile → entryExtents e = none →
    legacyExtentFieldsValid (some part) super e = true
  extents : e.used = entryFile → ∀ xs, entryExtents e = some xs →
    LainFS.checkExtents super.dataStartLba part.blockCount 0 xs = none

/-- Entry `i` has a range defect and every entry before it can be repaired. -/
def RangeDefectAt (part : Partition) (super : Superblock) (i : Fin maxFiles) (d : Directory) :
    Prop :=
  ¬ LainFS.layoutIsBad super part.blockCount ∧ RangeDefect part super (d i) ∧
    ∀ j < i, (d j).used = 0 ∨ Mendable part super (d j)

section

variable {part : Partition} {super : Superblock} {d d' : Directory} {e : Dirent}

section

variable (h : legacyExtentFieldsValid (some part) super e = true)
include h

lemma legacyValid_size : e.byteSize.toNat ≤ fileCapacity.toNat := by
  simp only [legacyExtentFieldsValid] at h
  split_ifs at h with hbad
  rw [not_or, gt_iff_lt, UInt32.lt_iff_toNat_lt, not_lt] at hbad
  exact hbad.2

/-- Dropping the metadata leaves one run in the data area. -/
lemma checkExtents_legacy : LainFS.checkExtents super.dataStartLba part.blockCount 0
      [⟨e.startLba, allocatedBlocksForEntry e⟩] = none := by
  have hsize := legacyValid_size h
  have hle := toNat_allocated_le hsize
  have hpos := allocated_pos e
  simp only [legacyExtentFieldsValid] at h
  split_ifs at h
  simp only [decide_eq_true_eq, ge_iff_le, UInt32.le_iff_toNat_le, UInt64.le_iff_toNat_le,
    toNat_add_toUInt64] at h
  rw [checkExtents_eq_none (by simpa using h.1) (by simpa using hle)]
  exact ⟨by simpa using h.2.2, by simp⟩

end

lemma mendable_of_checkEntry {j : Fin maxFiles}
    (h : LainFS.checkEntry super part.blockCount d j = none) :
    (d j).used = 0 ∨ Mendable part super (d j) := by
  refine (entry_eq_none.mp h).imp_right fun hs =>
    ⟨hs.type, hs.name, fun hf => (hs.file hf).1, fun hf hnone => ?_, fun hf xs hxs => ?_⟩
  · obtain ⟨-, xs, hxs, -⟩ := hs.file hf
    rw [hnone] at hxs
    cases hxs
  · obtain ⟨hsize, ys, hys, hsound⟩ := hs.file hf
    rw [hxs] at hys
    cases hys
    exact (checkExtents_of_extents hxs hsize).mpr hsound

/-- No repair of the kernel adds or removes a range defect, or makes an entry unmendable. -/
lemma entryRepair_congr {e' : Dirent} (h : EntryRepair (some part) super e e') :
    e'.used = e.used ∧ (RangeDefect part super e' ↔ RangeDefect part super e) ∧
      (Mendable part super e' ↔ Mendable part super e) := by
  cases h with
  | parent =>
    refine ⟨rfl, ?_, ?_⟩
    · simp only [RangeDefect, extents_setParent, meta_setParent]
      exact .rfl
    · simp only [mendable_iff, extents_setParent]
      exact .rfl
  | directory hdir =>
    have hnf : e.used ≠ entryFile := by rw [hdir]; decide
    refine ⟨rfl, ?_, ?_⟩
    · simp [RangeDefect, hnf]
    · simp [mendable_iff, hnf]
  | extents hfile hlegacy hbad =>
    have hsize := legacyValid_size hlegacy
    obtain ⟨hu, hn, hs, -⟩ := setExtents_fields e [⟨e.startLba, allocatedBlocksForEntry e⟩]
    have hx := extents_set_legacy e
    have hm := meta_set_singleton e ⟨e.startLba, allocatedBlocksForEntry e⟩
    have hcheck := checkExtents_legacy hlegacy
    refine ⟨hu, ?_, ?_⟩
    · simp [RangeDefect, hbad, hm]
    · simp [mendable_iff, hu, hn, hs, hx, hbad, hlegacy, hcheck]

lemma rangeDefect_congr {defect : CheckReason × UInt32} (i : Fin maxFiles)
    (h : repairDirectoryOnce (some part) super defect d = some d') :
    RangeDefectAt part super i d' ↔ RangeDefectAt part super i d := by
  obtain ⟨k, e, rfl, hrep⟩ := repairDir_eq_some h
  have hentry : ∀ j, (d.set k e j).used = (d j).used ∧
      (RangeDefect part super (d.set k e j) ↔ RangeDefect part super (d j)) ∧
      (Mendable part super (d.set k e j) ↔ Mendable part super (d j)) := by
    intro j
    by_cases hj : j = k
    · subst hj
      rw [set_self]
      exact entryRepair_congr hrep
    · rw [set_of_ne d e hj]
      exact ⟨rfl, .rfl, .rfl⟩
  simp only [RangeDefectAt, (hentry _).1, (hentry _).2.1, (hentry _).2.2]

variable {report : CheckReason × UInt32}

/-- The kernel mends whatever it reports about a mendable entry. -/
lemma repairDir_of_mendable {k : Fin maxFiles} (hk : (d k).used = 0 ∨ Mendable part super (d k))
    (h : EntryDefect super part.blockCount d k report) : ∃ d', repairDirectoryOnce (some part)
    super report d = some d' := by
  have hm : ∀ t : UInt8, t ≠ 0 → (d k).used = t → Mendable part super (d k) := by
    rintro t ht rfl
    exact hk.resolve_left ht
  cases h with
  | type h0 hf hdir => exact absurd (hm _ h0 rfl).type (not_or.mpr ⟨hf, hdir⟩)
  | name h0 hbad =>
    rw [(hm _ h0 rfl).name] at hbad
    cases hbad
  | parent ht hn hbad => exact ⟨_, repairDir_badParent _ _ ht (linkIsBad_of_not_parentSound hbad)⟩
  | cycle hdir hn c hc =>
    obtain ⟨hcdir, hbad⟩ := linkIsBad_of_cycle hc
    exact ⟨_, repairDir_badParent _ _ (.inr hcdir) hbad⟩
  | directory hdir hn hbad =>
    rw [repairDir_entryId, repairEntry, if_neg fun h => h.2 hdir,
      if_neg (by simp), if_pos ⟨rfl, hdir⟩]
    exact ⟨_, rfl⟩
  | size hf hn hp hbad => exact absurd ((hm _ (by decide) hf).size hf) (not_le.mpr hbad)
  | undecodable hf hn hs hbad =>
    have hword : entryExtentMeta (d k) ≠ 0 := by
      intro h0
      rw [extents_eq_some.mpr (Or.inl ⟨h0, rfl⟩)] at hbad
      cases hbad
    rw [repairDir_entryId, repairEntry, if_neg fun h => h.1 hf, if_neg (by simp),
      if_neg (by simp), if_pos ⟨rfl, hf, hword, (hm _ (by decide) hf).legacy hf hbad, hbad⟩]
    exact ⟨_, rfl⟩
  | extents hf hn hs xs hxs reason hbad =>
    rw [(hm _ (by decide) hf).extents hf xs hxs] at hbad
    cases hbad

/-- Of a range defect the kernel mends the parent link and then gives up. -/
lemma report_of_rangeDefect (hi : RangeDefect part super (d i))
    (h : EntryDefect super part.blockCount d i report) :
    (∃ d', repairDirectoryOnce (some part) super report d = some d') ∨
      report = (.badFileExtent, entryIdFromIndex i) := by
  obtain ⟨hfile, hname, -, hlegacy, xs, hxs, hbad⟩ := hi
  have hnd : (d i).used ≠ entryDir := by rw [hfile]; decide
  cases h with
  | type h0 hf hdir => exact absurd hfile hf
  | name h0 hn =>
    rw [hname] at hn
    cases hn
  | parent ht hn hp => exact .inl ⟨_, repairDir_badParent _ _ ht (linkIsBad_of_not_parentSound hp)⟩
  | cycle hdir => exact absurd hdir hnd
  | directory hdir => exact absurd hdir hnd
  | size hf hn hp hsize => exact absurd (legacyValid_size hlegacy) (not_le.mpr hsize)
  | undecodable hf hn hs hnone =>
    rw [hxs] at hnone
    cases hnone
  | extents hf hn hs ys hys reason hr =>
    rw [hxs] at hys
    cases hys
    rw [hbad] at hr
    cases hr
    exact .inr rfl

/-- The repairs differ only on a report about a range defect. -/
lemma repairOnce_hostReason (hpart : part.blockCount = blockCount.toUInt64)
    (h : validateDirectory (some part) super d = some report)
    (hno : ∀ i, ¬ RangeDefectAt part super i d) : repairDirectoryOnce (some part) super report d
      = repairOnce super blockCount (hostReason report) d := by
  have hsame : report.1 ≠ .badFileExtent → report.1 ≠ .badFileSize →
      repairDirectoryOnce (some part) super report d
        = repairOnce super blockCount (hostReason report) d := by
    intro hx hs
    rw [hostReason, if_neg hs, repairOnce_eq_of_ne super hpart report.2 d hx]
  rcases validate_eq_some h with ⟨-, rfl⟩ | ⟨hlayout, i, hi, hbefore⟩ | ⟨-, hall, hover⟩
  · exact hsame (by decide) (by decide)
  · have hdefect := entry_eq_some hi
    cases hdefect with
    | size hf hn hp hsize =>
      have hlegacy : ¬ legacyExtentFieldsValid (some part) super (d i) = true :=
        fun hl => absurd (legacyValid_size hl) (not_le.mpr hsize)
      simp [hostReason, repairOnce_entryId super hpart, repairDir_entryId, repairEntry, hlegacy]
    | undecodable hf hn hs hbad =>
      simp [hostReason, repairOnce_entryId super hpart, repairDir_entryId, repairEntry, hf, hbad]
    | extents hf hn hs xs hxs reason hbad =>
      rcases checkExtents_eq_some hbad with rfl | rfl
      · -- in bounds of the legacy fields this would be a range defect, which `hno` excludes
        have hrange : ¬ (entryExtentMeta (d i) ≠ 0 ∧
            legacyExtentFieldsValid (some part) super (d i) = true) := fun hml =>
          hno i ⟨hlayout, ⟨hf, hn, hml.1, hml.2, xs, hxs, hbad⟩,
            fun j hj => mendable_of_checkEntry (hbefore j hj)⟩
        rw [hostReason_extent, repairDir_entryId, repairOnce_entryId super hpart]
        simp only [repairEntry, hxs, reduceCtorEq, and_false, false_and, hrange, if_false]
      · exact hsame (by simp) (by simp)
    | _ => exact hsame (by simp) (by simp)
  · have hreason := overlaps_eq_some hall hover
    exact hsame (by simp [hreason]) (by simp [hreason])

/-- What the kernel repairs, the host repairs in the same way. -/
lemma repairOnce_of_repaired (hpart : part.blockCount = blockCount.toUInt64)
    (h : repairDirectoryOnce (some part) super report d = some d') :
    repairOnce super blockCount (hostReason report) d = some d' := by
  obtain ⟨reason, id⟩ := report
  have hid : ¬ (id = 0 ∨ maxFiles < id.toNat) := by
    intro hid
    simp only [repairDirectoryOnce, if_pos hid] at h
    cases h
  rw [not_or, not_lt] at hid
  rw [← entryId_index hid.1 hid.2] at h ⊢
  generalize indexFromEntryId id = i at h ⊢
  by_cases hx : reason = .badFileExtent
  · subst hx
    rw [hostReason_extent, repairOnce_entryId super hpart]
    rw [repairDir_entryId] at h
    simp only [repairEntry, reduceCtorEq, false_and, if_false, true_and] at h ⊢
    split_ifs at h with htype hext
    rw [if_neg htype, if_pos ⟨hext.2.1, hext.2.2.1⟩]
    exact h
  · by_cases hs : reason = .badFileSize
    · subst hs
      simp [repairDir_entryId, repairEntry] at h
    · rw [hostReason, if_neg hs, repairOnce_eq_of_ne super hpart _ d hx]
      exact h

/-- A range defect is found, at the latest when its entry is reached. -/
lemma exists_first_defect (h : RangeDefect part super (d i)) :
    ∃ k a, LainFS.checkEntry super part.blockCount d k = some a ∧
      (∀ j < k, LainFS.checkEntry super part.blockCount d j = none) ∧ k ≤ i := by
  obtain ⟨hfile, -, -, -, xs, hxs, hbad⟩ := h
  have hi : LainFS.checkEntry super part.blockCount d i ≠ none := by
    intro hnone
    rcases mendable_of_checkEntry hnone with h0 | hm
    · rw [hfile] at h0
      cases h0
    · rw [hm.extents hfile xs hxs] at hbad
      cases hbad
  cases hfind : (List.finRange maxFiles).findSome? (LainFS.checkEntry super part.blockCount d) with
  | none => exact absurd (List.findSome?_eq_none_iff.mp hfind i (List.mem_finRange i)) hi
  | some a =>
    obtain ⟨k, hk, hbefore⟩ := findSome_finRange.mp hfind
    exact ⟨k, a, hk, hbefore, not_lt.mp fun hlt => hi (hbefore i hlt)⟩

end

/-- A repair of the host never stores metadata in an entry that has none. -/
lemma meta_repairOnce {d' : Directory} {report : CheckReason × UInt32}
    (h : repairOnce super blockCount report d = some d') (hi : entryExtentMeta (d i) = 0) :
    entryExtentMeta (d' i) = 0 := by
  have hset : ∀ k e, entryExtentMeta e = entryExtentMeta (d k) ∨ entryExtentMeta e = 0 →
      entryExtentMeta (d.set k e i) = 0 := by
    intro k e he
    by_cases hik : i = k
    · subst hik
      rw [set_self]
      exact he.elim (fun h => h.trans hi) id
    · rw [set_of_ne d e hik]
      exact hi
  simp only [repairOnce] at h
  split_ifs at h
  · cases h
    exact hset _ _ (.inl (meta_setParent _ _))
  · cases h
    exact hset _ _ (.inl rfl)
  · cases h
    rw [dropExtentMeta_eq]
    exact hset _ _ (.inr (meta_set_singleton _ _))

/-- What both loops do while entry `i` has a range defect that is still to be reached: the same
repair, or the step at which the kernel gives up and the host drops the metadata. -/
lemma repair_step_of_rangeDefectAt (super : Superblock)
    (hpart : part.blockCount = blockCount.toUInt64) (h : RangeDefectAt part super i d) :
    ∃ a b, validateDirectory (some part) super d = some a ∧
      checkDirectory super blockCount d = some b ∧
      ((∃ d', repairDirectoryOnce (some part) super a d = some d' ∧
          repairOnce super blockCount b d = some d' ∧ RangeDefectAt part super i d') ∨
        (∃ d', repairDirectoryOnce (some part) super a d = none ∧
          repairOnce super blockCount b d = some d' ∧ ¬ entryExtentMeta (d i) = 0 ∧
          entryExtentMeta (d' i) = 0)) := by
  have h' := h
  obtain ⟨hlayout, hrange, hbefore⟩ := h'
  obtain ⟨k, a, hka, hk, hki⟩ := exists_first_defect hrange
  have ha := validate_of_check hlayout hka hk
  refine ⟨a, hostReason a, ha, by rw [check_eq super hpart, ha]; rfl, ?_⟩
  have hboth : (∃ d', repairDirectoryOnce (some part) super a d = some d') →
      ∃ d', repairDirectoryOnce (some part) super a d = some d' ∧
        repairOnce super blockCount (hostReason a) d = some d' ∧ RangeDefectAt part super i d' := by
    rintro ⟨d', hd'⟩
    exact ⟨d', hd', repairOnce_of_repaired hpart hd', (rangeDefect_congr i hd').mpr h⟩
  have hdefect := entry_eq_some hka
  rcases hki.lt_or_eq with hlt | rfl
  · exact .inl (hboth (repairDir_of_mendable (hbefore k hlt) hdefect))
  rcases report_of_rangeDefect hrange hdefect with hrep | rfl
  · exact .inl (hboth hrep)
  obtain ⟨hfile, -, hword, hlegacy, xs, hxs, -⟩ := hrange
  refine .inr ⟨d.set k (setEntryExtents (d k)
    [⟨(d k).startLba, allocatedBlocksForEntry (d k)⟩]), ?_, ?_, hword, ?_⟩
  · simp [repairDir_entryId, repairEntry, hxs]
  · rw [hostReason_extent, repairOnce_entryId super hpart, repairEntry,
      if_neg fun h => h.1 hfile, if_neg (by simp), if_neg (by simp), if_pos ⟨rfl, hword, hlegacy⟩]
  · rw [set_self]
    exact meta_set_singleton _ _

/-- The two repair loops end alike, up to tables with a range defect they get to. -/
theorem repairLoop_agrees_iff (super : Superblock) (blockCount : UInt32) (part : Partition)
    (hpart : part.blockCount = blockCount.toUInt64) (d : Directory)
    (hsteps : (LainFS.repairLoop (some part) super d).1.repairs < maxFiles) :
    ((LainFS.repairLoop (some part) super d).2 = (repairLoop super blockCount d).2 ∧
        (LainFS.repairLoop (some part) super d).1.isClean
          = (repairLoop super blockCount d).1.isClean) ↔
      ∀ i, ¬ RangeDefectAt part super i d := by
  constructor
  · rintro ⟨htable, -⟩ i hi
    refine RepairLoop.loop_ne (J := RangeDefectAt part super i)
      (Q := fun d => entryExtentMeta (d i) = 0)
      (fun d hd => repair_step_of_rangeDefectAt super hpart hd) ?_ hsteps.le hi htable
    intro d b d' hq hb hd'
    exact meta_repairOnce hd' hq
  · intro hno
    refine RepairLoop.loop_agree (I := fun d => ∀ i, ¬ RangeDefectAt part super i d) ?_ ?_ ?_ hno
    · intro d _
      rw [check_eq super hpart, Option.map_eq_none_iff]
    · intro d a b hno ha hb
      rw [check_eq super hpart, ha] at hb
      cases hb
      exact repairOnce_hostReason hpart ha hno
    · intro d a d' hno ha hd' i hi
      exact hno i ((rangeDefect_congr i hd').mp hi)

/-- A file of two sectors whose second extent starts behind the end of the volume. -/
def strayFile : Dirent :=
  setEntryExtents { oversizedFile with byteSize := 1024 } [⟨257, 1⟩, ⟨1000, 1⟩]

/-- The table the host is left with. -/
lemma check_dropped : checkDirectory smallSuper 300 (single (dropExtentMeta strayFile)) = none := by
  rw [check_eq smallSuper smallPartition_size, Option.map_eq_none_iff, validate_eq_none]
  exact sound_single (by decide) (by decide)

/-- On the stray file the kernel gives up at once; the host drops the metadata and is content. -/
theorem repairLoop_strayFile_differs :
    (LainFS.repairLoop (some smallPartition) smallSuper (single strayFile)).1.repairs
        = 0 ∧
      (LainFS.repairLoop (some smallPartition) smallSuper (single strayFile)).1.isClean
        = false ∧
      (repairLoop smallSuper 300 (single strayFile)).1.repairs = 1 ∧
      (repairLoop smallSuper 300 (single strayFile)).1.isClean = true := by
  have hk : validateDirectory (some smallPartition) smallSuper (single strayFile)
      = some (.badFileExtent, entryIdFromIndex 0) :=
    validate_of_check (by decide) (by decide) fun j hj => absurd hj (Fin.not_lt_zero j)
  have hh : checkDirectory smallSuper 300 (single strayFile)
      = some (.badFileExtent, entryIdFromIndex 0) := by
    rw [check_eq smallSuper smallPartition_size, hk]
    rfl
  have hrefuse : repairDirectoryOnce (some smallPartition) smallSuper
      (.badFileExtent, entryIdFromIndex 0) (single strayFile) = none := by
    rw [repairDir_entryId, repairEntry, if_neg (by decide), if_neg (by simp),
      if_neg (by simp), if_neg (by decide)]
  have hdrop : repairOnce smallSuper 300 (.badFileExtent, entryIdFromIndex 0)
      (single strayFile) = some (single (dropExtentMeta strayFile)) := by
    rw [repairOnce_entryId smallSuper smallPartition_size, repairEntry,
      if_neg (by decide), if_neg (by simp), if_neg (by simp), if_pos (by decide), dropExtentMeta_eq]
    simp only [single, set_self, set_set]
  rw [LainFS.repairLoop, RepairLoop.loop_of_refused hk hrefuse, repairLoop,
    RepairLoop.loop_of_repaired hh hdrop, if_neg (by decide),
    RepairLoop.loop_of_accepts check_dropped]
  exact ⟨rfl, rfl, rfl, rfl⟩

/-- The kernel moves the file of `brokenFile` to the root and drops its metadata. -/
lemma repairLoop_brokenFile : LainFS.repairLoop (some smallPartition) smallSuper (single brokenFile) =
    (.clean 2, single (dropExtentMeta (setEntryParentId brokenFile rootDir))) := by
  have hmove : repairDirectoryOnce (some smallPartition) smallSuper
      (.badParent, entryIdFromIndex 0) (single brokenFile) =
        some (single (setEntryParentId brokenFile rootDir)) := by
    rw [repairDir_entryId, repairEntry, if_neg (by decide), if_pos ⟨rfl, by decide⟩]
    simp only [single, set_self, set_set]
  have hextent : validateDirectory (some smallPartition) smallSuper
      (single (setEntryParentId brokenFile rootDir)) = some (.badFileExtent, entryIdFromIndex 0) :=
    validate_of_check (by decide) (by decide) fun j hj => absurd hj (Fin.not_lt_zero j)
  have hdrop : repairDirectoryOnce (some smallPartition) smallSuper
      (.badFileExtent, entryIdFromIndex 0) (single (setEntryParentId brokenFile rootDir)) =
        some (single (dropExtentMeta (setEntryParentId brokenFile rootDir))) := by
    rw [repairDir_entryId, repairEntry, if_neg (by decide), if_neg (by simp), if_neg (by simp),
      if_pos (by decide), dropExtentMeta_eq]
    simp only [single, set_self, set_set]
  have hsound : validateDirectory (some smallPartition) smallSuper
      (single (dropExtentMeta (setEntryParentId brokenFile rootDir))) = none :=
    validate_eq_none.mpr (sound_single (by decide) (by decide))
  rw [LainFS.repairLoop, RepairLoop.loop_of_repaired validate_brokenFile hmove,
    if_neg (by decide), RepairLoop.loop_of_repaired hextent hdrop, if_neg (by decide),
    RepairLoop.loop_of_accepts hsound]

/-- Both loops take two steps on the broken file. -/
theorem repairLoop_agrees_brokenFile :
    (LainFS.repairLoop (some smallPartition) smallSuper (single brokenFile)).1.repairs = 2 ∧
      (LainFS.repairLoop (some smallPartition) smallSuper (single brokenFile)).2
        = (repairLoop smallSuper 300 (single brokenFile)).2 ∧
      (LainFS.repairLoop (some smallPartition) smallSuper (single brokenFile)).1.isClean
        = (repairLoop smallSuper 300 (single brokenFile)).1.isClean := by
  refine ⟨by rw [repairLoop_brokenFile]; rfl,
    (repairLoop_agrees_iff smallSuper 300 smallPartition rfl _ ?_).mpr ?_⟩
  · rw [repairLoop_brokenFile]
    decide
  · -- the metadata does not decode, so that it is no range defect
    rintro i ⟨-, ⟨hfile, -, -, -, xs, hxs, -⟩, -⟩
    obtain rfl := eq_zero_of_single (ne_of_eq_of_ne hfile (by decide))
    exact absurd hxs (by simp [single, show entryExtents brokenFile = none by decide])

end LainFS.Host
