import LainOS.LainFS.Frame

/-!
# Calls that change the table

Make-directory, delete, rename and save as one type of calls on the table of a mounted partition.
A call that returns 0 leaves a valid table (`run_keeps_valid`).
-/

namespace LainFS

open Storage Directory

variable {dirty namesOk : Bool} {parentId size : UInt32} {name : CString} {buffer : ℕ → UInt8}
  {i : Fin maxFiles} {d₁ : Directory} {op : Directory → Except ℤ Directory}

inductive TableCall
  | makeDir (drive : UInt8) (parentId : UInt32) (name : CString)
  | delete (drive : UInt8) (parentId : UInt32) (name : CString)
  | rename (drive : UInt8) (oldParentId : UInt32) (oldName : CString) (newParentId : UInt32)
      (newName : CString)
  | save (drive : UInt8) (parentId : UInt32) (name : CString) (buffer : ℕ → UInt8) (size : UInt32)

namespace TableCall

def drive : TableCall → UInt8
  | makeDir drive _ _ => drive
  | delete drive _ _ => drive
  | rename drive _ _ _ _ => drive
  | save drive _ _ _ _ => drive

def run (st : State) : TableCall → ℤ × State
  | makeDir drive parentId name => lainfsMakeDirInDir st drive parentId name
  | delete drive parentId name => lainfsDeleteInDir st drive parentId name
  | rename drive oldParentId oldName newParentId newName =>
    lainfsRenameInDir st drive oldParentId oldName newParentId newName
  | save drive parentId name buffer size => lainfsSaveFileInDir st drive parentId name buffer size

end TableCall

/-- The superblock and the table a call on the partition works on, if it gets that far. -/
def openedTable (st : State) (p : UInt32) : Option (CheckedSuper × Directory) :=
  match openDirectory st p with
  | (.ok super, st') => some (super, st'.directory)
  | (.error _, _) => none

variable {st : State} {p parentId : UInt32} {super : CheckedSuper} {d : Directory}

lemma openedTable_eq_some (h : openedTable st p = some (super, d)) :
    ∃ st', openDirectory st p = (.ok super, st') ∧ st'.directory = d := by
  rw [openedTable] at h
  rcases ho : openDirectory st p with ⟨result, st'⟩
  rw [ho] at h
  cases result with
  | error _ => cases h
  | ok super' =>
    cases h
    exact ⟨st', rfl, rfl⟩

/-- In an open partition the table is the buffer, unless the validator rejects it. -/
lemma Opened.openedTable (h : Opened st p super) : LainFS.openedTable st p =
      if validateDirectory (storageGetPartition st.storage p) super.1 st.directory = none
      then some (super, st.directory) else none := by
  rw [LainFS.openedTable, h.open_eq]
  cases validateDirectory (storageGetPartition st.storage p) super.1 st.directory <;> rfl

lemma Opened.saveDirectory (h : Opened st p super)
    (d : Directory) : Opened (LainFS.saveDirectory { st with directory := d } p) p super :=
  ⟨h.super, true, rfl⟩

lemma Opened.setDirectory (h : Opened st p super)
    (d : Directory) : Opened { st with directory := d } p super :=
  ⟨h.super, h.tag⟩

/-! ### Status codes -/

variable {name : List UInt8} {code : ℤ}

lemma makeDirEntry_error_ne (h : makeDirEntry d parentId name = .error code) : code ≠ 0 := by
  rw [makeDirEntry] at h
  split_ifs at h
  · cases h; decide
  · cases h; decide
  · cases hf : findFreeEntry d with
    | none => rw [hf] at h; cases h; decide
    | some i => rw [hf] at h; cases h

lemma deleteEntry_error_ne (h : deleteEntry d parentId name = .error code) : code ≠ 0 := by
  rw [deleteEntry] at h
  split at h
  · cases h; decide
  rcases hf : findEntryInDir d parentId name with _ | i
  · rw [hf] at h; cases h; decide
  rw [hf] at h
  dsimp only at h
  split_ifs at h
  cases h
  decide

lemma renameEntry_error_ne {oldParentId newParentId : UInt32} {oldName newName : List UInt8}
    (h : renameEntry d oldParentId oldName newParentId newName = .error code) : code ≠ 0 := by
  rw [renameEntry] at h
  split at h
  · cases h; decide
  cases hf : findEntryInDir d oldParentId oldName with
  | none => rw [hf] at h; cases h; decide
  | some i =>
    rw [hf] at h
    dsimp only at h
    split_ifs at h <;> cases h <;> decide

lemma claim_error_ne (h : claimSlot d parentId name = .error code) : code ≠ 0 := by
  rw [claimSlot] at h
  split at h
  · cases h; decide
  cases hf : findEntryInDir d parentId name with
  | some i =>
    rw [hf] at h
    dsimp only at h
    split_ifs at h
    cases h
    decide
  | none =>
    rw [hf] at h
    cases hfree : findFreeEntry d with
    | none => rw [hfree] at h; cases h; decide
    | some i => rw [hfree] at h; cases h

/-! ### A volume for examples -/

def volumePartition (blockCount : UInt64) : Partition :=
  ⟨true, [0x64, 0x70, 0x31], 0, 1, 2048, blockCount, 0x99, .lainfs⟩

/-- A volume of the given size on a device of its own, mounted as drive C, with an empty directory
on the disk. -/
def oneVolume (blockCount : UInt64) : Storage.State :=
  { blockDevices := [⟨true, [0x64], 512, 8192, true, true⟩]
    disk := fun _ l => if l = 2048 then sectorOfSuper formatSuper else Sector.zero
    partitions := [volumePartition blockCount]
    mounts := fun i =>
      if i = 2 then ⟨true, 0x43, 0, [0x64, 0x70, 0x31], some .lainfs⟩
      else ⟨false, 0x41 + UInt8.ofNat i.val, 0, [], none⟩
    faults := fun _ => none
    accesses := 0 }

def checkedFormatSuper : CheckedSuper := ⟨formatSuper, superIsValid_formatSuper⟩

/-- The volume with the table `d` in the directory buffer. -/
def bufferedVolume (blockCount : UInt64) (d : Directory) (dirty : Bool) : State :=
  { storage := oneVolume blockCount
    directory := d
    superCache := some (0, checkedFormatSuper)
    directoryTag := some ⟨0, dirty⟩
    dataCache := fun _ => none
    cacheClock := 0 }

lemma buffered_directory (blockCount : UInt64) (d : Directory) (dirty : Bool) :
    (bufferedVolume blockCount d dirty).directory = d := rfl

lemma buffered_opened (blockCount : UInt64) (d : Directory) (dirty : Bool) :
    Opened (bufferedVolume blockCount d dirty) 0 checkedFormatSuper :=
  ⟨rfl, dirty, rfl⟩

variable {blockCount : UInt64}

section

variable (h : validateDirectory (some (volumePartition blockCount)) formatSuper d = none)
include h

lemma buffered_openDirectory : openDirectory (bufferedVolume blockCount d dirty) 0 =
      (.ok checkedFormatSuper, bufferedVolume blockCount d dirty) := by
  rw [(buffered_opened blockCount d dirty).open_eq]
  have hvalid : validateDirectory
      (storageGetPartition (bufferedVolume blockCount d dirty).storage 0)
      checkedFormatSuper.1 (bufferedVolume blockCount d dirty).directory = none := h
  rw [hvalid]

lemma buffered_openedTable :
    openedTable (bufferedVolume blockCount d dirty) 0 = some (checkedFormatSuper, d) := by
  rw [openedTable, buffered_openDirectory h]
  rfl

end

def nameA : CString := ⟨[0x61], by simp⟩
def nameB : CString := ⟨[0x62], by simp⟩

lemma tableValid_empty (h : ¬ layoutIsBad formatSuper blockCount) :
    TableValid (volumePartition blockCount) formatSuper empty :=
  ⟨validate_eq_none.mpr (sound_empty h), fun _ _ hi => absurd rfl hi⟩

lemma findEntry_empty (parentId : UInt32) (name : List UInt8) :
    findEntryInDir empty parentId name = none :=
  List.find?_eq_none.mpr fun i _ => by simp [empty, Dirent.zero]

lemma freeEntry_empty : findFreeEntry empty = some 0 :=
  freeEntry_of_first rfl fun j hj => absurd hj (Fin.not_lt_zero j)

/-- A save in an empty table claims the first slot. -/
lemma claim_empty (h : d = empty) (name : List UInt8) :
    claimSlot d rootDir name = .ok (0, Directory.empty.set 0 (claimedEntry rootDir)) := by
  rw [h, claimSlot, if_neg (by decide), findEntry_empty, freeEntry_empty]

/-- The first data sector of an empty volume is the room for a file of one block. -/
lemma freeExtents_claimed {part : Partition} (hsize : 258 ≤ part.blockCount.toNat) {blocks : UInt32}
    (hblocks : blocks = 1) : findFreeExtents (some part) checkedFormatSuper.1 blocks 0
      (Directory.empty.set 0 (claimedEntry rootDir)) = some [⟨257, 1⟩] := by
  rw [hblocks]
  refine freeExtents_of_free (by decide) (by decide) hsize
    fun lba hlo hhi => isFree_of_no_files (fun j hj => ?_) hlo (lt_of_lt_of_le hhi (by decide))
  rw [set_of_ne _ _ hj]
  exact (by decide : (0 : UInt8) ≠ entryFile)

/-- A file called `a` in the root with one byte in sector 257. -/
def smallFile : Dirent :=
  { Dirent.zero with
    used := entryFile, name := copyName (.replicate 31 0) [0x61], startLba := 257,
    byteSize := 1 }

/-- The table that a save of `b` leaves when it has claimed a slot beside `a`. -/
def claimedBeside : Directory := (single smallFile).set 1 (claimedEntry rootDir)

lemma validate_smallFile :
    validateDirectory (some (volumePartition 258)) formatSuper (single smallFile) = none :=
  validate_eq_none.mpr (sound_single (by decide) (by decide))

lemma findEntry_smallFile {parentId : UInt32} {name : List UInt8} (h : name ≠ [0x61]) :
    findEntryInDir (single smallFile) parentId name = none := by
  cases hfind : findEntryInDir (single smallFile) parentId name with
  | none => rfl
  | some i =>
    obtain ⟨hused, -, hname⟩ := findEntry_eq_some hfind
    obtain rfl := eq_zero_of_single hused
    exact absurd (hname.symm.trans (by decide)) h

lemma findEntry_smallFile_self : findEntryInDir (single smallFile) rootDir nameA.bytes = some 0 := by
  cases hfind : findEntryInDir (single smallFile) rootDir nameA.bytes with
  | none => exact absurd (by decide) (findEntry_eq_none hfind 0)
  | some i => rw [eq_zero_of_single (findEntry_eq_some hfind).1]

lemma tableValid_smallFile : TableValid (volumePartition 258) formatSuper (single smallFile) := by
  refine ⟨validate_smallFile, fun i j hi hj _ _ => ?_⟩
  rw [eq_zero_of_single hi, eq_zero_of_single hj]

/-! ### What a call can do -/

/-- All that a call of one table operation can do, by what opening the partition gave. -/
inductive TableOutcome (st : State) (p : UInt32) (namesOk : Bool)
    (op : Directory → Except ℤ Directory) :
    Except OpenError CheckedSuper × State → ℤ × State → Prop
  | refused {o} (h : namesOk = false) : TableOutcome st p namesOk op o (-2, st)
  | unopened {e st₁ code} (h : code ≠ 0) : TableOutcome st p namesOk op (.error e, st₁) (code, st₁)
  | failed {super st₁ code} (h : op st₁.directory = .error code) :
    TableOutcome st p namesOk op (.ok super, st₁) (code, st₁)
  | done {super st₁ d} (hnames : namesOk = true) (h : op st₁.directory = .ok d) :
    TableOutcome st p namesOk op (.ok super, st₁) (0, saveDirectory { st₁ with directory := d } p)

/-- All that a save can do. -/
inductive SaveOutcome (st : State) (p parentId : UInt32) (name : CString) (buffer : ℕ → UInt8)
    (size : UInt32) : Except OpenError CheckedSuper × State → ℤ × State → Prop
  | refused {o} (h : validName name.bytes = false ∨ size > fileCapacity) :
    SaveOutcome st p parentId name buffer size o (-2, st)
  | unopened {e st₁ code} (h : code ≠ 0) :
    SaveOutcome st p parentId name buffer size (.error e, st₁) (code, st₁)
  | unclaimed {super st₁ code} (hname : validName name.bytes = true)
    (hsize : size.toNat ≤ fileCapacity.toNat)
    (hclaim : claimSlot st₁.directory parentId name.bytes = .error code) :
    SaveOutcome st p parentId name buffer size (.ok super, st₁) (code, st₁)
  | full {super st₁ i d₁} (hname : validName name.bytes = true)
    (hsize : size.toNat ≤ fileCapacity.toNat)
    (hclaim : claimSlot st₁.directory parentId name.bytes = .ok (i, d₁))
    (hext : findFreeExtents (storageGetPartition st₁.storage p) super.1 (requiredBlocks size) i d₁
      = none) :
    SaveOutcome st p parentId name buffer size (.ok super, st₁) (-9, { st₁ with directory := d₁ })
  | written {super st₁ i d₁ xs ok st₃} (hname : validName name.bytes = true)
    (hsize : size.toNat ≤ fileCapacity.toNat)
    (hclaim : claimSlot st₁.directory parentId name.bytes = .ok (i, d₁))
    (hext : findFreeExtents (storageGetPartition st₁.storage p) super.1 (requiredBlocks size) i d₁
      = some xs)
    (hw : writeBlocks p buffer size 0 (fileLbas xs)
      { st₁ with directory := d₁.set i (fileEntry (d₁ i) name.bytes size xs) } = (ok, st₃)) :
    SaveOutcome st p parentId name buffer size (.ok super, st₁)
      (if ok = true then 0 else -6, if ok = true then saveDirectory st₃ p else st₃)

section

variable {st st' st₁ : State} {drive : UInt8} {p : UInt32} {part : Partition}
  {super : CheckedSuper} {d : Directory}

lemma call_outcome (hm : mountForDrive st drive = some p) (namesOk : Bool)
    (op : Directory → Except ℤ Directory) :
    TableOutcome st p namesOk op (openDirectory st p) (tableCall st drive namesOk op) := by
  rw [tableCall, hm]
  dsimp only
  split_ifs with hnames
  · exact .refused hnames
  rw [Bool.not_eq_false] at hnames
  generalize openDirectory st p = o
  obtain ⟨(_ | _) | super, st₁⟩ := o
  · exact .unopened (by decide)
  · exact .unopened (by decide)
  · dsimp only
    cases hop : op st₁.directory with
    | error code => exact .failed hop
    | ok d => exact .done hnames hop

lemma saveFile_outcome (hm : mountForDrive st drive = some p) (parentId : UInt32)
    (name : CString) (buffer : ℕ → UInt8) (size : UInt32) :
    SaveOutcome st p parentId name buffer size (openDirectory st p)
      (lainfsSaveFileInDir st drive parentId name buffer size) := by
  rw [lainfsSaveFileInDir, hm]
  dsimp only
  split_ifs with hbad
  · exact .refused hbad
  rw [not_or, Bool.not_eq_false, gt_iff_lt, UInt32.lt_iff_toNat_lt, not_lt] at hbad
  generalize openDirectory st p = o
  obtain ⟨(_ | _) | super, st₁⟩ := o
  · exact .unopened (by decide)
  · exact .unopened (by decide)
  dsimp only
  rcases hclaim : claimSlot st₁.directory parentId name.bytes with code | slot
  · exact .unclaimed hbad.1 hbad.2 hclaim
  obtain ⟨i, d₁⟩ := slot
  dsimp only
  rcases hext : findFreeExtents (storageGetPartition st₁.storage p) super.1 (requiredBlocks size)
      i d₁ with _ | xs
  · exact .full hbad.1 hbad.2 hclaim hext
  dsimp only
  rcases hw : writeBlocks p buffer size 0 (fileLbas xs)
      { st₁ with directory := d₁.set i (fileEntry (d₁ i) name.bytes size xs) } with ⟨ok, st₃⟩
  have h : SaveOutcome st p parentId name buffer size (.ok super, st₁) _ :=
    .written hbad.1 hbad.2 hclaim hext hw
  cases ok <;> exact h

section

variable (hmount : mountForDrive st drive = some p) (hopen : openDirectory st p = (.ok super, st₁))
include hmount hopen

lemma call_of_open (op : Directory → Except ℤ Directory) : tableCall st drive true op =
      match op st₁.directory with
      | .error code => (code, st₁)
      | .ok d => (0, saveDirectory { st₁ with directory := d } p) := by
  rewrite [tableCall, hmount]
  dsimp only
  rewrite [if_neg Bool.noConfusion, hopen]
  rfl

/-- A save with a name and a size that are accepted. -/
lemma saveFile_of_open {name : CString}
    (harg : ¬ (validName name.bytes = false ∨ size > fileCapacity))
    (hclaim : claimSlot st₁.directory parentId name.bytes = .ok (i, d₁)) :
    lainfsSaveFileInDir st drive parentId name buffer size =
      match findFreeExtents (storageGetPartition st₁.storage p) super.1 (requiredBlocks size)
          i d₁ with
      | none => (-9, { st₁ with directory := d₁ })
      | some xs =>
        match writeBlocks p buffer size 0 (fileLbas xs)
            { st₁ with directory := d₁.set i (fileEntry (d₁ i) name.bytes size xs) } with
        | (false, st₃) => (-6, st₃)
        | (true, st₃) => (0, saveDirectory st₃ p) := by
  rewrite [lainfsSaveFileInDir, hmount]
  dsimp only
  rewrite [if_neg harg, hopen]
  dsimp only
  rewrite [hclaim]
  rfl

/-! ### Successful calls -/

/-- What every successful call leaves behind. -/
structure Succeeded (st st' : State) (p : UInt32) (part : Partition) (super : CheckedSuper) :
    Prop where
  opened : Opened st' p super
  tables : SameTables st.storage st'.storage
  valid : TableValid part super.1 st'.directory

lemma call_succeeded (herror : ∀ code, op st₁.directory = .error code → code ≠ 0)
    (hvalid : namesOk = true → ∀ d, op st₁.directory = .ok d → TableValid part super.1 d)
    (hrun : tableCall st drive namesOk op = (0, st')) : Succeeded st st' p part super := by
  obtain ⟨hopened, htables, -⟩ := open_opened hopen
  have h := call_outcome hmount namesOk op
  rw [hopen, hrun] at h
  cases h with
  | failed hop => exact absurd rfl (herror 0 hop)
  | done hnames hop => exact ⟨hopened.saveDirectory _, htables, hvalid hnames _ hop⟩

lemma saveFile_succeeded (hpart : storageGetPartition st.storage p = some part)
    (hbc : part.blockCount.toNat < 2 ^ 32) (hvalid : TableValid part super.1 st₁.directory)
    {name : CString} (hrun : lainfsSaveFileInDir st drive parentId name buffer size = (0, st')) :
    Succeeded st st' p part super := by
  obtain ⟨hopened, htables, -⟩ := open_opened hopen
  have h := saveFile_outcome hmount parentId name buffer size
  rw [hopen, hrun] at h
  generalize hr : ((0, st') : ℤ × State) = r at h
  cases h with
  | refused => cases hr
  | unclaimed _ _ hclaim =>
    cases hr
    exact absurd rfl (claim_error_ne hclaim)
  | full => cases hr
  | @written _ _ _ _ _ ok _ hname hsize hclaim hext hw =>
    rcases ok with _ | _
    · cases hr
    cases hr
    rw [htables.getPartition, hpart] at hext
    have hsame := writeBlocks_sameMeta hw
    have htable := saveEntry_valid ⟨hbc, hvalid.sound, hname, name.nonzero, hsize, hclaim, hext⟩
      hvalid.names
    have hdir := hsame.directory
    dsimp only at hdir
    rw [← hdir] at htable
    exact ⟨⟨((hopened.setDirectory _).congr hsame).super, true, rfl⟩,
      htables.trans hsame.tables, htable⟩

end

/-- A call that returns 0 on a valid table leaves a valid table: legal types and names, a forest
under the root, directories without data, and the files' sectors in the data area and disjoint. -/
theorem run_keeps_valid {call : TableCall} (hmount : mountForDrive st call.drive = some p)
    (hpart : storageGetPartition st.storage p = some part)
    (hbc : part.blockCount.toNat < 2 ^ 32) (htable : openedTable st p = some (super, d))
    (hvalid : TableValid part super.1 d) (hrun : call.run st = (0, st')) :
    ∃ d', openedTable st' p = some (super, d') ∧ storageGetPartition st'.storage p = some part ∧
      TableValid part super.1 d' ∧ TableLegal part super.1 d' := by
  obtain ⟨st₁, hopen, rfl⟩ := openedTable_eq_some htable
  have hdone : Succeeded st st' p part super := by
    cases call with
    | makeDir drive parentId name =>
      rw [TableCall.run, lainfsMakeDirInDir] at hrun
      refine call_succeeded hmount hopen (fun code h => ?_) (fun hname d' h => ?_) hrun
      · exact makeDirEntry_error_ne h
      · exact makeDirEntry_valid hvalid hname name.nonzero h
    | delete drive parentId name =>
      rw [TableCall.run, lainfsDeleteInDir] at hrun
      refine call_succeeded hmount hopen (fun code h => ?_) (fun _ d' h => ?_) hrun
      · exact deleteEntry_error_ne h
      · exact deleteEntry_valid hvalid h
    | rename drive oldParentId oldName newParentId newName =>
      rw [TableCall.run, lainfsRenameInDir] at hrun
      refine call_succeeded hmount hopen (fun code h => ?_) (fun hnames d' h => ?_) hrun
      · exact renameEntry_error_ne h
      · rw [Bool.and_eq_true] at hnames
        exact renameEntry_valid hvalid hnames.2 newName.nonzero h
    | save drive parentId name buffer size =>
      exact saveFile_succeeded hmount hopen hpart hbc hvalid hrun
  have hpart' := (hdone.tables.getPartition p).trans hpart
  refine ⟨st'.directory, ?_, hpart', hdone.valid, hdone.valid.legal hbc⟩
  rw [hdone.opened.openedTable, hpart', if_pos hdone.valid.accepted]

/-- The file `a` of a volume is given the name `b`. -/
theorem rename_smallFile_valid :
    ∃ st' d', (TableCall.rename 0x43 rootDir nameA rootDir nameB).run
        (bufferedVolume 258 (single smallFile) false) = (0, st') ∧
      openedTable st' 0 = some (checkedFormatSuper, d') ∧
      TableLegal (volumePartition 258) formatSuper d' := by
  have hentry : ∃ d', renameEntry (single smallFile) rootDir nameA.bytes rootDir nameB.bytes =
      .ok d' := by
    rw [renameEntry, if_neg (by decide), findEntry_smallFile_self]
    dsimp only
    rw [if_neg (by decide), findEntry_smallFile (by decide), if_neg (by decide)]
    exact ⟨_, rfl⟩
  obtain ⟨d, hentry⟩ := hentry
  have hrun : ∃ st', (TableCall.rename 0x43 rootDir nameA rootDir nameB).run
      (bufferedVolume 258 (single smallFile) false) = (0, st') := by
    rw [TableCall.run, lainfsRenameInDir,
      show (validName nameA.bytes && validName nameB.bytes) = true by decide,
      call_of_open rfl (buffered_openDirectory validate_smallFile)]
    simp only [buffered_directory, hentry]
    exact ⟨_, rfl⟩
  obtain ⟨st', hrun⟩ := hrun
  obtain ⟨d', htable, -, -, hlegal⟩ := run_keeps_valid (p := 0) rfl rfl (by decide)
    (buffered_openedTable validate_smallFile) tableValid_smallFile hrun
  exact ⟨st', d', hrun, htable, hlegal⟩

end

/-! ### A full volume -/

variable {st : State}

lemma claim_smallFile :
    claimSlot (single smallFile) rootDir nameB.bytes = .ok (1, claimedBeside) := by
  have hfree : ∀ j : Fin maxFiles, j ≠ 0 → (single smallFile j).used = 0 := fun j hj =>
    not_not.mp (mt eq_zero_of_single hj)
  rw [claimSlot, if_neg (by decide), findEntry_smallFile (by decide),
    freeEntry_of_first (i := 1) (hfree 1 (by decide)) fun j hj => ?_]
  · rfl
  · rw [show j = 0 from Fin.ext (Nat.lt_one_iff.mp hj)]
    decide

/-- The only data sector is taken. -/
lemma freeExtents_smallFile :
    findFreeExtents (some (volumePartition 258)) formatSuper (requiredBlocks 1) 1 claimedBeside
      = none := by
  refine freeExtents_of_full fun lba hlo hhi => ?_
  have hlba : lba = 257 := le_antisymm (Nat.le_of_lt_succ hhi) hlo
  have htaken : extentIsFree formatSuper claimedBeside 257 1 1 = false := by
    rw [extentIsFree, if_neg (by decide), List.all_eq_false]
    exact ⟨0, List.mem_finRange 0, by decide⟩
  rw [hlba, sectorIsFree, show UInt32.ofNat 257 = 257 from rfl, htaken, Bool.false_and]

lemma validate_claimedBeside :
    validateDirectory (some (volumePartition 258)) formatSuper claimedBeside
      = some (.badName, 2) := by
  refine validate_of_check (i := 1) (by decide) (by decide) fun j hj => ?_
  rw [show j = 0 from Fin.ext (Nat.lt_one_iff.mp hj)]
  decide

/-- On a volume whose only data sector holds the file `a`, saving `b` fails for lack of space and
the next call finds no valid table. -/
lemma save_beside_smallFile (hopened : Opened st 0 checkedFormatSuper)
    (hmount : mountForDrive st 0x43 = some 0)
    (hpart : storageGetPartition st.storage 0 = some (volumePartition 258))
    (htable : st.directory = single smallFile) (buffer : ℕ → UInt8) :
    lainfsSaveFileInDir st 0x43 rootDir nameB buffer 1
        = (-9, { st with directory := claimedBeside }) ∧
      ∃ st₂, openDirectory { st with directory := claimedBeside } 0
        = (.error .badDirectory, st₂) := by
  have hopen : openDirectory st 0 = (.ok checkedFormatSuper, st) := by
    rw [hopened.open_eq, hpart, htable,
      show checkedFormatSuper.1 = formatSuper from rfl, validate_smallFile]
  constructor
  · rw [saveFile_of_open hmount hopen (by decide)
      (by rw [htable]; exact claim_smallFile), hpart, show checkedFormatSuper.1 = formatSuper from rfl, freeExtents_smallFile]
  · rw [(hopened.setDirectory claimedBeside).open_eq]
    rw [hpart, show checkedFormatSuper.1 = formatSuper from rfl, validate_claimedBeside]
    exact ⟨_, rfl⟩

end LainFS
