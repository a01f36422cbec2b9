import LainOS.LainFS.State
import LainOS.LainFS.Table

/-!
# The file system calls

The public functions of `lainfs.c`, each from the mounted drive letter to its status. All of them
start in the same way: find the mount, check the names, read the superblock, load and validate the
directory. The lock is left out, since every call holds it from its first to its last access.
-/

namespace LainFS

open Storage

/-! ### The common prologue -/

inductive OpenError
  | badSuper | badDirectory
deriving DecidableEq

/-- `read_super` and `load_directory`, as almost every call makes them. -/
def openDirectory (st : State) (p : UInt32) : Except OpenError CheckedSuper × State :=
  match readSuper st p with
  | (none, st') => (.error .badSuper, st')
  | (some super, st') =>
    match loadDirectory st' p super with
    | (false, st'') => (.error .badDirectory, st'')
    | (true, st'') => (.ok super, st'')

/-- The same with the directory unchecked. -/
def openDirectoryUnchecked (st : State) (p : UInt32) : Except OpenError CheckedSuper × State :=
  match readSuper st p with
  | (none, st') => (.error .badSuper, st')
  | (some super, st') =>
    match loadDirectoryUnchecked st' p super with
    | (false, st'') => (.error .badDirectory, st'')
    | (true, st'') => (.ok super, st'')

/-! ### Calls that change the table -/

/-- The frame of the calls that replace the table in one step. -/
def tableCall (st : State) (drive : UInt8) (namesOk : Bool)
    (op : Directory → Except ℤ Directory) : ℤ × State :=
  match mountForDrive st drive with
  | none => (-1, st)
  | some p =>
    if namesOk = false then (-2, st)
    else
      match openDirectory st p with
      | (.error .badSuper, st') => (-3, st')
      | (.error .badDirectory, st') => (-4, st')
      | (.ok _, st') =>
        match op st'.directory with
        | .error code => (code, st')
        | .ok d => (0, saveDirectory { st' with directory := d } p)

def lainfsMakeDirInDir (st : State) (drive : UInt8) (parentId : UInt32) (name : CString) :
    ℤ × State :=
  tableCall st drive (validName name.bytes) fun d => makeDirEntry d parentId name.bytes

def lainfsDeleteInDir (st : State) (drive : UInt8) (parentId : UInt32) (name : CString) :
    ℤ × State :=
  tableCall st drive (validName name.bytes) fun d => deleteEntry d parentId name.bytes

def lainfsRenameInDir (st : State) (drive : UInt8) (oldParentId : UInt32) (oldName : CString)
    (newParentId : UInt32) (newName : CString) : ℤ × State :=
  tableCall st drive (validName oldName.bytes && validName newName.bytes) fun d =>
    renameEntry d oldParentId oldName.bytes newParentId newName.bytes

/-! ### Files -/

/-- The sectors of a file in order: `extents[e].start_lba + block`. -/
def fileLbas (xs : List Extent) : List UInt32 :=
  xs.flatMap fun x => (List.range x.blocks.toNat).map fun b => x.startLba + UInt32.ofNat b

/-- How many bytes of a file of that size lie in its logical block `k`. -/
def bytesInBlock (size : UInt32) (k : ℕ) : ℕ := min (size.toNat - 512 * k) 512

/-- The sector written for logical block `k`, padded with zeros. -/
def fileBlock (buffer : ℕ → UInt8) (size : UInt32) (k : ℕ) : Sector := fun b =>
  if b.val < bytesInBlock size k then buffer (512 * k + b.val) else 0

/-- The loop that writes the blocks, from logical block `k` on. -/
def writeBlocks (p : UInt32) (buffer : ℕ → UInt8) (size : UInt32) :
    ℕ → List UInt32 → State → Bool × State
  | _, [], st => (true, st)
  | k, lba :: rest, st =>
    match cachedWriteBlock st p lba (fileBlock buffer size k) with
    | (false, st') => (false, st')
    | (true, st') => writeBlocks p buffer size (k + 1) rest st'

def lainfsSaveFileInDir (st : State) (drive : UInt8) (parentId : UInt32) (name : CString)
    (buffer : ℕ → UInt8) (size : UInt32) : ℤ × State :=
  match mountForDrive st drive with
  | none => (-1, st)
  | some p =>
    if validName name.bytes = false ∨ size > fileCapacity then (-2, st)
    else
      match openDirectory st p with
      | (.error .badSuper, st') => (-3, st')
      | (.error .badDirectory, st') => (-4, st')
      | (.ok super, st') =>
        match claimSlot st'.directory parentId name.bytes with
        | .error code => (code, st')
        | .ok (i, d) =>
          -- the slot is claimed in the buffer before there is space for the file
          let st₁ := { st' with directory := d }
          match findFreeExtents (storageGetPartition st₁.storage p) super.1 (requiredBlocks size)
              i d with
          | none => (-9, st₁)
          | some xs =>
            let st₂ := { st₁ with directory := d.set i (fileEntry (d i) name.bytes size xs) }
            match writeBlocks p buffer size 0 (fileLbas xs) st₂ with
            | (false, st₃) => (-6, st₃)
            | (true, st₃) => (0, saveDirectory st₃ p)

/-- The loop that reads the blocks, from logical block `k` on, with the bytes copied so far. -/
def readBlocks (p : UInt32) (size : UInt32) :
    ℕ → List UInt32 → List UInt8 → State → Bool × List UInt8 × State
  | _, [], bytes, st => (true, bytes, st)
  | k, lba :: rest, bytes, st =>
    match cachedReadBlock st p lba with
    | (none, st') => (false, bytes, st')
    | (some s, st') =>
      readBlocks p size (k + 1) rest (bytes ++ (List.ofFn s).take (bytesInBlock size k)) st'

/-- What `lainfs_load_file_in_dir` hands back: the status, `*out_size` and the bytes it copied. -/
structure LoadResult where
  status : ℤ
  outSize : UInt32
  bytes : List UInt8
deriving DecidableEq

/-- The entry the search of `lainfs_load_file_in_dir` stops at. -/
def findFileInDir (d : Directory) (parentId : UInt32) (name : List UInt8) :
    Option (Fin maxFiles) :=
  (List.finRange maxFiles).find? fun i =>
    (d i).used != 0 && (d i).used != entryDir && entryParentId (d i) == parentId &&
      entryName (d i) == name

def lainfsLoadFileInDir (st : State) (drive : UInt8) (parentId : UInt32) (name : CString)
    (bufferSize : UInt32) : LoadResult × State :=
  match mountForDrive st drive with
  | none => (⟨-1, 0, []⟩, st)
  | some p =>
    if validName name.bytes = false ∨ bufferSize = 0 then (⟨-2, 0, []⟩, st)
    else
      match openDirectory st p with
      | (.error .badSuper, st') => (⟨-3, 0, []⟩, st')
      | (.error .badDirectory, st') => (⟨-4, 0, []⟩, st')
      | (.ok _, st') =>
        if validDirId st'.directory parentId = false then (⟨-7, 0, []⟩, st')
        else
          match findFileInDir st'.directory parentId name.bytes with
          | none => (⟨-5, 0, []⟩, st')
          | some i =>
            let e := st'.directory i
            if e.byteSize > fileCapacity ∨ e.byteSize > bufferSize then (⟨-6, 0, []⟩, st')
            else
              match entryExtents e with
              | none => (⟨-7, 0, []⟩, st')
              | some xs =>
                match readBlocks p e.byteSize 0 (fileLbas xs) [] st' with
                | (false, bytes, st'') => (⟨-7, 0, bytes⟩, st'')
                | (true, bytes, st'') => (⟨0, e.byteSize, bytes⟩, st'')

/-! ### Queries -/

/-- A line of the listing; a directory shows no size. -/
structure ListRow where
  isDir : Bool
  name : List UInt8
  size : Option UInt32
deriving DecidableEq

def listRows (d : Directory) (parentId : UInt32) : List ListRow :=
  ((List.finRange maxFiles).filter fun i =>
    (d i).used != 0 && entryParentId (d i) == parentId).map fun i =>
      ⟨(d i).used == entryDir, entryName (d i),
        if (d i).used = entryDir then none else some (d i).byteSize⟩

/-- The rows stand for the lines printed on the console; no rows prints `empty`. -/
def lainfsListDir (st : State) (drive : UInt8) (parentId : UInt32) :
    (ℤ × List ListRow) × State :=
  match mountForDrive st drive with
  | none => ((-1, []), st)
  | some p =>
    match openDirectory st p with
    | (.error .badSuper, st') => ((-2, []), st')
    | (.error .badDirectory, st') => ((-3, []), st')
    | (.ok _, st') =>
      if validDirId st'.directory parentId = false then ((-5, []), st')
      else ((0, listRows st'.directory parentId), st')

/-- The status, the reason and the entry id. -/
def lainfsCheck (st : State) (drive : UInt8) : (ℤ × CheckReason × UInt32) × State :=
  match mountForDrive st drive with
  | none => ((-1, .noPartition, 0), st)
  | some p =>
    match openDirectoryUnchecked st p with
    | (.error .badSuper, st') => ((-1, .badSuperblock, 0), st')
    | (.error .badDirectory, st') => ((-1, .badLayout, 0), st')
    | (.ok super, st') =>
      match validateDirectory (storageGetPartition st'.storage p) super.1 st'.directory with
      | none => ((0, .ok, 0), st')
      | some (reason, id) => ((-1, reason, id), st')

/-- What `lainfs_repair` reports: the status, the reason, the entry id and the repairs done. -/
structure RepairResult where
  status : ℤ
  reason : CheckReason
  entryId : UInt32
  repairs : ℕ

/-- The end of `lainfs_repair`: write the directory back and report. -/
def flushAfterRepair (st : State) (repairs : ℕ) (result : RepairResult) : RepairResult × State :=
  match flushDirectoryCache st with
  | (false, st') => (⟨-1, .badLayout, 0, repairs⟩, st')
  | (true, st') => (result, st')

def lainfsRepair (st : State) (drive : UInt8) : RepairResult × State :=
  match mountForDrive st drive with
  | none => (⟨-1, .noPartition, 0, 0⟩, st)
  | some p =>
    match openDirectoryUnchecked st p with
    | (.error .badSuper, st') => (⟨-1, .badSuperblock, 0, 0⟩, st')
    | (.error .badDirectory, st') => (⟨-1, .badLayout, 0, 0⟩, st')
    | (.ok super, st') =>
      let (ending, d) := repairLoop (storageGetPartition st'.storage p) super.1 st'.directory
      let repaired := { st' with directory := d, directoryTag := some ⟨p, true⟩ }
      let st₁ := if ending.repairs = 0 then st' else repaired
      match ending with
      | .clean n => flushAfterRepair st₁ n ⟨0, .ok, 0, n⟩
      | .stuck n (reason, id) =>
        if n = 0 then (⟨-2, reason, id, 0⟩, st₁)
        else flushAfterRepair st₁ n ⟨-3, reason, id, n⟩
      | .tooMany n (reason, id) => flushAfterRepair st₁ n ⟨-4, reason, id, n⟩

/-! ### Flushing and formatting -/

def lainfsFlush (st : State) (drive : UInt8) : ℤ × State :=
  match mountForDrive st drive with
  | none => (-1, st)
  | some p =>
    match flushPartitionCache st p with
    | (false, st') => (-1, st')
    | (true, st') => (0, st')

def lainfsFlushAll (st : State) : ℤ × State :=
  match flushSlots (fun _ => true) (List.finRange dataCacheSlots) st with
  | (false, st') => (-1, st')
  | (true, st') =>
    match flushDirectoryCache st' with
    | (false, st'') => (-1, st'')
    | (true, st'') => (0, st'')

/-- The directory buffer is zeroed whatever partition it belongs to. -/
def formatPartitionIndex (st : State) (p : UInt32) : ℤ × State :=
  match storageGetPartition st.storage p with
  | none => (-2, st)
  | some part =>
    if part.blockCount < 64 then (-2, st)
    else if storagePartitionIsWritable st.storage p = false then (-4, st)
    else
      match flushDirectoryCache st with
      | (false, st') => (-5, st')
      | (true, st') =>
        let st₁ := invalidatePartitionCache st' p
        match storageWritePartition st₁.storage p 0 1 fun _ => sectorOfSuper formatSuper with
        | (false, s) => (-5, { st₁ with storage := s })
        | (true, s) =>
          let st₂ := { st₁ with storage := s, directory := Directory.empty }
          match storageWritePartition st₂.storage p formatSuper.dirStartLba.toUInt64
              formatSuper.dirBlocks (sectorsOfDirectory st₂.directory) with
          | (false, s) => (-5, { st₂ with storage := s })
          | (true, s) =>
            let st₃ := { st₂ with storage := storageDiscoverPartitions s }
            (0, invalidatePartitionCache st₃ p)

end LainFS
