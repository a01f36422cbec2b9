import LainOS.LainFS.Ops
import Mathlib.Data.List.DropRight

/-!
# The seed tool

`tools/lainfs_seed` writes an MBR and an empty volume into an image and imports host files and
directories. It has copies of the helpers of the file system, which behave alike and are shared here
(`valid_name`, `copy_name`, `find_entry_in_dir`, `find_free_entry`, `ranges_overlap` and the accessors
of entries), and its own allocation: the first run of free sectors that is long enough. What the host
reports about a path is a `HostNode`; reading and writing the image never fails halfway.
-/

namespace LainFS

open Storage

namespace Seed

/-! ### The host -/

/-- The name of an entry in a host directory. -/
structure HostName where
  name : CString
  noSlash : 0x2F ∉ name.bytes

mutual

/-- What the host has at a path: `other` is neither file nor directory, and `unreadable` stands for a
path that cannot be examined, opened or read. -/
inductive HostNode
  | file (bytes : List UInt8)
  | dir (entries : HostDir)
  | other
  | unreadable

/-- The entries of a directory in the order `readdir` gives them. -/
inductive HostDir
  | nil
  | cons (name : HostName) (node : HostNode) (rest : HostDir)

end

/-- `.` and `..` -/
def isDot (name : HostName) : Bool := name.name.bytes == [0x2E] || name.name.bytes == [0x2E, 0x2E]

/-- The part of a path behind its last slash. -/
def baseName (path : CString) : CString :=
  ⟨path.bytes.rtakeWhile (· != 0x2F), fun b hb =>
    path.nonzero b ((List.rtakeWhile_suffix _ _).subset hb)⟩

def childPath (path : CString) (name : HostName) : CString :=
  ⟨path.bytes ++ 0x2F :: name.name.bytes, fun b hb => by
    rcases List.mem_append.mp hb with hb | hb
    · exact path.nonzero b hb
    · rcases List.mem_cons.mp hb with rfl | hb
      · decide
      · exact name.name.nonzero b hb⟩

/-! ### The image -/

def dataPartitionStartLba : ℕ := 2048

/-- The static variables: `partition_block_count`, the directory buffer and the image by sectors. -/
structure State where
  blockCount : UInt64
  directory : Directory
  image : ℕ → Sector

/-- Write sectors from `lba` of the partition on. -/
def writeBlocks (image : ℕ → Sector) (lba count : ℕ) (data : ℕ → Sector) : ℕ → Sector := fun l =>
  if dataPartitionStartLba + lba ≤ l ∧ l < dataPartitionStartLba + lba + count then
    data (l - (dataPartitionStartLba + lba))
  else image l

def saveDirectory (st : State) : State :=
  { st with
    image := writeBlocks st.image formatSuper.dirStartLba.toNat formatSuper.dirBlocks.toNat
      (sectorsOfDirectory st.directory) }

/-! ### Allocation -/

def extentIsFree (d : Directory) (startLba blocks : UInt32) : Bool :=
  if blocks = 0 ∨ startLba < formatSuper.dataStartLba then false
  else
    (List.finRange maxFiles).all fun i =>
      (d i).used != entryFile ||
        !rangesOverlap startLba blocks (d i).startLba (allocatedBlocksForEntry (d i))

/-- The first run of free sectors that ends inside the partition. -/
def findFreeExtent (st : State) (blocks : UInt32) : Option UInt32 :=
  if blocks = 0 ∨ blocks > maxFileBlocks then none
  else
    let first := formatSuper.dataStartLba.toNat
    ((List.range' first (st.blockCount.toNat + 1 - blocks.toNat - first)).find? fun start =>
      extentIsFree st.directory (UInt32.ofNat start) blocks).map UInt32.ofNat

/-! ### Directories and files -/

def makeDir (st : State) (parentId : UInt32) (name : CString) : Option (State × UInt32) :=
  if validName name.bytes = false then none
  else
    match findEntryInDir st.directory parentId name.bytes with
    | some i => if (st.directory i).used ≠ entryDir then none else some (st, entryIdFromIndex i)
    | none =>
      match findFreeEntry st.directory with
      | none => none
      | some i =>
        some ({ st with directory := st.directory.set i (newDirEntry parentId name.bytes) },
          entryIdFromIndex i)

/-- The entry of an imported file. -/
def newFileEntry (parentId : UInt32) (name : List UInt8) (startLba size : UInt32) : Dirent :=
  let e := { Dirent.zero with used := entryFile }
  setEntryParentId { e with name := copyName e.name name, startLba := startLba, byteSize := size }
    parentId

def bufferOf (bytes : List UInt8) : ℕ → UInt8 := fun n => bytes.getD n 0

/-- `save_file` on bytes that `read_host_file` has found to be at most `fileCapacity`. -/
def saveFile (st : State) (parentId : UInt32) (name : CString) (bytes : List UInt8) : Option State :=
  if bytes.length > fileCapacity.toNat then none
  else
    let size := UInt32.ofNat bytes.length
    if validName name.bytes = false then none
    else if (findEntryInDir st.directory parentId name.bytes).isSome then none
    else
      match findFreeEntry st.directory, findFreeExtent st (requiredBlocks size) with
      | some i, some start =>
        some { st with
          directory := st.directory.set i (newFileEntry parentId name.bytes start size)
          image := writeBlocks st.image start.toNat (requiredBlocks size).toNat
            (fileBlock (bufferOf bytes) size) }
      | _, _ => none

mutual

/-- `import_path_at` -/
def importPathAt (st : State) (parentId : UInt32) (path : CString) : HostNode → Option State
  | .unreadable => none
  | .other => some st
  | .file bytes => saveFile st parentId (baseName path) bytes
  | .dir entries =>
    match makeDir st parentId (baseName path) with
    | none => none
    | some (st', id) => importDirectoryContents st' id path entries

/-- `import_directory_contents`; a path has to fit into 512 characters. -/
def importDirectoryContents (st : State) (parentId : UInt32) (path : CString) :
    HostDir → Option State
  | .nil => some st
  | .cons name node rest =>
    if isDot name then importDirectoryContents st parentId path rest
    else if (childPath path name).bytes.length ≥ 512 then none
    else
      match importPathAt st parentId (childPath path name) node with
      | none => none
      | some st' => importDirectoryContents st' parentId path rest

end

/-! ### The tool -/

/-- The size of the partition, if an image of that many bytes can hold one. -/
def partitionBlockCount (imageSize : ℕ) : Option UInt64 :=
  if imageSize < sectorSize then none
  else if imageSize / sectorSize ≤ dataPartitionStartLba then none
  else if imageSize / sectorSize - dataPartitionStartLba > 0xFFFFFFFF then none
  else some (UInt64.ofNat (imageSize / sectorSize - dataPartitionStartLba))

/-- `create_mbr`, which writes the MBR that the kernel writes for a new partition. -/
def createMbr (image : ℕ → Sector) (blockCount : UInt64) : ℕ → Sector :=
  Function.update image 0 (newMbrSector 0x99 blockCount.toUInt32)

def formatLainfs (image : ℕ → Sector) (blockCount : UInt64) : State :=
  saveDirectory
    { blockCount := blockCount
      directory := Directory.empty
      image := writeBlocks image 0 1 fun _ => sectorOfSuper formatSuper }

def importPaths (st : State) : List (CString × HostNode) → Option State
  | [] => some st
  | (path, node) :: rest =>
    match importPathAt st rootDir path node with
    | none => none
    | some st' => importPaths st' rest

/-- The image the tool leaves when it exits with 0, for the paths of its command line and what the
host has there. Without paths it imports six fixed ones. -/
def seed (image : ℕ → Sector) (imageSize : ℕ) (paths : List (CString × HostNode)) :
    Option (ℕ → Sector) :=
  match partitionBlockCount imageSize with
  | none => none
  | some blockCount =>
    match importPaths (formatLainfs (createMbr image blockCount) blockCount) paths with
    | none => none
    | some st => some (saveDirectory st).image

/-! ### The files that are imported -/

/-- A regular file and the names on its path. -/
structure ImportedFile where
  dirs : List CString
  name : CString
  bytes : List UInt8

/-- The same file seen from a directory above. -/
def ImportedFile.below (dir : CString) (f : ImportedFile) : ImportedFile :=
  { f with dirs := dir :: f.dirs }

mutual

/-- The regular files at a node of that name. -/
def filesAt (name : CString) : HostNode → List ImportedFile
  | .file bytes => [⟨[], name, bytes⟩]
  | .dir entries => (filesIn entries).map (ImportedFile.below name)
  | .other => []
  | .unreadable => []

def filesIn : HostDir → List ImportedFile
  | .nil => []
  | .cons name node rest =>
    if isDot name then filesIn rest else filesAt name.name node ++ filesIn rest

end

def filesOf (paths : List (CString × HostNode)) : List ImportedFile :=
  paths.flatMap fun (path, node) => filesAt (baseName path) node

/-! ### Reading along a path -/

end Seed

/-- `lainfs_find_dir`: the status and the id. -/
def lainfsFindDir (st : State) (drive : UInt8) (parentId : UInt32) (name : CString) :
    (ℤ × UInt32) × State :=
  match mountForDrive st drive with
  | none => ((-1, rootDir), st)
  | some p =>
    if validName name.bytes = false then ((-2, rootDir), st)
    else
      match openDirectory st p with
      | (.error .badSuper, st') => ((-3, rootDir), st')
      | (.error .badDirectory, st') => ((-4, rootDir), st')
      | (.ok _, st') =>
        if validDirId st'.directory parentId = false then ((-7, rootDir), st')
        else
          match findEntryInDir st'.directory parentId name.bytes with
          | none => ((-5, rootDir), st')
          | some i =>
            if (st'.directory i).used ≠ entryDir then ((-5, rootDir), st')
            else ((0, entryIdFromIndex i), st')

/-- Load a file after going down through directories. -/
def loadAlong (drive : UInt8) (name : CString) (bufferSize : UInt32) :
    State → UInt32 → List CString → LoadResult × State
  | st, parentId, [] => lainfsLoadFileInDir st drive parentId name bufferSize
  | st, parentId, dir :: dirs =>
    match lainfsFindDir st drive parentId dir with
    | ((status, id), st') =>
      if status ≠ 0 then (⟨status, 0, []⟩, st') else loadAlong drive name bufferSize st' id dirs

end LainFS
