import LainOS.LainFS.Codec
import LainOS.LainFS.Repair
import LainOS.Lib.WriteBack
import LainOS.Storage.Discover

/-!
# Caches

The static variables of the file system and the functions that move data between them and the
disk: one superblock, one directory buffer and sixteen blocks, shared by all partitions and tagged
with partition indices. A cached item that is not valid is `none`. A function that can fail
returns `false` or `none` for a nonzero status; the state is passed along in either case.
-/

namespace LainFS

open Storage WriteBack Function

def dataCacheSlots : ℕ := 16

instance : NeZero dataCacheSlots := ⟨by decide⟩

/-- A block is cached under its partition index and its sector number. -/
abbrev BlockKey : Type := UInt32 × UInt32

abbrev CachedBlock : Type := Line BlockKey Sector UInt64

/-- To which partition the directory buffer belongs, and whether it has unsaved changes. -/
structure DirectoryTag where
  partition : UInt32
  dirty : Bool
deriving DecidableEq

structure State where
  storage : Storage.State
  directory : Directory
  superCache : Option (UInt32 × CheckedSuper)
  directoryTag : Option DirectoryTag
  dataCache : Fin dataCacheSlots → Option CachedBlock
  cacheClock : UInt64

/-- The partition index mounted under a drive letter. -/
def mountForDrive (st : State) (drive : UInt8) : Option UInt32 :=
  (storageGetMountByDrive st.storage (toUpper drive)).map (·.partitionIndex)

def rawReadSuper (st : State) (p : UInt32) : Option CheckedSuper × State :=
  match storageReadPartition st.storage p 0 1 with
  | (none, s) => (none, { st with storage := s })
  | (some f, s) =>
    if h : superIsValid (superOfSector (f 0)) then (some ⟨_, h⟩, { st with storage := s })
    else (none, { st with storage := s })

/-! ### Flushing -/

def flushDataCacheSlot (st : State) (i : Fin dataCacheSlots) : Bool × State :=
  match st.dataCache i with
  | none => (true, st)
  | some l =>
    if l.dirty = false then (true, st)
    else
      match storageWritePartition st.storage l.key.1 l.key.2.toUInt64 1 fun _ => l.data with
      | (false, s) => (false, { st with storage := s })
      | (true, s) =>
        (true, { st with
          storage := s
          dataCache := update st.dataCache i (some { l with dirty := false }) })

/-- The loop over the slots, for the dirty blocks that `which` selects. -/
def flushSlots (which : CachedBlock → Bool) : List (Fin dataCacheSlots) → State → Bool × State
  | [], st => (true, st)
  | i :: rest, st =>
    match st.dataCache i with
    | none => flushSlots which rest st
    | some l =>
      if l.dirty && which l then
        match flushDataCacheSlot st i with
        | (false, st') => (false, st')
        | (true, st') => flushSlots which rest st'
      else flushSlots which rest st

def flushDataCachePartition (st : State) (p : UInt32) : Bool × State :=
  flushSlots (fun l => l.key.1 == p) (List.finRange dataCacheSlots) st

/-- The superblock `flush_directory_cache` uses for the partition of the directory buffer. -/
def superForFlush (st : State) (p : UInt32) : Option CheckedSuper × State :=
  match st.superCache with
  | some (q, super) => if q = p then (some super, st) else rawReadSuper st p
  | none => rawReadSuper st p

def flushDirectoryCache (st : State) : Bool × State :=
  match st.directoryTag with
  | none => (true, st)
  | some tag =>
    if tag.dirty = false then (true, st)
    else
      match superForFlush st tag.partition with
      | (none, st') => (false, st')
      | (some super, st') =>
        match storageWritePartition st'.storage tag.partition super.1.dirStartLba.toUInt64
            super.1.dirBlocks (sectorsOfDirectory st'.directory) with
        | (false, s) => (false, { st' with storage := s })
        | (true, s) =>
          (true, { st' with storage := s, directoryTag := some { tag with dirty := false } })

def flushPartitionCache (st : State) (p : UInt32) : Bool × State :=
  match flushDataCachePartition st p with
  | (false, st') => (false, st')
  | (true, st') =>
    match st'.directoryTag with
    | none => (true, st')
    | some tag => if tag.dirty = true ∧ tag.partition = p then flushDirectoryCache st' else (true, st')

def invalidatePartitionCache (st : State) (p : UInt32) : State :=
  { st with
    superCache :=
      match st.superCache with
      | some (q, super) => if q = p then none else some (q, super)
      | none => none
    directoryTag :=
      match st.directoryTag with
      | some tag => if tag.partition = p then none else some tag
      | none => none
    dataCache := fun i =>
      match st.dataCache i with
      | some l => if l.key.1 = p then none else some l
      | none => none }

/-! ### Blocks -/

/-- The search for the slot to reuse: the first empty one, else the oldest. -/
def victimLoop (c : Fin dataCacheSlots → Option CachedBlock) :
    List (Fin dataCacheSlots) → Fin dataCacheSlots → UInt64 → Fin dataCacheSlots
  | [], victim, _ => victim
  | i :: rest, victim, oldest =>
    match c i with
    | none => i
    | some l =>
      if l.stamp < oldest then victimLoop c rest i l.stamp else victimLoop c rest victim oldest

def victim (c : Fin dataCacheSlots → Option CachedBlock) : Fin dataCacheSlots :=
  victimLoop c (List.finRange dataCacheSlots) 0 0xffffffffffffffff

def cachedReadBlock (st : State) (p lba : UInt32) : Option Sector × State :=
  match lookup st.dataCache (p, lba) with
  | some (i, l) =>
    let clock := st.cacheClock + 1
    (some l.data, { st with
      cacheClock := clock
      dataCache := update st.dataCache i (some { l with stamp := clock }) })
  | none =>
    let i := victim st.dataCache
    match flushDataCacheSlot st i with
    | (false, st') => (none, st')
    | (true, st') =>
      match storageReadPartition st'.storage p lba.toUInt64 1 with
      | (none, s) =>
        (none, { st' with storage := s, dataCache := update st'.dataCache i none })
      | (some f, s) =>
        let clock := st'.cacheClock + 1
        (some (f 0), { st' with
          storage := s
          cacheClock := clock
          dataCache := update st'.dataCache i (some ⟨(p, lba), f 0, false, clock⟩) })

def cachedWriteBlock (st : State) (p lba : UInt32) (data : Sector) : Bool × State :=
  match lookup st.dataCache (p, lba) with
  | some (i, l) =>
    let clock := st.cacheClock + 1
    (true, { st with
      cacheClock := clock
      dataCache := update st.dataCache i (some ⟨l.key, data, true, clock⟩) })
  | none =>
    let i := victim st.dataCache
    match flushDataCacheSlot st i with
    | (false, st') => (false, st')
    | (true, st') =>
      let clock := st'.cacheClock + 1
      (true, { st' with
        cacheClock := clock
        dataCache := update st'.dataCache i (some ⟨(p, lba), data, true, clock⟩) })

/-! ### Superblock and directory -/

def readSuper (st : State) (p : UInt32) : Option CheckedSuper × State :=
  let read : Option CheckedSuper × State :=
    match rawReadSuper st p with
    | (none, st') => (none, { st' with superCache := none })
    | (some super, st') => (some super, { st' with superCache := some (p, super) })
  match st.superCache with
  | some (q, super) => if q = p then (some super, st) else read
  | none => read

/-- Read the directory of `p` into the buffer. -/
def readDirectory (st : State) (p : UInt32) (super : CheckedSuper) : Bool × State :=
  match storageReadPartition st.storage p super.1.dirStartLba.toUInt64 super.1.dirBlocks with
  | (none, s) => (false, { st with storage := s, directoryTag := none })
  | (some f, s) =>
    (true, { st with
      storage := s
      directory := directoryOfSectors f
      directoryTag := some ⟨p, false⟩ })

def loadDirectoryUnchecked (st : State) (p : UInt32) (super : CheckedSuper) : Bool × State :=
  match st.directoryTag with
  | none => readDirectory st p super
  | some tag =>
    if tag.partition = p then (true, st)
    else if tag.dirty = true then
      match flushDirectoryCache st with
      | (false, st') => (false, st')
      | (true, st') => readDirectory st' p super
    else readDirectory st p super

def loadDirectory (st : State) (p : UInt32) (super : CheckedSuper) : Bool × State :=
  match loadDirectoryUnchecked st p super with
  | (false, st') => (false, st')
  | (true, st') =>
    match validateDirectory (storageGetPartition st'.storage p) super.1 st'.directory with
    | none => (true, st')
    | some _ => (false, { st' with directoryTag := none })

def saveDirectory (st : State) (p : UInt32) : State :=
  { st with directoryTag := some ⟨p, true⟩ }

end LainFS
