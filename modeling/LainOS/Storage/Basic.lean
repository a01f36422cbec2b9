import LainOS.Lib.LittleEndian
import Mathlib.Data.List.TakeWhile

/-!
# Block devices, partitions and mounts

The storage layer keeps a table of block devices, a table of partitions found on them and the
26 drive letters. A device behaves as an array of 512-byte sectors; every access may fail, and
a failed write may leave anything in the sectors it addressed. Which accesses fail is decided by
the field `faults`, indexed by the number of accesses made so far.
-/

namespace Storage

open LittleEndian

def sectorSize : ℕ := 512
def maxPartitions : ℕ := 16
def maxMounts : ℕ := 26

abbrev Sector : Type := Fin sectorSize → UInt8

instance : NeZero sectorSize := ⟨by decide⟩
instance : NeZero maxMounts := ⟨by decide⟩

def Sector.zero : Sector := fun _ => 0

/-- Byte `n` of a sector; every use has `n < 512`. -/
def Sector.byte (s : Sector) (n : ℕ) : UInt8 := s (Fin.ofNat sectorSize n)

lemma Sector.byte_eq (s : Sector) {n : ℕ} (h : n < sectorSize) : s.byte n = s ⟨n, h⟩ :=
  congrArg s (Fin.ext (Nat.mod_eq_of_lt h))

def Sector.le32 (s : Sector) (n : ℕ) : UInt32 :=
  readLe32 (s.byte n) (s.byte (n + 1)) (s.byte (n + 2)) (s.byte (n + 3))

def Sector.le64 (s : Sector) (n : ℕ) : UInt64 :=
  (s.le32 n).toUInt64 ||| (s.le32 (n + 4)).toUInt64 <<< 32

/-- The file system names `fs_hint_from_mbr_type` knows. -/
inductive FsHint
  | fat | ntfs | linux | lainfs | gpt | raw
deriving DecidableEq

structure BlockDevice where
  present : Bool
  name : List UInt8
  blockSize : UInt32
  blockCount : UInt64
  /-- the driver has a read (write) function -/
  hasRead : Bool
  hasWrite : Bool
deriving DecidableEq

structure Partition where
  present : Bool
  name : List UInt8
  deviceIndex : UInt32
  partitionNumber : UInt32
  startLba : UInt64
  blockCount : UInt64
  mbrType : UInt8
  fsHint : FsHint
deriving DecidableEq

/-- `fsName` is `none` for the empty string an unmounted letter holds. -/
structure Mount where
  present : Bool
  driveLetter : UInt8
  partitionIndex : UInt32
  partitionName : List UInt8
  fsName : Option FsHint
deriving DecidableEq

structure State where
  blockDevices : List BlockDevice
  /-- the contents of each device, by device index and sector number -/
  disk : ℕ → ℕ → Sector
  partitions : List Partition
  mounts : Fin maxMounts → Mount
  /-- `some junk`: the access fails, a write leaving `junk` in the sectors it addressed -/
  faults : ℕ → Option (ℕ → Sector)
  accesses : ℕ

/-! ### Devices -/

/-- Overwrite `count` sectors of device `dev` from `lba` on. -/
def State.setSectors (st : State) (dev lba count : ℕ) (data : ℕ → Sector) : State :=
  { st with disk := fun d l =>
      if d = dev ∧ lba ≤ l ∧ l < lba + count then data (l - lba) else st.disk d l }

/-- `dev->read(dev->ctx, lba, count, buffer)` -/
def deviceRead (st : State) (dev : ℕ) (d : BlockDevice) (lba : UInt64) (count : UInt32) :
    Option (ℕ → Sector) × State :=
  let st' := { st with accesses := st.accesses + 1 }
  match st.faults st.accesses with
  | some _ => (none, st')
  | none =>
    if lba.toNat + count.toNat ≤ d.blockCount.toNat then
      (some fun i => st.disk dev (lba.toNat + i), st')
    else (none, st')

/-- `dev->write(dev->ctx, lba, count, buffer)` -/
def deviceWrite (st : State) (dev : ℕ) (d : BlockDevice) (lba : UInt64) (count : UInt32)
    (data : ℕ → Sector) : Bool × State :=
  let st' := { st with accesses := st.accesses + 1 }
  if lba.toNat + count.toNat ≤ d.blockCount.toNat then
    match st.faults st.accesses with
    | some junk => (false, st'.setSectors dev lba.toNat count.toNat junk)
    | none => (true, st'.setSectors dev lba.toNat count.toNat data)
  else (false, st')

def storageGetBlockDevice (st : State) (index : UInt32) : Option BlockDevice :=
  match st.blockDevices[index.toNat]? with
  | some d => if d.present then some d else none
  | none => none

def storageReadBlockDevice (st : State) (device : UInt32) (lba : UInt64) (count : UInt32) :
    Option (ℕ → Sector) × State :=
  match storageGetBlockDevice st device with
  | none => (none, st)
  | some d =>
    if !d.hasRead || decide (lba + count.toUInt64 > d.blockCount) then (none, st)
    else deviceRead st device.toNat d lba count

/-! ### Partitions -/

def storageGetPartition (st : State) (index : UInt32) : Option Partition :=
  match st.partitions[index.toNat]? with
  | some part => if part.present then some part else none
  | none => none

def storageReadPartition (st : State) (p : UInt32) (lba : UInt64) (count : UInt32) :
    Option (ℕ → Sector) × State :=
  match storageGetPartition st p with
  | none => (none, st)
  | some part =>
    if lba + count.toUInt64 > part.blockCount then (none, st)
    else
      match storageGetBlockDevice st part.deviceIndex with
      | none => (none, st)
      | some d =>
        if !d.hasRead then (none, st)
        else deviceRead st part.deviceIndex.toNat d (part.startLba + lba) count

def storageWritePartition (st : State) (p : UInt32) (lba : UInt64) (count : UInt32)
    (data : ℕ → Sector) : Bool × State :=
  match storageGetPartition st p with
  | none => (false, st)
  | some part =>
    if lba + count.toUInt64 > part.blockCount then (false, st)
    else
      match storageGetBlockDevice st part.deviceIndex with
      | none => (false, st)
      | some d =>
        if !d.hasWrite then (false, st)
        else deviceWrite st part.deviceIndex.toNat d (part.startLba + lba) count data

def storagePartitionIsWritable (st : State) (p : UInt32) : Bool :=
  match storageGetPartition st p with
  | none => false
  | some part =>
    match storageGetBlockDevice st part.deviceIndex with
    | none => false
    | some d => d.hasWrite

/-- The first present partition of that name, with its index. -/
def storageFindPartition (st : State) (name : List UInt8) : Option (UInt32 × Partition) :=
  (st.partitions.zipIdx.find? fun q => q.1.present && q.1.name == name).map fun q =>
    (UInt32.ofNat q.2, q.1)

/-! ### Mounts -/

def toUpper (c : UInt8) : UInt8 := if 0x61 ≤ c ∧ c ≤ 0x7A then c - 0x20 else c

def storageGetMountByDrive (st : State) (drive : UInt8) : Option Mount :=
  let letter := toUpper drive
  if letter < 0x41 ∨ 0x5A < letter then none
  else
    let m := st.mounts (Fin.ofNat maxMounts (letter - 0x41).toNat)
    if m.present then some m else none

def Mount.clear (m : Mount) : Mount :=
  { m with present := false, partitionIndex := 0, partitionName := [], fsName := none }

def storageMount (st : State) (drive : UInt8) (partitionName : List UInt8) : ℤ × State :=
  match storageFindPartition st partitionName with
  | none => (-1, st)
  | some (index, part) =>
    let letter := toUpper drive
    if letter < 0x43 ∨ 0x5A < letter then (-2, st)
    else
      let m : Mount := ⟨true, letter, index, part.name, some part.fsHint⟩
      let slot := Fin.ofNat maxMounts (letter - 0x41).toNat
      (0, { st with mounts := Function.update st.mounts slot m })

def storageUnmountBlockDevice (st : State) (device : UInt32) : State :=
  { st with mounts := fun i =>
      let m := st.mounts i
      if m.present then
        match storageGetPartition st m.partitionIndex with
        | some part => if part.deviceIndex = device then m.clear else m
        | none => m
      else m }

end Storage
