import LainOS.Storage.Basic

/-!
# Partition discovery

`storage_discover_partitions` rebuilds the partition table from the MBR or GPT of every device
and then looks every mounted partition up again by its name, so a partition can get a new index.
-/

namespace Storage

open LittleEndian

def fsHintFromMbrType (t : UInt8) : FsHint :=
  if t = 0x01 ∨ t = 0x04 ∨ t = 0x06 ∨ t = 0x0B ∨ t = 0x0C ∨ t = 0x0E then .fat
  else if t = 0x07 then .ntfs
  else if t = 0x83 then .linux
  else if t = 0x99 then .lainfs
  else if t = 0xEE then .gpt
  else .raw

/-- The string of the at most seven device characters, `p` and one number character. The number
is not limited to a digit, so its character can be the NUL. -/
def makePartitionName (deviceName : List UInt8) (number : UInt32) : List UInt8 :=
  (deviceName.take 7 ++ [0x70, (0x30 + number).toUInt8]).takeWhile (· ≠ 0)

def partitionRangeValid (dev : BlockDevice) (start count : UInt64) : Bool :=
  if start = 0 ∨ count = 0 ∨ start ≥ dev.blockCount then false
  else decide (count ≤ dev.blockCount - start)

def detectFsHint (st : State) (device : UInt32) (start count : UInt64) (mbrType : UInt8) :
    FsHint × State :=
  if mbrType ≠ 0x99 then (fsHintFromMbrType mbrType, st)
  else if count = 0 then (.raw, st)
  else
    match storageReadBlockDevice st device start 1 with
    | (none, st') => (.raw, st')
    | (some buf, st') =>
      if (buf 0).le32 0 = 0x4E49414C ∧ (buf 0).le32 4 = 0x00315346 then (.lainfs, st')
      else (.raw, st')

def registerPartition (st : State) (device number : UInt32) (start count : UInt64)
    (mbrType : UInt8) : State :=
  if maxPartitions ≤ st.partitions.length then st
  else
    match st.blockDevices[device.toNat]? with
    | none => st
    | some dev =>
      if !partitionRangeValid dev start count then st
      else
        let (hint, st') := detectFsHint st device start count mbrType
        { st' with partitions := st'.partitions ++
            [⟨true, makePartitionName dev.name number, device, number, start, count, mbrType, hint⟩] }

/-- One round of the loop over the four MBR entries. -/
def mbrEntryStep (dev : BlockDevice) (device : UInt32) (sector : Sector) (acc : Bool × State)
    (i : ℕ) : Bool × State :=
  let entry := 446 + i * 16
  let type := sector.byte (entry + 4)
  let start := (sector.le32 (entry + 8)).toUInt64
  let blocks := (sector.le32 (entry + 12)).toUInt64
  if type = 0 ∨ blocks = 0 ∨ partitionRangeValid dev start blocks = false then acc
  else (acc.1 || type == 0xEE, registerPartition acc.2 device (UInt32.ofNat i + 1) start blocks type)

/-- The flag says whether a protective GPT entry was found. -/
def discoverMbrPartitions (st : State) (device : UInt32) : Bool × State :=
  match st.blockDevices[device.toNat]? with
  | none => (false, st)
  | some dev =>
    if !dev.present || dev.blockSize != 512 || !dev.hasRead then (false, st)
    else
      match deviceRead st device.toNat dev 0 1 with
      | (none, st') => (false, st')
      | (some buf, st') =>
        let sector := buf 0
        if sector.byte 510 ≠ 0x55 ∨ sector.byte 511 ≠ 0xAA then (false, st')
        else (List.range 4).foldl (mbrEntryStep dev device sector) (false, st')

/-- `EFI PART` -/
def gptSignature : List UInt8 := [0x45, 0x46, 0x49, 0x20, 0x50, 0x41, 0x52, 0x54]

/-- The loop over the GPT entries, from entry `i` on with `n` entries left. -/
def gptEntries (dev : BlockDevice) (device : UInt32) (entryLba : UInt64) (entrySize : UInt32) :
    ℕ → ℕ → State → State
  | 0, _, st => st
  | n + 1, i, st =>
    if maxPartitions ≤ st.partitions.length then st
    else
      let byteOffset := i * entrySize.toNat
      let sectorLba := entryLba + UInt64.ofNat (byteOffset / 512)
      let sectorOffset := byteOffset % 512
      if sectorLba ≥ dev.blockCount then st
      else if sectorOffset + entrySize.toNat > 512 then st
      else
        match deviceRead st device.toNat dev sectorLba 1 with
        | (none, st') => st'
        | (some buf, st') =>
          let sector := buf 0
          if (List.range 16).all fun b => sector.byte (sectorOffset + b) == 0 then
            gptEntries dev device entryLba entrySize n (i + 1) st'
          else
            let start := sector.le64 (sectorOffset + 32)
            let stop := sector.le64 (sectorOffset + 40)
            if start = 0 ∨ stop < start ∨
                partitionRangeValid dev start (stop - start + 1) = false then
              gptEntries dev device entryLba entrySize n (i + 1) st'
            else
              gptEntries dev device entryLba entrySize n (i + 1)
                (registerPartition st' device (UInt32.ofNat i + 1) start (stop - start + 1) 0xEE)

def discoverGptPartitions (st : State) (device : UInt32) : State :=
  match st.blockDevices[device.toNat]? with
  | none => st
  | some dev =>
    if !dev.present || dev.blockSize != 512 || !dev.hasRead || decide (dev.blockCount ≤ 1) then st
    else
      match deviceRead st device.toNat dev 1 1 with
      | (none, st') => st'
      | (some buf, st') =>
        let header := buf 0
        if ((List.range 8).map header.byte) ≠ gptSignature ∨ header.le32 12 < 92 then st'
        else
          let entryLba := header.le64 72
          let entryCount := header.le32 80
          let entrySize := header.le32 84
          if entryLba = 0 ∨ entryLba ≥ dev.blockCount ∨ entryCount > 16384 ∨ entrySize < 128 ∨
              entrySize > 256 then st'
          else gptEntries dev device entryLba entrySize entryCount.toNat 0 st'

/-- Scan one device: with a protective entry the MBR partitions are dropped again. -/
def discoverDevice (st : State) (device : ℕ) : State :=
  let partitionStart := st.partitions.length
  match discoverMbrPartitions st (UInt32.ofNat device) with
  | (false, st') => st'
  | (true, st') =>
    discoverGptPartitions { st' with partitions := st'.partitions.take partitionStart }
      (UInt32.ofNat device)

def refreshMount (st : State) (m : Mount) : Mount :=
  if m.present then
    match storageFindPartition st m.partitionName with
    | none => m.clear
    | some (index, part) => { m with partitionIndex := index, fsName := some part.fsHint }
  else m

def refreshMountsAfterPartitionScan (st : State) : State :=
  { st with mounts := fun i => refreshMount st (st.mounts i) }

def storageDiscoverPartitions (st : State) : State :=
  refreshMountsAfterPartitionScan
    ((List.range st.blockDevices.length).foldl discoverDevice { st with partitions := [] })

/-- The new MBR of `storage_create_mbr_partition`: one entry from sector 2048 to the end. -/
def newMbrSector (mbrType : UInt8) (usable : UInt32) : Sector := fun i =>
  if i.val = 450 then mbrType
  else if 454 ≤ i.val ∧ i.val < 458 then le32Byte 2048 (UInt32.ofNat (i.val - 454))
  else if 458 ≤ i.val ∧ i.val < 462 then le32Byte usable (UInt32.ofNat (i.val - 458))
  else if i.val = 510 then 0x55
  else if i.val = 511 then 0xAA
  else 0

end Storage
