import LainOS.Storage.Discover
import LainOS.Storage.Effects

/-!
# Rescanning

`storage_discover_partitions` reads the devices and leaves them and their contents alone
(`discover_sameDevices`). What it can change is where the partitions of the table
lie. A partition that still lies in the same place has the same sectors (`partSector_of_place`).
-/

namespace Storage

/-- The devices, what is on them and how they fail. -/
structure SameDevices (s s' : State) : Prop where
  blockDevices : s'.blockDevices = s.blockDevices
  disk : s'.disk = s.disk
  faults : s'.faults = s.faults

lemma SameDevices.refl (s : State) : SameDevices s s := ⟨rfl, rfl, rfl⟩

/-! ### Scanning -/

/-- What a scan does to the state, step by step: it counts accesses, registers partitions and drops
the last ones again. What these keep, the scan keeps. -/
structure ScanInvariant (P : State → Prop) : Prop where
  read : ∀ s n, P s → P { s with accesses := n }
  register : ∀ s device number start count mbrType, P s →
    P (registerPartition s device number start count mbrType)
  drop : ∀ s n, P s → P { s with partitions := s.partitions.take n }

namespace ScanInvariant

variable {P : State → Prop} {s : State} (h : ScanInvariant P)
include h

lemma deviceRead (hs : P s) (dev : ℕ) (d : BlockDevice) (lba : UInt64) (count : UInt32) :
    P (deviceRead s dev d lba count).2 := by
  rw [deviceRead_state]
  exact h.read s _ hs

lemma mbrEntryStep (dev : BlockDevice) (device : UInt32) (sector : Sector) (acc : Bool × State)
    (i : ℕ) (hs : P acc.2) : P (mbrEntryStep dev device sector acc i).2 := by
  rw [Storage.mbrEntryStep]
  split_ifs
  · exact hs
  · exact h.register _ _ _ _ _ _ hs

lemma foldl_mbrEntryStep (dev : BlockDevice) (device : UInt32) (sector : Sector) (is : List ℕ)
    (acc : Bool × State) (hs : P acc.2) :
    P (is.foldl (Storage.mbrEntryStep dev device sector) acc).2 := by
  induction is generalizing acc with
  | nil => exact hs
  | cons i rest ih => exact ih _ (h.mbrEntryStep dev device sector acc i hs)

lemma discoverMbrPartitions (hs : P s) (device : UInt32) :
    P (discoverMbrPartitions s device).2 := by
  rw [Storage.discoverMbrPartitions]
  split
  · exact hs
  rename_i dev _
  split_ifs
  · exact hs
  have hread := h.deviceRead hs device.toNat dev 0 1
  generalize Storage.deviceRead s device.toNat dev 0 1 = r at hread
  obtain ⟨_ | buf, s'⟩ := r
  · exact hread
  · dsimp only
    split_ifs
    · exact hread
    · exact h.foldl_mbrEntryStep dev device (buf 0) _ (false, s') hread

lemma gptEntries (dev : BlockDevice) (device : UInt32) (entryLba : UInt64) (entrySize : UInt32)
    (n i : ℕ) (hs : P s) : P (gptEntries dev device entryLba entrySize n i s) := by
  induction n generalizing i s with
  | zero => exact hs
  | succ n ih =>
    rw [Storage.gptEntries]
    dsimp only
    split_ifs
    · exact hs
    · exact hs
    · exact hs
    have hread := h.deviceRead hs device.toNat dev
      (entryLba + UInt64.ofNat (i * entrySize.toNat / 512)) 1
    generalize Storage.deviceRead s device.toNat dev
      (entryLba + UInt64.ofNat (i * entrySize.toNat / 512)) 1 = r at hread
    obtain ⟨_ | buf, s'⟩ := r
    · exact hread
    dsimp only
    split_ifs
    · exact ih _ hread
    · exact ih _ hread
    · exact ih _ (h.register _ _ _ _ _ _ hread)

lemma discoverGptPartitions (hs : P s) (device : UInt32) : P (discoverGptPartitions s device) := by
  rw [Storage.discoverGptPartitions]
  split
  · exact hs
  rename_i dev _
  split_ifs
  · exact hs
  have hread := h.deviceRead hs device.toNat dev 1 1
  generalize Storage.deviceRead s device.toNat dev 1 1 = r at hread
  obtain ⟨_ | buf, s'⟩ := r
  · exact hread
  dsimp only
  split_ifs
  · exact hread
  · exact hread
  · exact h.gptEntries _ _ _ _ _ _ hread

lemma discoverDevice (hs : P s) (device : ℕ) : P (discoverDevice s device) := by
  rw [Storage.discoverDevice]
  have hmbr := h.discoverMbrPartitions hs (UInt32.ofNat device)
  generalize Storage.discoverMbrPartitions s (UInt32.ofNat device) = r at hmbr
  obtain ⟨_ | _, s'⟩ := r
  · exact hmbr
  · exact h.discoverGptPartitions (h.drop s' _ hmbr) _

/-- The rule: from the empty table to the one the scan ends with. -/
lemma foldl_discover (devices : List ℕ) (hs : P s) :
    P (devices.foldl Storage.discoverDevice s) := by
  induction devices generalizing s with
  | nil => exact hs
  | cons device rest ih => exact ih (h.discoverDevice hs device)

end ScanInvariant

lemma readDevice_state (s : State) (device : UInt32) (lba : UInt64) (count : UInt32) :
    ∃ n, (storageReadBlockDevice s device lba count).2 = { s with accesses := n } := by
  rw [storageReadBlockDevice]
  split
  · exact ⟨s.accesses, rfl⟩
  · split_ifs
    · exact ⟨s.accesses, rfl⟩
    · exact ⟨s.accesses + 1, deviceRead_state s _ _ _ _⟩

lemma detectFsHint_state (s : State) (device : UInt32) (start count : UInt64) (mbrType : UInt8) :
    ∃ n, (detectFsHint s device start count mbrType).2 = { s with accesses := n } := by
  rw [detectFsHint]
  split_ifs
  · exact ⟨s.accesses, rfl⟩
  · exact ⟨s.accesses, rfl⟩
  have hread := readDevice_state s device start 1
  generalize storageReadBlockDevice s device start 1 = r at hread
  obtain ⟨_ | buf, s'⟩ := r
  · exact hread
  · dsimp only
    split_ifs <;> exact hread

/-- Either nothing happens, or the range is valid for the device and is entered in the table. -/
lemma register_cases (s : State) (device number : UInt32) (start count : UInt64) (mbrType : UInt8) :
    registerPartition s device number start count mbrType = s ∨ ∃ dev hint n,
    s.blockDevices[device.toNat]? = some dev ∧
      partitionRangeValid dev start count = true ∧
      registerPartition s device number start count mbrType =
        { s with accesses := n, partitions := s.partitions ++ [⟨true,
            makePartitionName dev.name number, device, number, start, count, mbrType, hint⟩] } := by
  rw [registerPartition]
  split_ifs
  · exact .inl rfl
  split
  · exact .inl rfl
  rename_i dev hdev
  split_ifs with hvalid
  · exact .inl rfl
  obtain ⟨n, hn⟩ := detectFsHint_state s device start count mbrType
  refine .inr ⟨dev, (detectFsHint s device start count mbrType).1, n, hdev, ?_, ?_⟩
  · simpa using hvalid
  · dsimp only
    rw [hn]

lemma scan_sameDevices (s : State) : ScanInvariant (SameDevices s) where
  read _ _ h := ⟨h.blockDevices, h.disk, h.faults⟩
  drop _ _ h := ⟨h.blockDevices, h.disk, h.faults⟩
  register s' device number start count mbrType h := by
    rcases register_cases s' device number start count mbrType with
      heq | ⟨_, _, _, -, -, heq⟩ <;> rw [heq]
    · exact h
    · exact ⟨h.blockDevices, h.disk, h.faults⟩

theorem discover_sameDevices (s : State) : SameDevices s (storageDiscoverPartitions s) := by
  have h := (scan_sameDevices { s with partitions := [] }).foldl_discover
    (List.range s.blockDevices.length) (SameDevices.refl _)
  exact ⟨h.blockDevices, h.disk, h.faults⟩

/-! ### Places -/

/-- Where a partition lies. -/
def Partition.place (part : Partition) : UInt32 × UInt64 × UInt64 :=
  (part.deviceIndex, part.startLba, part.blockCount)

def placeOf (s : State) (q : UInt32) : Option (UInt32 × UInt64 × UInt64) :=
  (storageGetPartition s q).map Partition.place

lemma SameTables.placeOf {s s' : State} (h : SameTables s s') (q : UInt32) :
    Storage.placeOf s' q = Storage.placeOf s q := by
  rw [Storage.placeOf, Storage.placeOf, h.getPartition]

section

variable {s s' : State} {q q' : UInt32}

section

variable (h : placeOf s' q' = placeOf s q)
include h

/-- The partition record may differ in its name and file system, not in its place. -/
lemma partition_of_place {part : Partition} (hp : storageGetPartition s q = some part) :
    ∃ part', storageGetPartition s' q' = some part' ∧ part'.deviceIndex = part.deviceIndex ∧
      part'.startLba = part.startLba ∧ part'.blockCount = part.blockCount := by
  rw [placeOf, placeOf, hp, Option.map_some, Option.map_eq_some_iff] at h
  obtain ⟨part', hp', hplace⟩ := h
  simp only [Partition.place, Prod.mk.injEq] at hplace
  exact ⟨part', hp', hplace⟩

lemma partition_none_of_place (hp : storageGetPartition s q = none) :
    storageGetPartition s' q' = none := by
  rw [placeOf, placeOf, hp, Option.map_none, Option.map_eq_none_iff] at h
  exact h

/-- A partition in the same place on a device with the same contents has the same sectors. -/
lemma partSector_of_place
    (hdisk : ∀ part, storageGetPartition s q = some part → ∀ n < part.blockCount.toNat,
      s'.disk part.deviceIndex.toNat (part.startLba.toNat + n) =
        s.disk part.deviceIndex.toNat (part.startLba.toNat + n)) (n : ℕ) :
    partSector s' q' n = partSector s q n := by
  rcases hp : storageGetPartition s q with _ | part
  · rw [partSector, partSector, hp, partition_none_of_place h hp]
  obtain ⟨part', hp', hdev, hstart, hcount⟩ := partition_of_place h hp
  rw [partSector, partSector, hp, hp']
  dsimp only
  rw [hcount, hdev, hstart]
  split_ifs with hn
  · exact hdisk part hp n hn
  · rfl

end

lemma Fits.of_place {part part' : Partition} (h : Fits s part)
    (hdevices : s'.blockDevices = s.blockDevices) (hdev : part'.deviceIndex = part.deviceIndex)
    (hstart : part'.startLba = part.startLba) (hcount : part'.blockCount = part.blockCount) :
    Fits s' part' := by
  obtain ⟨dev, hget, hread, hle⟩ := h
  refine ⟨dev, ?_, hread, by rwa [hstart, hcount]⟩
  rw [hdev, storageGetBlockDevice, hdevices]
  exact hget

lemma Isolated.of_places (h : Isolated s q) (hdevices : s'.blockDevices = s.blockDevices)
    (hplaces : ∀ r, placeOf s' r = placeOf s r) : Isolated s' q := by
  refine ⟨fun r part hr => ?_, fun r part part' hne hq hr => ?_⟩
  · obtain ⟨part₀, hr₀, hdev, hstart, hcount⟩ := partition_of_place (hplaces r).symm hr
    exact (h.fits r part₀ hr₀).of_place hdevices hdev.symm hstart.symm hcount.symm
  · obtain ⟨part₀, hq₀, hdev, hstart, hcount⟩ := partition_of_place (hplaces q).symm hq
    obtain ⟨part₁, hr₁, hdev', hstart', hcount'⟩ := partition_of_place (hplaces r).symm hr
    have := h.apart r part₀ part₁ hne hq₀ hr₁
    rwa [Apart, hdev, hdev', hstart, hstart', hcount, hcount'] at this

end

/-! ### Writes inside partitions -/

variable {ds : Set ℕ} {s s' s'' : State}

end Storage
