import LainOS.Storage.Rescan

/-!
# Bounds of partition accesses

A scan only registers ranges that lie inside their device (`discover_registered`),
whatever the MBR or the GPT says. The check made at each access adds `lba` and `count` in 64 bits.
Where that sum wraps around, it passes for sectors far outside the partition.
-/

namespace Storage

open UInt64

variable {part : Partition} {s : State} {p : UInt32} {d : BlockDevice}

/-! ### Registered partitions -/

lemma rangeValid_iff (dev : BlockDevice) (start count : UInt64) :
    partitionRangeValid dev start count = true ↔
      0 < start.toNat ∧ 0 < count.toNat ∧ start.toNat + count.toNat ≤ dev.blockCount.toNat := by
  rw [partitionRangeValid]
  split_ifs with h
  · simp only [false_iff, not_and]
    intro hstart hcount
    rcases h with rfl | rfl | h
    · exact absurd hstart (by decide)
    · exact absurd hcount (by decide)
    · rw [ge_iff_le, le_iff_toNat_le] at h
      omega
  · rw [not_or, not_or, ge_iff_le, UInt64.not_le, UInt64.lt_iff_toNat_lt] at h
    obtain ⟨hstart, hcount, hlt⟩ := h
    have hsub : (dev.blockCount - start).toNat = dev.blockCount.toNat - start.toNat :=
      UInt64.toNat_sub_of_le _ _ (UInt64.le_iff_toNat_le.mpr hlt.le)
    rw [decide_eq_true_iff, le_iff_toNat_le, hsub]
    have hstart' : start.toNat ≠ 0 := fun h => hstart (UInt64.toNat_inj.mp h)
    have hcount' : count.toNat ≠ 0 := fun h => hcount (UInt64.toNat_inj.mp h)
    omega

/-- The range of the partition passed the check against its device. -/
def Registered (s : State) (part : Partition) : Prop :=
  ∃ dev, s.blockDevices[part.deviceIndex.toNat]? = some dev ∧
    partitionRangeValid dev part.startLba part.blockCount = true

lemma scan_registered : ScanInvariant fun s => ∀ part ∈ s.partitions, Registered s part where
  read _ _ h := h
  drop _ _ h part hpart := h part (List.mem_of_mem_take hpart)
  register s device number start count mbrType h := by
    rcases register_cases s device number start count mbrType with
      heq | ⟨dev, hint, n, hdev, hvalid, heq⟩ <;> rw [heq]
    · exact h
    intro part hpart
    rcases List.mem_append.mp hpart with hpart | hpart
    · exact h part hpart
    · rw [List.mem_singleton.mp hpart]
      exact ⟨dev, hdev, hvalid⟩

theorem discover_registered (s : State) (hpart : part ∈ (storageDiscoverPartitions s).partitions) :
    Registered (storageDiscoverPartitions s) part :=
  scan_registered.foldl_discover (List.range s.blockDevices.length)
    (show ∀ part ∈ ({ s with partitions := [] } : State).partitions, _ by simp) part hpart

lemma mem_of_partition (h : storageGetPartition s p = some part) : part ∈ s.partitions := by
  rw [storageGetPartition] at h
  split at h
  · rename_i part' hget
    split_ifs at h
    cases h
    exact List.mem_of_getElem? hget
  · cases h

lemma getElem?_of_getDevice {index : UInt32} {dev : BlockDevice}
    (h : storageGetBlockDevice s index = some dev) : s.blockDevices[index.toNat]? = some dev := by
  rw [storageGetBlockDevice] at h
  split at h
  · rename_i dev' hget
    split_ifs at h
    cases h
    exact hget
  · cases h

/-! ### Accesses -/

/-- Every device call made for `count` sectors from `lba` on is for exactly those sectors of the
partition, and they lie inside the partition and on the device. -/
def StaysInside (s : State) (function : BlockDevice → Bool) (p : UInt32) (lba : UInt64)
    (count : UInt32) : Prop :=
  ∀ device d first, partitionAccess s function p lba count = some (device, d, first) →
    ∃ part, storageGetPartition s p = some part ∧ device = part.deviceIndex ∧
      first.toNat = part.startLba.toNat + lba.toNat ∧
      ∀ k < count.toNat, part.startLba.toNat ≤ first.toNat + k ∧
        first.toNat + k < part.startLba.toNat + part.blockCount.toNat ∧
        first.toNat + k < d.blockCount.toNat

/-- The sum the access is checked with wraps around to a value the check accepts. -/
def CheckWraps (s : State) (function : BlockDevice → Bool) (p : UInt32) (lba : UInt64)
    (count : UInt32) : Prop :=
  ∃ part d, storageGetPartition s p = some part ∧
    storageGetBlockDevice s part.deviceIndex = some d ∧ function d = true ∧
    2 ^ 64 ≤ lba.toNat + count.toNat ∧ lba.toNat + count.toNat ≤ part.blockCount.toNat + 2 ^ 64

lemma toNat_add_count (lba : UInt64) (count : UInt32) :
    (lba + count.toUInt64).toNat = (lba.toNat + count.toNat) % 2 ^ 64 := by
  rw [UInt64.toNat_add, UInt32.toNat_toUInt64]

section

variable {function : BlockDevice → Bool} {lba : UInt64} {count : UInt32}
  (hregistered : ∀ part ∈ s.partitions, Registered s part)
include hregistered

lemma Registered.range (hpart : storageGetPartition s p = some part)
    (hd : storageGetBlockDevice s part.deviceIndex = some d) :
    part.startLba.toNat + part.blockCount.toNat ≤ d.blockCount.toNat := by
  obtain ⟨d', hd', hvalid⟩ := hregistered part (mem_of_partition hpart)
  obtain rfl : d' = d := Option.some.inj (hd'.symm.trans (getElem?_of_getDevice hd))
  exact ((rangeValid_iff d' _ _).mp hvalid).2.2

lemma staysInside (h : ¬ CheckWraps s function p lba count) :
    StaysInside s function p lba count := by
  intro device d first haccess
  obtain ⟨part, hpart, hle, hd, hf, rfl, rfl⟩ := access_eq_some.mp haccess
  have hrange := Registered.range hregistered hpart hd
  have hsmall := d.blockCount.toNat_lt
  rw [le_iff_toNat_le, toNat_add_count] at hle
  have hsum : lba.toNat + count.toNat < 2 ^ 64 := by
    by_contra hwrap
    have hlba := lba.toNat_lt
    have hcount := count.toNat_lt
    exact h ⟨part, d, hpart, hd, hf, by omega, by omega⟩
  rw [Nat.mod_eq_of_lt hsum] at hle
  have hfirst : (part.startLba + lba).toNat = part.startLba.toNat + lba.toNat := by
    rw [UInt64.toNat_add, Nat.mod_eq_of_lt (by omega)]
  refine ⟨part, hpart, rfl, hfirst, fun k hk => ?_⟩
  rw [hfirst]
  omega

omit hregistered in
/-- Where the sum wraps, the last sector asked for lies behind every partition. -/
lemma not_staysInside (h : CheckWraps s function p lba count) :
    ¬ StaysInside s function p lba count := by
  obtain ⟨part, d, hpart, hd, hf, hwrap, hle⟩ := h
  intro hinside
  have hlba := lba.toNat_lt
  have hcount := count.toNat_lt
  have hpass : lba + count.toUInt64 ≤ part.blockCount := by
    rw [le_iff_toNat_le, toNat_add_count, Nat.mod_eq_sub_mod hwrap, Nat.mod_eq_of_lt (by omega)]
    omega
  obtain ⟨part', hpart', -, hfirst, hsectors⟩ := hinside _ _ _
    (access_eq_some.mpr ⟨part, hpart, hpass, hd, hf, rfl, rfl⟩)
  obtain rfl : part' = part := Option.some.inj (hpart'.symm.trans hpart)
  have hlast := (hsectors (count.toNat - 1) (by omega)).2.1
  have hblocks := part'.blockCount.toNat_lt
  omega

end

/-- For every disk content, reading and writing stay inside the partition exactly where the sum of
`lba` and `count` does not wrap around to a value below the partition's size. -/
theorem partition_access_inside_iff (s : State) (p : UInt32) (lba : UInt64) (count : UInt32) :
    (StaysInside (storageDiscoverPartitions s) BlockDevice.hasRead p lba count ∧
      StaysInside (storageDiscoverPartitions s) BlockDevice.hasWrite p lba count) ↔
    ¬ CheckWraps (storageDiscoverPartitions s) (fun d => d.hasRead || d.hasWrite) p lba count := by
  have hregistered : ∀ part ∈ (storageDiscoverPartitions s).partitions, Registered _ part :=
    fun part hpart => discover_registered s hpart
  constructor
  · rintro ⟨hread, hwrite⟩ ⟨part, d, hpart, hd, hf, hrange⟩
    rcases Bool.or_eq_true_iff.mp hf with hf | hf
    · exact not_staysInside ⟨part, d, hpart, hd, hf, hrange⟩ hread
    · exact not_staysInside ⟨part, d, hpart, hd, hf, hrange⟩ hwrite
  · intro h
    refine ⟨staysInside hregistered ?_,
      staysInside hregistered ?_⟩ <;>
    · rintro ⟨part, d, hpart, hd, hf, hrange⟩
      exact h ⟨part, d, hpart, hd, by simp [hf], hrange⟩

/-- One disk of 2248 sectors with one MBR partition, from sector 2048 on. -/
def oneDisk : State where
  blockDevices := [⟨true, [0x68, 0x64, 0x30], 512, 2248, true, true⟩]
  disk _ l := if l = 0 then newMbrSector 0x83 200 else fun _ => UInt8.ofNat l
  partitions := []
  mounts _ := ⟨false, 0, 0, [], none⟩
  faults _ := none
  accesses := 0

/-- One block from `lba = 2^64 - 1` on is sector 2047 of the device, before the partition. -/
theorem read_before_partition :
    ¬ StaysInside (storageDiscoverPartitions oneDisk) BlockDevice.hasRead 0 0xFFFFFFFFFFFFFFFF 1 ∧
    (storageReadPartition (storageDiscoverPartitions oneDisk) 0 0xFFFFFFFFFFFFFFFF 1).1.map
      (fun buffer => (buffer 0).byte 0) = some (UInt8.ofNat 2047) := by
  have hpart : storageGetPartition (storageDiscoverPartitions oneDisk) 0 =
      some ⟨true, [0x68, 0x64, 0x30, 0x70, 0x31], 0, 1, 2048, 200, 0x83, .linux⟩ := by decide
  refine ⟨not_staysInside ⟨_, ⟨true, [0x68, 0x64, 0x30], 512, 2248, true, true⟩,
    hpart, by decide, rfl, by decide, by decide⟩, by decide⟩

end Storage
