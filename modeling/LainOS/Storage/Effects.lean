import LainOS.Storage.Basic
import Mathlib.Order.CompletePartialOrder

/-!
# What an access does

Reading and writing through a partition, said once in terms of the sectors of the partition:
a read changes nothing but the count of accesses and returns the sectors it names, a write changes
only the sectors it names. Partitions that fit their devices and do not overlap are independent of
each other.
-/

namespace Storage

open UInt32

variable {l : ℕ} {lba : UInt64}

/-- The two states differ in their disks and access counts only. -/
structure SameTables (s s' : State) : Prop where
  blockDevices : s'.blockDevices = s.blockDevices
  partitions : s'.partitions = s.partitions
  mounts : s'.mounts = s.mounts
  faults : s'.faults = s.faults

variable {s s' : State} {p q : UInt32} {part : Partition}

lemma SameTables.refl (s : State) : SameTables s s := ⟨rfl, rfl, rfl, rfl⟩

section

variable (h : SameTables s s')
include h

lemma SameTables.trans {s'' : State} (h' : SameTables s' s'') : SameTables s s'' :=
  ⟨h'.blockDevices.trans h.blockDevices, h'.partitions.trans h.partitions,
    h'.mounts.trans h.mounts, h'.faults.trans h.faults⟩

lemma SameTables.getPartition (p : UInt32) :
    storageGetPartition s' p = storageGetPartition s p := by
  rw [storageGetPartition, storageGetPartition, h.partitions]

lemma SameTables.getBlockDevice (i : UInt32) :
    storageGetBlockDevice s' i = storageGetBlockDevice s i := by
  rw [storageGetBlockDevice, storageGetBlockDevice, h.blockDevices]

lemma SameTables.getMountByDrive (drive : UInt8) :
    storageGetMountByDrive s' drive = storageGetMountByDrive s drive := by
  simp only [storageGetMountByDrive, h.mounts]

end

/-- Sector `l` of partition `p`; zero when there is no such sector. -/
def partSector (s : State) (p : UInt32) (l : ℕ) : Sector :=
  match storageGetPartition s p with
  | some part =>
    if l < part.blockCount.toNat then s.disk part.deviceIndex.toNat (part.startLba.toNat + l)
    else Sector.zero
  | none => Sector.zero

lemma partSector_of_lt (h : storageGetPartition s p = some part) (hl : l < part.blockCount.toNat) :
    partSector s p l = s.disk part.deviceIndex.toNat (part.startLba.toNat + l) := by
  rw [partSector, h]
  exact if_pos hl

/-- The partition lies inside its device. -/
def Fits (s : State) (part : Partition) : Prop :=
  ∃ dev, storageGetBlockDevice s part.deviceIndex = some dev ∧ dev.hasRead = true ∧
    part.startLba.toNat + part.blockCount.toNat ≤ dev.blockCount.toNat

/-- Two partitions share no sector. -/
def Apart (a b : Partition) : Prop :=
  a.deviceIndex ≠ b.deviceIndex ∨
    a.startLba.toNat + a.blockCount.toNat ≤ b.startLba.toNat ∨
    b.startLba.toNat + b.blockCount.toNat ≤ a.startLba.toNat

/-- Every partition of the table fits its device, and `p` is apart from all the others. -/
structure Isolated (s : State) (p : UInt32) : Prop where
  fits : ∀ q part, storageGetPartition s q = some part → Fits s part
  apart : ∀ q part part', q ≠ p → storageGetPartition s p = some part →
    storageGetPartition s q = some part' → Apart part part'

lemma Isolated.congr (h : Isolated s p) (hs : SameTables s s') : Isolated s' p := by
  refine ⟨fun q part hq => ?_, fun q part part' hne hp hq => ?_⟩
  · rw [hs.getPartition] at hq
    obtain ⟨dev, hdev, hread, hle⟩ := h.fits q part hq
    exact ⟨dev, (hs.getBlockDevice _).trans hdev, hread, hle⟩
  · rw [hs.getPartition] at hp hq
    exact h.apart q part part' hne hp hq

/-! ### The device call -/

/-- The device call a partition access ends in, if it gets that far: the device and the first sector
it is called with. `function` says that the driver has the function to be called. -/
def partitionAccess (s : State) (function : BlockDevice → Bool) (p : UInt32) (lba : UInt64)
    (count : UInt32) : Option (UInt32 × BlockDevice × UInt64) :=
  match storageGetPartition s p with
  | none => none
  | some part =>
    if lba + count.toUInt64 > part.blockCount then none
    else
      match storageGetBlockDevice s part.deviceIndex with
      | none => none
      | some d => if !function d then none else some (part.deviceIndex, d, part.startLba + lba)

section

variable {d : BlockDevice} {function : BlockDevice → Bool} {lba first : UInt64}
  {count device : UInt32}

lemma access_elim {α : Type*} (refused : α) (call : UInt32 → BlockDevice → UInt64 → α) :
    (match storageGetPartition s p with
      | none => refused
      | some part =>
        if lba + count.toUInt64 > part.blockCount then refused
        else
          match storageGetBlockDevice s part.deviceIndex with
          | none => refused
          | some d =>
            if !function d then refused else call part.deviceIndex d (part.startLba + lba)) =
      match partitionAccess s function p lba count with
      | none => refused
      | some (device, d, first) => call device d first := by
  rw [partitionAccess]
  rcases storageGetPartition s p with _ | part
  · rfl
  dsimp only
  split_ifs
  · rfl
  · cases storageGetBlockDevice s part.deviceIndex with
    | none => rfl
    | some d => dsimp only; split_ifs <;> rfl

lemma read_eq (s : State) (p : UInt32) (lba : UInt64) (count : UInt32) :
    storageReadPartition s p lba count =
      match partitionAccess s BlockDevice.hasRead p lba count with
      | none => (none, s)
      | some (device, d, first) => deviceRead s device.toNat d first count :=
  access_elim (none, s) fun device d first => deviceRead s device.toNat d first count

lemma write_eq (s : State) (p : UInt32) (lba : UInt64) (count : UInt32) (data : ℕ → Sector) :
    storageWritePartition s p lba count data =
      match partitionAccess s BlockDevice.hasWrite p lba count with
      | none => (false, s)
      | some (device, d, first) => deviceWrite s device.toNat d first count data :=
  access_elim (false, s) fun device d first => deviceWrite s device.toNat d first count data

lemma access_eq_some : partitionAccess s function p lba count = some (device, d, first) ↔
      ∃ part, storageGetPartition s p = some part ∧ lba + count.toUInt64 ≤ part.blockCount ∧
        storageGetBlockDevice s part.deviceIndex = some d ∧ function d = true ∧
        device = part.deviceIndex ∧ first = part.startLba + lba := by
  rw [partitionAccess]
  rcases storageGetPartition s p with _ | part
  · simp
  dsimp only
  split_ifs with h
  · simp [UInt64.not_le.mpr h]
  · rw [gt_iff_lt, UInt64.not_lt] at h
    cases hd : storageGetBlockDevice s part.deviceIndex with
    | none => simp [hd]
    | some d' => cases hf : function d' <;> simp [hf, hd, h] <;> grind

end

/-! ### Reading -/

lemma deviceRead_state (s : State) (dev : ℕ) (d : BlockDevice) (lba : UInt64) (count : UInt32) :
    (deviceRead s dev d lba count).2 = { s with accesses := s.accesses + 1 } := by
  rw [deviceRead]
  cases s.faults s.accesses with
  | some _ => rfl
  | none => dsimp only; split_ifs <;> rfl

variable {count : UInt32} {r : Option (ℕ → Sector)}

lemma read_state (h : storageReadPartition s p lba count = (r, s')) :
    ∃ n, s' = { s with accesses := n } := by
  rw [read_eq] at h
  split at h
  · cases h
    exact ⟨s.accesses, rfl⟩
  · exact ⟨s.accesses + 1, by rw [← deviceRead_state, h]⟩

lemma read_sameTables (h : storageReadPartition s p lba count = (r, s')) : SameTables s s' := by
  obtain ⟨n, rfl⟩ := read_state h
  exact ⟨rfl, rfl, rfl, rfl⟩

/-- The address of a sector of a partition that fits is computed without wrapping around. -/
lemma Fits.toNat_add (h : Fits s part) (hlba : lba.toNat ≤ part.blockCount.toNat) :
    (part.startLba + lba).toNat = part.startLba.toNat + lba.toNat := by
  obtain ⟨dev, -, -, hle⟩ := h
  have := dev.blockCount.toNat_lt
  rw [UInt64.toNat_add, Nat.mod_eq_of_lt (by omega)]

/-- The range check of the code, for sector numbers of 32 bits. -/
lemma range_le_iff (lba count : UInt32) (bound : UInt64) :
    lba.toUInt64 + count.toUInt64 ≤ bound ↔ lba.toNat + count.toNat ≤ bound.toNat := by
  have hl := lba.toNat_lt
  have hc := count.toNat_lt
  rw [UInt64.le_iff_toNat_le, UInt64.toNat_add, toNat_toUInt64, toNat_toUInt64,
    Nat.mod_eq_of_lt (by omega)]

variable {lba count : UInt32}

/-- What a successful read returns. -/
lemma read_eq_some {f : ℕ → Sector}
    (hfits : ∀ part, storageGetPartition s p = some part → Fits s part)
    (h : storageReadPartition s p lba.toUInt64 count = (some f, s')) :
    ∃ part, storageGetPartition s p = some part ∧
      lba.toNat + count.toNat ≤ part.blockCount.toNat ∧
      ∀ i < count.toNat, f i = partSector s p (lba.toNat + i) := by
  rw [read_eq] at h
  split at h
  · cases h
  rename_i device d first haccess
  obtain ⟨part, hp, hrange, -, -, rfl, rfl⟩ := access_eq_some.mp haccess
  rw [range_le_iff] at hrange
  refine ⟨part, hp, hrange, fun i hi => ?_⟩
  rw [deviceRead] at h
  split at h
  · cases h
  split_ifs at h
  · cases h
    dsimp only
    rw [partSector_of_lt hp (by omega), (hfits part hp).toNat_add
      (by rw [toNat_toUInt64]; omega), toNat_toUInt64, Nat.add_assoc]
  · cases h

/-- Without faults a read in range succeeds. -/
lemma read_isSome (hp : storageGetPartition s p = some part) (hfit : Fits s part)
    (hfault : s.faults s.accesses = none)
    (hrange : lba.toNat + count.toNat ≤ part.blockCount.toNat) :
    ∃ f s', storageReadPartition s p lba.toUInt64 count = (some f, s') := by
  obtain ⟨dev, hdev, hread, hle⟩ := hfit
  have hadd := Fits.toNat_add ⟨dev, hdev, hread, hle⟩
    (show lba.toUInt64.toNat ≤ part.blockCount.toNat by rw [toNat_toUInt64]; omega)
  rw [toNat_toUInt64] at hadd
  rw [read_eq, access_eq_some.mpr
    ⟨part, hp, (range_le_iff lba count _).mpr hrange, hdev, hread, rfl, rfl⟩]
  simp only [deviceRead, hfault]
  rw [if_pos (by omega)]
  exact ⟨_, _, rfl⟩

/-! ### Writing -/

variable {data : ℕ → Sector} {ok : Bool}

lemma write_sameTables {lba : UInt64}
    (h : storageWritePartition s p lba count data = (ok, s')) : SameTables s s' := by
  rw [write_eq] at h
  split at h
  · cases h
    exact .refl s
  rw [deviceWrite] at h
  split_ifs at h
  · split at h <;> cases h <;> exact ⟨rfl, rfl, rfl, rfl⟩
  · cases h
    exact ⟨rfl, rfl, rfl, rfl⟩

lemma partSector_setSectors (hp : storageGetPartition s p = some part) (n dev lba count : ℕ)
    (data : ℕ → Sector) (l : ℕ) :
    partSector (({ s with accesses := n } : State).setSectors dev lba count data) p l =
      if part.deviceIndex.toNat = dev ∧ lba ≤ part.startLba.toNat + l ∧
          part.startLba.toNat + l < lba + count ∧ l < part.blockCount.toNat
      then data (part.startLba.toNat + l - lba) else partSector s p l := by
  have hp' : storageGetPartition (({ s with accesses := n } : State).setSectors dev lba count data)
      p = some part := hp
  by_cases hl : l < part.blockCount.toNat
  · rw [partSector_of_lt hp hl, partSector_of_lt hp' hl]
    simp only [State.setSectors, hl, and_true]
  · rw [if_neg fun h => hl h.2.2.2, partSector, partSector, hp, hp']
    dsimp only
    rw [if_neg hl, if_neg hl]

/-- A write either reaches the device, at an address in range, or changes nothing at all. -/
lemma write_cases (hfits : ∀ part, storageGetPartition s p = some part → Fits s part)
    (h : storageWritePartition s p lba.toUInt64 count data = (ok, s')) : (ok = false ∧ s' = s) ∨
    ∃ part n junk, storageGetPartition s p = some part ∧
      lba.toNat + count.toNat ≤ part.blockCount.toNat ∧ (ok = true → junk = data) ∧
      s' = ({ s with accesses := n } : State).setSectors part.deviceIndex.toNat
        (part.startLba.toNat + lba.toNat) count.toNat junk := by
  rw [write_eq] at h
  split at h
  · cases h
    exact .inl ⟨rfl, rfl⟩
  rename_i device d first haccess
  obtain ⟨part, hp, hrange, hdev, -, rfl, rfl⟩ := access_eq_some.mp haccess
  rw [range_le_iff] at hrange
  obtain ⟨dev, hdev', -, hle⟩ := id (hfits part hp)
  obtain rfl : d = dev := Option.some.inj (hdev.symm.trans hdev')
  rw [deviceWrite, (hfits part hp).toNat_add (by rw [toNat_toUInt64]; omega),
    toNat_toUInt64, if_pos (by omega)] at h
  right
  cases hfault : s.faults s.accesses with
  | some junk =>
    rw [hfault] at h
    cases h
    exact ⟨part, s.accesses + 1, junk, hp, hrange, Bool.false_ne_true.elim, rfl⟩
  | none =>
    rw [hfault] at h
    cases h
    exact ⟨part, s.accesses + 1, data, hp, hrange, fun _ => rfl, rfl⟩

/-- A write through another partition leaves an isolated one alone. -/
lemma write_other (hiso : Isolated s p) (hne : q ≠ p)
    (h : storageWritePartition s q lba.toUInt64 count data = (ok, s')) (l : ℕ) :
    partSector s' p l = partSector s p l := by
  rcases write_cases (hiso.fits q) h with
    ⟨-, rfl⟩ | ⟨part', n, junk, hq, hin, -, rfl⟩
  · rfl
  rcases hp : storageGetPartition s p with _ | part
  · have hp' : storageGetPartition (({ s with accesses := n } : State).setSectors
        part'.deviceIndex.toNat (part'.startLba.toNat + lba.toNat) count.toNat junk) p = none := hp
    rw [partSector, partSector, hp, hp']
  rw [partSector_setSectors hp]
  refine if_neg ?_
  rintro ⟨hdev, hlo, hhi, hl⟩
  rcases hiso.apart q part part' hne hp hq with hd | hd | hd
  · exact hd (UInt32.toNat_inj.mp hdev)
  · omega
  · omega

section

variable (hfits : ∀ part, storageGetPartition s p = some part → Fits s part)
include hfits

/-- A write changes no sector outside its range. -/
lemma write_outside (h : storageWritePartition s p lba.toUInt64 count data = (ok, s')) {l : ℕ}
    (hl : l < lba.toNat ∨ lba.toNat + count.toNat ≤ l) : partSector s' p l = partSector s p l := by
  rcases write_cases hfits h with ⟨-, rfl⟩ | ⟨part, n, junk, hp, hin, -, rfl⟩
  · rfl
  · rw [partSector_setSectors hp]
    refine if_neg ?_
    rintro ⟨-, hlo, hhi, -⟩
    omega

/-- A successful write stores its data. -/
lemma write_stored (h : storageWritePartition s p lba.toUInt64 count data = (true, s')) {i : ℕ}
    (hi : i < count.toNat) : partSector s' p (lba.toNat + i) = data i := by
  rcases write_cases hfits h with ⟨⟨⟩, -⟩ | ⟨part, n, junk, hp, hin, hjunk, rfl⟩
  rw [partSector_setSectors hp, hjunk rfl, if_pos ⟨rfl, by omega, by omega, by omega⟩]
  congr 1
  omega

end

/-- Without faults a write in range to a writable device succeeds. -/
lemma write_isTrue {dev : BlockDevice} (hp : storageGetPartition s p = some part)
    (hdev : storageGetBlockDevice s part.deviceIndex = some dev) (hwrite : dev.hasWrite = true)
    (hle : part.startLba.toNat + part.blockCount.toNat ≤ dev.blockCount.toNat)
    (hfault : s.faults s.accesses = none) (hrange : lba.toNat + count.toNat ≤ part.blockCount.toNat)
    (data : ℕ → Sector) : ∃ s', storageWritePartition s p lba.toUInt64 count data = (true, s') := by
  have hmax := dev.blockCount.toNat_lt
  have hadd : (part.startLba + lba.toUInt64).toNat = part.startLba.toNat + lba.toNat := by
    rw [UInt64.toNat_add, toNat_toUInt64, Nat.mod_eq_of_lt (by omega)]
  have hfit : (part.startLba + lba.toUInt64).toNat + count.toNat ≤ dev.blockCount.toNat := by omega
  rw [write_eq, access_eq_some.mpr
    ⟨part, hp, (range_le_iff lba count _).mpr hrange, hdev, hwrite, rfl, rfl⟩]
  simp only [deviceWrite, if_pos hfit, hfault]
  exact ⟨_, rfl⟩

end Storage
