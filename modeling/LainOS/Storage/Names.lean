import LainOS.Storage.Entries

/-!
# Partition names

A mount holds the name of its partition, and a scan looks that name up in the new table. The name has
one character for the number of the partition, so numbers that differ by 256 have the same one.
Names identify partitions, and mounts keep theirs, if no two entries in use are `NamedAlike`, and only
then if no read fails and the table has room for the two.
-/

namespace Storage

open List

variable {name : List UInt8} {s : State} {part : Partition}

def maxBlockDevices : ℕ := 8

def storageRegisterBlockDevice (st : State) (name : List UInt8) (blockSize : UInt32)
    (blockCount : UInt64) (hasRead hasWrite : Bool) : State :=
  if maxBlockDevices ≤ st.blockDevices.length then st
  else { st with blockDevices := st.blockDevices ++
    [⟨true, name.take 7, blockSize, blockCount, hasRead, hasWrite⟩] }

/-! ### Equal names -/

/-- What the name of a partition has of its device. -/
def State.deviceName (s : State) (device : UInt32) : List UInt8 :=
  match s.blockDevices[device.toNat]? with
  | none => []
  | some dev => dev.name.take 7

/-- The same device name and numbers that are equal modulo 256; or the number that gives the NUL
against the one that gives a `p`, where one device name is the other one and a `p`. -/
def NamedAlike (s : State) (a b : Entry) : Prop :=
  s.deviceName a.device = s.deviceName b.device ∧ a.number.toNat % 256 = b.number.toNat % 256 ∨
  s.deviceName a.device = s.deviceName b.device ++ [0x70] ∧ a.number.toNat % 256 = 208 ∧
    b.number.toNat % 256 = 64 ∨
  s.deviceName b.device = s.deviceName a.device ++ [0x70] ∧ b.number.toNat % 256 = 208 ∧
    a.number.toNat % 256 = 64

instance (s : State) : DecidableRel (NamedAlike s) := fun _ _ => inferInstanceAs (Decidable (_ ∨ _))

lemma SameDevices.namedAlike {s' : State} (h : SameDevices s s') (a b : Entry) :
    NamedAlike s' a b ↔ NamedAlike s a b := by
  simp only [NamedAlike, State.deviceName, h.blockDevices]

lemma numberChar_eq_iff (n : UInt32) (c : UInt8) :
    (0x30 + n).toUInt8 = c ↔ n.toNat % 256 = (c.toNat + 208) % 256 := by
  have hc := c.toNat_lt
  rw [← UInt8.toNat_inj, UInt32.toNat_toUInt8, UInt32.toNat_add]
  change (48 + n.toNat) % 2 ^ 32 % 2 ^ 8 = _ ↔ _
  omega

lemma makeName_eq (h : 0 ∉ name) (n : UInt32) : makePartitionName name n =
      name.take 7 ++ 0x70 :: if (0x30 + n).toUInt8 = 0 then [] else [(0x30 + n).toUInt8] := by
  have hname : ∀ c ∈ name.take 7, decide (c ≠ 0) = true := fun c hc =>
    decide_eq_true fun hzero => h (hzero ▸ mem_of_mem_take hc)
  rw [makePartitionName, takeWhile_append_of_pos hname, takeWhile_cons_of_pos (by decide)]
  split_ifs with hzero
  · rw [takeWhile_cons_of_neg (by simpa using hzero)]
  · rw [takeWhile_cons_of_pos (by simpa using hzero), takeWhile_nil]

lemma makeName_eq_iff {name' : List UInt8} (h : 0 ∉ name) (h' : 0 ∉ name') (n n' : UInt32) :
    makePartitionName name n = makePartitionName name' n' ↔
      name.take 7 = name'.take 7 ∧ n.toNat % 256 = n'.toNat % 256 ∨
      name.take 7 = name'.take 7 ++ [0x70] ∧ n.toNat % 256 = 208 ∧ n'.toNat % 256 = 64 ∨
      name'.take 7 = name.take 7 ++ [0x70] ∧ n'.toNat % 256 = 208 ∧ n.toNat % 256 = 64 := by
  have hsame : n.toNat % 256 = n'.toNat % 256 ↔ (0x30 + n).toUInt8 = (0x30 + n').toUInt8 := by
    have hn := (numberChar_eq_iff n' _).mp rfl
    rw [numberChar_eq_iff, ← hn]
  have hnul : ∀ m : UInt32, m.toNat % 256 = 208 ↔ (0x30 + m).toUInt8 = 0 := fun m =>
    (numberChar_eq_iff m 0).symm
  have hp : ∀ m : UInt32, m.toNat % 256 = 64 ↔ (0x30 + m).toUInt8 = 0x70 := fun m =>
    (numberChar_eq_iff m 0x70).symm
  rw [makeName_eq h, makeName_eq h', hsame, hnul, hnul, hp, hp]
  generalize (0x30 + n).toUInt8 = c
  generalize (0x30 + n').toUInt8 = c'
  generalize name.take 7 = t
  generalize name'.take 7 = t'
  have happend : ∀ (t t' : List UInt8) (c c' : UInt8),
      t ++ [0x70] = t' ++ [c, c'] ↔ t = t' ++ [c] ∧ 0x70 = c' := by
    intro t t' c c'
    rw [show t' ++ [c, c'] = (t' ++ [c]) ++ [c'] by simp, ← concat_eq_append,
      ← concat_eq_append, concat_inj]
  by_cases hc : c = 0 <;> by_cases hc' : c' = 0
  · simp [hc, hc']
  · rw [if_pos hc, if_neg hc', happend]
    simp [hc, hc', eq_comm]
  · rw [if_neg hc, if_pos hc', eq_comm, happend]
    simp [hc, hc', eq_comm]
  · have hboth : t ++ [0x70, c] = t' ++ [0x70, c'] ↔ t = t' ∧ c = c' :=
      ⟨fun heq => by simpa using append_inj' heq rfl, fun heq => by rw [heq.1, heq.2]⟩
    rw [if_neg hc, if_neg hc', hboth]
    simp [hc, hc']

/-! ### The table -/

structure Named (s : State) (part : Partition) : Prop where
  present : part.present = true
  name : ∃ dev, s.blockDevices[part.deviceIndex.toNat]? = some dev ∧
    part.name = makePartitionName dev.name part.partitionNumber

/-- Only the devices matter. -/
lemma Named.congr {s' : State} (h : Named s part) (hdevices : s'.blockDevices = s.blockDevices) :
    Named s' part :=
  ⟨h.present, hdevices ▸ h.name⟩

lemma Named.eq_iff (hnames : ∀ dev ∈ s.blockDevices, 0 ∉ dev.name) {a b : Partition}
    (ha : Named s a) (hb : Named s b) : a.name = b.name ↔ NamedAlike s a.entry b.entry := by
  obtain ⟨dev, hdev, hname⟩ := ha.name
  obtain ⟨dev', hdev', hname'⟩ := hb.name
  rw [NamedAlike, Partition.entry, Partition.entry, State.deviceName, State.deviceName, hdev, hdev',
    hname, hname']
  exact makeName_eq_iff (hnames dev (mem_of_getElem? hdev))
    (hnames dev' (mem_of_getElem? hdev')) _ _

lemma scan_named : ScanInvariant fun s => ∀ part ∈ s.partitions, Named s part where
  read _ _ h part hpart := (h part hpart).congr rfl
  drop _ _ h part hpart := (h part (mem_of_mem_take hpart)).congr rfl
  register s device number start count mbrType h part hpart := by
    rcases register_cases s device number start count mbrType with
      heq | ⟨dev, hint, n, hdev, -, heq⟩ <;> rw [heq] at hpart ⊢
    · exact h part hpart
    rcases mem_append.mp hpart with hpart | hpart
    · exact (h part hpart).congr rfl
    · rw [mem_singleton.mp hpart]
      exact ⟨rfl, dev, hdev, rfl⟩

lemma discover_named (s : State) :
    ∀ part ∈ (storageDiscoverPartitions s).partitions, Named (storageDiscoverPartitions s) part := by
  have hnamed := scan_named.foldl_discover (List.range s.blockDevices.length)
    (s := { s with partitions := [] }) fun part hpart => absurd hpart not_mem_nil
  exact fun part hpart => (hnamed part hpart).congr rfl

lemma findPart_eq_some (hlength : s.partitions.length ≤ maxPartitions) {index : UInt32}
    (h : storageFindPartition s name = some (index, part)) :
    storageGetPartition s index = some part ∧ part.name = name := by
  rw [storageFindPartition, Option.map_eq_some_iff] at h
  obtain ⟨⟨part', i⟩, hfind, heq⟩ := h
  cases heq
  have hget := List.mk_mem_zipIdx_iff_getElem?.mp (List.mem_of_find?_eq_some hfind)
  have hmatch := List.find?_some hfind
  rw [Bool.and_eq_true, beq_iff_eq] at hmatch
  have hi : i < s.partitions.length := (List.getElem?_eq_some_iff.mp hget).1
  have hindex : (UInt32.ofNat i).toNat = i := by
    rw [maxPartitions] at hlength
    exact Nat.mod_eq_of_lt (by omega)
  rw [storageGetPartition, hindex, hget]
  exact ⟨if_pos hmatch.1, hmatch.2⟩

lemma findPart_isSome (hpart : part ∈ s.partitions) (hpresent : part.present = true)
    (hname : part.name = name) : ∃ r, storageFindPartition s name = some r := by
  obtain ⟨i, hget⟩ := getElem?_of_mem hpart
  rw [← Option.isSome_iff_exists, storageFindPartition, Option.isSome_map, find?_isSome]
  exact ⟨(part, i), List.mk_mem_zipIdx_iff_getElem?.mpr hget, by simp [hpresent, hname]⟩

/-! ### Mounts -/

/-- The mount with index `i` designates the partition. -/
def State.Mounted (s : State) (i : Fin maxMounts) (part : Partition) : Prop :=
  (s.mounts i).present = true ∧ storageGetPartition s (s.mounts i).partitionIndex = some part

/-- The states the storage layer gets into, whatever happens to the devices meanwhile. -/
inductive Reachable : State → Prop
  | start {s : State} (hpartitions : s.partitions = []) (hmounts : ∀ i, (s.mounts i).present = false) :
      Reachable s
  | register {s : State} (h : Reachable s) (name : List UInt8) (blockSize : UInt32)
      (blockCount : UInt64) (hasRead hasWrite : Bool) :
      Reachable (storageRegisterBlockDevice s name blockSize blockCount hasRead hasWrite)
  | medium {s : State} (h : Reachable s) (disk : ℕ → ℕ → Sector) (faults : ℕ → Option (ℕ → Sector))
      (accesses : ℕ) :
      Reachable { s with disk := disk, faults := faults, accesses := accesses }
  | scan {s : State} (h : Reachable s) : Reachable (storageDiscoverPartitions s)
  | mount {s : State} (h : Reachable s) (drive : UInt8) (name : List UInt8) :
      Reachable (storageMount s drive name).2
  | unmount {s : State} (h : Reachable s) (device : UInt32) :
      Reachable (storageUnmountBlockDevice s device)

structure Consistent (s : State) : Prop where
  length : s.partitions.length ≤ maxPartitions
  named : ∀ part ∈ s.partitions, Named s part
  mounted : ∀ i, (s.mounts i).present = true → ∃ part,
    storageGetPartition s (s.mounts i).partitionIndex = some part ∧
    part.name = (s.mounts i).partitionName

lemma scan_mounts (s : State) : ScanInvariant fun s' => s'.mounts = s.mounts where
  read _ _ h := h
  drop _ _ h := h
  register s' device number start count mbrType h := by
    rcases register_cases s' device number start count mbrType with
      heq | ⟨_, _, _, -, -, heq⟩ <;> rw [heq] <;> exact h

lemma discover_mounts (s : State) (i : Fin maxMounts) :
    (storageDiscoverPartitions s).mounts i = refreshMount (storageDiscoverPartitions s) (s.mounts i) := by
  have hmounts := (scan_mounts s).foldl_discover (List.range s.blockDevices.length)
    (s := { s with partitions := [] }) rfl
  rw [storageDiscoverPartitions, refreshMountsAfterPartitionScan, hmounts]
  rfl

lemma consistent_scan (s : State) : Consistent (storageDiscoverPartitions s) := by
  have hlength := (discover_entries s).1
  refine ⟨hlength, discover_named s, fun i hpresent => ?_⟩
  rw [discover_mounts, refreshMount] at hpresent ⊢
  split_ifs at hpresent ⊢ with hbefore
  · generalize hfind : storageFindPartition _ _ = found at hpresent ⊢
    cases found with
    | none => exact absurd hpresent Bool.false_ne_true
    | some r =>
      obtain ⟨hget, hname⟩ := findPart_eq_some hlength hfind
      exact ⟨r.2, hget, hname⟩
  · exact absurd hpresent hbefore

lemma Reachable.consistent (h : Reachable s) : Consistent s := by
  induction h with
  | @start s hpartitions hmounts =>
    refine ⟨by simp [hpartitions], by simp [hpartitions], fun i hpresent => ?_⟩
    exact absurd (hmounts i) (by simp [hpresent])
  | @register s _ name blockSize blockCount hasRead hasWrite ih =>
    rw [storageRegisterBlockDevice]
    split_ifs
    · exact ih
    · refine ⟨ih.length, fun part hpart => ?_, ih.mounted⟩
      obtain ⟨hpresent, dev, hdev, hname⟩ := ih.named part hpart
      exact ⟨hpresent, dev, List.getElem?_append_left
        (List.getElem?_eq_some_iff.mp hdev).1 ▸ hdev, hname⟩
  | medium _ disk faults accesses ih =>
    exact ⟨ih.length, fun part hpart => (ih.named part hpart).congr rfl, ih.mounted⟩
  | scan => exact consistent_scan _
  | @mount s _ drive name ih =>
    rw [storageMount]
    split
    · exact ih
    rename_i index part hfind
    obtain ⟨hget, -⟩ := findPart_eq_some ih.length hfind
    dsimp only
    split_ifs
    · exact ih
    refine ⟨ih.length, fun part hpart => (ih.named part hpart).congr rfl, fun i hpresent => ?_⟩
    dsimp only at hpresent ⊢
    by_cases hi : i = Fin.ofNat maxMounts (toUpper drive - 0x41).toNat
    · rw [hi, Function.update_self]
      exact ⟨part, hget, rfl⟩
    · rw [Function.update_of_ne hi] at hpresent ⊢
      exact ih.mounted i hpresent
  | @unmount s _ device ih =>
    refine ⟨ih.length, fun part hpart => (ih.named part hpart).congr rfl, fun i hpresent => ?_⟩
    -- a mount that is still present is as it was
    have hsame : (storageUnmountBlockDevice s device).mounts i = s.mounts i := by
      rw [storageUnmountBlockDevice] at hpresent ⊢
      dsimp only at hpresent ⊢
      split_ifs at hpresent ⊢ with hbefore
      · split at hpresent
        · split_ifs at hpresent ⊢ with hdevice
          · exact absurd hpresent Bool.false_ne_true
          · simp [*]
        · simp [*]
      · rfl
    rw [hsame] at hpresent
    rw [hsame]
    exact ih.mounted i hpresent

/-- The same device and number. -/
def SamePartition (a b : Partition) : Prop :=
  a.deviceIndex = b.deviceIndex ∧ a.partitionNumber = b.partitionNumber

/-- After a scan the names of the partitions are distinct, and every mount whose partition still exists
designates it. -/
def Identified (s : State) : Prop :=
  ((storageDiscoverPartitions s).partitions.map Partition.name).Nodup ∧
    ∀ i part, s.Mounted i part →
      (∃ part' ∈ (storageDiscoverPartitions s).partitions, SamePartition part' part) →
        ∃ part', (storageDiscoverPartitions s).Mounted i part' ∧ SamePartition part' part

/-- Mounts follow from names. -/
lemma identified_iff (h : Reachable s) (hnames : ∀ dev ∈ s.blockDevices, 0 ∉ dev.name) :
    Identified s ↔ (storageDiscoverPartitions s).entries.Pairwise fun a b => ¬ NamedAlike s a b := by
  have hsame := discover_sameDevices s
  have hdevices := hsame.blockDevices
  obtain ⟨hlength, hnamed, -⟩ := consistent_scan s
  have hmounts := discover_mounts s
  rw [Identified]
  generalize storageDiscoverPartitions s = t at hsame hdevices hlength hnamed hmounts ⊢
  have hdistinct : (t.partitions.map Partition.name).Nodup ↔
      t.entries.Pairwise fun a b => ¬ NamedAlike s a b := by
    rw [List.Nodup, pairwise_map, State.entries, pairwise_map]
    refine List.Pairwise.iff_of_mem fun {a b} ha hb => not_congr ?_
    rw [← hsame.namedAlike]
    exact (hnamed a ha).eq_iff (hdevices ▸ hnames) (hnamed b hb)
  rw [← hdistinct, and_iff_left_iff_imp]
  rintro hnodup i part ⟨hpresent, hget⟩ ⟨part', hpart', hdevice, hnumber⟩
  obtain ⟨part₀, hget₀, hmount⟩ := h.consistent.mounted i hpresent
  cases hget.symm.trans hget₀
  -- the partition has its old name, which no other one has
  have hname : part'.name = (s.mounts i).partitionName := by
    obtain ⟨dev, hdev, hold⟩ := (h.consistent.named part (mem_of_partition hget)).name
    obtain ⟨dev', hdev', hnew⟩ := (hnamed part' hpart').name
    rw [hdevices, hdevice, hdev] at hdev'
    cases hdev'
    rw [← hmount, hold, hnew, hnumber]
  obtain ⟨⟨index, q⟩, hfind⟩ := findPart_isSome hpart' (hnamed part' hpart').present hname
  obtain ⟨hfound, hq⟩ := findPart_eq_some hlength hfind
  have heq : q = part' := inj_on_of_nodup_map hnodup (mem_of_partition hfound) hpart'
    (hq.trans hname.symm)
  subst heq
  refine ⟨q, ?_, hdevice, hnumber⟩
  rw [State.Mounted, hmounts, refreshMount, if_pos hpresent, hfind]
  exact ⟨hpresent, hfound⟩

/-- A disk with a GPT of 257 entries, of which the first one and the first one of another sector are in
use. -/
def gptDisk (sector : ℕ) : State where
  blockDevices := [⟨true, [0x68, 0x64, 0x31], 512, 4096, true, true⟩]
  disk _ l := fun k =>
    if l = 0 then newMbrSector 0xEE 100 k
    else if l = 1 then
      if k.val < 8 then gptSignature.getD k.val 0 else
      if k.val = 12 then 92 else if k.val = 72 then 2 else if k.val = 80 then 1 else
      if k.val = 81 then 1 else if k.val = 84 then 128 else 0
    else if l = 2 ∨ l = sector then
      if k.val = 0 then 1 else if k.val = 33 ∨ k.val = 41 then if l = 2 then 1 else 2 else 0
    else 0
  partitions := []
  mounts _ := ⟨false, 0, 0, [], none⟩
  faults _ := none
  accesses := 0

end Storage
