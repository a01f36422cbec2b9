import LainOS.Storage.Bounds

/-!
# Entries in use

What a scan registers, read off the devices: the MBR entries in use, or the GPT entries in use where
one of the MBR entries is protective. The table gets the first `maxPartitions` of them if no read fails,
and some of them otherwise.
-/

namespace Storage

open List LittleEndian

/-- A partition table entry, by device and partition number. -/
structure Entry where
  device : UInt32
  number : UInt32
deriving DecidableEq

def Partition.entry (part : Partition) : Entry := ⟨part.deviceIndex, part.partitionNumber⟩

def State.entries (s : State) : List Entry := s.partitions.map Partition.entry

/-! ### The tables of a device -/

section

variable (dev : BlockDevice)

def mbrInUse (mbr : Sector) (i : ℕ) : Bool :=
  mbr.byte (446 + i * 16 + 4) ≠ 0 ∧ (mbr.le32 (446 + i * 16 + 12)).toUInt64 ≠ 0 ∧
    partitionRangeValid dev (mbr.le32 (446 + i * 16 + 8)).toUInt64
      (mbr.le32 (446 + i * 16 + 12)).toUInt64

def mbrNumbers (mbr : Sector) : List ℕ := (List.range 4).filter (mbrInUse dev mbr)

def isProtective (mbr : Sector) (i : ℕ) : Bool := mbr.byte (446 + i * 16 + 4) == 0xEE

/-- The entry lies in one sector of the device. -/
def gptReadable (entryLba : UInt64) (entrySize : UInt32) (i : ℕ) : Bool :=
  entryLba + UInt64.ofNat (i * entrySize.toNat / 512) < dev.blockCount ∧
    i * entrySize.toNat % 512 + entrySize.toNat ≤ 512

/-- The entry at the offset has a type and a range on the device. -/
def gptEntryInUse (sector : Sector) (offset : ℕ) : Bool :=
  ((List.range 16).all fun b => sector.byte (offset + b) == 0) = false ∧
    sector.le64 (offset + 32) ≠ 0 ∧ ¬ sector.le64 (offset + 40) < sector.le64 (offset + 32) ∧
    partitionRangeValid dev (sector.le64 (offset + 32))
      (sector.le64 (offset + 40) - sector.le64 (offset + 32) + 1) = true

def gptInUse (disk : ℕ → Sector) (entryLba : UInt64) (entrySize : UInt32) (i : ℕ) : Bool :=
  gptEntryInUse dev (disk (entryLba + UInt64.ofNat (i * entrySize.toNat / 512)).toNat)
    (i * entrySize.toNat % 512)

def gptHeaderValid (header : Sector) : Bool :=
  ¬ ((List.range 8).map header.byte ≠ gptSignature ∨ header.le32 12 < 92) ∧
    ¬ (header.le64 72 = 0 ∨ header.le64 72 ≥ dev.blockCount ∨ header.le32 80 > 16384 ∨
      header.le32 84 < 128 ∨ header.le32 84 > 256)

/-- The first entry that cannot be read is the end of the table. -/
def gptNumbersFrom (disk : ℕ → Sector) (entryLba : UInt64) (entrySize : UInt32) (n i : ℕ) : List ℕ :=
  ((List.range' i n).takeWhile (gptReadable dev entryLba entrySize)).filter
    (gptInUse dev disk entryLba entrySize)

def gptNumbers (disk : ℕ → Sector) : List ℕ :=
  let header := disk 1
  if dev.blockCount ≤ 1 then []
  else if gptHeaderValid dev header then
    gptNumbersFrom dev disk (header.le64 72) (header.le32 84) (header.le32 80).toNat 0
  else []

def numbersInUse (disk : ℕ → Sector) : List ℕ :=
  let mbr := disk 0
  if !dev.present || dev.blockSize != 512 || !dev.hasRead then []
  else if mbr.byte 510 ≠ 0x55 ∨ mbr.byte 511 ≠ 0xAA then []
  else if (mbrNumbers dev mbr).any (isProtective mbr) then gptNumbers dev disk
  else mbrNumbers dev mbr

end

/-- Entry `i` of a table has the number `i + 1`. -/
def entryOf (device : UInt32) (i : ℕ) : Entry := ⟨device, UInt32.ofNat i + 1⟩

def entriesOn (s : State) (device : UInt32) : List Entry :=
  match s.blockDevices[device.toNat]? with
  | none => []
  | some dev => (numbersInUse dev (s.disk device.toNat)).map (entryOf device)

/-- The entries in use of all devices, as a scan goes through them. -/
def entriesInUse (s : State) : List Entry :=
  (List.range s.blockDevices.length).flatMap fun device => entriesOn s (UInt32.ofNat device)

/-! ### What a part of the scan registers -/

/-- No access to a device fails. -/
def State.Faultless (s : State) : Prop := ∀ n, s.faults n = none

/-- Some of the entries, and all of them if no read fails, have been registered as far as the table has
room. -/
structure Finds (s s' : State) (found : List Entry) : Prop where
  sameDevices : SameDevices s s'
  entries : ∃ L, L.Sublist found ∧ (s.Faultless → L = found) ∧
    s'.entries.take maxPartitions = (s.entries ++ L).take maxPartitions

variable {s s' s'' : State} {found found' : List Entry} {dev : BlockDevice} {device : UInt32}

lemma take_append_take {α : Type*} (l l' : List α) (n : ℕ) :
    (l.take n ++ l').take n = (l ++ l').take n := by
  rw [take_append, take_append, take_take, min_self, length_take]
  congr 2
  omega

lemma SameDevices.trans (h : SameDevices s s') (h' : SameDevices s' s'') : SameDevices s s'' :=
  ⟨h'.blockDevices.trans h.blockDevices, h'.disk.trans h.disk, h'.faults.trans h.faults⟩

lemma SameDevices.faultless (h : SameDevices s s') (hs : s.Faultless) : s'.Faultless := by
  rw [State.Faultless, h.faults]
  exact hs

namespace Finds

lemma nothing (s : State) : Finds s s [] :=
  ⟨SameDevices.refl s, [], Sublist.slnil, fun _ => rfl, by rw [append_nil]⟩

lemma trans (h : Finds s s' found) (h' : Finds s' s'' found') : Finds s s'' (found ++ found') := by
  obtain ⟨hsame, L, hsub, hall, heq⟩ := h
  obtain ⟨hsame', L', hsub', hall', heq'⟩ := h'
  refine ⟨hsame.trans hsame', L ++ L', hsub.append hsub', fun hs => ?_, ?_⟩
  · rw [hall hs, hall' (hsame.faultless hs)]
  · rw [heq', ← take_append_take, heq, take_append_take, append_assoc]

/-- Reading is not registering. -/
lemma read (h : Finds { s with accesses := s.accesses + 1 } s' found) : Finds s s' found :=
  ⟨⟨h.1.blockDevices, h.1.disk, h.1.faults⟩, h.2⟩

/-- A read that failed ends the search. -/
lemma failed (h : ¬ s.Faultless) (found : List Entry) :
    Finds s { s with accesses := s.accesses + 1 } found :=
  ⟨⟨rfl, rfl, rfl⟩, [], nil_sublist _, fun hs => absurd hs h, by rw [append_nil]; rfl⟩

/-- Nothing is registered in a full table. -/
lemma full (h : maxPartitions ≤ s.partitions.length) (found : List Entry) : Finds s s found := by
  refine ⟨SameDevices.refl s, found, Sublist.refl _, fun _ => rfl, ?_⟩
  rw [take_append_of_le_length (by simpa [State.entries] using h)]

end Finds

/-- A sector of the device is read unless the access fails. -/
lemma deviceRead_cases (s : State) (d : ℕ) (dev : BlockDevice) {lba : UInt64}
    (h : lba < dev.blockCount) :
    (∃ buf, deviceRead s d dev lba 1 = (some buf, { s with accesses := s.accesses + 1 }) ∧
      buf 0 = s.disk d lba.toNat) ∨
    deviceRead s d dev lba 1 = (none, { s with accesses := s.accesses + 1 }) ∧ ¬ s.Faultless := by
  have hlba : lba.toNat + (1 : UInt32).toNat ≤ dev.blockCount.toNat := UInt64.lt_iff_toNat_lt.mp h
  rw [deviceRead]
  cases hfault : s.faults s.accesses with
  | none => exact .inl ⟨_, if_pos hlba, rfl⟩
  | some junk => exact .inr ⟨rfl, fun hs => by simp [hs s.accesses] at hfault⟩

section

variable (hdev : s.blockDevices[device.toNat]? = some dev)
include hdev

lemma finds_register {start count : UInt64} (number : UInt32) (mbrType : UInt8)
    (hvalid : partitionRangeValid dev start count = true) :
    Finds s (registerPartition s device number start count mbrType) [⟨device, number⟩] := by
  rw [registerPartition]
  split_ifs with hfull
  · exact .full hfull _
  obtain ⟨n, hn⟩ := detectFsHint_state s device start count mbrType
  rw [hdev]
  dsimp only
  rw [if_neg (by simp [hvalid]), hn]
  refine ⟨⟨rfl, rfl, rfl⟩, _, Sublist.refl _, fun _ => rfl, ?_⟩
  simp [State.entries, Partition.entry]

lemma finds_mbrEntries (mbr : Sector) (is : List ℕ) (flag : Bool) :
    Finds s (is.foldl (mbrEntryStep dev device mbr) (flag, s)).2
        ((is.filter (mbrInUse dev mbr)).map (entryOf device)) ∧
      (is.foldl (mbrEntryStep dev device mbr) (flag, s)).1 =
        (flag || (is.filter (mbrInUse dev mbr)).any (isProtective mbr)) := by
  induction is generalizing s flag with
  | nil => simp [Finds.nothing]
  | cons i is ih =>
    rw [foldl_cons, mbrEntryStep]
    dsimp only
    split_ifs with hunused
    · have huse : mbrInUse dev mbr i = false := by
        rw [mbrInUse]
        rcases hunused with h | h | h <;> simp [h]
      rw [filter_cons_of_neg (by simp [huse])]
      exact ih hdev flag
    · obtain ⟨htype, hblocks, hvalid⟩ := by simpa only [not_or, Bool.not_eq_false] using hunused
      have huse : mbrInUse dev mbr i = true := by simp [mbrInUse, htype, hblocks, hvalid]
      have hreg := finds_register hdev (UInt32.ofNat i + 1) (mbr.byte (446 + i * 16 + 4)) hvalid
      obtain ⟨hrest, hflag⟩ := ih (hreg.sameDevices.blockDevices ▸ hdev)
        (flag || mbr.byte (446 + i * 16 + 4) == 0xEE)
      rw [filter_cons_of_pos huse, any_cons, map_cons, hflag, Bool.or_assoc]
      exact ⟨hreg.trans hrest, rfl⟩

lemma finds_gptEntries (entryLba : UInt64) (entrySize : UInt32) (n i : ℕ) :
    Finds s (gptEntries dev device entryLba entrySize n i s)
      ((gptNumbersFrom dev (s.disk device.toNat) entryLba entrySize n i).map (entryOf device)) := by
  induction n generalizing i s with
  | zero => exact .nothing s
  | succ n ih =>
    rw [gptEntries, gptNumbersFrom, range'_succ]
    dsimp only
    split_ifs with hfull hlba hsize
    · exact .full hfull _
    · rw [takeWhile_cons_of_neg (by simp [gptReadable, UInt64.not_lt.mpr hlba])]
      exact .nothing s
    · rw [takeWhile_cons_of_neg (by simp [gptReadable, hsize])]
      exact .nothing s
    rw [takeWhile_cons_of_pos (by simp [gptReadable, UInt64.not_le.mp hlba, not_lt.mp hsize])]
    rcases deviceRead_cases s device.toNat dev (UInt64.not_le.mp hlba) with ⟨buf, hread, hbuf⟩ | ⟨hread, hfault⟩
    · have hnext := ih (s := { s with accesses := s.accesses + 1 }) hdev (i + 1)
      have huse : gptInUse dev (s.disk device.toNat) entryLba entrySize i =
        gptEntryInUse dev (buf 0) (i * entrySize.toNat % 512) := by rw [hbuf, gptInUse]
      rw [gptEntryInUse] at huse
      rw [hread]
      dsimp only
      generalize buf 0 = sector at huse ⊢
      split_ifs with hfree hrange
      · rw [filter_cons_of_neg (by rw [huse, hfree]; simp)]
        exact hnext.read
      · rw [filter_cons_of_neg (by rw [huse]; rcases hrange with h | h | h <;> simp [h])]
        exact hnext.read
      · obtain ⟨hstart, hstop, hvalid⟩ := by simpa only [not_or, Bool.not_eq_false] using hrange
        have hreg := finds_register (s := { s with accesses := s.accesses + 1 }) hdev
          (UInt32.ofNat i + 1) 0xEE hvalid
        have hrest := ih (hreg.sameDevices.blockDevices ▸ hdev) (i + 1)
        rw [hreg.sameDevices.disk] at hrest
        rw [filter_cons_of_pos (by
          rw [huse]; exact decide_eq_true ⟨by simpa using hfree, hstart, hstop, hvalid⟩), map_cons]
        exact (hreg.trans hrest).read
    · rw [hread]
      exact .failed hfault _

lemma finds_gpt (hreadable : (!dev.present || dev.blockSize != 512 || !dev.hasRead) = false) :
    Finds s (discoverGptPartitions s device)
      ((gptNumbers dev (s.disk device.toNat)).map (entryOf device)) := by
  rw [discoverGptPartitions, hdev, gptNumbers]
  dsimp only
  rw [hreadable, Bool.false_or]
  by_cases hcount : dev.blockCount ≤ 1
  · rw [if_pos (decide_eq_true hcount), if_pos hcount]
    exact .nothing s
  rw [if_neg (by simpa using hcount), if_neg hcount]
  rcases deviceRead_cases s device.toNat dev (UInt64.not_le.mp hcount) with
    ⟨buf, hread, hbuf⟩ | ⟨hread, hfault⟩
  · replace hbuf : buf 0 = s.disk device.toNat 1 := hbuf
    rw [hread]
    dsimp only
    rw [hbuf]
    split_ifs with hsignature hvalid hrange hvalid hvalid
    · exact absurd hsignature (of_decide_eq_true hvalid).1
    · exact (Finds.nothing _).read
    · exact absurd hrange (of_decide_eq_true hvalid).2
    · exact (Finds.nothing _).read
    · exact (finds_gptEntries (s := { s with accesses := s.accesses + 1 }) hdev _ _ _ _).read
    · exact absurd (decide_eq_true ⟨hsignature, hrange⟩) hvalid
  · rw [hread]
    exact .failed hfault _

/-- Without an error the flag says whether a protective entry is in use, and the partitions are the
MBR entries in use. -/
lemma finds_mbr : (discoverMbrPartitions s device).1 = false ∧
      Finds s (discoverMbrPartitions s device).2
        ((numbersInUse dev (s.disk device.toNat)).map (entryOf device)) ∨
    (discoverMbrPartitions s device).1 = true ∧
      (∃ found, Finds s (discoverMbrPartitions s device).2 found) ∧
      (!dev.present || dev.blockSize != 512 || !dev.hasRead) = false ∧
      numbersInUse dev (s.disk device.toNat) = gptNumbers dev (s.disk device.toNat) := by
  rw [discoverMbrPartitions, hdev, numbersInUse]
  dsimp only
  by_cases hreadable : (!dev.present || dev.blockSize != 512 || !dev.hasRead) = true
  · rw [if_pos hreadable, if_pos hreadable]
    exact .inl ⟨rfl, .nothing s⟩
  rw [if_neg hreadable, if_neg hreadable]
  by_cases hzero : dev.blockCount = 0
  · -- no range lies on an empty device
    have hnone : mbrNumbers dev (s.disk device.toNat 0) = [] :=
      filter_eq_nil_iff.mpr fun i _ => by simp [mbrInUse, partitionRangeValid, hzero]
    obtain ⟨n, hn⟩ : ∃ n, deviceRead s device.toNat dev 0 1 = (none, { s with accesses := n }) := by
      rw [deviceRead, hzero]
      cases s.faults s.accesses <;> exact ⟨_, rfl⟩
    rw [hn, hnone]
    refine .inl ⟨rfl, ⟨⟨rfl, rfl, rfl⟩, [], nil_sublist _, fun _ => ?_, by rw [append_nil]; rfl⟩⟩
    simp
  have hpos : (0 : UInt64) < dev.blockCount := UInt64.pos_iff_ne_zero.mpr hzero
  rcases deviceRead_cases s device.toNat dev hpos with ⟨buf, hread, hbuf⟩ | ⟨hread, hfault⟩
  · replace hbuf : buf 0 = s.disk device.toNat 0 := hbuf
    rw [hread]
    dsimp only
    rw [hbuf]
    split_ifs with hsignature hprotective
    · exact .inl ⟨rfl, (Finds.nothing _).read⟩
    all_goals
      obtain ⟨hfinds, hflag⟩ := finds_mbrEntries (s := { s with accesses := s.accesses + 1 }) hdev
        (s.disk device.toNat 0) (List.range 4) false
      rw [Bool.false_or] at hflag
    · exact .inr ⟨hflag.trans hprotective, ⟨_, hfinds.read⟩, by simpa using hreadable, rfl⟩
    · exact .inl ⟨hflag.trans (Bool.not_eq_true _ ▸ hprotective), hfinds.read⟩
  · rw [hread]
    exact .inl ⟨rfl, .failed hfault _⟩

end

/-- The MBR partitions of a device with a protective entry are dropped. -/
lemma Finds.drop (h : Finds s s' found) (hs : s.partitions.length ≤ maxPartitions) :
    Finds s { s' with partitions := s'.partitions.take s.partitions.length } [] := by
  obtain ⟨hsame, L, -, -, heq⟩ := h
  refine ⟨⟨hsame.blockDevices, hsame.disk, hsame.faults⟩, [], Sublist.slnil, fun _ => rfl, ?_⟩
  have hlength : s.entries.length = s.partitions.length := length_map _
  have htake := congrArg (take s.partitions.length) heq
  rw [take_take, take_take, min_eq_left hs, ← hlength, take_left, hlength] at htake
  rw [append_nil, State.entries, map_take]
  exact congrArg _ htake

lemma finds_device (s : State) (hs : s.partitions.length ≤ maxPartitions) (device : ℕ) :
    Finds s (discoverDevice s device) (entriesOn s (UInt32.ofNat device)) := by
  rw [discoverDevice, entriesOn]
  cases hdev : s.blockDevices[(UInt32.ofNat device).toNat]? with
  | none =>
    rw [discoverMbrPartitions, hdev]
    exact .nothing s
  | some dev =>
    dsimp only
    have hmbr := finds_mbr hdev
    generalize discoverMbrPartitions s (UInt32.ofNat device) = r at hmbr
    obtain ⟨flag, s'⟩ := r
    rcases hmbr with ⟨rfl, hfinds⟩ | ⟨rfl, ⟨found, hfinds⟩, hreadable, hgpt⟩
    · exact hfinds
    · have hdrop := hfinds.drop hs
      have hrest := finds_gpt (hdrop.sameDevices.blockDevices ▸ hdev) hreadable
      have hdisk : s'.disk = s.disk := hdrop.sameDevices.disk
      dsimp only at hrest
      rw [hgpt, ← hdisk]
      exact hdrop.trans hrest

lemma scan_length : ScanInvariant fun s => s.partitions.length ≤ maxPartitions where
  read _ _ h := h
  drop _ _ h := (length_take_le' _ _).trans h
  register s device number start count mbrType h := by
    by_cases hfull : maxPartitions ≤ s.partitions.length
    · rw [registerPartition, if_pos hfull]
      exact h
    rcases register_cases s device number start count mbrType with
      heq | ⟨_, _, _, -, -, heq⟩ <;> rw [heq]
    · exact h
    · rw [length_append]
      exact not_le.mp hfull

lemma finds_devices (s : State) (hs : s.partitions.length ≤ maxPartitions) (devices : List ℕ) :
    Finds s (devices.foldl discoverDevice s)
      (devices.flatMap fun device => entriesOn s (UInt32.ofNat device)) := by
  induction devices generalizing s with
  | nil => exact .nothing s
  | cons device rest ih =>
    have hdevice := finds_device s hs device
    have hrest := ih (discoverDevice s device) (scan_length.discoverDevice hs device)
    -- the devices are as they were
    have hon : entriesOn (discoverDevice s device) = entriesOn s := by
      funext d
      rw [entriesOn, entriesOn, hdevice.sameDevices.blockDevices, hdevice.sameDevices.disk]
    rw [hon] at hrest
    exact hdevice.trans hrest

/-- **A scan**: the partitions are some of the entries in use. They are the first `maxPartitions` of
them if no read fails. -/
theorem discover_entries (s : State) :
    (storageDiscoverPartitions s).partitions.length ≤ maxPartitions ∧
      (storageDiscoverPartitions s).entries.Sublist (entriesInUse s) ∧
      (s.Faultless → (storageDiscoverPartitions s).entries = (entriesInUse s).take maxPartitions) := by
  have hlength := scan_length.foldl_discover (s := { s with partitions := [] })
    (List.range s.blockDevices.length) (Nat.zero_le _)
  obtain ⟨-, L, hsub, hall, heq⟩ := finds_devices { s with partitions := [] } (Nat.zero_le _)
    (List.range s.blockDevices.length)
  have hentries : (storageDiscoverPartitions s).entries = L.take maxPartitions := by
    rw [take_of_length_le (by simpa [State.entries] using hlength)] at heq
    exact heq
  refine ⟨hlength, ?_, fun hs => ?_⟩
  · rw [hentries]
    exact (take_sublist _ _).trans hsub
  · rw [hentries, hall hs]
    rfl

end Storage
