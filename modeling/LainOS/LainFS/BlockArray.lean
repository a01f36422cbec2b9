import LainOS.LainFS.Blocks
import LainOS.Storage.Rescan

/-!
# The block cache as an array

Reading and writing through the cache is reading and writing an array of blocks, one for each pair
of a partition and a sector number, whatever the devices do (`blockCache_refines_iff`). The cache
knows a block by this pair only, so the pairs have to be different sectors: with two partitions that
overlap on a device that can be written, one sector has two names.
-/

namespace LainFS

open Storage WriteBack Option Function Sector

variable {s' s : Storage.State} {k' k : BlockKey} {st : State} {dev : BlockDevice} {d l : ℕ}

/-! ### Sectors behind the pairs -/

section

variable {s : Storage.State} {k : BlockKey} {dev : BlockDevice} {d l : ℕ} {data : Sector}

/-- The device and the sector of it that an access through the partition reaches. -/
def accessOf (s : Storage.State) (k : BlockKey) : Option (BlockDevice × ℕ × ℕ) :=
  (storageGetPartition s k.1).bind fun part =>
    (storageGetBlockDevice s part.deviceIndex).bind fun dev =>
      if k.2.toNat < part.blockCount.toNat ∧
          (part.startLba + k.2.toUInt64).toNat < dev.blockCount.toNat then
        some (dev, part.deviceIndex.toNat, (part.startLba + k.2.toUInt64).toNat)
      else none

/-- What the disk has for the pair. -/
def stored (s : Storage.State) (k : BlockKey) : Sector :=
  match accessOf s k with
  | some (_, d, l) => s.disk d l
  | none => zero

/-- No sector that can be written has two names. -/
def Separate (s : Storage.State) : Prop :=
  ∀ k k' dev dev' d l, accessOf s k = some (dev, d, l) → accessOf s k' = some (dev', d, l) →
    dev.hasWrite = true → k = k'

lemma accessOf_eq_some (h : accessOf s k = some (dev, d, l)) :
    ∃ part, storageGetPartition s k.1 = some part ∧
      storageGetBlockDevice s part.deviceIndex = some dev ∧
      k.2.toNat + (1 : UInt32).toNat ≤ part.blockCount.toNat ∧ d = part.deviceIndex.toNat ∧
      l = (part.startLba + k.2.toUInt64).toNat ∧ l < dev.blockCount.toNat := by
  obtain ⟨part, hpart, h⟩ := bind_eq_some_iff.mp h
  obtain ⟨dev', hdev, h⟩ := bind_eq_some_iff.mp h
  split_ifs at h with hin
  cases h
  exact ⟨part, hpart, hdev, hin.1, rfl, rfl, hin.2⟩

lemma accessOf_of_lt {part : Partition} (hpart : storageGetPartition s k.1 = some part)
    (hdev : storageGetBlockDevice s part.deviceIndex = some dev)
    (hrange : k.2.toNat < part.blockCount.toNat)
    (hlt : (part.startLba + k.2.toUInt64).toNat < dev.blockCount.toNat) :
    accessOf s k = some (dev, part.deviceIndex.toNat, (part.startLba + k.2.toUInt64).toNat) := by
  rw [accessOf, hpart, bind_some, hdev, bind_some, if_pos ⟨hrange, hlt⟩]

lemma accessOf_congr (h : SameTables s s') (k : BlockKey) : accessOf s' k = accessOf s k := by
  simp only [accessOf, h.getPartition, h.getBlockDevice]

lemma Separate.congr (h : Separate s) (hs : SameTables s s') : Separate s' := by
  intro k k' dev dev' d l hk hk' hw
  rw [accessOf_congr hs] at hk hk'
  exact h k k' dev dev' d l hk hk' hw

/-- A write that reaches its sector stores the data, or something else if it fails. -/
lemma write_reaches (h : accessOf s k = some (dev, d, l)) (hwrite : dev.hasWrite = true) :
    storageWritePartition s k.1 k.2.toUInt64 1 (fun _ => data) =
      match s.faults s.accesses with
      | some junk =>
        (false, ({ s with accesses := s.accesses + 1 } : Storage.State).setSectors d l 1 junk)
      | none =>
        (true, ({ s with accesses := s.accesses + 1 } : Storage.State).setSectors d l 1
          fun _ => data) := by
  obtain ⟨part, hpart, hdev, hrange, rfl, rfl, hlt⟩ := accessOf_eq_some h
  have hone : (1 : UInt32).toNat = 1 := rfl
  rw [write_eq, access_eq_some.mpr
    ⟨part, hpart, (range_le_iff k.2 1 _).mpr hrange, hdev, hwrite, rfl, rfl⟩]
  cases hfault : s.faults s.accesses <;>
    simp only [deviceWrite, hone, if_pos (Nat.succ_le_of_lt hlt), hfault]

/-- Any other write fails and changes nothing. -/
lemma write_misses (h : ∀ dev d l, accessOf s k = some (dev, d, l) → dev.hasWrite = false) : ∃ n,
    storageWritePartition s k.1 k.2.toUInt64 1 (fun _ => data) =
      (false, { s with accesses := n }) := by
  rw [write_eq]
  split
  · exact ⟨s.accesses, rfl⟩
  rename_i device dev first hcall
  obtain ⟨part, hpart, hrange, hdev, hwrite, rfl, rfl⟩ := access_eq_some.mp hcall
  -- the device can be written, so the sector is behind its end
  have hlt : ¬ (part.startLba + k.2.toUInt64).toNat + (1 : UInt32).toNat ≤ dev.blockCount.toNat := by
    intro hin
    rw [h _ _ _ (accessOf_of_lt hpart hdev ((range_le_iff k.2 1 _).mp hrange) hin)] at hwrite
    cases hwrite
  exact ⟨s.accesses + 1, by rw [deviceWrite, if_neg hlt]⟩

lemma read_reaches {f : ℕ → Sector}
    (h : storageReadPartition s k.1 k.2.toUInt64 1 = (some f, s')) : f 0 = stored s k := by
  rw [read_eq] at h
  split at h
  · cases h
  rename_i device dev first hcall
  obtain ⟨part, hpart, hrange, hdev, -, rfl, rfl⟩ := access_eq_some.mp hcall
  rw [deviceRead] at h
  split at h
  · cases h
  split_ifs at h with hin
  · cases h
    rw [stored, accessOf_of_lt hpart hdev ((range_le_iff k.2 1 _).mp hrange) hin]
    rfl
  · cases h

/-- All that a write of one sector can do. -/
lemma write_pair_cases (s : Storage.State) (k : BlockKey) (data : Sector) :
    (∃ n, storageWritePartition s k.1 k.2.toUInt64 1 (fun _ => data) =
      (false, { s with accesses := n })) ∨
    ∃ dev d l ok junk, accessOf s k = some (dev, d, l) ∧ dev.hasWrite = true ∧
      storageWritePartition s k.1 k.2.toUInt64 1 (fun _ => data) =
        (ok, ({ s with accesses := s.accesses + 1 } : Storage.State).setSectors d l 1 junk) ∧
      (ok = true → junk 0 = data) := by
  by_cases hreach : ∃ dev d l, accessOf s k = some (dev, d, l) ∧ dev.hasWrite = true
  · obtain ⟨dev, d, l, haccess, hwrite⟩ := hreach
    have hw : storageWritePartition s k.1 k.2.toUInt64 1 (fun _ => data) = _ :=
      write_reaches haccess hwrite
    cases hfault : s.faults s.accesses with
    | some junk =>
      rw [hfault] at hw
      exact Or.inr ⟨dev, d, l, false, junk, haccess, hwrite, hw, fun h => by cases h⟩
    | none =>
      rw [hfault] at hw
      exact Or.inr ⟨dev, d, l, true, fun _ => data, haccess, hwrite, hw, fun _ => rfl⟩
  · refine Or.inl (write_misses fun dev d l haccess => ?_)
    by_contra hwrite
    exact hreach ⟨dev, d, l, haccess, by simpa using hwrite⟩

/-- A write is seen under its own name only. -/
lemma stored_write_other {ok : Bool} (hsep : Separate s)
    (h : storageWritePartition s k.1 k.2.toUInt64 1 (fun _ => data) = (ok, s')) (hne : k' ≠ k) :
    stored s' k' = stored s k' := by
  have htables := write_sameTables h
  rcases write_pair_cases s k data with
    ⟨n, hn⟩ | ⟨dev, d, l, ok', junk, haccess, hwrite, hn, -⟩ <;> rw [h] at hn <;> cases hn
  · rfl
  rw [stored, stored, accessOf_congr htables]
  rcases hk' : accessOf s k' with _ | access
  · rfl
  obtain ⟨dev', d', l'⟩ := access
  refine if_neg ?_
  rintro ⟨rfl, hle, hlt⟩
  obtain rfl : l' = l := by omega
  exact hne (hsep k k' dev dev' d' l' haccess hk' hwrite).symm

/-- A successful write is on the disk. -/
lemma stored_write_self
    (h : storageWritePartition s k.1 k.2.toUInt64 1 (fun _ => data) = (true, s')) :
    stored s' k = data := by
  have htables := write_sameTables h
  rcases write_pair_cases s k data with
    ⟨n, hn⟩ | ⟨dev, d, l, ok, junk, haccess, -, hn, hjunk⟩ <;> rw [h] at hn <;> cases hn
  rw [stored, accessOf_congr htables, haccess, ← hjunk rfl]
  dsimp only [State.setSectors]
  rw [if_pos ⟨rfl, le_rfl, Nat.lt_succ_self l⟩, Nat.sub_self]

/-- The sectors behind the pairs. -/
lemma storeOf_stored : StoreOf Set.univ Separate stored where
  accesses _ _ := rfl
  congr := Separate.congr
  found _ _ hr := read_reaches hr
  other hsep _ hne hw := stored_write_other hsep hw hne
  self _ _ hw := stored_write_self hw

end

/-! ### Runs -/

/-- A call of `cached_read_block`, `cached_write_block` or `flush_data_cache_slot`. -/
inductive CacheOp
  | read (k : BlockKey)
  | write (k : BlockKey) (data : Sector)
  | flush (i : Fin dataCacheSlots)

/-- The state beside the array of blocks it stands for. -/
structure Tracked where
  st : State
  blocks : BlockKey → Sector

/-- A write that reports success is a write to the array; nothing else changes it. -/
def CacheOp.apply (t : Tracked) : CacheOp → Tracked
  | read k => { t with st := (cachedReadBlock t.st k.1 k.2).2 }
  | write k data =>
    match cachedWriteBlock t.st k.1 k.2 data with
    | (true, st) => ⟨st, update t.blocks k data⟩
    | (false, st) => ⟨st, t.blocks⟩
  | flush i => { t with st := (flushDataCacheSlot t.st i).2 }

def runOps (t : Tracked) (ops : List CacheOp) : Tracked := ops.foldl CacheOp.apply t

/-- The cache stands for the array. -/
structure Refined (t : Tracked) : Prop where
  /-- at most one slot holds a pair -/
  unique : ∀ i j l m, t.st.dataCache i = some l → t.st.dataCache j = some m → l.key = m.key → i = j
  /-- a read that succeeds returns what was written last -/
  read : ∀ k data, (cachedReadBlock t.st k.1 k.2).1 = some data → data = t.blocks k
  /-- what was written last is in the cache or on the disk -/
  kept : ∀ k, view t.st.dataCache (stored t.st.storage) k = t.blocks k

/-- The invariant of a run. -/
structure Tracks (t : Tracked) : Prop where
  separate : Separate t.st.storage
  coherent : CoherentOn Set.univ t.st.dataCache (stored t.st.storage)
  view : ∀ k, view t.st.dataCache (stored t.st.storage) k = t.blocks k

section

variable {t : Tracked}

variable (h : Tracks t)
include h

/-- A step that is not seen. -/
lemma Tracks.of_seen (hs : SameMeta t.st st) (hseen : Seen Set.univ stored ∅ t.st st) :
    Tracks { t with st := st } :=
  ⟨h.separate.congr hs.tables, hseen.coherent, fun k =>
    (hseen.view k trivial (Set.notMem_empty k)).trans (h.view k)⟩

/-- Flushing a slot is not seen. -/
lemma Tracks.flush (i : Fin dataCacheSlots) :
    Tracks { t with st := (flushDataCacheSlot t.st i).2 } :=
  h.of_seen (Fetches.flush (A := ∅) (Prod.mk.eta).symm).sameMeta
    (storeOf_stored.flush h.separate h.coherent (Prod.mk.eta).symm)

/-- Reading keeps the array, and a read that succeeds is a read of the array. -/
lemma Tracks.read (k : BlockKey) : Tracks { t with st := (cachedReadBlock t.st k.1 k.2).2 } ∧
      ∀ data, (cachedReadBlock t.st k.1 k.2).1 = some data → data = t.blocks k := by
  obtain ⟨hseen, hdata⟩ := storeOf_stored.read h.separate h.coherent k
  exact ⟨h.of_seen (cacheRead_fetches t.st k).sameMeta hseen,
    fun data hread => (hdata trivial data hread).trans (h.view k)⟩

/-- A write that succeeds is a write to the array, and one that fails is none. -/
lemma Tracks.write (k : BlockKey) (data : Sector) : Tracks ((CacheOp.write k data).apply t) := by
  obtain ⟨hseen, hdata⟩ := storeOf_stored.write h.separate h.coherent k data
  have hsep := h.separate.congr (cacheWrite_fetches t.st k data).sameMeta.tables
  rw [CacheOp.apply]
  generalize cachedWriteBlock t.st k.1 k.2 data = r at hseen hdata hsep
  obtain ⟨ok, st⟩ := r
  have hother : ∀ x, x ≠ k → WriteBack.view st.dataCache (stored st.storage) x = t.blocks x :=
    fun x hx => (hseen.view x trivial hx).trans (h.view x)
  cases ok with
  | false =>
    refine ⟨hsep, hseen.coherent, fun x => ?_⟩
    by_cases hx : x = k
    · subst hx
      exact (hdata trivial).trans (h.view x)
    · exact hother x hx
  | true =>
    refine ⟨hsep, hseen.coherent, fun x => ?_⟩
    dsimp only
    by_cases hx : x = k
    · subst hx
      rw [update_self]
      exact hdata trivial
    · rw [update_of_ne hx]
      exact hother x hx

lemma Tracks.apply (op : CacheOp) : Tracks (op.apply t) := by
  cases op with
  | read k => exact (h.read k).1
  | write k data => exact h.write k data
  | flush i => exact h.flush i

lemma Tracks.run (ops : List CacheOp) : Tracks (runOps t ops) := by
  induction ops generalizing t with
  | nil => exact h
  | cons op ops ih => exact ih (h.apply op)

lemma Tracks.refined : Refined t :=
  ⟨fun i j l m hl hm hk => h.coherent.unique i j l m hl hm hk trivial, fun k => (h.read k).2, h.view⟩

end

/-- An empty cache stands for the disk. -/
lemma Tracks.of_empty (hsep : Separate st.storage) (hempty : ∀ i, st.dataCache i = none) :
    Tracks ⟨st, stored st.storage⟩ := by
  have hnone : ∀ i l, st.dataCache i ≠ some l := fun i l hl => by
    rw [hempty i] at hl
    cases hl
  refine ⟨hsep, ⟨fun i j l m hl => absurd hl (hnone i l), fun i l hl => absurd hl (hnone i l)⟩,
    fun k => view_of_absent fun i l hl => absurd hl (hnone i l)⟩

/-! ### One sector with two names -/

/-- The file system before its first access. -/
def booted (s : Storage.State) : State :=
  { storage := s, directory := Directory.empty, superCache := none, directoryTag := none,
    dataCache := fun _ => none, cacheClock := 0 }

/-- A block is written and flushed. -/
def writeThrough (k : BlockKey) (data : Sector) : List CacheOp :=
  [.write k data, .flush (victim fun _ => none)]

/-- The sector then has the data, and the cache has no other block. -/
lemma runOps_writeThrough (hquiet : Quiet s) (haccess : accessOf s k = some (dev, d, l))
    (hwrite : dev.hasWrite = true) (data : Sector) (blocks : BlockKey → Sector) :
    ∃ st, runOps ⟨booted s, blocks⟩ (writeThrough k data) = ⟨st, update blocks k data⟩ ∧
      st.storage.disk d l = data ∧ SameTables s st.storage ∧
      ∀ i m, st.dataCache i = some m → m.key = k := by
  have hlook : lookup (booted s).dataCache (k.1, k.2) = none :=
    lookup_eq_none.mpr fun i m hm => by cases hm
  generalize hi : victim (fun _ => none) = i
  have hline : cachedWriteBlock (booted s) k.1 k.2 data = (true, { booted s with
      cacheClock := 1, dataCache := update (fun _ => none) i (some ⟨k, data, true, 1⟩) }) := by
    rw [cachedWriteBlock, hlook, ← hi]
    rfl
  obtain ⟨s', hw, hdisk⟩ : ∃ s', storageWritePartition s k.1 k.2.toUInt64 1 (fun _ => data) =
      (true, s') ∧ s'.disk d l = data := by
    rw [write_reaches haccess hwrite, hquiet]
    exact ⟨_, rfl, if_pos ⟨rfl, le_rfl, Nat.lt_succ_self l⟩⟩
  refine ⟨{ booted s with
    storage := s', cacheClock := 1
    dataCache := update (fun _ => none) i (some ⟨k, data, false, 1⟩) }, ?_, hdisk,
    write_sameTables hw, fun j m hm => ?_⟩
  · rw [runOps, writeThrough, List.foldl_cons, CacheOp.apply, hline]
    simp only [List.foldl_cons, List.foldl_nil, CacheOp.apply, flushDataCacheSlot, hi,
      update_self, booted, hw, update_idem]
    rfl
  · dsimp only at hm
    rcases update_eq_some hm with ⟨-, ⟨⟩⟩ | ⟨-, ⟨⟩⟩
    rfl

/-- A write under one name is seen under the other one. -/
lemma not_refined_writeThrough {dev' : BlockDevice} (hquiet : Quiet s) (hne : k ≠ k')
    (haccess : accessOf s k = some (dev, d, l)) (haccess' : accessOf s k' = some (dev', d, l))
    (hwrite : dev.hasWrite = true) {data : Sector} (hdata : s.disk d l ≠ data) :
    ¬ Refined (runOps ⟨booted s, stored s⟩ (writeThrough k data)) := by
  obtain ⟨st, hrun, hdisk, htables, honly⟩ :=
    runOps_writeThrough hquiet haccess hwrite data (stored s)
  rw [hrun]
  intro h
  have hkept := h.kept k'
  have habs : ∀ i m, st.dataCache i = some m → m.key ≠ k' := fun i m hm heq =>
    hne ((honly i m hm).symm.trans heq)
  dsimp only at hkept
  rw [view_of_absent habs, update_of_ne (Ne.symm hne), stored, stored,
    accessOf_congr htables, haccess'] at hkept
  exact hdata (hkept.symm.trans hdisk)

lemma zero_ne_ones : zero ≠ fun _ => 1 := fun h => absurd (congrFun h 0) (by decide)

/-! ### Main result -/

/-- Whatever the devices do, the cache stands for the array, exactly if no sector that can be written
has two names. -/
theorem blockCache_refines_iff (s : Storage.State) :
    (∀ st : State, (∃ faults, st.storage = { s with faults }) → (∀ i, st.dataCache i = none) →
      ∀ ops, Refined (runOps ⟨st, stored s⟩ ops)) ↔ Separate s := by
  constructor
  · intro h k k' dev dev' d l hk hk' hwrite
    by_contra hne
    obtain ⟨data, hdata⟩ : ∃ data : Sector, s.disk d l ≠ data := by
      by_cases hzero : s.disk d l = zero
      · exact ⟨fun _ => 1, by rw [hzero]; exact zero_ne_ones⟩
      · exact ⟨zero, hzero⟩
    exact not_refined_writeThrough (s := { s with faults := fun _ => none }) (fun _ => rfl) hne hk
      hk' hwrite hdata (h (booted _) ⟨_, rfl⟩ (fun _ => rfl) _)
  · rintro hsep st ⟨faults, hst⟩ hempty ops
    have hsep' : Separate st.storage := by
      rw [hst]
      exact hsep
    have hstored : stored s = stored st.storage := by
      rw [hst]
      rfl
    rw [hstored]
    exact ((Tracks.of_empty hsep' hempty).run ops).refined

/-- An MBR with two partitions of 100 sectors, from the sectors 2048 and 2050 on. -/
def overlappingEntries : Sector := fun i =>
  if i.val = 450 ∨ i.val = 466 then 0x99
  else if i.val = 455 ∨ i.val = 471 then 0x08
  else if i.val = 470 then 0x02
  else if i.val = 458 ∨ i.val = 474 then 0x64
  else if i.val = 510 then 0x55
  else if i.val = 511 then 0xAA
  else 0

def overlappingDisk : Storage.State :=
  { blockDevices := [⟨true, [0x64], 512, 8192, true, true⟩]
    disk := fun _ l => if l = 0 then overlappingEntries else zero
    partitions := []
    mounts := fun i => ⟨false, 0x41 + UInt8.ofNat i.val, 0, [], none⟩
    faults := fun _ => none
    accesses := 0 }

/-- What the scan of the disk finds. -/
def overlappingPartitions : Storage.State := storageDiscoverPartitions overlappingDisk

/-- Sector 2 of the first partition is sector 0 of the second one. -/
theorem overlapping_partitions_alias :
    ¬ Refined (runOps ⟨booted overlappingPartitions, stored overlappingPartitions⟩
      (writeThrough (0, 2) fun _ => 1)) := by
  have haccess : accessOf overlappingPartitions (0, 2) =
      some (⟨true, [0x64], 512, 8192, true, true⟩, 0, 2050) := by decide
  have haccess' : accessOf overlappingPartitions (1, 0) =
      some (⟨true, [0x64], 512, 8192, true, true⟩, 0, 2050) := by decide
  have hsame := discover_sameDevices overlappingDisk
  have hdisk : overlappingPartitions.disk 0 2050 = zero := by
    rw [overlappingPartitions, hsame.disk]
    rfl
  refine not_refined_writeThrough (fun n => ?_) (by decide) haccess haccess' rfl ?_
  · rw [overlappingPartitions, hsame.faults]
    rfl
  · rw [hdisk]
    exact zero_ne_ones

end LainFS
