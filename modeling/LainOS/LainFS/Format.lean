import LainOS.LainFS.ReadBack

/-!
# Formatting

Formatting a partition zeroes the shared directory buffer but only gives it up when it belongs to
the partition that is formatted. Another partition is left as it was exactly when it did not have a
table with entries in the buffer (`format_keeps_other_iff`).
-/

namespace LainFS

open Storage WriteBack Directory

variable {super : CheckedSuper} {dirty : Bool} {st st' : State} {p q' : UInt32} {d : Directory}
  {part : Partition}

/-! ### Invalidation -/

variable {q : UInt32}

lemma invalidate_super : (invalidatePartitionCache st p).superCache = some (q, super) ↔
      st.superCache = some (q, super) ∧ q ≠ p := by
  simp only [invalidatePartitionCache]
  cases st.superCache with
  | none => simp
  | some c => grind

lemma invalidate_tag : (invalidatePartitionCache st p).directoryTag = some ⟨q, dirty⟩ ↔
      st.directoryTag = some ⟨q, dirty⟩ ∧ q ≠ p := by
  simp only [invalidatePartitionCache]
  cases st.directoryTag with
  | none => simp
  | some tag => grind

lemma invalidate_cache {i : Fin dataCacheSlots} {l : CachedBlock} :
    (invalidatePartitionCache st p).dataCache i = some l ↔
      st.dataCache i = some l ∧ l.key.1 ≠ p := by
  simp only [invalidatePartitionCache]
  cases st.dataCache i with
  | none => simp
  | some m => grind

/-! ### What formatting can do -/

lemma format_cases (st : State) (p : UInt32) :
    let r := formatPartitionIndex st p
    (r.1 ≠ 0 ∧ r.2 = st) ∨
    (∃ st₁, flushDirectoryCache st = (false, st₁) ∧ r = (-5, st₁)) ∨
    ∃ st₁, flushDirectoryCache st = (true, st₁) ∧
      ((∃ s, storageWritePartition st₁.storage p 0 1 (fun _ => sectorOfSuper formatSuper)
            = (false, s) ∧ r = (-5, { invalidatePartitionCache st₁ p with storage := s })) ∨
        ∃ s₁, storageWritePartition st₁.storage p 0 1 (fun _ => sectorOfSuper formatSuper)
            = (true, s₁) ∧
          ((∃ s, storageWritePartition s₁ p formatSuper.dirStartLba.toUInt64 formatSuper.dirBlocks
                (sectorsOfDirectory empty) = (false, s) ∧
              r = (-5, { invalidatePartitionCache st₁ p with
                storage := s, directory := empty })) ∨
            ∃ s, storageWritePartition s₁ p formatSuper.dirStartLba.toUInt64 formatSuper.dirBlocks
                (sectorsOfDirectory empty) = (true, s) ∧
              r = (0, invalidatePartitionCache { invalidatePartitionCache st₁ p with
                storage := storageDiscoverPartitions s, directory := empty } p))) := by
  intro r
  have hr : r = formatPartitionIndex st p := rfl
  rw [formatPartitionIndex] at hr
  rcases hp : storageGetPartition st.storage p with _ | part
  · rw [hp] at hr
    exact .inl (by rw [hr]; simp)
  rw [hp] at hr
  dsimp only at hr
  split_ifs at hr
  · exact .inl (by rw [hr]; simp)
  · exact .inl (by rw [hr]; simp)
  right
  rcases hf : flushDirectoryCache st with ⟨ok, st₁⟩
  rw [hf] at hr
  rcases ok with _ | _
  · exact .inl ⟨st₁, rfl, hr⟩
  refine .inr ⟨st₁, rfl, ?_⟩
  dsimp only at hr
  rw [show (invalidatePartitionCache st₁ p).storage = st₁.storage from rfl] at hr
  rcases hw : storageWritePartition st₁.storage p 0 1 fun _ => sectorOfSuper formatSuper with ⟨ok, s₁⟩
  rw [hw] at hr
  rcases ok with _ | _
  · exact .inl ⟨s₁, rfl, hr⟩
  refine .inr ⟨s₁, rfl, ?_⟩
  dsimp only at hr
  rcases hd : storageWritePartition s₁ p formatSuper.dirStartLba.toUInt64
      formatSuper.dirBlocks (sectorsOfDirectory empty) with ⟨ok, s⟩
  rw [hd] at hr
  cases ok with
  | false => exact .inl ⟨s, rfl, hr⟩
  | true => exact .inr ⟨s, rfl, hr⟩

/-! ### The others while one is formatted -/

/-- A successful flush leaves the buffer with its partition. -/
lemma flushDir_tag_iff {st₁ : State} (h : flushDirectoryCache st = (true, st₁)) :
    st₁.directoryTag = some ⟨p, dirty⟩ ↔
      dirty = false ∧ ∃ dirty', st.directoryTag = some ⟨p, dirty'⟩ := by
  rcases flushDir_cases st with
    ⟨h', hclean⟩ | ⟨q, k, htag, ⟨-, h'⟩ | ⟨super, ok, s, -, -, h'⟩⟩ <;> rw [h'] at h <;> cases h
  · refine ⟨fun ht => ?_, ?_⟩
    · cases dirty with
      | false => exact ⟨rfl, false, ht⟩
      | true => exact absurd ht (hclean p)
    · rintro ⟨rfl, dirty', ht⟩
      cases dirty' with
      | false => exact ht
      | true => exact absurd ht (hclean p)
  · rw [htag]
    constructor
    · intro ht
      cases ht
      exact ⟨rfl, true, rfl⟩
    · rintro ⟨rfl, dirty', ht⟩
      cases ht
      rfl

/-- What a successful format does, as far as another partition can tell. -/
lemma format_eq_zero (h : formatPartitionIndex st p = (0, st')) :
    ∃ st₁ s, flushDirectoryCache st = (true, st₁) ∧ SameTables st₁.storage s ∧
      (∀ q, p ≠ q → Isolated st₁.storage q → ∀ n, partSector s q n = partSector st₁.storage q n) ∧
      st' = invalidatePartitionCache { invalidatePartitionCache st₁ p with
        storage := storageDiscoverPartitions s, directory := empty } p := by
  rcases format_cases st p with
    ⟨h', -⟩ | ⟨st₁, -, h'⟩ | ⟨st₁, hf, ⟨s, -, h'⟩ | ⟨s₁, hw₁, ⟨s, -, h'⟩ | ⟨s, hw, h'⟩⟩⟩ <;> rw [h] at h'
  · exact absurd rfl h'
  · cases h'
  · cases h'
  · cases h'
  have ht₁ := write_sameTables hw₁
  refine ⟨st₁, s, hf, ht₁.trans (write_sameTables hw), fun q hpq hiso n => ?_, (Prod.mk.inj h').2⟩
  have hw₁' : storageWritePartition st₁.storage p (0 : UInt32).toUInt64 1 _ = (true, s₁) := hw₁
  exact (write_other (hiso.congr ht₁) hpq hw n).trans (write_other hiso hpq hw₁' n)

section

variable {st st' : State} {p q : UInt32}

/-- The other partition after a format that found the partitions where they were. -/
structure FormattedBeside (st st' : State) (q : UInt32) : Prop where
  readable : Readable st' q
  super : diskSuper st'.storage q = diskSuper st.storage q
  empty : st'.directory = empty
  tag : ∀ dirty, st'.directoryTag = some ⟨q, dirty⟩ ↔
    dirty = false ∧ ∃ dirty', st.directoryTag = some ⟨q, dirty'⟩
  clean : ∀ r, st'.directoryTag ≠ some ⟨r, true⟩
  sectors : st.directoryTag ≠ some ⟨q, true⟩ →
    (∀ n, partSector st'.storage q n = partSector st.storage q n) ∧
      ∀ lba, blockView st' q lba = blockView st q lba

lemma format_beside (hh : Healthy st) (hne : p ≠ q) (hformat : formatPartitionIndex st p = (0, st'))
    (hplaces : ∀ r, placeOf st'.storage r = placeOf st.storage r) : FormattedBeside st st' q := by
  obtain ⟨st₁, s, hflush, htables, hsectors, hst'⟩ := format_eq_zero hformat
  obtain ⟨ht₁, -, hsuper₁, hdata₁⟩ := flushDir_frame st
  have hk := flushDir_keeps (hh.cache q) (hh.isolated q)
  rw [hflush] at ht₁ hsuper₁ hdata₁ hk
  have hsec₁ := fun hno => flushDir_sectors (hh.isolated q) hno hflush
  have hblocks₁ := fun hno => (hh.cache q).blocks.congr hdata₁ (hsec₁ hno)
  have hdev := discover_sameDevices s
  have hstorage : st'.storage = storageDiscoverPartitions s := by
    rw [hst']
    rfl
  have hdevices : st'.storage.blockDevices = st.storage.blockDevices := by
    rw [hstorage, hdev.blockDevices, htables.blockDevices, ht₁.blockDevices]
  -- the sectors of `q` do not change after the flush
  have hsec : ∀ n, partSector st'.storage q n = partSector st₁.storage q n := by
    intro n
    rw [← hsectors q hne ((hh.isolated q).congr ht₁) n, hstorage]
    refine partSector_of_place ?_ (fun _ _ _ _ => by rw [hdev.disk]) n
    rw [← hstorage, hplaces, ← ht₁.placeOf, ← htables.placeOf]
  have hlines : ∀ i l, st'.dataCache i = some l ↔ st₁.dataCache i = some l ∧ l.key.1 ≠ p := by
    intro i l
    rw [hst', invalidate_cache, invalidate_cache, and_assoc, and_self]
  have htag : ∀ r dirty, st'.directoryTag = some ⟨r, dirty⟩ ↔
      st₁.directoryTag = some ⟨r, dirty⟩ ∧ r ≠ p := by
    intro r dirty
    rw [hst', invalidate_tag, invalidate_tag, and_assoc, and_self]
  have hclean : ∀ r, st'.directoryTag ≠ some ⟨r, true⟩ :=
    fun r hr => flushDir_clean hflush r ((htag r true).mp hr).1
  obtain ⟨hcache, hview⟩ : CacheAt st' q ∧ ∀ lba, blockView st' q lba = blockView st₁ q lba :=
    hk.cache.of_rescan
    (by rw [hplaces, ← ht₁.placeOf]) hsec
    (fun super hs => by
      rw [hst', invalidate_super, invalidate_super] at hs
      exact hk.cache.super super hs.1.1)
    (fun i l hl => by rw [hlines, hl, and_iff_left hne.symm])
    fun hd => absurd hd (hclean q)
  refine ⟨⟨?_, (hh.isolated q).of_places hdevices hplaces, hcache, fun r hr => absurd hr (hclean r),
    fun i l hl hdirty => ?_⟩, (diskSuper_congr (hsec 0)).trans hk.super, by rw [hst']; rfl,
    fun dirty => ?_, hclean, fun hno => ⟨fun n => (hsec n).trans (hsec₁ hno n), fun lba => ?_⟩⟩
  · intro n
    rw [hstorage, hdev.faults, htables.faults, ht₁.faults]
    exact hh.quiet n
  · rw [hlines, hdata₁] at hl
    obtain ⟨part, dev, hp, hget, hwrite, hle, hlt⟩ := hh.evictable i l hl.1 hdirty
    obtain ⟨part', hp', hdevice, hstart, hcount⟩ := partition_of_place (hplaces l.key.1) hp
    refine ⟨part', dev, hp', ?_, hwrite, by rwa [hstart, hcount], by rwa [hcount]⟩
    rw [hdevice, storageGetBlockDevice, hdevices]
    exact hget
  · rw [htag, flushDir_tag_iff hflush, and_iff_left hne.symm]
  · exact (hview lba).trans ((hblocks₁ hno).2 lba)

/-! ### What a reader notices -/

/-- A table without entries. -/
def Vacant (d : Directory) : Prop := ∀ i, (d i).used = 0

lemma vacant_empty : Vacant empty := fun _ => rfl

section

variable (h : Vacant d)
include h

lemma Vacant.validDirId (id : UInt32) : LainFS.validDirId d id = decide (id = rootDir) := by
  rw [LainFS.validDirId, h]
  split_ifs with hroot
  · exact (decide_eq_true hroot).symm
  · exact (decide_eq_false hroot).symm
  · exact (decide_eq_false hroot).symm

lemma Vacant.validateDirectory {super : Superblock} (hl : ¬ layoutIsBad super part.blockCount) :
    LainFS.validateDirectory (some part) super d = none := by
  refine validate_eq_none.mpr ⟨hl, fun i => .inl (h i), fun i j _ hi => ?_⟩
  rw [h i] at hi
  cases hi

lemma Vacant.listRows (parentId : UInt32) : LainFS.listRows d parentId = [] := by
  simp [LainFS.listRows, h _]

lemma Vacant.findFileInDir (parentId : UInt32) (name : List UInt8) :
    LainFS.findFileInDir d parentId name = none :=
  List.find?_eq_none.mpr fun i _ => by simp [h i]

/-- Two tables without entries look the same, whatever is in the blocks. -/
lemma Vacant.same {d' : Directory} (h' : Vacant d') (super : CheckedSuper)
    (block block' : UInt32 → Sector) :
    (∀ parentId, listOf (.ok (super, d')) parentId = listOf (.ok (super, d)) parentId) ∧
      ∀ parentId name bufferSize, loadOf (.ok (super, d')) block' parentId name bufferSize
        = loadOf (.ok (super, d)) block parentId name bufferSize := by
  constructor
  · intro parentId
    simp only [listOf, h.validDirId, h'.validDirId, h.listRows, h'.listRows]
  · intro parentId name bufferSize
    unfold loadOf
    simp only [h.validDirId, h'.validDirId, h.findFileInDir, h'.findFileInDir]

end

/-- An accepted table with an entry has an entry in the root. -/
lemma exists_in_root {super : Superblock} {blockCount : UInt64}
    (hd : DirectorySound super blockCount d) {i : Fin maxFiles} (hi : (d i).used ≠ 0) :
    ∃ j, (d j).used ≠ 0 ∧ entryParentId (d j) = rootDir := by
  have hdir : ∀ k, (d k).used = entryDir → (d k).used ≠ 0 := fun k hk => by rw [hk]; decide
  have hroot : ∀ id, Rooted d id → id = rootDir ∨
      ∃ j, (d j).used ≠ 0 ∧ entryParentId (d j) = rootDir := by
    intro id h
    induction h with
    | root => exact .inl rfl
    | @dir k hk _ ih =>
      rcases ih with h0 | hj
      · exact .inr ⟨k, hdir k hk, h0⟩
      · exact .inr hj
  have hs := (hd.entry i).resolve_left hi
  by_cases hp : entryParentId (d i) = rootDir
  · exact ⟨i, hi, hp⟩
  have hk := hs.parent.isDir hp
  have hid := entryId_index hp hs.parent.le
  rcases hroot _ (.dir hk (rooted_of_grounded hd (hd.grounded hk) hk)) with h0 | hj
  · exact absurd (hid.symm.trans h0) hp
  · exact hj

/-- What the partition holds looks the same from its new place. -/
lemma heldTable_congr (hplace : placeOf st'.storage q' = placeOf st.storage q)
    (hsuper : diskSuper st'.storage q' = diskSuper st.storage q)
    (htable : ∀ super, diskSuper st.storage q = some super →
      tableView st' q' super = tableView st q super) : heldTable st' q' = heldTable st q := by
  rw [heldTable, heldTable, hsuper]
  rcases hs : diskSuper st.storage q with _ | super
  · rfl
  dsimp only
  rw [htable super hs]
  cases hp : storageGetPartition st.storage q with
  | none => rw [partition_none_of_place hplace hp]
  | some part =>
    obtain ⟨part', hp', -, -, hcount⟩ := partition_of_place hplace hp
    rw [hp', LainFS.validateDirectory, LainFS.validateDirectory, hcount]

/-! ### Flushing a clean buffer -/

lemma flushDir_of_clean (h : ∀ r, st.directoryTag ≠ some ⟨r, true⟩) :
    flushDirectoryCache st = (true, st) := by
  rcases flushDir_cases st with ⟨h', -⟩ | ⟨r, -, htag, -⟩
  · exact h'
  · exact absurd htag (h r)

/-- With a clean buffer only blocks are written back. -/
lemma flush_of_clean (h : ∀ r, st.directoryTag ≠ some ⟨r, true⟩) :
    (lainfsFlushAll st).2 = (flushSlots (fun _ => true) (List.finRange dataCacheSlots) st).2 ∧
      ∀ drive, (lainfsFlush st drive).2 = st ∨ ∃ r, (lainfsFlush st drive).2
        = (flushSlots (fun l => l.key.1 == r) (List.finRange dataCacheSlots) st).2 := by
  have htag : ∀ which, (flushSlots which (List.finRange dataCacheSlots) st).2.directoryTag
      = st.directoryTag := fun which => (flushSlots_sameMeta which _ st).directoryTag
  constructor
  · have ht := htag fun _ => true
    rw [lainfsFlushAll]
    generalize flushSlots (fun _ => true) (List.finRange dataCacheSlots) st = r at ht
    obtain ⟨_ | _, st₁⟩ := r
    · rfl
    · dsimp only at ht ⊢
      rw [flushDir_of_clean (by rwa [ht])]
  intro drive
  rw [lainfsFlush]
  rcases mountForDrive st drive with _ | q
  · exact .inl rfl
  refine .inr ⟨q, ?_⟩
  have ht := htag fun l => l.key.1 == q
  dsimp only
  rw [flushPartitionCache, flushDataCachePartition]
  generalize flushSlots (fun l => l.key.1 == q) (List.finRange dataCacheSlots) st = r at ht
  obtain ⟨_ | _, st₁⟩ := r
  · rfl
  · dsimp only at ht ⊢
    simp only [flushDir_of_clean (show ∀ r, st₁.directoryTag ≠ some ⟨r, true⟩ by
      rwa [ht]), ite_self]
    cases st₁.directoryTag <;> rfl

/-- A flush after the format does not write the directory of the other partition. -/
lemma FormattedBeside.flush (h : FormattedBeside st st' q)
    (hs : diskSuper st.storage q = some super) :
    diskDirectory (lainfsFlushAll st').2.storage q super = diskDirectory st'.storage q super ∧
      ∀ drive, diskDirectory (lainfsFlush st' drive).2.storage q super
        = diskDirectory st'.storage q super := by
  obtain ⟨hall, hdrive⟩ := flush_of_clean h.clean
  have hslots : ∀ which, diskDirectory (flushSlots which (List.finRange dataCacheSlots)
      st').2.storage q super = diskDirectory st'.storage q super := fun which =>
    (BlockStep.diskDirectory h.readable.cache (flushSlots_step which _ h.readable.cache.blocks
      h.readable.isolated ∅ ∅) fun _ hmem => absurd hmem (Set.notMem_empty _)).2 super
      (h.super.trans hs)
  refine ⟨by rw [hall]; exact hslots _, fun drive => ?_⟩
  rcases hdrive drive with heq | ⟨r, heq⟩
  · rw [heq]
  · rw [heq]
    exact hslots _

/-- The directory buffer holds a table of the partition that has entries. -/
def TableInBuffer (st : State) (q : UInt32) : Prop :=
  ∃ dirty part super, st.directoryTag = some ⟨q, dirty⟩ ∧ Usable st.storage q part super ∧
    ¬ Vacant st.directory

/-- All that listing and loading tell about a partition. -/
lemma readers_congr {drive : UInt8} (h : Readable st q) (h' : Readable st' q')
    (hm : mountForDrive st drive = some q) (hm' : mountForDrive st' drive = some q')
    (hlist : ∀ parentId, listOf (heldTable st' q') parentId = listOf (heldTable st q) parentId)
    (hload : ∀ parentId name bufferSize,
      loadOf (heldTable st' q') (blockView st' q') parentId name bufferSize
        = loadOf (heldTable st q) (blockView st q) parentId name bufferSize) :
    (∀ parentId, (lainfsListDir st' drive parentId).1 = (lainfsListDir st drive parentId).1) ∧
      ∀ parentId name bufferSize, (lainfsLoadFileInDir st' drive parentId name bufferSize).1
        = (lainfsLoadFileInDir st drive parentId name bufferSize).1 := by
  constructor
  · intro parentId
    rw [listDir_eq h hm, listDir_eq h' hm', hlist]
  · intro parentId name bufferSize
    rw [loadFile_eq h hm, loadFile_eq h' hm', hload]

namespace FormattedBeside

variable {drive : UInt8} (h : FormattedBeside st st' q)
  (hplace : placeOf st'.storage q = placeOf st.storage q)
include h hplace

/-- A table that was in the buffer is empty. -/
lemma heldTable_of_tag (hu : Usable st.storage q part super)
    (htag : st.directoryTag = some ⟨q, dirty⟩) :
    heldTable st' q = .ok (super, Directory.empty) := by
  have htag' : st'.directoryTag = some ⟨q, false⟩ := (h.tag false).mpr ⟨rfl, dirty, htag⟩
  obtain ⟨part', hp', -, -, hcount⟩ := partition_of_place hplace hu.partition
  have hl : ¬ layoutIsBad super.1 part'.blockCount := by
    rw [hcount]
    exact hu.layout
  simp only [heldTable, h.super, hu.onDisk, hp', tableView_tagged super htag', h.empty,
    vacant_empty.validateDirectory hl]

variable (hh : Healthy st) (hm : mountForDrive st drive = some q)
  (hm' : mountForDrive st' drive = some q)
include hh hm hm'

lemma same (hno : ¬ TableInBuffer st q) :
    (∀ parentId, (lainfsListDir st' drive parentId).1 = (lainfsListDir st drive parentId).1) ∧
      ∀ parentId name bufferSize, (lainfsLoadFileInDir st' drive parentId name bufferSize).1
        = (lainfsLoadFileInDir st drive parentId name bufferSize).1 := by
  by_cases htag : ∃ dirty, st.directoryTag = some ⟨q, dirty⟩
  · obtain ⟨dirty, htag⟩ := htag
    by_cases hu : ∃ part super, Usable st.storage q part super
    · -- the table had no entries, so that nobody misses any
      obtain ⟨part, super, hu⟩ := hu
      have hvac : Vacant st.directory := by
        by_contra hv
        exact hno ⟨dirty, part, super, htag, hu, hv⟩
      have hheld : heldTable st q = .ok (super, st.directory) := by
        simp only [heldTable, hu.onDisk, hu.partition, tableView_tagged super htag,
          hvac.validateDirectory hu.layout]
      have hheld' := h.heldTable_of_tag hplace hu htag
      obtain ⟨hlist, hload⟩ := hvac.same vacant_empty super (blockView st q) (blockView st' q)
      refine readers_congr (hh.readable q) h.readable hm hm' ?_ ?_
      · rw [hheld, hheld']
        exact hlist
      · rw [hheld, hheld']
        exact hload
    · -- the partition is rejected before anyone looks at the table
      have hclean : st.directoryTag ≠ some ⟨q, true⟩ := fun hd => hu ((hh.cache q).dirty hd)
      obtain ⟨-, hblock⟩ := h.sectors hclean
      have hheld : heldTable st' q = heldTable st q := by
        rw [heldTable, heldTable, h.super]
        rcases hs : diskSuper st.storage q with _ | super
        · rfl
        obtain ⟨part, hp, -⟩ := exists_superSector hs
        have hbad : layoutIsBad super.1 part.blockCount := by
          by_contra hl
          exact hu ⟨part, super, hp, hs, hl⟩
        obtain ⟨part', hp', -, -, hcount⟩ := partition_of_place hplace hp
        dsimp only
        rw [hp, hp', validateDirectory, validateDirectory, hcount, if_pos hbad, if_pos hbad]
      refine readers_congr (hh.readable q) h.readable hm hm' (fun _ => by rw [hheld]) ?_
      intro parentId name bufferSize
      rw [hheld, funext hblock]
  · -- the table comes from the disk
    have hnot : ∀ dirty, st.directoryTag ≠ some ⟨q, dirty⟩ := fun dirty hd => htag ⟨dirty, hd⟩
    have hnot' : ∀ dirty, st'.directoryTag ≠ some ⟨q, dirty⟩ :=
      fun dirty hd => htag ((h.tag dirty).mp hd).2
    obtain ⟨hsec, hblock⟩ := h.sectors (hnot true)
    have hheld : heldTable st' q = heldTable st q := by
      refine heldTable_congr hplace h.super fun super _ => ?_
      rw [tableView_untagged super hnot, tableView_untagged super hnot']
      exact diskDir_congr fun k _ => hsec _
    refine readers_congr (hh.readable q) h.readable hm hm' (fun _ => by rw [hheld]) ?_
    intro parentId name bufferSize
    rw [hheld, funext hblock]

/-- A table with entries that was in the buffer reads as empty afterwards. -/
lemma differs (hin : TableInBuffer st q) : (lainfsListDir st' drive rootDir).1 = (0, []) ∧
      (lainfsListDir st drive rootDir).1 ≠ (0, []) := by
  obtain ⟨dirty, part, super, htag, hu, hvac⟩ := hin
  rw [listDir_eq (hh.readable q) hm, listDir_eq h.readable hm']
  constructor
  · rw [h.heldTable_of_tag hplace hu htag, listOf, vacant_empty.listRows]
    exact if_neg (by decide)
  simp only [heldTable, hu.onDisk, hu.partition, tableView_tagged super htag]
  cases hv : validateDirectory (some part) super.1 st.directory with
  | some _ => simp [listOf]
  | none =>
    obtain ⟨i, hi⟩ := not_forall.mp hvac
    obtain ⟨j, hj, hroot⟩ := exists_in_root (validate_eq_none.mp hv) hi
    have hrow : listRows st.directory rootDir ≠ [] := by
      rw [listRows, ne_eq, List.map_eq_nil_iff, List.filter_eq_nil_iff]
      intro hall
      exact hall j (List.mem_finRange j) (by simp [hj, hroot])
    intro heq
    exact hrow (Prod.mk.inj heq).2

end FormattedBeside

end

lemma placeOf_of_partitions {s s' : Storage.State} (h : s'.partitions = s.partitions) (r : UInt32) :
    placeOf s' r = placeOf s r := by
  rw [placeOf, placeOf, storageGetPartition, storageGetPartition, h]

/-! ### Main result -/

variable {st st' : State} {p q : UInt32}

/-- Formatting a partition leaves another one as it was for every reader, and a flush afterwards
does not write its directory, exactly when it has no table with entries in the buffer. -/
theorem format_keeps_other_iff {drive : UInt8} (hh : Healthy st) (hne : p ≠ q)
    (hm : mountForDrive st drive = some q) (hformat : formatPartitionIndex st p = (0, st'))
    (hplaces : ∀ r, placeOf st'.storage r = placeOf st.storage r)
    (hm' : mountForDrive st' drive = some q) :
    ((∀ parentId, (lainfsListDir st' drive parentId).1 = (lainfsListDir st drive parentId).1) ∧
      (∀ parentId name bufferSize, (lainfsLoadFileInDir st' drive parentId name bufferSize).1
        = (lainfsLoadFileInDir st drive parentId name bufferSize).1) ∧
      ∀ super, diskSuper st.storage q = some super →
        diskDirectory (lainfsFlushAll st').2.storage q super = diskDirectory st'.storage q super ∧
        ∀ drive', diskDirectory (lainfsFlush st' drive').2.storage q super
          = diskDirectory st'.storage q super) ↔
      ¬ TableInBuffer st q := by
  have hf := format_beside hh hne hformat hplaces
  constructor
  · rintro ⟨hlist, -, -⟩ hin
    obtain ⟨hafter, hbefore⟩ := hf.differs (hplaces q) hh hm hm' hin
    exact hbefore ((hlist rootDir).symm.trans hafter)
  · intro hno
    obtain ⟨hlist, hload⟩ := hf.same (hplaces q) hh hm hm' hno
    exact ⟨hlist, hload, fun super hs => hf.flush hs⟩

/-- The volumes after a start of the machine, with a file `a` on the disk of the first one. -/
def fileOnFirst : State :=
  { storage :=
      { twoVolumes with
        disk := fun device l =>
          if 2049 ≤ l ∧ l < 2305 then sectorsOfDirectory (single smallFile) (l - 2049)
          else twoVolumes.disk device l }
    directory := empty
    superCache := none
    directoryTag := none
    dataCache := fun _ => none
    cacheClock := 0 }

lemma fileOnFirst_table :
    diskDirectory fileOnFirst.storage 0 checkedFormatSuper = single smallFile := by
  rw [diskDirectory, ← ofSectors_sectors (single smallFile)]
  refine ofSectors_congr fun k hk => ?_
  rw [dirBlocks] at hk
  change partSector fileOnFirst.storage 0 (1 + k) = _
  rw [partSector_of_lt
    (show storageGetPartition fileOnFirst.storage 0 = some (volumePartition 300) from rfl)
    (show 1 + k < 300 by omega)]
  change (if 2049 ≤ 2048 + (1 + k) ∧ 2048 + (1 + k) < 2305 then
    sectorsOfDirectory (single smallFile) (2048 + (1 + k) - 2049) else _) = _
  rw [if_pos (by omega), show 2048 + (1 + k) - 2049 = k by omega]

lemma fileOnFirst_healthy : Healthy fileOnFirst :=
  have htag (r : UInt32) (h : (none : Option DirectoryTag) = some ⟨r, true⟩) : r = 0 := by cases h
  (twoWith_healthy empty htag).congr ⟨rfl, rfl, rfl, rfl⟩ (cacheAt_of_empty rfl rfl fun _ => rfl)

/-- Formatting D beside the file on C, while the buffer belongs to nobody. -/
theorem format_beside_unbuffered :
    diskDirectory fileOnFirst.storage 0 checkedFormatSuper = single smallFile ∧
      ∀ parentId, (lainfsListDir (formatPartitionIndex fileOnFirst 1).2 0x43 parentId).1
        = (lainfsListDir fileOnFirst 0x43 parentId).1 := by
  have hformat : formatPartitionIndex fileOnFirst 1 = (0, (formatPartitionIndex fileOnFirst 1).2) :=
    Prod.ext (by decide) rfl
  have hparts : (formatPartitionIndex fileOnFirst 1).2.storage.partitions = twoVolumes.partitions := by
    decide
  refine ⟨fileOnFirst_table, ((format_keeps_other_iff (q := 0) fileOnFirst_healthy
    (by decide) rfl hformat (placeOf_of_partitions hparts) (by decide)).mpr ?_).1⟩
  rintro ⟨dirty, part, super, htag, -⟩
  cases htag

/-- With a directory `a` on C that is not written to the disk yet, formatting D makes C look
empty. -/
theorem format_beside_buffered_loses_table :
    let st := twoVolumesWith (single (newDirEntry rootDir nameA.bytes)) (some ⟨0, true⟩)
    Healthy st ∧ (formatPartitionIndex st 1).1 = 0 ∧
      (formatPartitionIndex st 1).2.storage.partitions = st.storage.partitions ∧
      (lainfsListDir st 0x43 rootDir).1 ≠ (0, []) ∧
      (lainfsListDir (formatPartitionIndex st 1).2 0x43 rootDir).1 = (0, []) := by
  intro st
  have hh : Healthy st := twoWith_healthy _ fun r hr => by
    cases hr
    rfl
  have hcode : (formatPartitionIndex st 1).1 = 0 := by decide
  have hparts : (formatPartitionIndex st 1).2.storage.partitions = st.storage.partitions := by decide
  have hplaces := placeOf_of_partitions hparts
  have hf : FormattedBeside st (formatPartitionIndex st 1).2 0 :=
    format_beside hh (by decide) (Prod.ext hcode rfl) hplaces
  obtain ⟨hafter, hbefore⟩ := hf.differs (hplaces 0) hh
    (show mountForDrive st 0x43 = some 0 from rfl) (by decide)
    ⟨true, _, _, rfl, two_usable, fun hv => absurd (hv 0) (by decide)⟩
  exact ⟨hh, hcode, hparts, hbefore, hafter⟩

end LainFS
