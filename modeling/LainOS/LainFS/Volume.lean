import LainOS.LainFS.Coherence

/-!
# What a reader sees

Without faults the results of loading a file and of listing a directory are functions of what the
partition holds: its superblock, its table and its blocks. Which caches hold what does not matter.
-/

namespace LainFS

open Storage WriteBack

variable {x : Extent} {b : ℕ} {blockCount : UInt64} {super : CheckedSuper} {drive : UInt8}

/-! ### The sectors of a file -/

variable {xs : List Extent} {lba p : UInt32}

lemma mem_fileLbas : lba ∈ fileLbas xs ↔
      ∃ x ∈ xs, ∃ b < x.blocks.toNat, lba = x.startLba + UInt32.ofNat b := by
  simp only [fileLbas, List.mem_flatMap, List.mem_map, List.mem_range]
  constructor
  · rintro ⟨x, hx, b, hb, rfl⟩
    exact ⟨x, hx, b, hb, rfl⟩
  · rintro ⟨x, hx, b, hb, rfl⟩
    exact ⟨x, hx, b, hb, rfl⟩

lemma toNat_fileLba (hb : b < x.blocks.toNat) (hx : x.startLba.toNat + x.blocks.toNat ≤ 2 ^ 32) :
    (x.startLba + UInt32.ofNat b).toNat = x.startLba.toNat + b := by
  rw [UInt32.toNat_add, toNat_ofNat_of_lt (by omega), Nat.mod_eq_of_lt (by omega)]

/-- Sector numbers that wrap around are still small. -/
lemma fileLba_lt {n : ℕ} (hb : b < x.blocks.toNat) (hx : x.startLba.toNat + x.blocks.toNat ≤ n)
    : (x.startLba + UInt32.ofNat b).toNat < n := by
  have hlt := x.blocks.toNat_lt
  rw [UInt32.toNat_add, toNat_ofNat_of_lt (by omega)]
  omega

variable {super : Superblock}

lemma fileLbas_lt (h : ExtentsSound super blockCount xs) (hlba : lba ∈ fileLbas xs) :
    lba.toNat < blockCount.toNat := by
  obtain ⟨x, hx, b, hb, rfl⟩ := mem_fileLbas.mp hlba
  exact fileLba_lt hb (h.inData x hx).2

lemma fileLbas_sectors (hsmall : ∀ x ∈ xs, x.startLba.toNat + x.blocks.toNat ≤ 2 ^ 32)
    (hlba : lba ∈ fileLbas xs) : ∃ x ∈ xs, lba.toNat ∈ x.sectors := by
  obtain ⟨x, hx, b, hb, rfl⟩ := mem_fileLbas.mp hlba
  refine ⟨x, hx, ?_⟩
  rw [toNat_fileLba hb (hsmall x hx), Extent.sectors, Set.mem_Ico]
  omega

variable {part : Partition}

lemma fileLbas_inData
    (hbc : part.blockCount.toNat < 2 ^ 32) (h : ExtentsSound super part.blockCount xs)
    (hlba : lba ∈ fileLbas xs) : InData part super lba := by
  have hsmall : ∀ x ∈ xs, x.startLba.toNat + x.blocks.toNat ≤ 2 ^ 32 :=
    fun x hx => (h.inData x hx).2.trans hbc.le
  obtain ⟨x, hx, hmem⟩ := fileLbas_sectors hsmall hlba
  rw [Extent.sectors, Set.mem_Ico] at hmem
  have := h.inData x hx
  exact ⟨by omega, by omega⟩

lemma length_fileLbas (xs : List Extent) : (fileLbas xs).length = blockSum xs := by
  induction xs with
  | nil => rfl
  | cons x xs ih =>
    rw [fileLbas, List.flatMap_cons, List.length_append, List.length_map, List.length_range,
      blockSum_cons, ← ih, fileLbas]

lemma fileLbas_nodup (hsmall : ∀ x ∈ xs, x.startLba.toNat + x.blocks.toNat ≤ 2 ^ 32)
    (hapart : xs.Pairwise fun x y => Disjoint x.sectors y.sectors) : (fileLbas xs).Nodup := by
  induction xs with
  | nil => exact List.nodup_nil
  | cons x xs ih =>
    rw [List.pairwise_cons] at hapart
    have hx := hsmall x List.mem_cons_self
    have hrest : ∀ y ∈ xs, y.startLba.toNat + y.blocks.toNat ≤ 2 ^ 32 :=
      fun y hy => hsmall y (List.mem_cons_of_mem _ hy)
    refine .append ?_ (ih hrest hapart.2) fun lba hl hr => ?_
    · refine .map_on (fun a ha b hb heq => ?_) List.nodup_range
      have := congrArg UInt32.toNat heq
      rw [List.mem_range] at ha hb
      rw [toNat_fileLba ha hx, toNat_fileLba hb hx] at this
      omega
    · obtain ⟨b, hb, rfl⟩ := List.mem_map.mp hl
      obtain ⟨y, hy, hmem⟩ := fileLbas_sectors hrest hr
      refine Set.disjoint_left.mp (hapart.1 y hy) ?_ hmem
      rw [List.mem_range] at hb
      rw [toNat_fileLba hb hx, Extent.sectors, Set.mem_Ico]
      omega

/-- Different files have different sectors. -/
lemma fileLbas_disjoint {ys : List Extent}
    (hxs : ∀ x ∈ xs, x.startLba.toNat + x.blocks.toNat ≤ 2 ^ 32)
    (hys : ∀ y ∈ ys, y.startLba.toNat + y.blocks.toNat ≤ 2 ^ 32)
    (hapart : ∀ x ∈ xs, ∀ y ∈ ys, Disjoint x.sectors y.sectors)
    (hlba : lba ∈ fileLbas xs) : lba ∉ fileLbas ys := by
  intro hlba'
  obtain ⟨x, hx, hmem⟩ := fileLbas_sectors hxs hlba
  obtain ⟨y, hy, hmem'⟩ := fileLbas_sectors hys hlba'
  exact Set.disjoint_left.mp (hapart x hx y hy) hmem hmem'

/-! ### Opening without faults -/

/-- The unsaved table, if there is one, can be saved. -/
def Savable (st : State) : Prop :=
  ∀ q, st.directoryTag = some ⟨q, true⟩ → ∃ part super dev, Usable st.storage q part super ∧
    (∀ s, st.superCache = some (q, s) → s = super) ∧
    storageGetBlockDevice st.storage part.deviceIndex = some dev ∧ dev.hasWrite = true ∧
    part.startLba.toNat + part.blockCount.toNat ≤ dev.blockCount.toNat

lemma not_superIsValid_zero : ¬ superIsValid (superOfSector Sector.zero) := by decide

/-- A superblock on the disk can be read. -/
lemma exists_superSector {s : Storage.State} {super : CheckedSuper}
    (h : diskSuper s p = some super) :
    ∃ part, storageGetPartition s p = some part ∧ 0 < part.blockCount.toNat := by
  rw [diskSuper] at h
  split_ifs at h with hv
  rcases hp : storageGetPartition s p with _ | part
  · rw [partSector, hp] at hv
    exact absurd hv not_superIsValid_zero
  refine ⟨part, rfl, Nat.pos_of_ne_zero fun h0 => not_superIsValid_zero ?_⟩
  rw [partSector, hp] at hv
  dsimp only at hv
  rwa [if_neg (by omega)] at hv

variable {st : State}

section

variable (hquiet : Quiet st.storage)
include hquiet

lemma rawSuper_ok
    (hfits : ∀ part, storageGetPartition st.storage p = some part → Fits st.storage part) :
    (rawReadSuper st p).1 = diskSuper st.storage p := by
  cases hd : diskSuper st.storage p with
  | none =>
    cases hr : (rawReadSuper st p).1 with
    | none => rfl
    | some super =>
      rw [rawSuper_eq_some hfits hr] at hd
      cases hd
  | some super =>
    obtain ⟨part, hp, hpos⟩ := exists_superSector hd
    have hrange : (0 : UInt32).toNat + (1 : UInt32).toNat ≤ part.blockCount.toNat := hpos
    obtain ⟨f, s, hr⟩ := read_isSome hp (hfits part hp) (hquiet _) hrange
    obtain ⟨-, -, -, hread⟩ := read_eq_some hfits hr
    have hf : f 0 = partSector st.storage p 0 := hread 0 (by decide)
    replace hr : storageReadPartition st.storage p 0 1 = (some f, s) := hr
    rw [rawReadSuper, hr]
    rw [diskSuper] at hd
    simp only [hf]
    split_ifs at hd ⊢
    exact hd

lemma readSuper_ok (hiso : Isolated st.storage p) (hc : CacheAt st p) :
    (readSuper st p).1 = diskSuper st.storage p := by
  rcases readSuper_cases st p with ⟨x, hs, hr⟩ | ⟨n, -, hr⟩
  · rw [hr]
    exact (hc.super x hs).symm
  · rw [hr]
    exact rawSuper_ok hquiet (hiso.fits p)

lemma flushDir_ok
    (hfits : ∀ q part, storageGetPartition st.storage q = some part → Fits st.storage part)
    (hsave : Savable st) : (flushDirectoryCache st).1 = true := by
  rcases flushDir_cases st with ⟨hf, -⟩ | ⟨q, n, htag, hcase⟩
  · rw [hf]
  obtain ⟨part, super, dev, hu, hcached, hdev, hwrite, hle⟩ := hsave q htag
  have hfound : (superForFlush st q).1 = some super := by
    rw [superForFlush]
    split
    · rename_i q' x hs
      split_ifs with hq
      · subst hq
        rw [hcached x hs]
      · rw [rawSuper_ok hquiet (hfits q), hu.onDisk]
    · rw [rawSuper_ok hquiet (hfits q), hu.onDisk]
  rcases hcase with ⟨hnone, -⟩ | ⟨super', ok, s, hfound', hw, hf⟩
  · rw [hfound] at hnone
    cases hnone
  rw [hfound] at hfound'
  cases hfound'
  have hblocks : super.1.dirBlocks = 256 := super.2.2.2.2.2.1
  have hrange : super.1.dirStartLba.toNat + super.1.dirBlocks.toNat ≤ part.blockCount.toNat := by
    have := hu.bounds
    rw [hblocks, show (256 : UInt32).toNat = 256 from rfl]
    omega
  obtain ⟨s', hw'⟩ := write_isTrue (s := (st.setAccesses n).storage) hu.partition
    hdev hwrite hle (hquiet _) hrange (sectorsOfDirectory st.directory)
  rw [hw] at hw'
  rw [hf, (Prod.mk.inj hw').1]

lemma readDir_ok {super : CheckedSuper} (hp : storageGetPartition st.storage p = some part)
    (hfit : Fits st.storage part) :
    (readDirectory st p super).1 = true ∨ layoutIsBad super.1 part.blockCount := by
  have hblocks : super.1.dirBlocks = 256 := super.2.2.2.2.2.1
  by_cases hrange : super.1.dirStartLba.toNat + 256 ≤ part.blockCount.toNat
  · have hrange' : super.1.dirStartLba.toNat + super.1.dirBlocks.toNat ≤ part.blockCount.toNat := by
      rw [hblocks]
      exact hrange
    obtain ⟨f, s, hr⟩ := read_isSome hp hfit (hquiet _) hrange'
    left
    rw [readDirectory, hr]
  · refine .inr (by_contra fun hl => hrange ?_)
    have := bounds_of_layout hl
    omega

end

/-- Saving the table of another partition first cannot fail. -/
lemma loadRaw_ok (super : CheckedSuper)
    (hquiet : Quiet st.storage) (hp : storageGetPartition st.storage p = some part)
    (hfits : ∀ q part, storageGetPartition st.storage q = some part → Fits st.storage part)
    (hsave : Savable st) :
    (loadDirectoryUnchecked st p super).1 = true ∨ layoutIsBad super.1 part.blockCount := by
  rcases loadRaw_cases st p super with ⟨-, h⟩ | ⟨-, ok, st₁, hf, h⟩ <;> rw [h]
  · exact .inl rfl
  have hok := flushDir_ok hquiet hfits hsave
  obtain ⟨htables, -⟩ := flushDir_frame st
  rw [hf] at hok htables
  obtain rfl : ok = true := hok
  obtain ⟨dev, hdev, hrest⟩ := hfits p part hp
  exact readDir_ok (hquiet.congr htables) ((htables.getPartition p).trans hp)
    ⟨dev, (htables.getBlockDevice _).trans hdev, hrest⟩

/-- Saving the table of another partition, or none. -/
lemma flushDir_sectors {ok : Bool} {st₁ : State} (hiso : Isolated st.storage p)
    (hno : st.directoryTag ≠ some ⟨p, true⟩) (h : flushDirectoryCache st = (ok, st₁)) (n : ℕ) :
    partSector st₁.storage p n = partSector st.storage p n := by
  rcases flushDir_cases st with
    ⟨hf, -⟩ | ⟨q, m, htag, ⟨-, hf⟩ | ⟨super, ok, s, -, hw, hf⟩⟩ <;> rw [hf] at h <;> cases h
  · rfl
  · rfl
  · have hne : q ≠ p := by
      rintro rfl
      exact hno htag
    exact write_other (hiso.congr (SameMeta.setAccesses st m).tables) hne hw n

/-- Loading the own directory changes neither the sectors of the partition nor the block cache. -/
lemma loadRaw_sectors (st : State) (hiso : Isolated st.storage p) (super : CheckedSuper) (n : ℕ) :
    partSector (loadDirectoryUnchecked st p super).2.storage p n = partSector st.storage p n := by
  rcases loadRaw_cases st p super with ⟨-, h⟩ | ⟨hnot, ok, st₁, hf, h⟩ <;> rw [h]
  have hflush := flushDir_sectors hiso (hnot true) hf n
  rcases ok with _ | _
  · exact hflush
  refine .trans ?_ hflush
  rw [if_pos rfl, readDirectory]
  rcases hr : storageReadPartition st₁.storage p super.1.dirStartLba.toUInt64 super.1.dirBlocks with ⟨r, s⟩
  obtain ⟨m, rfl⟩ := read_state hr
  cases r <;> rfl

lemma Savable.readSuper (h : Savable st)
    (hiso : Isolated st.storage p) : Savable (readSuper st p).2 := by
  intro q hq
  rcases readSuper_cases st p with ⟨x, -, hr⟩ | ⟨n, -, hr⟩
  · rw [hr] at hq ⊢
    exact h q hq
  rw [hr] at hq ⊢
  obtain ⟨part, super, dev, hu, -, hdev⟩ := h q hq
  refine ⟨part, super, dev, hu.congr (SameMeta.setAccesses st n).tables rfl, fun s hs => ?_, hdev⟩
  obtain ⟨x, hx, heq⟩ := Option.map_eq_some_iff.mp hs
  cases heq
  have := (rawSuper_eq_some (hiso.fits p) hx).symm.trans hu.onDisk
  cases this
  rfl

/-! ### The table a call finds -/

/-- The superblock and the table of a partition, if they are accepted. -/
def heldTable (st : State) (p : UInt32) : Except OpenError (CheckedSuper × Directory) :=
  match diskSuper st.storage p with
  | none => .error .badSuper
  | some super =>
    match validateDirectory (storageGetPartition st.storage p) super.1 (tableView st p super) with
    | none => .ok (super, tableView st p super)
    | some _ => .error .badDirectory

lemma Usable.heldTable_eq {st : State} {p : UInt32} {part : Partition} {super : CheckedSuper}
    (hu : Usable st.storage p part super)
    (hv : validateDirectory (some part) super.1 (tableView st p super) = none) :
    heldTable st p = .ok (super, tableView st p super) := by
  simp only [heldTable, hu.onDisk, hu.partition, hv]

/-- A state in which a reader of the partition meets no obstacle. -/
structure Readable (st : State) (p : UInt32) : Prop where
  quiet : Quiet st.storage
  isolated : Isolated st.storage p
  cache : CacheAt st p
  savable : Savable st
  evictable : Evictable st

/-- Opening a partition moves none of its blocks. -/
lemma openRaw_same (hiso : Isolated st.storage p) :
    (openDirectoryUnchecked st p).2.dataCache = st.dataCache ∧
      SameTables st.storage (openDirectoryUnchecked st p).2.storage ∧
      ∀ n, partSector (openDirectoryUnchecked st p).2.storage p n = partSector st.storage p n := by
  rcases openRaw_cases st p with ⟨st₁, hr, h⟩ | ⟨super, st₁, ok, st₂, hr, hl, h⟩ <;>
    rw [h] <;> obtain ⟨n, c, rfl⟩ := readSuper_state hr
  · exact ⟨rfl, ⟨rfl, rfl, rfl, rfl⟩, fun _ => rfl⟩
  have hs : SameTables st.storage (st.setAccesses n).storage := (SameMeta.setAccesses st n).tables
  obtain ⟨htables, -, hdata⟩ := loadRaw_frame { st.setAccesses n with superCache := c } p super
  have hsec := loadRaw_sectors (p := p) { st.setAccesses n with superCache := c }
    (hiso.congr hs) super
  rw [hl] at htables hdata hsec
  exact ⟨hdata, hs.trans htables, hsec⟩

lemma BlocksAt.congr {st' : State} (h : BlocksAt st p) (hdata : st'.dataCache = st.dataCache)
    (hsec : ∀ n, partSector st'.storage p n = partSector st.storage p n) :
    BlocksAt st' p ∧ ∀ lba, blockView st' p lba = blockView st p lba := by
  obtain ⟨hcoh, hview⟩ := CoherentOn.store_outside h (sectorAt st'.storage) fun k hk => by
    obtain ⟨q, lba⟩ := k
    obtain rfl : q = p := hk
    exact hsec lba.toNat
  rw [BlocksAt, hdata]
  refine ⟨hcoh, fun lba => ?_⟩
  rw [blockView, hdata]
  exact hview (p, lba) rfl

lemma Readable.openDirectoryUnchecked (h : Readable st p) : (diskSuper st.storage p = none ∧
      ∃ st', openDirectoryUnchecked st p = (.error .badSuper, st')) ∨
    ∃ super part, diskSuper st.storage p = some super ∧
      storageGetPartition st.storage p = some part ∧
      ((layoutIsBad super.1 part.blockCount ∧
          ∃ st', openDirectoryUnchecked st p = (.error .badDirectory, st')) ∨
        ∃ st', openDirectoryUnchecked st p = (.ok super, st')) := by
  have hsuper := readSuper_ok h.quiet h.isolated h.cache
  have hsave := h.savable.readSuper h.isolated
  rcases openRaw_cases st p with ⟨st₁, hr, ho⟩ | ⟨super, st₁, ok, st₂, hr, hl, ho⟩ <;>
    rw [hr] at hsuper hsave
  · exact .inl ⟨hsuper.symm, _, ho⟩
  have hs := readSuper_sameTables hr
  obtain ⟨part, hp, -⟩ := exists_superSector hsuper.symm
  have hok := loadRaw_ok super (h.quiet.congr hs)
    ((hs.getPartition p).trans hp) (h.isolated.congr hs).fits hsave
  rw [hl] at hok
  refine .inr ⟨super, part, hsuper.symm, hp, ?_⟩
  cases ok with
  | false => exact .inl ⟨hok.resolve_left Bool.false_ne_true, _, ho⟩
  | true => exact .inr ⟨_, ho⟩

/-- What a call finds when it opens the partition, and what it does not disturb. -/
lemma Readable.openDirectory (h : Readable st p) :
    (∃ e st', heldTable st p = .error e ∧ openDirectory st p = (.error e, st')) ∨
    ∃ super st', heldTable st p = .ok (super, st'.directory) ∧
      openDirectory st p = (.ok super, st') ∧ BlocksAt st' p ∧
      (∀ lba, blockView st' p lba = blockView st p lba) ∧ Evictable st' ∧
      SameTables st.storage st'.storage := by
  obtain ⟨hdata, htables, hsec⟩ := openRaw_same h.isolated
  have hdir := (openRaw_keeps h.cache h.isolated p).2 rfl
  rw [heldTable, open_eq]
  rcases h.openDirectoryUnchecked with ⟨hd, st₁, ho⟩ | ⟨super, part, hd, hp, ⟨hl, st₁, ho⟩ | ⟨st₁, ho⟩⟩
  · rw [hd, ho]
    exact .inl ⟨_, _, rfl, rfl⟩
  · -- the validator rejects the layout, too
    rw [hd, hp, ho]
    dsimp only
    rw [validateDirectory, if_pos hl]
    exact .inl ⟨_, _, rfl, rfl⟩
  rw [ho] at hdata htables hsec hdir
  obtain ⟨-, hbuffer⟩ := hdir super rfl
  rw [hd, ho]
  dsimp only at hbuffer ⊢
  rw [htables.getPartition, ← hbuffer]
  cases validateDirectory (storageGetPartition st.storage p) super.1 st₁.directory with
  | some _ => exact .inl ⟨_, _, rfl, rfl⟩
  | none =>
    obtain ⟨hblocks, hview⟩ := h.cache.blocks.congr hdata hsec
    refine .inr ⟨super, st₁, rfl, rfl, hblocks, hview, fun i l hl hdirty => ?_, htables⟩
    rw [show st₁.dataCache = st.dataCache from hdata] at hl
    exact (h.evictable i l hl hdirty).congr htables

/-! ### Loading and listing -/

/-- The result of loading a file, from the table and the blocks. -/
def loadOf (held : Except OpenError (CheckedSuper × Directory)) (block : UInt32 → Sector)
    (parentId : UInt32) (name : List UInt8) (bufferSize : UInt32) : LoadResult :=
  if validName name = false ∨ bufferSize = 0 then ⟨-2, 0, []⟩
  else
    match held with
    | .error .badSuper => ⟨-3, 0, []⟩
    | .error .badDirectory => ⟨-4, 0, []⟩
    | .ok (_, d) =>
      if validDirId d parentId = false then ⟨-7, 0, []⟩
      else
        match findFileInDir d parentId name with
        | none => ⟨-5, 0, []⟩
        | some i =>
          if (d i).byteSize > fileCapacity ∨ (d i).byteSize > bufferSize then ⟨-6, 0, []⟩
          else
            match entryExtents (d i) with
            | none => ⟨-7, 0, []⟩
            | some xs => ⟨0, (d i).byteSize, bytesOf (d i).byteSize block 0 (fileLbas xs)⟩

/-- The result of listing a directory, from the table. -/
def listOf (held : Except OpenError (CheckedSuper × Directory)) (parentId : UInt32) :
    ℤ × List ListRow :=
  match held with
  | .error .badSuper => (-2, [])
  | .error .badDirectory => (-3, [])
  | .ok (_, d) => if validDirId d parentId = false then (-5, []) else (0, listRows d parentId)

theorem listDir_eq (h : Readable st p) (hmount : mountForDrive st drive = some p)
    (parentId : UInt32) :
    (lainfsListDir st drive parentId).1 = listOf (heldTable st p) parentId := by
  rw [lainfsListDir, hmount]
  dsimp only
  rcases h.openDirectory with ⟨e, st', hheld, ho⟩ | ⟨super, st', hheld, ho, -⟩
  · rw [ho, hheld]
    cases e <;> rfl
  · rw [ho, hheld, listOf]
    dsimp only
    split_ifs <;> rfl

/-- The file found in an accepted table has sound extents. -/
lemma findFileInDir_sound {d : Directory} (hd : DirectorySound super blockCount d)
    {parentId : UInt32} {name : List UInt8} {i : Fin maxFiles}
    (h : findFileInDir d parentId name = some i) :
    (d i).used = entryFile ∧ ∃ xs, entryExtents (d i) = some xs ∧
      ExtentsSound super blockCount xs := by
  have hfound := List.find?_some h
  simp only [Bool.and_eq_true, bne_iff_ne, beq_iff_eq] at hfound
  obtain ⟨⟨⟨hused, hnd⟩, -⟩, -⟩ := hfound
  have hs := (hd.entry i).resolve_left hused
  have hfile := hs.type.resolve_right hnd
  exact ⟨hfile, (hs.file hfile).2⟩

theorem loadFile_eq (h : Readable st p) (hmount : mountForDrive st drive = some p)
    (parentId : UInt32) (name : CString) (bufferSize : UInt32) :
    (lainfsLoadFileInDir st drive parentId name bufferSize).1 =
      loadOf (heldTable st p) (blockView st p) parentId name.bytes bufferSize := by
  rw [lainfsLoadFileInDir, hmount]
  unfold loadOf
  dsimp only
  split_ifs with harg
  · rfl
  rcases h.openDirectory with
    ⟨e, st', hheld, ho⟩ | ⟨super, st', hheld, ho, hblocks, hview, hevict, htables⟩
  · rw [ho, hheld]
    cases e <;> rfl
  rw [ho, hheld]
  dsimp only
  split_ifs with hdir
  · rfl
  rcases hfind : findFileInDir st'.directory parentId name.bytes with _ | i
  · rfl
  dsimp only
  split_ifs with hsize
  · rfl
  rcases hx : entryExtents (st'.directory i) with _ | xs
  · rfl
  dsimp only
  have hiso := h.isolated.congr htables
  obtain ⟨-, -, hvalid⟩ := open_opened ho
  have hread : ∀ lba ∈ fileLbas xs, CanRead st'.storage p lba := by
    obtain ⟨part, hp, hs⟩ := sound_of_accepted hvalid
    obtain ⟨-, ys, hys, hin⟩ := findFileInDir_sound hs hfind
    rw [hx] at hys
    cases hys
    exact fun lba hlba => ⟨part, hp, hiso.fits p part hp, fileLbas_lt hin hlba⟩
  have hok : (readBlocks p (st'.directory i).byteSize 0 (fileLbas xs) [] st').1 = true :=
    readBlocks_ok 0 [] (h.quiet.congr htables) hevict hread
  have hbytes := (readBlocks_step p (st'.directory i).byteSize (fileLbas xs) 0 [] hblocks hiso).2
    rfl hok
  generalize readBlocks p (st'.directory i).byteSize 0 (fileLbas xs) [] st' = r at hok hbytes
  obtain ⟨ok, bytes, st''⟩ := r
  obtain rfl : ok = true := hok
  dsimp only at hbytes ⊢
  rw [hbytes, List.nil_append, bytesOf_congr fun lba _ => hview lba]

end LainFS
