import LainOS.LainFS.Blocks
import LainOS.Storage.Rescan

/-!
# Coherence of the caches

What a partition holds is its superblock on the disk, its table (the directory buffer if it is
tagged with the partition, the disk otherwise) and its data blocks as seen through the block cache.
`CacheAt` says that what is cached for a partition agrees with this, `CleanAt` that a clean buffer
does. `Keeps` relates two states in which a partition holds the same up to some blocks; every
function that moves data between the caches and the disk keeps what every partition holds, also
when accesses fail, as long as partitions do not overlap.
-/

namespace LainFS

open Storage WriteBack

/-! ### What a partition holds -/

def diskSuper (s : Storage.State) (p : UInt32) : Option CheckedSuper :=
  if h : superIsValid (superOfSector (partSector s p 0)) then some ⟨_, h⟩ else none

def diskDirectory (s : Storage.State) (p : UInt32) (super : CheckedSuper) : Directory :=
  directoryOfSectors fun k => partSector s p (super.1.dirStartLba.toNat + k)

/-- The table of the partition: in the buffer, or else on the disk. -/
def tableView (st : State) (p : UInt32) (super : CheckedSuper) : Directory :=
  match st.directoryTag with
  | some tag => if tag.partition = p then st.directory else diskDirectory st.storage p super
  | none => diskDirectory st.storage p super

/-- The partition has a superblock with a good layout. -/
structure Usable (s : Storage.State) (p : UInt32) (part : Partition) (super : CheckedSuper) :
    Prop where
  partition : storageGetPartition s p = some part
  onDisk : diskSuper s p = some super
  layout : ¬ layoutIsBad super.1 part.blockCount

/-- The sector lies in the data area. -/
def InData (part : Partition) (super : Superblock) (lba : UInt32) : Prop :=
  super.dataStartLba.toNat ≤ lba.toNat ∧ lba.toNat < part.blockCount.toNat

/-- What is cached for the partition agrees with the disk, except for dirty data. -/
structure CacheAt (st : State) (p : UInt32) : Prop where
  super : ∀ super, st.superCache = some (p, super) → diskSuper st.storage p = some super
  blocks : BlocksAt st p
  lines : ∀ i l, st.dataCache i = some l → l.key.1 = p →
    ∃ part super, Usable st.storage p part super ∧ InData part super.1 l.key.2
  dirty : st.directoryTag = some ⟨p, true⟩ → ∃ part super, Usable st.storage p part super

/-- A buffer that belongs to the partition and has no changes agrees with the disk. -/
def CleanAt (st : State) (p : UInt32) : Prop :=
  st.directoryTag = some ⟨p, false⟩ → ∃ super, diskSuper st.storage p = some super ∧
    st.directory = diskDirectory st.storage p super

/-- The partition holds the same in both states, up to the blocks in `E`. -/
structure Keeps (p : UInt32) (E : Set UInt32) (st st' : State) : Prop where
  tables : SameTables st.storage st'.storage
  super : diskSuper st'.storage p = diskSuper st.storage p
  cache : CacheAt st' p
  block : ∀ part super lba, Usable st.storage p part super → InData part super.1 lba → lba ∉ E →
    blockView st' p lba = blockView st p lba
  table : CleanAt st p → CleanAt st' p ∧ ∀ super, diskSuper st.storage p = some super →
    tableView st' p super = tableView st p super

/-! ### Small facts -/

variable {super : CheckedSuper}

lemma bounds_of_layout {blockCount : UInt64} (hl : ¬ layoutIsBad super.1 blockCount) :
    0 < super.1.dirStartLba.toNat ∧
      super.1.dirStartLba.toNat + 256 ≤ super.1.dataStartLba.toNat ∧
      super.1.dataStartLba.toNat < blockCount.toNat := by
  have hblocks : super.1.dirBlocks = 256 := super.2.2.2.2.2.1
  simp only [layoutIsBad, not_or, gt_iff_lt, ge_iff_le] at hl
  obtain ⟨h0, -, -, hdata, hend⟩ := hl
  rw [UInt64.lt_iff_toNat_lt, toNat_add_toUInt64, hblocks, UInt32.toNat_toUInt64, not_lt] at hdata
  rw [UInt64.le_iff_toNat_le, UInt32.toNat_toUInt64, not_le] at hend
  exact ⟨toNat_pos h0, hdata, hend⟩

variable {s s' : Storage.State} {p q : UInt32} {part : Partition}

lemma Usable.bounds (h : Usable s p part super) : 0 < super.1.dirStartLba.toNat ∧
      super.1.dirStartLba.toNat + 256 ≤ super.1.dataStartLba.toNat ∧
      super.1.dataStartLba.toNat < part.blockCount.toNat :=
  bounds_of_layout h.layout

lemma Usable.super_eq {part' : Partition} {super' : CheckedSuper} (h : Usable s p part super)
    (h' : Usable s p part' super') : super = super' :=
  Option.some.inj (h.onDisk.symm.trans h'.onDisk)

lemma diskSuper_eq_some (h : partSector s p 0 = sectorOfSuper super.1) :
    diskSuper s p = some super := by
  have hsuper : superOfSector (partSector s p 0) = super.1 := by
    rw [h]
    exact superOfSector_sector super.1
  have hvalid : superIsValid (superOfSector (partSector s p 0)) := by
    rw [hsuper]
    exact super.2
  rw [diskSuper, dif_pos hvalid]
  exact congrArg some (Subtype.ext hsuper)

lemma diskSuper_congr
    (h : partSector s' p 0 = partSector s p 0) : diskSuper s' p = diskSuper s p := by
  simp only [diskSuper, h]

lemma diskDir_congr (h : ∀ k < 256, partSector s' p (super.1.dirStartLba.toNat + k)
      = partSector s p (super.1.dirStartLba.toNat + k)) :
    diskDirectory s' p super = diskDirectory s p super :=
  ofSectors_congr h

lemma Usable.congr (h : Usable s p part super) (ht : SameTables s s')
    (hs : diskSuper s' p = diskSuper s p) : Usable s' p part super :=
  ⟨(ht.getPartition p).trans h.partition, hs.trans h.onDisk, h.layout⟩

variable {st st' : State}

lemma tableView_tagged {dirty : Bool} (super : CheckedSuper)
    (h : st.directoryTag = some ⟨p, dirty⟩) : tableView st p super = st.directory := by
  rw [tableView, h]
  exact if_pos rfl

lemma tableView_untagged (super : CheckedSuper) (h : ∀ dirty, st.directoryTag ≠ some ⟨p, dirty⟩) :
    tableView st p super = diskDirectory st.storage p super := by
  rw [tableView]
  split
  · rename_i tag htag
    refine if_neg fun hp => h tag.dirty ?_
    rw [htag, ← hp]
  · rfl

lemma CleanAt.of_not_tag (h : ∀ dirty, st.directoryTag ≠ some ⟨p, dirty⟩) : CleanAt st p :=
  fun hc => absurd hc (h false)

lemma CleanAt.of_dirty (h : st.directoryTag = some ⟨p, true⟩) : CleanAt st p := by
  intro hc
  rw [h] at hc
  cases hc

lemma Keeps.refl (h : CacheAt st p) (E : Set UInt32) : Keeps p E st st :=
  ⟨.refl _, rfl, h, fun _ _ _ _ _ _ => rfl, fun hc => ⟨hc, fun _ _ => rfl⟩⟩

variable {E : Set UInt32}

lemma Keeps.trans {st'' : State} (h : Keeps p E st st')
    (h' : Keeps p E st' st'') : Keeps p E st st'' := by
  refine ⟨h.tables.trans h'.tables, h'.super.trans h.super, h'.cache,
    fun part super lba hu hin hE => ?_, fun hc => ?_⟩
  · exact (h'.block part super lba (hu.congr h.tables h.super) hin hE).trans
      (h.block part super lba hu hin hE)
  · obtain ⟨hc', ht⟩ := h.table hc
    obtain ⟨hc'', ht'⟩ := h'.table hc'
    exact ⟨hc'', fun super hs => (ht' super (h.super.trans hs)).trans (ht super hs)⟩

lemma Keeps.mono {E' : Set UInt32} (h : Keeps p E st st') (hE : E ⊆ E') : Keeps p E' st st' :=
  ⟨h.tables, h.super, h.cache, fun part super lba hu hin hn =>
    h.block part super lba hu hin fun hmem => hn (hE hmem), h.table⟩

/-- The partition still lies where it was, and its sectors and what is cached of it are the same. -/
lemma CacheAt.of_rescan (hc : CacheAt st p) (hplace : placeOf st'.storage p = placeOf st.storage p)
    (sectors : ∀ n, partSector st'.storage p n = partSector st.storage p n)
    (super : ∀ super, st'.superCache = some (p, super) → diskSuper st.storage p = some super)
    (lines : ∀ i l, l.key.1 = p → (st'.dataCache i = some l ↔ st.dataCache i = some l))
    (tag : st'.directoryTag = some ⟨p, true⟩ → st.directoryTag = some ⟨p, true⟩) :
    CacheAt st' p ∧ ∀ lba, blockView st' p lba = blockView st p lba := by
  have hsuper : diskSuper st'.storage p = diskSuper st.storage p := diskSuper_congr (sectors 0)
  have husable : ∀ part s, Usable st.storage p part s → ∃ part', Usable st'.storage p part' s ∧
      part'.blockCount = part.blockCount := by
    intro part s hu
    obtain ⟨part', hp', -, -, hcount⟩ := partition_of_place hplace hu.partition
    exact ⟨part', ⟨hp', hsuper.trans hu.onDisk, by rw [hcount]; exact hu.layout⟩, hcount⟩
  obtain ⟨h₁, hv₁⟩ := CoherentOn.lines_outside hc.blocks lines
  have hstore : ∀ k ∈ blocksOf p, sectorAt st'.storage k = sectorAt st.storage k := by
    rintro ⟨q, lba⟩ rfl
    exact sectors lba.toNat
  obtain ⟨h₂, hv₂⟩ := h₁.store_outside _ hstore
  refine ⟨⟨fun s hs => hsuper.trans (super s hs), h₂, fun i l hl hp => ?_,
    fun hd => ?_⟩, fun lba => (hv₂ (p, lba) rfl).trans (hv₁ (p, lba) rfl)⟩
  · obtain ⟨part, s, hu, hin⟩ := hc.lines i l ((lines i l hp).mp hl) hp
    obtain ⟨part', hu', hcount⟩ := husable part s hu
    exact ⟨part', s, hu', hin.1, by rw [hcount]; exact hin.2⟩
  · obtain ⟨part, s, hu⟩ := hc.dirty (tag hd)
    obtain ⟨part', hu', -⟩ := husable part s hu
    exact ⟨part', s, hu'⟩

/-- Nothing of the partition's own is touched; another partition may take over a clean buffer. -/
lemma Keeps.of_agree (hc : CacheAt st p) (tables : SameTables st.storage st'.storage)
    (sectors : ∀ l, partSector st'.storage p l = partSector st.storage p l)
    (super : ∀ super, st'.superCache = some (p, super) → diskSuper st.storage p = some super)
    (lines : ∀ i l, l.key.1 = p → (st'.dataCache i = some l ↔ st.dataCache i = some l))
    (buffer : (st'.directoryTag = st.directoryTag ∧ st'.directory = st.directory) ∨
      (st.directoryTag ≠ some ⟨p, true⟩ ∧ ∀ dirty, st'.directoryTag ≠ some ⟨p, dirty⟩)) :
    Keeps p ∅ st st' := by
  have hsuper : diskSuper st'.storage p = diskSuper st.storage p := diskSuper_congr (sectors 0)
  have hdisk : ∀ super, diskDirectory st'.storage p super = diskDirectory st.storage p super :=
    fun super => diskDir_congr fun k _ => sectors _
  have hdirty : st'.directoryTag = some ⟨p, true⟩ → st.directoryTag = some ⟨p, true⟩ := by
    rcases buffer with ⟨htag, -⟩ | ⟨-, hno⟩
    · rw [htag]
      exact id
    · exact fun hd => absurd hd (hno true)
  obtain ⟨hcache, hview⟩ := hc.of_rescan (tables.placeOf p) sectors super lines hdirty
  refine ⟨tables, hsuper, hcache, fun _ _ lba _ _ _ => hview lba, fun hcl => ?_⟩
  rcases buffer with ⟨htag, hdir⟩ | ⟨hnd, hno⟩
  · constructor
    · intro ht
      rw [htag] at ht
      obtain ⟨s, hs, hd⟩ := hcl ht
      exact ⟨s, hsuper.trans hs, by rw [hdir, hd, hdisk]⟩
    · intro s _
      simp only [tableView, htag, hdir, hdisk]
  · refine ⟨.of_not_tag hno, fun s hs => ?_⟩
    rw [tableView_untagged s hno, hdisk]
    -- a clean buffer of the partition had the contents of the disk
    by_cases ht : st.directoryTag = some ⟨p, false⟩
    · obtain ⟨s', hs', hd⟩ := hcl ht
      rw [hs] at hs'
      cases hs'
      rw [tableView_tagged s ht, hd]
    · rw [tableView_untagged s]
      rintro (_ | _)
      · exact ht
      · exact hnd

/-- Block traffic in the data area does not touch the superblock and the directory. -/
lemma BlockStep.diskDirectory {K : Set UInt32} (hc : CacheAt st p) (h : BlockStep p E K st st')
    (hK : ∀ lba ∈ K, ∃ part super, Usable st.storage p part super ∧ InData part super.1 lba) :
    diskSuper st'.storage p = diskSuper st.storage p ∧
      ∀ super, diskSuper st.storage p = some super →
        LainFS.diskDirectory st'.storage p super = LainFS.diskDirectory st.storage p super := by
  -- a sector that lies in front of the data area of every usable superblock is not touched
  have hfront : ∀ n, (∀ part super, Usable st.storage p part super →
      n < super.1.dataStartLba.toNat) → partSector st'.storage p n = partSector st.storage p n := by
    intro n hn
    refine h.sectors n (fun lba hlba heq => ?_) fun i l hl hp heq => ?_
    · obtain ⟨part, super, hu, hin⟩ := hK lba hlba
      have := hn part super hu
      have := hin.1
      omega
    · obtain ⟨part, super, hu, hin⟩ := hc.lines i l hl hp
      have := hn part super hu
      have := hin.1
      omega
  constructor
  · refine diskSuper_congr (hfront 0 fun part super hu => ?_)
    have := hu.bounds
    omega
  refine fun super hs => diskDir_congr fun k hk => hfront _ fun part super' hu => ?_
  have heq := hs.symm.trans hu.onDisk
  cases heq
  have := hu.bounds
  omega

/-- Block traffic in the data area. -/
lemma Keeps.of_blockStep {K : Set UInt32} (hc : CacheAt st p) (h : BlockStep p E K st st')
    (hK : ∀ lba ∈ K, ∃ part super, Usable st.storage p part super ∧ InData part super.1 lba) :
    Keeps p E st st' := by
  have htables := h.sameMeta.tables
  obtain ⟨hsuper, hdisk⟩ := h.diskDirectory hc hK
  refine ⟨htables, hsuper, ⟨fun x hx => ?_, h.blocks, fun i l hl hp => ?_, fun hd => ?_⟩,
    fun _ _ lba _ _ hE => h.view lba hE, fun hcl => ⟨fun ht => ?_, fun x hx => ?_⟩⟩
  · rw [h.sameMeta.superCache] at hx
    exact hsuper.trans (hc.super x hx)
  · have hin : ∃ part super, Usable st.storage p part super ∧ InData part super.1 l.key.2 := by
      rcases h.lines i l hl hp with hmem | ⟨j, m, hm, hkey⟩
      · exact hK _ hmem
      · rw [← hkey] at hp ⊢
        exact hc.lines j m hm hp
    obtain ⟨part, super, hu, hin⟩ := hin
    exact ⟨part, super, hu.congr htables hsuper, hin⟩
  · rw [h.sameMeta.directoryTag] at hd
    obtain ⟨part, super, hu⟩ := hc.dirty hd
    exact ⟨part, super, hu.congr htables hsuper⟩
  · rw [h.sameMeta.directoryTag] at ht
    obtain ⟨x, hx, hd⟩ := hcl ht
    exact ⟨x, hsuper.trans hx, by rw [h.sameMeta.directory, hd, hdisk x hx]⟩
  · simp only [tableView, h.sameMeta.directoryTag, h.sameMeta.directory, hdisk x hx]

lemma flushSlots_keeps (which : CachedBlock → Bool) (is : List (Fin dataCacheSlots))
    (hc : CacheAt st p) (hiso : Isolated st.storage p) : Keeps p ∅ st (flushSlots which is st).2 :=
  Keeps.of_blockStep hc (flushSlots_step which is hc.blocks hiso ∅ ∅)
    fun _ h => absurd h (Set.notMem_empty _)

/-! ### Superblock -/

lemma rawSuper_eq_some
    (hfits : ∀ part, storageGetPartition st.storage p = some part → Fits st.storage part)
    (h : (rawReadSuper st p).1 = some super) : diskSuper st.storage p = some super := by
  rw [rawReadSuper] at h
  rcases hr : storageReadPartition st.storage p 0 1 with ⟨result, s⟩
  rw [hr] at h
  rcases result with _ | f
  · cases h
  replace hr : storageReadPartition st.storage p (0 : UInt32).toUInt64 1 = (some f, s) := hr
  obtain ⟨part, -, -, hread⟩ := read_eq_some hfits hr
  have hf : f 0 = partSector st.storage p 0 := hread 0 (by decide)
  rw [diskSuper]
  simp only [hf] at h
  split_ifs at h ⊢
  exact h

lemma Keeps.setAccesses (hc : CacheAt st p) (n : ℕ) : Keeps p ∅ st (st.setAccesses n) :=
  Keeps.of_agree hc (SameMeta.setAccesses st n).tables (fun _ => rfl) (fun x hx => hc.super x hx)
    (fun _ _ _ => Iff.rfl) (Or.inl ⟨rfl, rfl⟩)

section

variable (hc : CacheAt st p) (hiso : Isolated st.storage p)
include hc hiso

/-- A superblock that was read is the one on the disk. -/
lemma readSuper_eq_some (h : (readSuper st p).1 = some super) :
    diskSuper st.storage p = some super := by
  rcases readSuper_cases st p with ⟨x, hs, hr⟩ | ⟨n, -, hr⟩
  · rw [hr] at h
    cases h
    exact hc.super super hs
  · rw [hr] at h
    exact rawSuper_eq_some (hiso.fits p) h

lemma readSuper_keeps (q : UInt32) : Keeps p ∅ st (readSuper st q).2 := by
  rcases readSuper_cases st q with ⟨x, -, hr⟩ | ⟨n, -, hr⟩
  · rw [hr]
    exact .refl hc ∅
  rw [hr]
  refine Keeps.of_agree hc (SameMeta.setAccesses st n).tables (fun _ => rfl) (fun super h => ?_)
    (fun _ _ _ => Iff.rfl) (Or.inl ⟨rfl, rfl⟩)
  obtain ⟨x, hx, heq⟩ := Option.map_eq_some_iff.mp h
  cases heq
  exact rawSuper_eq_some (hiso.fits p) hx

lemma flushSuper_eq_some (h : (superForFlush st p).1 = some super) :
    diskSuper st.storage p = some super := by
  rw [superForFlush] at h
  rcases hs : st.superCache with _ | c
  · rw [hs] at h
    exact rawSuper_eq_some (hiso.fits p) h
  obtain ⟨q, x⟩ := c
  rw [hs] at h
  dsimp only at h
  split_ifs at h with hq
  · cases h
    exact hc.super super (by rw [hs, hq])
  · exact rawSuper_eq_some (hiso.fits p) h

end

lemma readSuper_tableView (st : State) (p q : UInt32) (super : CheckedSuper) :
    tableView (readSuper st q).2 p super = tableView st p super := by
  obtain ⟨n, c, h⟩ := readSuper_state (Prod.mk.eta (p := readSuper st q)).symm
  rw [h]
  rfl

/-! ### Directory buffer -/

/-- A change of the directory buffer alone. -/
lemma Keeps.of_buffer (hc : CacheAt st p) (d : Directory) (tag : Option DirectoryTag)
    (dirty : tag = some ⟨p, true⟩ → ∃ part super, Usable st.storage p part super)
    (table : CleanAt st p → CleanAt { st with directory := d, directoryTag := tag } p ∧
      ∀ super, diskSuper st.storage p = some super →
        tableView { st with directory := d, directoryTag := tag } p super = tableView st p super) :
    Keeps p ∅ st { st with directory := d, directoryTag := tag } :=
  ⟨.refl _, rfl, ⟨hc.super, hc.blocks, hc.lines, dirty⟩, fun _ _ _ _ _ _ => rfl, table⟩

/-- The directory of an own dirty buffer is written, or part of it. -/
lemma Keeps.of_directory_write (hc : CacheAt st p) (hu : Usable st.storage p part super)
    (htag : st.directoryTag = some ⟨p, true⟩) {ok : Bool} (tables : SameTables st.storage s)
    (sectors : ∀ n, n < super.1.dirStartLba.toNat ∨ super.1.dirStartLba.toNat + 256 ≤ n →
      partSector s p n = partSector st.storage p n)
    (stored : ok = true → diskDirectory s p super = st.directory) :
    Keeps p ∅ st { st with storage := s, directoryTag := some ⟨p, !ok⟩ } := by
  obtain ⟨hpos, hdir, -⟩ := hu.bounds
  have hsuper : diskSuper s p = diskSuper st.storage p := diskSuper_congr (sectors 0 (.inl hpos))
  have hdata : ∀ lba : UInt32, super.1.dataStartLba.toNat ≤ lba.toNat →
      sectorAt s (p, lba) = sectorAt st.storage (p, lba) :=
    fun lba hlba => sectors lba.toNat (.inr (by omega))
  have hblocks : CoherentOn (blocksOf p) st.dataCache (sectorAt s) := by
    refine ⟨hc.blocks.unique, fun i l hl hp hclean => ?_⟩
    obtain ⟨part', super', hu', hin⟩ := hc.lines i l hl hp
    obtain rfl := hu.super_eq hu'
    obtain ⟨⟨q, lba⟩, data, dirty, stamp⟩ := l
    obtain rfl : q = p := hp
    exact (hc.blocks.clean i _ hl rfl hclean).trans (hdata lba hin.1).symm
  refine ⟨tables, hsuper, ⟨fun x hx => hsuper.trans (hc.super x hx), hblocks, fun i l hl hp => ?_,
    fun _ => ⟨part, super, hu.congr tables hsuper⟩⟩, fun part' super' lba hu' hin _ => ?_,
    fun _ => ⟨fun ht => ?_, fun x _ => ?_⟩⟩
  · obtain ⟨part', super', hu', hin⟩ := hc.lines i l hl hp
    exact ⟨part', super', hu'.congr tables hsuper, hin⟩
  · obtain rfl := hu.super_eq hu'
    exact view_congr hc.blocks hblocks rfl (fun _ => .rfl) fun _ => hdata lba hin.1
  · cases ok with
    | false => cases ht
    | true => exact ⟨super, hsuper.trans hu.onDisk, (stored rfl).symm⟩
  · rw [tableView_tagged x htag]
    exact tableView_tagged x rfl

lemma flushDir_keeps (hc : CacheAt st p)
    (hiso : Isolated st.storage p) : Keeps p ∅ st (flushDirectoryCache st).2 := by
  rcases flushDir_cases st with
    ⟨hf, -⟩ | ⟨q, n, htag, ⟨-, hf⟩ | ⟨super, ok, s, hfound, hw, hf⟩⟩
  · rw [hf]
    exact .refl hc ∅
  · rw [hf]
    exact .setAccesses hc n
  rw [hf]
  have hiso' : Isolated (st.setAccesses n).storage p := hiso.congr (SameMeta.setAccesses st n).tables
  have htables : SameTables st.storage s :=
    (SameMeta.setAccesses st n).tables.trans (write_sameTables hw)
  by_cases hq : q = p
  · subst hq
    have hblocks : super.1.dirBlocks = 256 := super.2.2.2.2.2.1
    obtain ⟨part, super', hu⟩ := hc.dirty htag
    obtain rfl : super = super' :=
      Option.some.inj ((flushSuper_eq_some hc hiso hfound).symm.trans hu.onDisk)
    refine .of_directory_write hc hu htag htables (fun m hm => ?_) fun hok => ?_
    · exact write_outside (hiso'.fits q) hw (by rw [hblocks]; exact hm)
    · subst hok
      refine .trans (ofSectors_congr fun k hk => ?_) (ofSectors_sectors st.directory)
      exact write_stored (hiso'.fits q) hw (by rw [hblocks]; exact hk)
  · refine .of_agree hc htables (fun m => ?_) (fun x hx => hc.super x hx)
      (fun _ _ _ => .rfl) (.inr ⟨fun h => ?_, fun dirty h => ?_⟩)
    · exact write_other hiso' hq hw m
    · rw [htag] at h
      cases h
      exact hq rfl
    · cases h
      exact hq rfl

/-- After a successful flush the buffer is clean. -/
lemma flushDir_clean (h : flushDirectoryCache st = (true, st'))
    (q : UInt32) : st'.directoryTag ≠ some ⟨q, true⟩ := by
  rcases flushDir_cases st with
    ⟨hf, hclean⟩ | ⟨q', n, -, ⟨-, hf⟩ | ⟨super, ok, s, -, -, hf⟩⟩ <;> rw [hf] at h <;> cases h
  · exact hclean q
  · intro hd
    cases hd

/-- Flushing does not move the buffer to another partition. -/
lemma flushDir_tag {ok : Bool} (h : flushDirectoryCache st = (ok, st'))
    (hno : ∀ dirty, st.directoryTag ≠ some ⟨p, dirty⟩) (dirty : Bool) :
    st'.directoryTag ≠ some ⟨p, dirty⟩ := by
  rcases flushDir_cases st with
    ⟨hf, -⟩ | ⟨q', n, htag, ⟨-, hf⟩ | ⟨super, ok, s, -, -, hf⟩⟩ <;> rw [hf] at h <;> cases h
  · exact hno dirty
  · exact hno dirty
  · intro hd
    cases hd
    exact hno true htag

variable (hc : CacheAt st p)
include hc

/-- Reading a directory into a buffer without unsaved changes of the partition. -/
lemma readDir_keeps (hiso : Isolated st.storage p) (hbuffer : st.directoryTag ≠ some ⟨p, true⟩)
    (hq : q = p → diskSuper st.storage p = some super ∧
      ∀ dirty, st.directoryTag ≠ some ⟨p, dirty⟩) :
    Keeps p ∅ st (readDirectory st q super).2 ∧
      (q = p → (readDirectory st q super).1 = true →
        (readDirectory st q super).2.directory = diskDirectory st.storage p super) := by
  have hblocks : super.1.dirBlocks = 256 := super.2.2.2.2.2.1
  rw [readDirectory]
  rcases hr : storageReadPartition st.storage q super.1.dirStartLba.toUInt64 super.1.dirBlocks with ⟨result, s⟩
  obtain ⟨n, rfl⟩ := read_state hr
  have h₁ := Keeps.setAccesses hc n
  -- another partition, or none, takes over the buffer
  have hother : ∀ d tag, (∀ dirty, tag ≠ some ⟨p, dirty⟩) →
      Keeps p ∅ st { st.setAccesses n with directory := d, directoryTag := tag } := by
    intro d tag htag
    refine h₁.trans (.of_agree h₁.cache (.refl _) (fun _ => rfl)
      (fun x hx => h₁.cache.super x hx) (fun _ _ _ => .rfl) (.inr ⟨hbuffer, htag⟩))
  rcases result with _ | f
  · refine ⟨hother _ none fun _ => ?_, fun _ h => ?_⟩
    · exact (Option.some_ne_none _).symm
    · cases h
  by_cases hqp : q = p
  · subst hqp
    obtain ⟨hsuper, hno⟩ := hq rfl
    obtain ⟨part, -, -, hread⟩ := read_eq_some (hiso.fits q) hr
    have hd : directoryOfSectors f = diskDirectory st.storage q super :=
      ofSectors_congr fun k hk => hread k (by rw [hblocks]; exact hk)
    refine ⟨h₁.trans (.of_buffer h₁.cache (directoryOfSectors f) (some ⟨q, false⟩)
      (fun h => by cases h) fun _ => ⟨fun _ => ?_, fun x hx => ?_⟩), fun _ _ => hd⟩
    · exact ⟨super, hsuper, hd⟩
    · rw [h₁.super, hsuper] at hx
      cases hx
      exact (tableView_tagged super rfl).trans (hd.trans (tableView_untagged super hno).symm)
  · refine ⟨hother _ _ fun dirty h => ?_, fun h => absurd h hqp⟩
    cases h
    exact hqp rfl

lemma loadRaw_keeps (hiso : Isolated st.storage p)
    (hq : q = p → diskSuper st.storage p = some super) :
    Keeps p ∅ st (loadDirectoryUnchecked st q super).2 ∧
      (q = p → (loadDirectoryUnchecked st q super).1 = true →
        (loadDirectoryUnchecked st q super).2.directory = tableView st p super) := by
  rcases loadRaw_cases st q super with ⟨⟨dirty, htag⟩, h⟩ | ⟨hnot, ok, st₁, hf, h⟩ <;>
    rw [h]
  · refine ⟨.refl hc ∅, fun hqp _ => ?_⟩
    subst hqp
    exact (tableView_tagged super htag).symm
  -- the changes of another partition are written first
  have h₁ := flushDir_keeps hc hiso
  rw [hf] at h₁
  rcases ok with _ | _
  · exact ⟨h₁, fun _ h => by cases h⟩
  have hno : q = p → ∀ dirty, st.directoryTag ≠ some ⟨p, dirty⟩ := fun h => h ▸ hnot
  have hno₁ := fun h => flushDir_tag hf (hno h)
  obtain ⟨hk, hd⟩ := readDir_keeps h₁.cache (hiso.congr h₁.tables)
    (flushDir_clean hf p) fun h => ⟨h₁.super.trans (hq h), hno₁ h⟩
  refine ⟨h₁.trans hk, fun h hok => (hd h hok).trans ?_⟩
  have hview := (h₁.table (.of_not_tag (hno h))).2 super (hq h)
  rwa [tableView_untagged super (hno₁ h)] at hview

/-- The buffer is given up by a partition whose table was rejected. -/
lemma Keeps.of_drop (h : ∀ dirty, st.directoryTag ≠ some ⟨p, dirty⟩) :
    Keeps p ∅ st { st with directoryTag := none } :=
  Keeps.of_agree hc (.refl _) (fun _ => rfl) (fun x hx => hc.super x hx)
    (fun _ _ _ => .rfl) (.inr ⟨h true, fun _ => (Option.some_ne_none _).symm⟩)

variable (hiso : Isolated st.storage p)
include hiso

lemma openRaw_keeps (q : UInt32) : Keeps p ∅ st (openDirectoryUnchecked st q).2 ∧
      (q = p → ∀ super, (openDirectoryUnchecked st q).1 = .ok super →
        diskSuper st.storage p = some super ∧
          (openDirectoryUnchecked st q).2.directory = tableView st p super) := by
  have h₁ := readSuper_keeps hc hiso q
  have hview := readSuper_tableView st p q
  rcases openRaw_cases st q with ⟨st₁, hr, h⟩ | ⟨super, st₁, ok, st₂, hr, hl, h⟩ <;>
    rw [h] <;> rw [hr] at h₁ hview
  · exact ⟨h₁, fun _ _ h => by cases h⟩
  have hsuper : q = p → diskSuper st.storage p = some super := by
    rintro rfl
    exact readSuper_eq_some hc hiso (by rw [hr])
  obtain ⟨h₂, hd⟩ := loadRaw_keeps h₁.cache (hiso.congr h₁.tables)
    fun h => h₁.super.trans (hsuper h)
  rw [hl] at h₂ hd
  refine ⟨h₁.trans h₂, fun hqp super' h => ?_⟩
  cases ok with
  | false => cases h
  | true =>
    cases h
    exact ⟨hsuper hqp, (hd hqp rfl).trans (hview super)⟩

/-- Opening a partition, unless it is `p` and its buffer is dropped. -/
lemma open_keeps {result : Except OpenError CheckedSuper}
    (ho : openDirectory st q = (result, st')) :
    Keeps p ∅ st st' ∨ q = p ∧ ∃ e, result = .error e := by
  obtain ⟨h₁, -⟩ := openRaw_keeps hc hiso q
  rw [open_eq] at ho
  rcases hu : openDirectoryUnchecked st q with ⟨unchecked, st₁⟩
  rw [hu] at h₁ ho
  rcases unchecked with e | super
  · cases ho
    exact .inl h₁
  dsimp only at ho
  split at ho <;> cases ho
  · exact .inl h₁
  by_cases hq : q = p
  · exact .inr ⟨hq, _, rfl⟩
  refine .inl (h₁.trans (.of_drop h₁.cache fun dirty ht => ?_))
  obtain ⟨dirty', htag⟩ := (openRaw_eq_ok hu).1.tag
  rw [htag] at ht
  cases ht
  exact hq rfl

lemma open_ok_keeps {super : CheckedSuper} (ho : openDirectory st q = (.ok super, st')) :
    Keeps p ∅ st st' := by
  refine (open_keeps hc hiso ho).resolve_right ?_
  rintro ⟨-, e, he⟩
  cases he

end LainFS
