import LainOS.LainFS.Calls

/-!
# Reading back

On a machine without faults a file that was saved is read back with the same bytes after any run of
later calls on any of the volumes that leave its entry alone (`load_after_run`). The exception is a
later save on the same volume that claims a new slot and finds no room: it leaves a table that the
next call rejects (`save_load_on_full_fails`).
-/

namespace LainFS

open Storage WriteBack List Option Directory TableCall

variable {part : Partition} {lba p size parentId : UInt32} {st : State} {buffer : ℕ → UInt8}
  {block : UInt32 → Sector} {xs : List Extent} {d : Directory} {i : Fin maxFiles}
  {name : List UInt8} {super : CheckedSuper} {drive : UInt8} {calls : List FileCall}
  {cname : CString} {blockCount : UInt64}

/-! ### Machines without faults -/

/-- Devices without faults, partitions that lie apart, and caches in step with the disks. -/
structure Healthy (st : State) : Prop where
  quiet : Quiet st.storage
  isolated : ∀ q, Isolated st.storage q
  writable : ∀ q part, storageGetPartition st.storage q = some part →
    ∃ dev, storageGetBlockDevice st.storage part.deviceIndex = some dev ∧ dev.hasWrite = true
  cache : ∀ q, CacheAt st q

namespace Healthy

variable {st : State} {p : UInt32}

variable (h : Healthy st)
include h

lemma device (hp : storageGetPartition st.storage p = some part) :
    ∃ dev, storageGetBlockDevice st.storage part.deviceIndex = some dev ∧ dev.hasWrite = true ∧
      part.startLba.toNat + part.blockCount.toNat ≤ dev.blockCount.toNat := by
  obtain ⟨dev, hdev, hwrite⟩ := h.writable p part hp
  obtain ⟨dev', hdev', -, hle⟩ := (h.isolated p).fits p part hp
  rw [hdev] at hdev'
  cases hdev'
  exact ⟨dev, hdev, hwrite, hle⟩

lemma canWrite (hp : storageGetPartition st.storage p = some part)
    (hlba : lba.toNat < part.blockCount.toNat) : CanWrite st.storage p lba := by
  obtain ⟨dev, hdev, hwrite, hle⟩ := h.device hp
  exact ⟨part, dev, hp, hdev, hwrite, hle, hlba⟩

lemma evictable : Evictable st := by
  intro i l hl _
  obtain ⟨part, super, hu, hin⟩ := (h.cache l.key.1).lines i l hl rfl
  exact h.canWrite hu.partition hin.2

lemma savable : Savable st := by
  intro q hq
  obtain ⟨part, super, hu⟩ := (h.cache q).dirty hq
  obtain ⟨dev, hdev, hwrite, hle⟩ := h.device hu.partition
  refine ⟨part, super, dev, hu, fun s hs => ?_, hdev, hwrite, hle⟩
  exact some_inj.mp (((h.cache q).super s hs).symm.trans hu.onDisk)

lemma readable (p : UInt32) : Readable st p :=
  ⟨h.quiet, h.isolated p, h.cache p, h.savable, h.evictable⟩

lemma sameTables (call : FileCall) : SameTables st.storage (call.run st).storage := by
  -- some partition is not the one the call works on
  have hother : ∃ p, call.target st ≠ some p := by
    cases call.target st with
    | none => exact ⟨0, (some_ne_none 0).symm⟩
    | some q => exact ⟨q + 1, fun hq => by simp at hq⟩
  obtain ⟨p, hp⟩ := hother
  exact (FileCall.keeps_other (h.cache p) (h.isolated p) hp).tables

lemma congr {st' : State} (ht : SameTables st.storage st'.storage) (hc : ∀ q, CacheAt st' q) :
    Healthy st' := by
  refine ⟨h.quiet.congr ht, fun q => (h.isolated q).congr ht, fun q part hq => ?_, hc⟩
  rw [ht.getPartition] at hq
  rw [ht.getBlockDevice]
  exact h.writable q part hq

lemma run (hsmall : ∀ q, Small st.storage q) (call : FileCall) : Healthy (call.run st) :=
  h.congr (h.sameTables call) fun q => call.cacheAt (h.cache q) (h.isolated q) (hsmall q)

end Healthy

/-- Without cached blocks only the superblock and an unsaved table matter. -/
lemma cacheAt_of_no_lines (hdata : ∀ i, st.dataCache i = none)
    (hsuper : ∀ super, st.superCache = some (p, super) → diskSuper st.storage p = some super)
    (hdirty : st.directoryTag = some ⟨p, true⟩ → ∃ part super, Usable st.storage p part super) :
    CacheAt st p := by
  refine ⟨hsuper, ⟨fun i j l m hl => ?_, fun i l hl => ?_⟩, fun i l hl => ?_, hdirty⟩
  all_goals
    rw [hdata] at hl
    cases hl

/-- With nothing cached there is nothing to disagree with the disk. -/
lemma cacheAt_of_empty (hsuper : st.superCache = none) (htag : st.directoryTag = none)
    (hdata : ∀ i, st.dataCache i = none) (p : UInt32) : CacheAt st p := by
  refine cacheAt_of_no_lines hdata (fun s hs => ?_) fun hd => ?_
  · rw [hsuper] at hs
    cases hs
  · rw [htag] at hd
    cases hd

/-! ### The bytes of a file -/

lemma take_fileBlock (buffer : ℕ → UInt8) (size : UInt32) (k : ℕ) :
    (List.ofFn (fileBlock buffer size k)).take (bytesInBlock size k) =
      (List.range' (512 * k) (bytesInBlock size k)).map buffer := by
  have hle : bytesInBlock size k ≤ sectorSize := min_le_right _ _
  refine ext_getElem (by simpa using hle) fun n h₁ h₂ => ?_
  have hn : n < bytesInBlock size k := by simpa using h₂
  simp [fileBlock, hn]

/-- Reading the blocks a file was written to gives back the buffer. -/
lemma bytesOf_fileBlock {lbas : List UInt32} {k : ℕ}
    (h : ∀ j lba, lbas[j]? = some lba → block lba = fileBlock buffer size (k + j)) :
    bytesOf size block k lbas =
      (List.range' (512 * k) (min (size.toNat - 512 * k) (512 * lbas.length))).map buffer := by
  induction lbas generalizing k with
  | nil => simp [bytesOf]
  | cons lba rest ih =>
    have hrest := ih (k := k + 1) fun j x hj => by
      rw [h (j + 1) x (by simpa using hj), add_assoc, add_comm 1 j]
    have hsplit : min (size.toNat - 512 * k) (512 * (lba :: rest).length) =
        bytesInBlock size k + min (size.toNat - 512 * (k + 1)) (512 * rest.length) := by
      rw [bytesInBlock, length_cons]
      omega
    rw [bytesOf, hrest, h 0 lba rfl, add_zero, take_fileBlock, ← map_append, hsplit]
    -- a block that is not full is the last one
    by_cases hfull : bytesInBlock size k = 512
    · rw [hfull, mul_add, mul_one, range'_append_1]
    · have hlast : size.toNat - 512 * (k + 1) = 0 := by
        rw [bytesInBlock] at hfull
        omega
      simp [hlast]

/-- The blocks of an entry have room for its bytes. -/
lemma size_le_blocks {e : Dirent} (hxs : entryExtents e = some xs)
    (hsize : e.byteSize.toNat ≤ fileCapacity.toNat) :
    e.byteSize.toNat ≤ 512 * (fileLbas xs).length := by
  have hb := toNat_blocksForSize (hsize.trans (by decide))
  have hsum := (extents_spec hxs).2.2.2
  rw [length_fileLbas, hsum, allocatedBlocksForEntry]
  split_ifs with h0
  · have hz : (blocksForSize e.byteSize).toNat = 0 := by rw [h0]; rfl
    omega
  · omega

/-! ### The file in the table -/

/-- Slot `i` holds the file, and its blocks hold the bytes. -/
structure FileAt (d : Directory) (block : UInt32 → Sector) (i : Fin maxFiles) (parentId : UInt32)
    (name : List UInt8) (buffer : ℕ → UInt8) (size : UInt32) : Prop where
  used : (d i).used = entryFile
  parent : entryParentId (d i) = parentId
  named : entryName (d i) = name
  byteSize : (d i).byteSize = size
  data : ∃ xs, entryExtents (d i) = some xs ∧
    ∀ j lba, (fileLbas xs)[j]? = some lba → block lba = fileBlock buffer size j

lemma HoldsFile.fileAt (h : HoldsFile (d i) parentId name size xs)
    (hdata : ∀ j lba, (fileLbas xs)[j]? = some lba → block lba = fileBlock buffer size j) :
    FileAt d block i parentId name buffer size :=
  ⟨h.used, h.parent, h.named, h.byteSize, xs, h.extents, hdata⟩

section

variable {d' : Directory} {block' : UInt32 → Sector} {j : Fin maxFiles}
  {parentId' newParentId : UInt32} {name' newName : List UInt8}
  (h : FileAt d block i parentId name buffer size)
include h

lemma FileAt.set (hne : j ≠ i) (e : Dirent) :
    FileAt (d.set j e) block i parentId name buffer size := by
  have hi : d.set j e i = d i := set_of_ne d e hne.symm
  exact ⟨by rw [hi, h.used], by rw [hi, h.parent], by rw [hi, h.named], by rw [hi, h.byteSize],
    by rw [hi]; exact h.data⟩

lemma FileAt.congr_block
    (hblock : ∀ xs, entryExtents (d i) = some xs → ∀ lba ∈ fileLbas xs, block' lba = block lba) :
    FileAt d block' i parentId name buffer size := by
  obtain ⟨xs, hxs, hdata⟩ := h.data
  refine ⟨h.used, h.parent, h.named, h.byteSize, xs, hxs, fun j lba hj => ?_⟩
  rw [hblock xs hxs lba (mem_of_getElem? hj), hdata j lba hj]

/-- A call that names another entry finds another slot. -/
lemma FileAt.ne_of_find (hfind : findEntryInDir d parentId' name' = some j)
    (havoid : ¬ (parentId' = parentId ∧ name' = name)) : j ≠ i := by
  rintro rfl
  obtain ⟨-, hp, hn⟩ := findEntry_eq_some hfind
  exact havoid ⟨hp.symm.trans h.parent, hn.symm.trans h.named⟩

lemma FileAt.ne_of_free (hj : (d j).used = 0) : j ≠ i := by
  rintro rfl
  rw [h.used] at hj
  cases hj

lemma FileAt.makeDirEntry (hop : LainFS.makeDirEntry d parentId' name' = .ok d') :
    FileAt d' block i parentId name buffer size := by
  obtain ⟨-, -, j, hj, rfl⟩ := makeDirEntry_eq_ok hop
  exact h.set (h.ne_of_free hj) _

section

variable (havoid : ¬ (parentId' = parentId ∧ name' = name))
include havoid

lemma FileAt.deleteEntry (hop : LainFS.deleteEntry d parentId' name' = .ok d') :
    FileAt d' block i parentId name buffer size := by
  obtain ⟨j, hfind, -, rfl⟩ := deleteEntry_eq_ok hop
  exact h.set (h.ne_of_find hfind havoid) _

lemma FileAt.renameEntry (hop : LainFS.renameEntry d parentId' name' newParentId newName = .ok d') :
    FileAt d' block i parentId name buffer size := by
  obtain ⟨-, -, j, hfind, -, rfl⟩ := renameEntry_eq_ok hop
  exact h.set (h.ne_of_find hfind havoid) _

lemma FileAt.ne_of_claim (hclaim : claimSlot d parentId' name' = .ok (j, d')) : j ≠ i := by
  obtain ⟨-, ⟨hfind, -, -⟩ | ⟨-, hfree, -⟩⟩ := claim_eq_ok hclaim
  · exact h.ne_of_find hfind havoid
  · exact h.ne_of_free hfree

end

/-- The search finds the file, since names are distinct. -/
lemma FileAt.findFileInDir
    (hnames : NamesDistinct d) : LainFS.findFileInDir d parentId name = some i := by
  rcases hf : LainFS.findFileInDir d parentId name with _ | k
  · have := find?_eq_none.mp hf i (mem_finRange i)
    simp [h.used, h.parent, h.named, entryFile, entryDir] at this
  have hk := find?_some hf
  simp only [Bool.and_eq_true, bne_iff_ne, ne_eq, beq_iff_eq] at hk
  obtain ⟨⟨⟨hused, -⟩, hp⟩, hn⟩ := hk
  rw [hnames k i hused (by rw [h.used]; decide) (hp.trans h.parent.symm) (hn.trans h.named.symm)]

end

/-! ### The file on the volume -/

/-- The volume has a valid table with the file in it. -/
structure Stored (st : State) (p : UInt32) (part : Partition) (super : CheckedSuper)
    (parentId : UInt32) (name : List UInt8) (buffer : ℕ → UInt8) (size : UInt32) : Prop where
  usable : Usable st.storage p part super
  clean : CleanAt st p
  valid : TableValid part super.1 (tableView st p super)
  file : ∃ i, FileAt (tableView st p super) (blockView st p) i parentId name buffer size

lemma FileAt.inData {super : Superblock} (h : FileAt d block i parentId name buffer size)
    (hd : DirectorySound super part.blockCount d) (hbc : part.blockCount.toNat < 2 ^ 32)
    (hxs : entryExtents (d i) = some xs) (hlba : lba ∈ fileLbas xs) : InData part super lba :=
  fileLbas_inData hbc (hd.extentsSound h.used hxs) hlba

lemma Healthy.open_held (h : Healthy st) (hheld : heldTable st p = .ok (super, d)) :
    ∃ st₁, LainFS.openDirectory st p = (.ok super, st₁) ∧ st₁.directory = d ∧
      ∀ q, Keeps q ∅ st st₁ := by
  rcases (h.readable p).openDirectory with ⟨e, st₁, herr, -⟩ | ⟨super', st₁, hok, ho, -⟩
  · rw [hheld] at herr
    cases herr
  rw [hheld] at hok
  obtain ⟨rfl, rfl⟩ := Prod.mk.inj (Except.ok.inj hok)
  exact ⟨st₁, ho, rfl, fun q => open_ok_keeps (h.cache q) (h.isolated q) ho⟩

/-- A volume with a valid table can be opened. -/
lemma Healthy.openDirectory (h : Healthy st) (hu : Usable st.storage p part super)
    (hvalid : TableValid part super.1 (tableView st p super)) :
    ∃ st₁, LainFS.openDirectory st p = (.ok super, st₁) ∧ Keeps p ∅ st st₁ ∧
      st₁.directory = tableView st p super ∧ Healthy st₁ := by
  obtain ⟨st₁, ho, hdir, hk⟩ := h.open_held (hu.heldTable_eq hvalid.accepted)
  exact ⟨st₁, ho, hk p, hdir, h.congr (hk p).tables fun q => (hk q).cache⟩

section

variable {st' : State}

lemma Stored.of_keeps (h : Stored st p part super parentId name buffer size)
    (hbc : part.blockCount.toNat < 2 ^ 32) (hk : Keeps p ∅ st st') :
    Stored st' p part super parentId name buffer size := by
  obtain ⟨hclean, htable⟩ := hk.table h.clean
  have htv := htable super h.usable.onDisk
  obtain ⟨i, hi⟩ := h.file
  refine ⟨h.usable.congr hk.tables hk.super, hclean, htv ▸ h.valid, i, htv ▸ ?_⟩
  exact hi.congr_block fun xs hxs lba hlba => hk.block part super lba h.usable
    (hi.inData h.valid.sound hbc hxs hlba) (Set.notMem_empty lba)

/-- A changed table that still has the file. -/
lemma Stored.of_buffer (hu : Usable st.storage p part super)
    (hvalid : TableValid part super.1 st.directory)
    (hi : FileAt st.directory (blockView st p) i parentId name buffer size) :
    Stored (saveDirectory st p) p part super parentId name buffer size := by
  have htv : tableView (saveDirectory st p) p super = st.directory := tableView_tagged super rfl
  exact ⟨hu, .of_dirty rfl, htv ▸ hvalid, i, htv ▸ hi⟩

lemma tableView_of_open {st₁ : State} (ho : openDirectory st p = (.ok super, st₁)) :
    tableView st₁ p super = st₁.directory := by
  obtain ⟨dirty, htag⟩ := (open_opened ho).1.tag
  exact tableView_tagged super htag

lemma Stored.tableCall {drive : UInt8} (h : Stored st p part super parentId name buffer size)
    (hh : Healthy st) (hbc : part.blockCount.toNat < 2 ^ 32)
    (hm : mountForDrive st drive = some p) {namesOk : Bool} {op : Directory → Except ℤ Directory}
    (hvalid : namesOk = true → ∀ d d', TableValid part super.1 d → op d = .ok d' →
      TableValid part super.1 d')
    (hfile : ∀ d d' block i, FileAt d block i parentId name buffer size → op d = .ok d' →
      FileAt d' block i parentId name buffer size) :
    Stored (tableCall st drive namesOk op).2 p part super parentId name buffer size := by
  obtain ⟨st₁, ho, h₁, hdir, -⟩ := hh.openDirectory h.usable h.valid
  have hs₁ := h.of_keeps hbc h₁
  have hrun := call_outcome hm namesOk op
  rw [ho] at hrun
  generalize LainFS.tableCall st drive namesOk op = r at hrun ⊢
  cases hrun with
  | refused => exact h
  | failed => exact hs₁
  | done hnames hop =>
    obtain ⟨i, hi⟩ := hs₁.file
    have hv := hs₁.valid
    rw [tableView_of_open ho] at hi hv
    exact .of_buffer hs₁.usable (hvalid hnames _ _ hv hop) (hfile _ _ _ i hi hop)

variable {d₁ : Directory}

/-- The blocks of another file are none of those a save writes. -/
lemma SavePlan.lbas_apart {j : Fin maxFiles} {ys : List Extent}
    (h : SavePlan part super.1 d parentId name size i d₁ xs) (hj : j ≠ i)
    (hjf : (d j).used = entryFile) (hys : entryExtents (d j) = some ys) (hlba : lba ∈ fileLbas ys) :
    InData part super.1 lba ∧ lba ∉ fileLbas xs := by
  obtain ⟨-, -, -, -, -, hother, -⟩ := claim_fields h.sound h.claim
  obtain ⟨hfresh, -, -⟩ := h.fresh
  have hin := h.sound.extentsSound hjf hys
  have hsmall : ∀ zs, ExtentsSound super.1 part.blockCount zs → ∀ z ∈ zs,
      z.startLba.toNat + z.blocks.toNat < 2 ^ 32 :=
    fun zs hz z hmem => lt_of_le_of_lt (hz.inData z hmem).2 h.small
  have hapart := hfresh.apart j hj
  rw [hother j hj] at hapart
  obtain ⟨ys', hys', hap⟩ := hapart hjf
  rw [hys] at hys'
  cases hys'
  refine ⟨fileLbas_inData h.small hin hlba, fun hmem => ?_⟩
  refine fileLbas_disjoint (fun x hx => (hsmall xs hfresh.sound x hx).le)
    (fun y hy => (hsmall ys hin y hy).le) (fun x hx y hy => ?_) hmem hlba
  exact (overlap_eq_false (hsmall xs hfresh.sound x hx) (hsmall ys hin y hy)
    (hfresh.nonzero x hx) ((extents_spec hys).2.2.1 y hy)).mp (hap x hx y hy)

variable (hplan : SavePlan part super.1 st.directory parentId name size i d₁ xs)
include hplan

/-- A save that finds room succeeds. -/
lemma Healthy.writeBlocks (hh : Healthy st) (hu : Usable st.storage p part super) :
    (LainFS.writeBlocks p buffer size 0 (fileLbas xs) { st with directory := d }).1 = true := by
  refine writeBlocks_ok 0 hh.quiet hh.evictable fun lba hlba => hh.canWrite hu.partition ?_
  exact fileLbas_lt hplan.fresh.1.sound hlba

variable (hc : CacheAt st p) (hiso : Isolated st.storage p) (hu : Usable st.storage p part super)
  (hw : LainFS.writeBlocks p buffer size 0 (fileLbas xs) { st with directory := d₁.set i (fileEntry (d₁ i) name size xs) } = (true, st'))
include hc hiso hu hw

/-- What a save that finds room and writes its blocks leaves behind. -/
lemma savedFile_sound : Usable st'.storage p part super ∧
      st'.directory = d₁.set i (fileEntry (d₁ i) name size xs) ∧
      FileAt st'.directory (blockView st' p) i parentId name buffer size ∧
      (∀ j, j ≠ i → st'.directory j = st.directory j) ∧
      ∀ j ys lba, j ≠ i → (st.directory j).used = entryFile →
        entryExtents (st.directory j) = some ys → lba ∈ fileLbas ys →
        blockView st' p lba = blockView st p lba := by
  obtain ⟨-, -, -, -, -, hother, -⟩ := claim_fields hplan.sound hplan.claim
  obtain ⟨hk, hsame, hdata⟩ := writeFile_keeps hc hiso hu hplan hw
  have hdir : st'.directory = d₁.set i (fileEntry (d₁ i) name size xs) := hsame.directory
  have hfile := hplan.holdsFile
  rw [← set_self d₁ i (fileEntry (d₁ i) name size xs), ← hdir] at hfile
  refine ⟨hu.congr hk.tables hk.super, hdir, hfile.fileAt (hdata rfl), fun j hj => ?_,
    fun j ys lba hj hjf hys hlba => ?_⟩
  · rw [hdir, set_of_ne _ _ hj, hother j hj]
  · obtain ⟨hin, hnot⟩ := hplan.lbas_apart hj hjf hys hlba
    exact hk.block part super lba hu hin hnot

lemma savedFile (hnames : NamesDistinct st.directory) :
    Usable st'.storage p part super ∧ TableValid part super.1 st'.directory ∧
      FileAt st'.directory (blockView st' p) i parentId name buffer size ∧
      ∀ j parentId' name' buffer' size', j ≠ i →
        FileAt st.directory (blockView st p) j parentId' name' buffer' size' →
        FileAt st'.directory (blockView st' p) j parentId' name' buffer' size' := by
  obtain ⟨hu', hdir, hfile, hother, hblock⟩ := savedFile_sound hplan hc hiso hu hw
  refine ⟨hu', hdir ▸ saveEntry_valid hplan hnames, hfile,
    fun j parentId' name' buffer' size' hj hf => ?_⟩
  have hf' := hf.congr_block fun ys hys lba hlba => hblock j ys lba hj hf.used hys hlba
  have hsame := hother j hj
  exact ⟨by rw [hsame, hf'.used], by rw [hsame, hf'.parent], by rw [hsame, hf'.named],
    by rw [hsame, hf'.byteSize], by rw [hsame]; exact hf'.data⟩

end

/-! ### Runs -/

/-- The entry a call saves, deletes or renames. -/
def TableCall.subject : TableCall → Option (UInt32 × List UInt8)
  | makeDir _ _ _ => none
  | delete _ parentId name => some (parentId, name.bytes)
  | rename _ oldParentId oldName _ _ => some (oldParentId, oldName.bytes)
  | save _ parentId name _ _ => some (parentId, name.bytes)

namespace FileCall

/-- The call neither saves nor deletes nor renames the entry. -/
def Avoids (st : State) (p parentId : UInt32) (name : List UInt8) : FileCall → Prop
  | table call => mountForDrive st call.drive = some p → call.subject ≠ some (parentId, name)
  | _ => True

/-- A save on the partition that claims a new slot finds room for the file. -/
def HasRoom (st : State) (p : UInt32) : FileCall → Prop
  | table (.save drive parentId name _ size) =>
    mountForDrive st drive = some p → validName name.bytes = true → size ≤ fileCapacity →
      ∀ part super i d₁, Usable st.storage p part super →
        claimSlot (tableView st p super) parentId name.bytes = .ok (i, d₁) →
        (tableView st p super i).used = 0 →
        (findFreeExtents (some part) super.1 (requiredBlocks size) i d₁).isSome = true
  | _ => True

def runAll (st : State) : List FileCall → State
  | [] => st
  | call :: rest => runAll (call.run st) rest

/-- Every call of the run meets the condition in the state before it. -/
def Always (P : State → FileCall → Prop) : State → List FileCall → Prop
  | _, [] => True
  | st, call :: rest => P st call ∧ Always P (call.run st) rest

end FileCall

section

variable {st st' : State} {p : UInt32} {part : Partition} {super : CheckedSuper}
  {parentId : UInt32} {name : List UInt8} {buffer : ℕ → UInt8} {size : UInt32}

section

variable (h : Stored st p part super parentId name buffer size) (hh : Healthy st)
include h hh

lemma Stored.save {parentId' : UInt32} {name' : CString} {buffer' : ℕ → UInt8} {size' : UInt32}
    (hbc : part.blockCount.toNat < 2 ^ 32) (hm : mountForDrive st drive = some p)
    (havoid : ¬ (parentId' = parentId ∧ name'.bytes = name))
    (hroom : FileCall.HasRoom st p (.table (.save drive parentId' name' buffer' size'))) :
    Stored (lainfsSaveFileInDir st drive parentId' name' buffer' size').2 p part super parentId
      name buffer size := by
  obtain ⟨st₁, ho, h₁, hdir, hh₁⟩ := hh.openDirectory h.usable h.valid
  have hs₁ := h.of_keeps hbc h₁
  have hrun := saveFile_outcome hm parentId' name' buffer' size'
  rw [ho] at hrun
  generalize lainfsSaveFileInDir st drive parentId' name' buffer' size' = r at hrun ⊢
  cases hrun with
  | refused => exact h
  | unclaimed => exact hs₁
  | @full _ _ j d₁ hname hsize hclaim hext =>
    -- no room, so the file existed and the table is as before
    rw [hs₁.usable.partition] at hext
    rw [hdir] at hclaim
    have hused : (tableView st p super j).used ≠ 0 := by
      intro h0
      have := hroom hm hname (UInt32.le_iff_toNat_le.mpr hsize) part super j d₁ h.usable hclaim h0
      rw [hext] at this
      cases this
    obtain ⟨-, ⟨-, -, hd₁⟩ | ⟨-, h0, -⟩⟩ := claim_eq_ok hclaim
    · rw [hd₁, ← hdir]
      exact hs₁
    · exact absurd h0 hused
  | @written _ _ _ _ _ ok _ hname hsize hclaim hext hw =>
    obtain ⟨i, hi⟩ := hs₁.file
    have hv := hs₁.valid
    rw [tableView_of_open ho] at hi hv
    rw [hs₁.usable.partition] at hext
    have hplan : SavePlan part super.1 st₁.directory parentId' name'.bytes size' _ _ _ :=
      ⟨hbc, hv.sound, hname, name'.nonzero, hsize, hclaim, hext⟩
    obtain rfl : true = ok := by rw [← hh₁.writeBlocks hplan hs₁.usable, hw]
    obtain ⟨hu, hv', -, hother⟩ := savedFile hplan (hh₁.cache p) (hh₁.isolated p) hs₁.usable hw
      hv.names
    exact .of_buffer hu hv' (hother i _ _ _ _ (hi.ne_of_claim havoid hclaim).symm hi)

lemma Stored.step {call : FileCall} (hsmall : Small st.storage p)
    (havoid : call.Avoids st p parentId name) (hroom : call.HasRoom st p) :
    Stored (call.run st) p part super parentId name buffer size := by
  have hbc := hsmall part h.usable.partition
  by_cases hne : call.target st ≠ some p
  · exact h.of_keeps hbc (FileCall.keeps_other (hh.cache p) (hh.isolated p) hne)
  rw [not_not] at hne
  obtain ⟨st₁, ho, -⟩ := hh.openDirectory h.usable h.valid
  cases call with
  | table call =>
    have hsubject := havoid hne
    cases call with
    | makeDir drive parentId' name' =>
      rw [FileCall.run, TableCall.run, lainfsMakeDirInDir]
      exact h.tableCall hh hbc hne
        (fun hn d d' hv hop => makeDirEntry_valid hv hn name'.nonzero hop)
        fun d d' block i hi hop => hi.makeDirEntry hop
    | delete drive parentId' name' =>
      have hother : ¬ (parentId' = parentId ∧ name'.bytes = name) :=
        fun heq => hsubject (by rw [subject, heq.1, heq.2])
      rw [FileCall.run, TableCall.run, lainfsDeleteInDir]
      exact h.tableCall hh hbc hne (fun _ d d' hv hop => deleteEntry_valid hv hop)
        fun d d' block i hi hop => hi.deleteEntry hother hop
    | rename drive oldParentId oldName newParentId newName =>
      have hother : ¬ (oldParentId = parentId ∧ oldName.bytes = name) :=
        fun heq => hsubject (by rw [subject, heq.1, heq.2])
      rw [FileCall.run, TableCall.run, lainfsRenameInDir]
      refine h.tableCall hh hbc hne (fun hn d d' hv hop => ?_)
        fun d d' block i hi hop => hi.renameEntry hother hop
      rw [Bool.and_eq_true] at hn
      exact renameEntry_valid hv hn.2 newName.nonzero hop
    | save drive parentId' name' buffer' size' =>
      have hother : ¬ (parentId' = parentId ∧ name'.bytes = name) :=
        fun heq => hsubject (by rw [subject, heq.1, heq.2])
      exact h.save hh hbc hne hother hroom
  | load drive parentId' name' bufferSize =>
    rcases loadFile_keeps (hh.cache p) (hh.isolated p) (fun _ => hsmall) parentId' name'
      bufferSize with hk | ⟨-, e, ho'⟩
    · exact h.of_keeps hbc hk
    · rw [ho] at ho'
      cases ho'
  | list drive parentId' =>
    rcases listDir_keeps (hh.cache p) (hh.isolated p) parentId' with hk | ⟨-, e, ho'⟩
    · exact h.of_keeps hbc hk
    · rw [ho] at ho'
      cases ho'
  | check drive => exact h.of_keeps hbc (check_keeps (hh.cache p) (hh.isolated p) drive)
  | flush drive => cases hne
  | flushAll => cases hne

end

lemma Healthy.runAll (hh : Healthy st) (hsmall : ∀ q, Small st.storage q) (calls : List FileCall) :
    Healthy (FileCall.runAll st calls) ∧
      SameTables st.storage (FileCall.runAll st calls).storage := by
  induction calls generalizing st with
  | nil => exact ⟨hh, .refl _⟩
  | cons call rest ih =>
    have ht := hh.sameTables call
    obtain ⟨hh', ht'⟩ := ih (hh.run hsmall call) fun q => (hsmall q).congr ht
    exact ⟨hh', ht.trans ht'⟩

lemma Stored.runAll (h : Stored st p part super parentId name buffer size) (hh : Healthy st)
    (hsmall : ∀ q, Small st.storage q)
    (havoid : FileCall.Always (fun s call => call.Avoids s p parentId name) st calls)
    (hroom : FileCall.Always (fun s call => call.HasRoom s p) st calls) :
    Stored (FileCall.runAll st calls) p part super parentId name buffer size := by
  induction calls generalizing st with
  | nil => exact h
  | cons call rest ih =>
    exact ih (h.step hh (hsmall p) havoid.1 hroom.1) (hh.run hsmall call)
      (fun q => (hsmall q).congr (hh.sameTables call)) havoid.2 hroom.2

/-- After a save the file is there. -/
lemma Healthy.saved (hh : Healthy st) (hsmall : Small st.storage p)
    (hm : mountForDrive st drive = some p) (hvalid : ∀ part super, Usable st.storage p part super →
      TableValid part super.1 (tableView st p super))
    (hsave : lainfsSaveFileInDir st drive parentId cname buffer size = (0, st')) :
    validName cname.bytes = true ∧
      ∃ part super, Stored st' p part super parentId cname.bytes buffer size := by
  have hrun := saveFile_outcome hm parentId cname buffer size
  cases ho : LainFS.openDirectory st p with
  | mk result st₁ =>
  rw [ho, hsave] at hrun
  generalize hr : ((0, st') : ℤ × State) = r at hrun
  cases hrun with
  | refused => cases hr
  | unopened hne =>
    cases hr
    exact absurd rfl hne
  | unclaimed _ _ hclaim =>
    cases hr
    exact absurd rfl (claim_error_ne hclaim)
  | full => cases hr
  | @written super _ _ _ _ ok _ hname hsize hclaim hext hw =>
    rcases ok with _ | _
    · cases hr
    cases hr
    obtain ⟨h₁, hdir, part, hu, -⟩ := open_own (hh.cache p) (hh.isolated p) ho
    have hpart := (h₁.tables.getPartition p).symm.trans hu.partition
    have hv : TableValid part super.1 st₁.directory := by
      rw [hdir]
      exact hvalid part super ⟨hpart, h₁.super.symm.trans hu.onDisk, hu.layout⟩
    rw [hu.partition] at hext
    obtain ⟨hu', hv', hfile, -⟩ := savedFile
      ⟨hsmall part hpart, hv.sound, hname, cname.nonzero, hsize, hclaim, hext⟩ h₁.cache
      ((hh.isolated p).congr h₁.tables) hu hw hv.names
    exact ⟨hname, part, super, .of_buffer hu' hv' hfile⟩

/-- A stored file is loaded with all its bytes. -/
lemma Stored.load {bufferSize : UInt32}
    (h : Stored st p part super parentId cname.bytes buffer size) (hh : Healthy st)
    (hm : mountForDrive st drive = some p) (hname : validName cname.bytes = true)
    (hbuffer : max size.toNat 1 ≤ bufferSize.toNat) :
    (lainfsLoadFileInDir st drive parentId cname bufferSize).1 =
      ⟨0, size, (List.range size.toNat).map buffer⟩ := by
  have hheld := h.usable.heldTable_eq h.valid.accepted
  obtain ⟨i, hi⟩ := h.file
  have hs := (h.valid.sound.entry i).resolve_left (by rw [hi.used]; decide)
  have hparent : validDirId (tableView st p super) parentId = true := by
    rw [← hi.parent, validDirId]
    split_ifs with hroot hle
    · rfl
    · exact absurd hs.parent.le (not_le.mpr hle)
    · simpa using hs.parent.isDir hroot
  have hcap := (hs.file hi.used).1
  obtain ⟨xs, hxs, hdata⟩ := hi.data
  have hbytes := size_le_blocks hxs hcap
  rw [hi.byteSize] at hcap hbytes
  have harg : ¬ (validName cname.bytes = false ∨ bufferSize = 0) := by
    rintro (hbad | rfl)
    · rw [hname] at hbad
      cases hbad
    · exact absurd (le_trans (le_max_right _ _) hbuffer) (by decide)
  have hfits : ¬ (size > fileCapacity ∨ size > bufferSize) := by
    simp only [gt_iff_lt, UInt32.lt_iff_toNat_lt]
    omega
  rw [loadFile_eq (hh.readable p) hm, hheld]
  unfold loadOf
  rw [if_neg harg]
  dsimp only
  rw [hparent, if_neg (by decide), hi.findFileInDir h.valid.names]
  dsimp only
  rw [hi.byteSize, if_neg hfits, hxs]
  dsimp only
  rw [bytesOf_fileBlock (k := 0) fun j lba hj => by rw [hdata j lba hj, zero_add]]
  rw [mul_zero, Nat.sub_zero, min_eq_left hbytes, range_eq_range']

end

/-! ### An example -/

/-- The volume after a start of the machine: nothing is cached. -/
def freshVolume (blockCount : UInt64) : State :=
  { storage := oneVolume blockCount
    directory := empty
    superCache := none
    directoryTag := none
    dataCache := fun _ => none
    cacheClock := 0 }

lemma one_partition {q : UInt32} (h : storageGetPartition (oneVolume blockCount) q = some part) :
    q = 0 ∧ part = volumePartition blockCount := by
  by_cases hq : q = 0
  · subst hq
    exact ⟨rfl, (some_inj.mp h).symm⟩
  have hq' : 0 < q.toNat := toNat_pos hq
  have hnone : (oneVolume blockCount).partitions[q.toNat]? = none :=
    getElem?_eq_none (Nat.succ_le_of_lt hq')
  rw [storageGetPartition, hnone] at h
  cases h

lemma fresh_healthy (h : blockCount.toNat ≤ 6144) : Healthy (freshVolume blockCount) := by
  refine ⟨fun _ => rfl, fun q => ⟨fun r part hr => ?_, fun r part part' hne hq hr => ?_⟩,
    fun q part hq => ?_, cacheAt_of_empty rfl rfl fun _ => rfl⟩
  · obtain ⟨rfl, rfl⟩ := one_partition hr
    refine ⟨_, rfl, rfl, ?_⟩
    change 2048 + blockCount.toNat ≤ 8192
    omega
  · obtain ⟨rfl, -⟩ := one_partition hq
    exact absurd (one_partition hr).1 hne
  · obtain ⟨-, rfl⟩ := one_partition hq
    exact ⟨_, rfl, rfl⟩

lemma fresh_small (h : blockCount.toNat ≤ 6144) (q : UInt32) :
    Small (freshVolume blockCount).storage q := by
  intro part hq
  obtain ⟨-, rfl⟩ := one_partition hq
  exact lt_of_le_of_lt h (by decide)

section

variable {blockCount : UInt64} (hl : ¬ layoutIsBad formatSuper blockCount)
include hl

lemma fresh_usable :
    Usable (freshVolume blockCount).storage 0 (volumePartition blockCount) checkedFormatSuper ∧
      tableView (freshVolume blockCount) 0 checkedFormatSuper = empty := by
  have hpart : storageGetPartition (oneVolume blockCount) 0 = some (volumePartition blockCount) := rfl
  have hend : 257 < blockCount.toNat :=
    (bounds_of_layout (show ¬ layoutIsBad checkedFormatSuper.1 blockCount from hl)).2.2
  refine ⟨⟨rfl, diskSuper_eq_some ?_, hl⟩, ?_⟩
  · exact partSector_of_lt hpart (Nat.lt_of_le_of_lt (Nat.zero_le _) hend)
  change diskDirectory (oneVolume blockCount) 0 checkedFormatSuper = _
  rw [diskDirectory, ← ofSectors_zero]
  refine ofSectors_congr fun k hk => ?_
  have hk' : 1 + k < blockCount.toNat := by
    rw [dirBlocks] at hk
    omega
  change partSector (oneVolume blockCount) 0 (1 + k) = Sector.zero
  rw [partSector_of_lt hpart hk']
  exact if_neg (by change 2048 + (1 + k) ≠ 2048; omega)

lemma fresh_valid (part : Partition) (super : CheckedSuper)
    (hu : Usable (freshVolume blockCount).storage 0 part super) :
    TableValid part super.1 (tableView (freshVolume blockCount) 0 super) := by
  obtain ⟨hu', hview⟩ := fresh_usable hl
  obtain rfl := some_inj.mp (hu.partition.symm.trans hu'.partition)
  obtain rfl := some_inj.mp (hu.onDisk.symm.trans hu'.onDisk)
  rw [hview]
  exact tableValid_empty hl

/-- Saving a file of one block on a fresh volume. -/
lemma fresh_saveFile {cname : CString} {size : UInt32} (hsmall : blockCount.toNat ≤ 6144)
    (harg : ¬ (validName cname.bytes = false ∨ size > fileCapacity))
    (hblocks : requiredBlocks size = 1) (buffer : ℕ → UInt8) :
    ∃ st', lainfsSaveFileInDir (freshVolume blockCount) 0x43 rootDir cname buffer size = (0, st') ∧
      Opened st' 0 checkedFormatSuper ∧
      st'.directory =
        Directory.single (fileEntry (claimedEntry rootDir) cname.bytes size [⟨257, 1⟩]) ∧
      SameTables (oneVolume blockCount) st'.storage := by
  have hend : 257 < blockCount.toNat :=
    (bounds_of_layout (show ¬ layoutIsBad checkedFormatSuper.1 blockCount from hl)).2.2
  have hbc : blockCount.toNat < 2 ^ 32 := by omega
  obtain ⟨hu, hview⟩ := fresh_usable hl
  obtain ⟨st₁, ho, h₁, hdir, hh₁⟩ := (fresh_healthy hsmall).openDirectory hu
    (by rw [hview]; exact tableValid_empty hl)
  rw [hview] at hdir
  have hu₁ := hu.congr h₁.tables h₁.super
  have hclaim := claim_empty hdir cname.bytes
  have hext := @freeExtents_claimed (volumePartition blockCount) hend _ hblocks
  have hok := harg
  rw [not_or, Bool.not_eq_false, gt_iff_lt, UInt32.lt_iff_toNat_lt, not_lt] at hok
  have hplan : SavePlan (volumePartition blockCount) checkedFormatSuper.1 st₁.directory rootDir
      cname.bytes size _ _ _ :=
    ⟨hbc, hdir ▸ sound_empty hl, hok.1, cname.nonzero, hok.2, hclaim, hext⟩
  rw [saveFile_of_open rfl ho harg hclaim, hu₁.partition, hext]
  dsimp only
  rw [Directory.set_set, Directory.set_self, ← Directory.single]
  generalize Directory.single (fileEntry (claimedEntry rootDir) cname.bytes size [⟨257, 1⟩]) = d
  have hw : (writeBlocks 0 buffer size 0 (fileLbas [⟨257, 1⟩]) { st₁ with directory := d }).1 =
      true := hh₁.writeBlocks hplan hu₁
  generalize hr : writeBlocks 0 buffer size 0 (fileLbas [⟨257, 1⟩]) { st₁ with directory := d } = r
    at hw
  obtain ⟨ok, st₃⟩ := r
  obtain rfl : ok = true := hw
  have hsame := writeBlocks_sameMeta hr
  have ho₃ := ((open_opened ho).1.setDirectory d).congr hsame
  exact ⟨_, rfl, ⟨ho₃.super, true, rfl⟩, hsame.directory, h₁.tables.trans hsame.tables⟩

/-- Saving one byte as `a` on a fresh volume. -/
lemma fresh_save (hsmall : blockCount.toNat ≤ 6144) (buffer : ℕ → UInt8) :
    ∃ st', lainfsSaveFileInDir (freshVolume blockCount) 0x43 rootDir nameA buffer 1 = (0, st') ∧
      Opened st' 0 checkedFormatSuper ∧ st'.directory = single smallFile ∧
      SameTables (oneVolume blockCount) st'.storage := by
  have hentry : fileEntry (claimedEntry rootDir) nameA.bytes 1 [⟨257, 1⟩] = smallFile := by decide
  have hsave := @fresh_saveFile blockCount hl nameA 1 hsmall (by decide) (by decide) buffer
  rwa [hentry] at hsave

end

/-! ### Main result -/

variable {st st' : State} {p : UInt32} {parentId : UInt32} {buffer : ℕ → UInt8} {size : UInt32}

/-- After a save and a run of later calls that leave its entry alone, the file is there. -/
lemma Healthy.saved_runAll (hh : Healthy st) (hsmall : ∀ q, Small st.storage q)
    (hm : mountForDrive st drive = some p) (hvalid : ∀ part super, Usable st.storage p part super →
      TableValid part super.1 (tableView st p super))
    (hsave : lainfsSaveFileInDir st drive parentId cname buffer size = (0, st'))
    (havoid : FileCall.Always (fun s call => call.Avoids s p parentId cname.bytes) st' calls)
    (hroom : FileCall.Always (fun s call => call.HasRoom s p) st' calls) :
    validName cname.bytes = true ∧ Healthy (FileCall.runAll st' calls) ∧
      mountForDrive (FileCall.runAll st' calls) drive = some p ∧
      ∃ part super, Stored (FileCall.runAll st' calls) p part super parentId cname.bytes buffer size := by
  obtain ⟨hname, part, super, hstored⟩ := hh.saved (hsmall p) hm hvalid hsave
  have hrun : FileCall.run st (.table (.save drive parentId cname buffer size)) = st' := by
    rw [FileCall.run, TableCall.run, hsave]
  have hh' : Healthy st' := hrun ▸ hh.run hsmall _
  have ht : SameTables st.storage st'.storage := hrun ▸ hh.sameTables _
  have hsmall' : ∀ q, Small st'.storage q := fun q => (hsmall q).congr ht
  obtain ⟨hh'', ht'⟩ := hh'.runAll hsmall' calls
  refine ⟨hname, hh'', ?_, part, super, hstored.runAll hh' hsmall' havoid hroom⟩
  rw [mountForDrive, (ht.trans ht').getMountByDrive]
  exact hm

/-- A file that was saved is read back after any run of later calls that leave its entry alone, as
long as every save on its volume that claims a new slot finds room. -/
theorem load_after_run {drive : UInt8} {cname : CString} {bufferSize : UInt32}
    {calls : List FileCall} (hh : Healthy st) (hsmall : ∀ q, Small st.storage q)
    (hm : mountForDrive st drive = some p)
    (hvalid : ∀ part super, Usable st.storage p part super →
      TableValid part super.1 (tableView st p super))
    (hsave : lainfsSaveFileInDir st drive parentId cname buffer size = (0, st'))
    (havoid : FileCall.Always (fun s call => call.Avoids s p parentId cname.bytes) st' calls)
    (hroom : FileCall.Always (fun s call => call.HasRoom s p) st' calls)
    (hbuffer : max size.toNat 1 ≤ bufferSize.toNat) :
    (lainfsLoadFileInDir (FileCall.runAll st' calls) drive parentId cname bufferSize).1 =
      ⟨0, size, (List.range size.toNat).map buffer⟩ := by
  obtain ⟨hname, hh', hm', part, super, hstored⟩ :=
    hh.saved_runAll hsmall hm hvalid hsave havoid hroom
  exact hstored.load hh' hm' hname hbuffer

/-- One byte is saved, a directory is made and all is flushed before the byte is read back. -/
theorem load_after_makeDir_flush :
    ∃ st', lainfsSaveFileInDir (freshVolume 300) 0x43 rootDir nameA (fun _ => 7) 1 = (0, st') ∧
      (lainfsLoadFileInDir (FileCall.runAll st'
        [.table (.makeDir 0x43 rootDir nameB), .flushAll]) 0x43 rootDir nameA 1).1
        = ⟨0, 1, [7]⟩ := by
  have hl : ¬ layoutIsBad formatSuper 300 := by decide
  obtain ⟨st', hsave, -⟩ := fresh_save hl (by decide) fun _ => 7
  refine ⟨st', hsave, ?_⟩
  have havoid : FileCall.Always (fun s call => call.Avoids s 0 rootDir nameA.bytes) st'
      [.table (.makeDir 0x43 rootDir nameB), .flushAll] :=
    ⟨fun _ h => (some_ne_none _) h.symm, trivial, trivial⟩
  exact load_after_run (fresh_healthy (by decide)) (fresh_small (by decide)) rfl
    (fresh_valid hl) hsave havoid ⟨trivial, trivial, trivial⟩ (by decide)

/-- On a volume with one data sector the file `a` is saved there. Saving `b` then fails for lack of
space, and `a` cannot be loaded any more. -/
theorem save_load_on_full_fails :
    Healthy (freshVolume 258) ∧ (∀ q, Small (freshVolume 258).storage q) ∧
      (∀ part super, Usable (freshVolume 258).storage 0 part super →
        TableValid part super.1 (tableView (freshVolume 258) 0 super)) ∧
      ∃ st', lainfsSaveFileInDir (freshVolume 258) 0x43 rootDir nameA (fun _ => 7) 1 = (0, st') ∧
        (lainfsSaveFileInDir st' 0x43 rootDir nameB (fun _ => 0) 1).1 = -9 ∧
        (lainfsLoadFileInDir (FileCall.runAll st'
          [.table (.save 0x43 rootDir nameB (fun _ => 0) 1)]) 0x43 rootDir nameA 1).1
          = ⟨-4, 0, []⟩ := by
  have hl : ¬ layoutIsBad formatSuper 258 := by decide
  obtain ⟨st', hsave, hopened, hdir, htables⟩ := fresh_save hl (by decide) fun _ => 7
  have hmount : mountForDrive st' 0x43 = some 0 := by
    rw [mountForDrive, htables.getMountByDrive]
    rfl
  obtain ⟨hfail, st₂, hopen⟩ := save_beside_smallFile hopened hmount
    ((htables.getPartition 0).trans rfl) hdir fun _ => 0
  refine ⟨fresh_healthy (by decide), fresh_small (by decide), fresh_valid hl, st', hsave, by rw [hfail], ?_⟩
  rw [FileCall.runAll, FileCall.runAll, FileCall.run, TableCall.run, hfail, lainfsLoadFileInDir,
    show mountForDrive { st' with directory := claimedBeside } 0x43 = some 0 from hmount]
  dsimp only
  rw [if_neg (by decide), hopen]

/-! ### Two volumes -/

/-- An MBR with two LainFS partitions of 300 sectors each. -/
def twoEntries : Sector := fun i =>
  if i.val = 450 ∨ i.val = 466 then 0x99
  else if i.val = 455 then 0x08
  else if i.val = 471 then 0x10
  else if i.val = 458 ∨ i.val = 474 then 0x2C
  else if i.val = 459 ∨ i.val = 475 then 0x01
  else if i.val = 510 then 0x55
  else if i.val = 511 then 0xAA
  else 0

/-- Two empty volumes on one device, mounted as drives C and D. -/
def twoVolumes : Storage.State :=
  { blockDevices := [⟨true, [0x64], 512, 8192, true, true⟩]
    disk := fun _ l =>
      if l = 0 then twoEntries
      else if l = 2048 ∨ l = 4096 then sectorOfSuper formatSuper
      else Sector.zero
    partitions := [⟨true, [0x64, 0x70, 0x31], 0, 1, 2048, 300, 0x99, .lainfs⟩,
      ⟨true, [0x64, 0x70, 0x32], 0, 2, 4096, 300, 0x99, .lainfs⟩]
    mounts := fun i =>
      if i = 2 then ⟨true, 0x43, 0, [0x64, 0x70, 0x31], some .lainfs⟩
      else if i = 3 then ⟨true, 0x44, 1, [0x64, 0x70, 0x32], some .lainfs⟩
      else ⟨false, 0x41 + UInt8.ofNat i.val, 0, [], none⟩
    faults := fun _ => none
    accesses := 0 }

/-- The volumes with a table `d` of the first one in the buffer, if there is one. -/
def twoVolumesWith (d : Directory) (tag : Option DirectoryTag) : State :=
  { storage := twoVolumes
    directory := d
    superCache := some (0, checkedFormatSuper)
    directoryTag := tag
    dataCache := fun _ => none
    cacheClock := 0 }

lemma two_usable : Usable twoVolumes 0 (volumePartition 300) checkedFormatSuper := by
  exact ⟨rfl, diskSuper_eq_some rfl, by decide⟩

lemma two_partition {r : UInt32} (h : storageGetPartition twoVolumes r = some part) :
    (r = 0 ∧ part.startLba = 2048 ∨ r = 1 ∧ part.startLba = 4096) ∧ part.deviceIndex = 0 ∧
      part.blockCount = 300 := by
  by_cases h0 : r = 0
  · subst h0
    cases h
    decide
  by_cases h1 : r = 1
  · subst h1
    cases h
    decide
  have hr : 2 ≤ r.toNat := by
    have h0' : r.toNat ≠ 0 := fun h => h0 (UInt32.toNat_inj.mp h)
    have h1' : r.toNat ≠ 1 := fun h => h1 (UInt32.toNat_inj.mp h)
    omega
  have hnone : twoVolumes.partitions[r.toNat]? = none := List.getElem?_eq_none hr
  rw [storageGetPartition, hnone] at h
  cases h

lemma twoWith_healthy (d : Directory) {tag : Option DirectoryTag}
    (htag : ∀ r, tag = some ⟨r, true⟩ → r = 0) : Healthy (twoVolumesWith d tag) := by
  refine ⟨fun _ => rfl, fun r => ⟨fun r' part hr => ?_, fun r' part part' hne hr hr' => ?_⟩,
    fun r part hr => ?_, fun r => cacheAt_of_no_lines (fun _ => rfl) (fun super hs => ?_) fun hd => ?_⟩
  · obtain ⟨hstart, hdev, hcount⟩ := two_partition hr
    refine ⟨⟨true, [0x64], 512, 8192, true, true⟩, by rw [hdev]; rfl, rfl, ?_⟩
    rcases hstart with ⟨-, hstart⟩ | ⟨-, hstart⟩ <;> rw [hstart, hcount] <;> decide
  · obtain ⟨hstart, -, hcount⟩ := two_partition hr
    obtain ⟨hstart', -, hcount'⟩ := two_partition hr'
    rw [Apart, hcount, hcount']
    rcases hstart with ⟨h0, hs⟩ | ⟨h0, hs⟩ <;> rcases hstart' with ⟨h1, hs'⟩ | ⟨h1, hs'⟩
    · exact absurd (h1.trans h0.symm) hne
    · rw [hs, hs']
      exact .inr (.inl (by decide))
    · rw [hs, hs']
      exact .inr (.inr (by decide))
    · exact absurd (h1.trans h0.symm) hne
  · obtain ⟨-, hdev, -⟩ := two_partition hr
    exact ⟨⟨true, [0x64], 512, 8192, true, true⟩, by rw [hdev]; rfl, rfl⟩
  · cases hs
    exact two_usable.onDisk
  · obtain rfl := htag r hd
    exact ⟨_, _, two_usable⟩

def secondPartition : Partition := ⟨true, [0x64, 0x70, 0x32], 0, 2, 4096, 300, 0x99, .lainfs⟩

/-- The second volume is usable, too, and its table on the disk is empty. -/
lemma two_usable_second :
    Usable twoVolumes 1 secondPartition checkedFormatSuper ∧
      diskDirectory twoVolumes 1 checkedFormatSuper = empty := by
  refine ⟨⟨rfl, diskSuper_eq_some rfl, by decide⟩, ?_⟩
  rw [diskDirectory, ← ofSectors_zero]
  refine ofSectors_congr fun k hk => ?_
  rw [dirBlocks] at hk
  change partSector twoVolumes 1 (1 + k) = Sector.zero
  rw [partSector_of_lt (show storageGetPartition twoVolumes 1 = some secondPartition from rfl)
    (show 1 + k < 300 by omega)]
  change (if 4096 + (1 + k) = 0 then twoEntries
    else if 4096 + (1 + k) = 2048 ∨ 4096 + (1 + k) = 4096 then sectorOfSuper formatSuper
    else Sector.zero) = _
  rw [if_neg (by omega), if_neg (by omega)]

/-- No call changes the mount table, so that it can be asked before the first call which partition
each of them is for. -/
lemma FileCall.always_target (hc : CacheAt st p) (hiso : Isolated st.storage p)
    (h : ∀ call ∈ calls, call.target st ≠ some p) :
    FileCall.Always (fun s call => call.target s ≠ some p) st calls := by
  induction calls generalizing st with
  | nil => trivial
  | cons call rest ih =>
    have hkeeps := FileCall.keeps_other hc hiso (h call mem_cons_self)
    refine ⟨h call mem_cons_self, ih hkeeps.cache (hiso.congr hkeeps.tables) fun call' hcall => ?_⟩
    have hmount (drive : UInt8) : mountForDrive (call.run st) drive = mountForDrive st drive := by
      rw [mountForDrive, mountForDrive, hkeeps.tables.getMountByDrive]
    have htarget : call'.target (call.run st) = call'.target st := by
      cases call' <;> simp only [FileCall.target, hmount]
    rw [htarget]
    exact h call' (mem_cons_of_mem call hcall)

/-- Whatever is called for other volumes, on devices that may fail, a partition keeps its superblock,
its data and, while the buffer agrees with it, its directory. -/
theorem runAll_keeps_other (hc : CacheAt st p) (hiso : Isolated st.storage p)
    (hother : FileCall.Always (fun s call => call.target s ≠ some p) st calls) :
    Keeps p ∅ st (FileCall.runAll st calls) := by
  induction calls generalizing st with
  | nil => exact .refl hc ∅
  | cons call rest ih =>
    have hkeeps := FileCall.keeps_other hc hiso hother.1
    exact hkeeps.trans (ih hkeeps.cache (hiso.congr hkeeps.tables) hother.2)

/-- C has a directory `a` that is not on the disk yet. A directory `b` is made on D and D is
flushed. -/
theorem keeps_other_two :
    let st := twoVolumesWith (single (newDirEntry rootDir nameA.bytes)) (some ⟨0, true⟩)
    let st' := FileCall.runAll st [.table (.makeDir 0x44 rootDir nameB), .flush 0x44, .list 0x44 0]
    (lainfsMakeDirInDir st 0x44 rootDir nameB).1 = 0 ∧ Keeps 0 ∅ st st' ∧
      tableView st' 0 checkedFormatSuper = single (newDirEntry rootDir nameA.bytes) := by
  intro st st'
  have hh : Healthy st := twoWith_healthy _ fun r hr => by
    cases hr
    rfl
  have hmake : (lainfsMakeDirInDir st 0x44 rootDir nameB).1 = 0 := by
    obtain ⟨hu, hempty⟩ := two_usable_second
    obtain ⟨st₁, ho, -, hdir, -⟩ := hh.openDirectory hu
      (show TableValid _ _ (diskDirectory twoVolumes 1 checkedFormatSuper) by
        rw [hempty]
        exact ⟨validate_eq_none.mpr (sound_empty (by decide)), fun _ _ hi => absurd rfl hi⟩)
    replace hdir : st₁.directory = empty := hdir.trans hempty
    rw [lainfsMakeDirInDir, show validName nameB.bytes = true by decide, call_of_open rfl ho, hdir,
      makeDirEntry, if_neg (by decide), if_neg (by rw [findEntry_empty]; decide), freeEntry_empty]
  have hkeeps : Keeps 0 ∅ st st' := runAll_keeps_other (hh.cache 0) (hh.isolated 0)
    (FileCall.always_target (hh.cache 0) (hh.isolated 0) (by decide))
  have hclean : CleanAt st 0 := fun htag => by cases htag
  exact ⟨hmake, hkeeps, (hkeeps.table hclean).2 _ two_usable.onDisk⟩

end LainFS
