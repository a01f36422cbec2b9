import LainOS.LainFS.Seed
import LainOS.LainFS.ReadBack

/-!
# Seeded images

An image that the seed tool has written and that has at least one file in it is one the kernel
accepts: its table passes the validator, names are distinct, and every imported file is read back
along its path with the bytes it had on the host.
-/

namespace LainFS

open Storage WriteBack List Directory

variable {d : Directory} {e : Dirent} {i : Fin maxFiles} {k : ℕ} {lba size : UInt32}
  {blockCount : UInt64} {buffer : ℕ → UInt8} {dirs : List CString} {f : ImportedFile}
  {name : CString} {super : CheckedSuper}

namespace Seed

/-! ### What the tool keeps -/

/-- The sectors of the data partition. -/
def blockOf (image : ℕ → Sector) (lba : UInt32) : Sector := image (dataPartitionStartLba + lba.toNat)

/-- The only extent of an entry without extent words. -/
def firstExtent (e : Dirent) : Extent := ⟨e.startLba, allocatedBlocksForEntry e⟩

/-- Every file has one extent, which the allocation of the tool takes for granted. -/
def SingleExtents (d : Directory) : Prop :=
  ∀ i, (d i).used = entryFile → entryExtents (d i) = some [firstExtent (d i)]

lemma SingleExtents.set (h : SingleExtents d) (i : Fin maxFiles)
    (he : e.used = entryFile → entryExtents e = some [firstExtent e]) :
    SingleExtents (d.set i e) := by
  intro j hj
  by_cases hji : j = i
  · subst hji
    rw [set_self] at hj ⊢
    exact he hj
  · rw [set_of_ne _ _ hji] at hj ⊢
    exact h j hj

/-- The table is valid unless there is no data area, which the tool does not check. -/
structure Sound (part : Partition) (st : State) : Prop where
  count : st.blockCount = part.blockCount
  small : part.blockCount.toNat < 2 ^ 32
  single : SingleExtents st.directory
  table : ¬ layoutIsBad formatSuper part.blockCount → TableValid part formatSuper st.directory

/-- Nothing that is in the image gets lost. -/
structure Extends (st st' : State) : Prop where
  count : st'.blockCount = st.blockCount
  entry : ∀ i, (st.directory i).used ≠ 0 → st'.directory i = st.directory i
  file : ∀ i parentId name buffer size,
    FileAt st.directory (blockOf st.image) i parentId name buffer size →
    FileAt st'.directory (blockOf st'.image) i parentId name buffer size
  front : ∀ l < dataPartitionStartLba + formatSuper.dataStartLba.toNat, st'.image l = st.image l

namespace Extends

variable {st st' st'' : State}

lemma refl (st : State) : Extends st st :=
  ⟨rfl, fun _ _ => rfl, fun _ _ _ _ _ h => h, fun _ _ => rfl⟩

lemma trans (h : Extends st st') (h' : Extends st' st'') : Extends st st'' := by
  refine ⟨h'.count.trans h.count, fun i hi => ?_, fun i parentId name buffer size hf => ?_,
    fun l hl => (h'.front l hl).trans (h.front l hl)⟩
  · have hi' := h.entry i hi
    rw [h'.entry i (by rwa [hi']), hi']
  · exact h'.file i parentId name buffer size (h.file i parentId name buffer size hf)

lemma validDirId (h : Extends st st') {id : UInt32}
    (hid : LainFS.validDirId st.directory id = true) :
    LainFS.validDirId st'.directory id = true := by
  rcases validDirId_eq_true hid with rfl | ⟨k, rfl, hk⟩
  · rfl
  · refine validDirId_of_dir ?_
    rw [h.entry k (by rw [hk]; decide), hk]

end Extends

/-! ### Directories -/

/-- The directory of that name, by its id. -/
def DirAt (d : Directory) (parentId : UInt32) (name : List UInt8) (id : UInt32) : Prop :=
  ∃ i, id = entryIdFromIndex i ∧ (d i).used = entryDir ∧ entryParentId (d i) = parentId ∧
    entryName (d i) = name

section

variable {part : Partition} {st st' : State} {parentId id : UInt32}

lemma DirAt.extends (h : DirAt st.directory parentId name.bytes id) (hext : Extends st st') :
    DirAt st'.directory parentId name.bytes id := by
  obtain ⟨i, hid, hu, hp, hn⟩ := h
  have hi := hext.entry i (by rw [hu]; decide)
  exact ⟨i, hid, by rw [hi, hu], by rw [hi, hp], by rw [hi, hn]⟩

variable {bytes : List UInt8}

lemma DirAt.validDirId (h : DirAt d parentId bytes id) : LainFS.validDirId d id = true := by
  obtain ⟨i, rfl, hu, -⟩ := h
  exact validDirId_of_dir hu

lemma makeDir_cases (h : makeDir st parentId name = some (st', id)) : validName name.bytes = true ∧
      ((st' = st ∧ DirAt st.directory parentId name.bytes id) ∨
        ∃ i, findEntryInDir st.directory parentId name.bytes = none ∧
          findFreeEntry st.directory = some i ∧ id = entryIdFromIndex i ∧
          st' = { st with
            directory := st.directory.set i (newDirEntry parentId name.bytes) }) := by
  rw [makeDir] at h
  split_ifs at h with hname
  refine ⟨by simpa using hname, ?_⟩
  cases hfind : findEntryInDir st.directory parentId name.bytes with
  | some i =>
    rw [hfind] at h
    dsimp only at h
    split_ifs at h with hdir
    obtain ⟨rfl, rfl⟩ := Prod.mk.inj (Option.some_inj.mp h)
    obtain ⟨-, hp, hn⟩ := findEntry_eq_some hfind
    exact .inl ⟨rfl, i, rfl, not_not.mp hdir, hp, hn⟩
  | none =>
    rw [hfind] at h
    cases hfree : findFreeEntry st.directory with
    | none =>
      rw [hfree] at h
      cases h
    | some i =>
      rw [hfree] at h
      obtain ⟨rfl, rfl⟩ := Prod.mk.inj (Option.some_inj.mp h)
      exact .inr ⟨i, rfl, rfl, rfl, rfl⟩

lemma Extends.setFree (hfree : (st.directory i).used = 0) (e : Dirent) :
    Extends st { st with directory := st.directory.set i e } := by
  refine ⟨rfl, fun j hj => ?_, fun j _ _ _ _ hf => hf.set (hf.ne_of_free hfree) e, fun _ _ => rfl⟩
  refine set_of_ne _ _ ?_
  rintro rfl
  exact hj hfree

/-- A directory is found or made, and it is below the one asked for. -/
lemma makeDir_sound (h : Sound part st) (hdir : validDirId st.directory parentId = true)
    (hop : makeDir st parentId name = some (st', id)) :
    Sound part st' ∧ Extends st st' ∧ validName name.bytes = true ∧
      DirAt st'.directory parentId name.bytes id := by
  obtain ⟨hname, ⟨rfl, hat⟩ | ⟨i, hnone, hfree, rfl, rfl⟩⟩ := makeDir_cases hop
  · exact ⟨h, .refl _, hname, hat⟩
  have h0 := freeEntry_eq_some hfree
  have hentry : makeDirEntry st.directory parentId name.bytes =
      .ok (st.directory.set i (newDirEntry parentId name.bytes)) := by
    rw [makeDirEntry, if_neg (by simp [hdir]), if_neg (by simp [hnone]), hfree]
  refine ⟨⟨h.count, h.small, h.single.set i fun hf => ?_, fun hl => ?_⟩, .setFree h0 _, hname,
    i, rfl, ?_⟩
  · cases hf
  · exact makeDirEntry_valid (h.table hl) hname name.nonzero hentry
  · dsimp only
    rw [set_self]
    exact ⟨rfl, parentId_setParent _ _, cString_copy _ (validName_length hname) name.nonzero⟩

/-! ### Files -/

lemma newFileEntry_holdsFile (parentId startLba size : UInt32)
    (hname : validName name.bytes = true) :
    HoldsFile (newFileEntry parentId name.bytes startLba size) parentId name.bytes size
      [⟨startLba, requiredBlocks size⟩] := by
  obtain ⟨hu, -, hb, hp, hv, hn, hx⟩ := renamed_fields
    { Dirent.zero with used := entryFile, startLba := startLba, byteSize := size } parentId hname
    name.nonzero
  refine ⟨hu, hp, hb, hv, hn, hx.trans (extents_eq_some.mpr (.inl ⟨?_, rfl⟩))⟩
  change entryExtentMeta Dirent.zero = 0
  decide

/-- A run that is found lies in the data area, and no file has a sector of it. -/
lemma findFreeExtent_spec {blocks start : UInt32} (hbc : st.blockCount.toNat < 2 ^ 32)
    (h : findFreeExtent st blocks = some start) :
    blocks ≠ 0 ∧ formatSuper.dataStartLba.toNat ≤ start.toNat ∧
      start.toNat + blocks.toNat ≤ st.blockCount.toNat ∧
      ∀ i, (st.directory i).used = entryFile → rangesOverlap start blocks
        (firstExtent (st.directory i)).startLba (firstExtent (st.directory i)).blocks = false := by
  rw [findFreeExtent] at h
  split_ifs at h with hbad
  rw [not_or] at hbad
  obtain ⟨s, hs, rfl⟩ := Option.map_eq_some_iff.mp h
  have hmem := mem_range'_1.mp (mem_of_find?_eq_some hs)
  have hfree := find?_some hs
  have hsn : (UInt32.ofNat s).toNat = s := toNat_ofNat_of_lt (by omega)
  rw [extentIsFree] at hfree
  split_ifs at hfree
  refine ⟨hbad.1, by omega, by omega, fun i hi => ?_⟩
  have := all_eq_true.mp hfree i (mem_finRange i)
  simpa [hi, firstExtent] using this

lemma saveFile_eq_some (h : saveFile st parentId name bytes = some st') :
    ∃ i start, bytes.length ≤ fileCapacity.toNat ∧ validName name.bytes = true ∧
      findEntryInDir st.directory parentId name.bytes = none ∧ (st.directory i).used = 0 ∧
      findFreeExtent st (requiredBlocks (UInt32.ofNat bytes.length)) = some start ∧
      st' = { st with
        directory := st.directory.set i
          (newFileEntry parentId name.bytes start (UInt32.ofNat bytes.length))
        image := writeBlocks st.image start.toNat (requiredBlocks (UInt32.ofNat bytes.length)).toNat
          (fileBlock (bufferOf bytes) (UInt32.ofNat bytes.length)) } := by
  rw [saveFile] at h
  split_ifs at h with hlen hname hexists
  dsimp only at h
  split at h
  · rename_i i start hfree hstart
    exact ⟨i, start, not_lt.mp hlen, by simpa using hname, by simpa using hexists,
      freeEntry_eq_some hfree, hstart, (Option.some_inj.mp h).symm⟩
  · cases h

variable {image data : ℕ → Sector} {x : Extent}

lemma blockOf_writeBlocks_of_lt (hx : x.startLba.toNat + x.blocks.toNat ≤ 2 ^ 32)
    (hk : k < x.blocks.toNat) :
    blockOf (writeBlocks image x.startLba.toNat x.blocks.toNat data) (x.startLba + UInt32.ofNat k)
      = data k := by
  rw [blockOf, toNat_fileLba hk hx, writeBlocks, if_pos (by omega)]
  congr 1
  omega

lemma blockOf_writeBlocks_of_notMem (hlba : lba.toNat ∉ x.sectors) :
    blockOf (writeBlocks image x.startLba.toNat x.blocks.toNat data) lba = blockOf image lba := by
  rw [Extent.sectors, Set.mem_Ico] at hlba
  rw [blockOf, writeBlocks, if_neg (by omega), blockOf]

lemma fileLbas_singleton (h : (fileLbas [x])[k]? = some lba) :
    k < x.blocks.toNat ∧ x.startLba + UInt32.ofNat k = lba := by
  simpa [fileLbas, getElem?_eq_some_iff] using h

lemma layout_of_lt (h : formatSuper.dataStartLba.toNat < blockCount.toNat) :
    ¬ layoutIsBad formatSuper blockCount := by
  have hdata : ¬ formatSuper.dataStartLba.toUInt64 ≥ blockCount := by
    rw [ge_iff_le, UInt64.le_iff_toNat_le, not_le]
    exact h
  rintro (h0 | h0 | h0 | h0 | h0)
  · exact absurd h0 (by decide)
  · exact absurd h0 (by decide)
  · exact absurd h0 (by decide)
  · exact absurd h0 (by decide)
  · exact hdata h0

/-- A file that already is in a sound table keeps its blocks when free sectors are written. -/
lemma fileAt_writeBlocks (h : FileAt d (blockOf image) i parentId bytes buffer size)
    (hd : DirectorySound formatSuper part.blockCount d) (hbc : part.blockCount.toNat < 2 ^ 32)
    (hx0 : x.blocks ≠ 0) (hx : x.startLba.toNat + x.blocks.toNat < 2 ^ 32)
    (hapart : ∀ ys, entryExtents (d i) = some ys → ∀ y ∈ ys,
      rangesOverlap x.startLba x.blocks y.startLba y.blocks = false) :
    FileAt d (blockOf (writeBlocks image x.startLba.toNat x.blocks.toNat data)) i parentId bytes
      buffer size := by
  refine h.congr_block fun ys hys lba hlba => blockOf_writeBlocks_of_notMem ?_
  have hin := hd.extentsSound h.used hys
  have hsmall : ∀ y ∈ ys, y.startLba.toNat + y.blocks.toNat < 2 ^ 32 :=
    fun y hy => lt_of_le_of_lt (hin.inData y hy).2 hbc
  obtain ⟨y, hy, hmem⟩ := fileLbas_sectors (fun y hy => (hsmall y hy).le) hlba
  have hdisj := (overlap_eq_false hx (hsmall y hy) hx0
    ((extents_spec hys).2.2.1 y hy)).mp (hapart ys hys y hy)
  exact Set.disjoint_right.mp hdisj hmem

/-- The new entry and its blocks. -/
lemma fileAt_set (h : HoldsFile e parentId bytes size [x]) (i : Fin maxFiles)
    (hx : x.startLba.toNat + x.blocks.toNat ≤ 2 ^ 32) :
    FileAt (d.set i e) (blockOf (writeBlocks image x.startLba.toNat x.blocks.toNat
      (fileBlock buffer size))) i parentId bytes buffer size := by
  rw [← set_self d i e] at h
  refine h.fileAt fun k lba hk => ?_
  obtain ⟨hlt, rfl⟩ := fileLbas_singleton hk
  exact blockOf_writeBlocks_of_lt hx hlt

/-- An imported file is in the table with its bytes, and the other files are as before. -/
lemma saveFile_sound (h : Sound part st) (hdir : validDirId st.directory parentId = true)
    (hop : saveFile st parentId name bytes = some st') :
    Sound part st' ∧ Extends st st' ∧ ¬ layoutIsBad formatSuper part.blockCount ∧
      validName name.bytes = true ∧ bytes.length ≤ fileCapacity.toNat ∧
      ∃ i, FileAt st'.directory (blockOf st'.image) i parentId name.bytes (bufferOf bytes)
        (UInt32.ofNat bytes.length) := by
  obtain ⟨i, start, hlen, hname, hnone, hfree, hstart, rfl⟩ := saveFile_eq_some hop
  have hcap : fileCapacity.toNat < 2 ^ 32 := fileCapacity.toNat_lt
  have hsize : (UInt32.ofNat bytes.length).toNat = bytes.length := toNat_ofNat_of_lt (by omega)
  have hbc : st.blockCount.toNat < 2 ^ 32 := by rw [h.count]; exact h.small
  obtain ⟨hb0, hlow, hhigh, hapart⟩ := findFreeExtent_spec hbc hstart
  rw [h.count] at hhigh hbc
  have hpos := toNat_pos hb0
  have hlayout : ¬ layoutIsBad formatSuper part.blockCount := layout_of_lt (by omega)
  have hvalid := h.table hlayout
  have he := newFileEntry_holdsFile parentId start (UInt32.ofNat bytes.length) hname
  have hfirst : firstExtent (newFileEntry parentId name.bytes start (UInt32.ofNat bytes.length))
      = ⟨start, requiredBlocks (UInt32.ofNat bytes.length)⟩ := rfl
  generalize newFileEntry parentId name.bytes start (UInt32.ofNat bytes.length) = e at he hfirst
  generalize hblocks : requiredBlocks (UInt32.ofNat bytes.length) = blocks
    at hb0 hhigh hapart hpos he hfirst
  have hfresh : ∀ j, (st.directory j).used = entryFile → ∃ ys,
      entryExtents (st.directory j) = some ys ∧ ∀ x ∈ [(⟨start, blocks⟩ : Extent)], ∀ y ∈ ys,
        rangesOverlap x.startLba x.blocks y.startLba y.blocks = false := by
    intro j hj
    refine ⟨_, h.single j hj, fun x hx y hy => ?_⟩
    rw [mem_singleton] at hx hy
    rw [hx, hy]
    exact hapart j hj
  have hin : ExtentsSound formatSuper part.blockCount [⟨start, blocks⟩] :=
    extents_singleton hlow hhigh
  refine ⟨⟨h.count, h.small, h.single.set i fun _ => by rw [he.extents, hfirst], fun _ => ?_⟩,
    ⟨rfl, fun j hj => ?_, fun j pid nm buffer size hf => ?_, fun l hl => ?_⟩, hlayout, hname, hlen, i, ?_⟩
  · exact setFile_valid hvalid hdir (by rw [hfree]; decide) he (by rw [hsize]; exact hlen) hin
      (fun j _ hj => hfresh j hj) fun j _ hj hsame => findEntry_eq_none hnone j ⟨hj, hsame⟩
  · refine set_of_ne _ _ ?_
    rintro rfl
    exact hj hfree
  · have hf' : FileAt st.directory (blockOf (Seed.writeBlocks st.image start.toNat blocks.toNat
        (fileBlock (bufferOf bytes) (UInt32.ofNat bytes.length)))) j pid nm buffer size := by
      refine fileAt_writeBlocks (x := ⟨start, blocks⟩) hf hvalid.sound hbc hb0
        (lt_of_le_of_lt hhigh hbc) fun ys hys y hy => ?_
      obtain ⟨zs, hzs, hap⟩ := hfresh j hf.used
      rw [hys] at hzs
      cases hzs
      exact hap _ (mem_singleton_self _) y hy
    exact hf'.set (hf.ne_of_free hfree) e
  · exact if_neg (by omega)
  · exact fileAt_set he i (hhigh.trans hbc.le)

end

/-! ### Importing a tree -/

lemma baseName_childPath (path : CString) (name : HostName) :
    baseName (childPath path name) = name.name := by
  have hall : ∀ b ∈ name.name.bytes.reverse, (b != 0x2F) = true := by
    intro b hb
    rw [bne_iff_ne]
    rintro rfl
    exact name.noSlash (mem_reverse.mp hb)
  have hbytes : (path.bytes ++ 0x2F :: name.name.bytes).rtakeWhile (· != 0x2F) = name.name.bytes := by
    rw [List.rtakeWhile, reverse_append, reverse_cons, append_assoc, takeWhile_append_of_pos hall]
    simp
  exact CString.mk.injEq .. ▸ hbytes

/-- Going down from a directory through the names leads to the id. -/
inductive Reaches (d : Directory) : UInt32 → List CString → UInt32 → Prop
  | here (id : UInt32) : Reaches d id [] id
  | down {parentId mid id : UInt32} {name : CString} {dirs : List CString} :
      validName name.bytes = true → DirAt d parentId name.bytes mid → Reaches d mid dirs id →
      Reaches d parentId (name :: dirs) id

/-- The image has the file below the directory. -/
structure Found (part : Partition) (st : State) (parentId : UInt32) (f : ImportedFile) : Prop where
  layout : ¬ layoutIsBad formatSuper part.blockCount
  named : validName f.name.bytes = true
  fits : f.bytes.length ≤ fileCapacity.toNat
  file : ∃ id i, Reaches st.directory parentId f.dirs id ∧ FileAt st.directory (blockOf st.image) i
    id f.name.bytes (bufferOf f.bytes) (UInt32.ofNat f.bytes.length)

section

variable {part : Partition} {st st' : State} {parentId id : UInt32}

lemma Reaches.extends (h : Reaches st.directory parentId dirs id) (hext : Extends st st') :
    Reaches st'.directory parentId dirs id := by
  induction h with
  | here id => exact .here id
  | down hname hat _ ih => exact .down hname (hat.extends hext) ih

lemma Found.extends (h : Found part st parentId f) (hext : Extends st st') :
    Found part st' parentId f := by
  obtain ⟨id, i, hreach, hfile⟩ := h.file
  exact ⟨h.layout, h.named, h.fits, id, i, hreach.extends hext, hext.file _ _ _ _ _ hfile⟩

lemma Found.below (h : Found part st id f) (hname : validName name.bytes = true)
    (hat : DirAt st.directory parentId name.bytes id) : Found part st parentId (f.below name) := by
  obtain ⟨id', i, hreach, hfile⟩ := h.file
  exact ⟨h.layout, h.named, h.fits, id', i, .down hname hat hreach, hfile⟩

mutual

/-- What an import leaves: the image is sound, nothing is lost, and the files are there. -/
theorem importPathAt_sound (node : HostNode) (st st' : State) (parentId : UInt32) (path : CString)
    (h : Sound part st) (hdir : validDirId st.directory parentId = true)
    (hop : importPathAt st parentId path node = some st') : Sound part st' ∧ Extends st st' ∧
      ∀ f ∈ filesAt (baseName path) node, Found part st' parentId f := by
  match node with
  | .unreadable => cases hop
  | .other =>
    cases hop
    exact ⟨h, .refl _, fun f hf => absurd hf not_mem_nil⟩
  | .file bytes =>
    obtain ⟨hs, hext, hl, hname, hlen, i, hfile⟩ := saveFile_sound h hdir hop
    refine ⟨hs, hext, fun f hf => ?_⟩
    rw [filesAt, mem_singleton] at hf
    subst hf
    exact ⟨hl, hname, hlen, parentId, i, .here _, hfile⟩
  | .dir entries =>
    rw [importPathAt] at hop
    rcases hmake : makeDir st parentId (baseName path) with _ | r
    · rw [hmake] at hop
      cases hop
    obtain ⟨st₁, id⟩ := r
    rw [hmake] at hop
    obtain ⟨h₁, hext₁, hname, hat⟩ := makeDir_sound h hdir hmake
    obtain ⟨h₂, hext₂, hfiles⟩ := importContents_sound entries st₁ st' id path h₁ hat.validDirId hop
    refine ⟨h₂, hext₁.trans hext₂, fun f hf => ?_⟩
    rw [filesAt, mem_map] at hf
    obtain ⟨g, hg, rfl⟩ := hf
    exact (hfiles g hg).below hname (hat.extends hext₂)

theorem importContents_sound (entries : HostDir) (st st' : State) (parentId : UInt32)
    (path : CString) (h : Sound part st) (hdir : validDirId st.directory parentId = true)
    (hop : importDirectoryContents st parentId path entries = some st') :
    Sound part st' ∧ Extends st st' ∧ ∀ f ∈ filesIn entries, Found part st' parentId f := by
  match entries with
  | .nil =>
    cases hop
    exact ⟨h, .refl _, fun f hf => absurd hf not_mem_nil⟩
  | .cons name node rest =>
    rw [importDirectoryContents] at hop
    rw [filesIn]
    split_ifs at hop ⊢ with hdot hlen
    · exact importContents_sound rest st st' parentId path h hdir hop
    rcases hnode : importPathAt st parentId (childPath path name) node with _ | st₁
    · rw [hnode] at hop
      cases hop
    rw [hnode] at hop
    obtain ⟨h₁, hext₁, hfiles₁⟩ := importPathAt_sound node st st₁ parentId _ h hdir hnode
    obtain ⟨h₂, hext₂, hfiles₂⟩ := importContents_sound rest st₁ st' parentId path h₁
      (hext₁.validDirId hdir) hop
    refine ⟨h₂, hext₁.trans hext₂, fun f hf => ?_⟩
    rw [baseName_childPath] at hfiles₁
    rcases mem_append.mp hf with hf | hf
    · exact (hfiles₁ f hf).extends hext₂
    · exact hfiles₂ f hf

end

lemma importPaths_sound {paths : List (CString × HostNode)} (h : Sound part st)
    (hop : importPaths st paths = some st') :
    Sound part st' ∧ Extends st st' ∧ ∀ f ∈ filesOf paths, Found part st' rootDir f := by
  induction paths generalizing st with
  | nil =>
    cases hop
    exact ⟨h, .refl _, fun f hf => absurd hf not_mem_nil⟩
  | cons first rest ih =>
    obtain ⟨path, node⟩ := first
    rw [importPaths] at hop
    rcases hnode : importPathAt st rootDir path node with _ | st₁
    · rw [hnode] at hop
      cases hop
    rw [hnode] at hop
    obtain ⟨h₁, hext₁, hfiles₁⟩ := importPathAt_sound node st st₁ rootDir path h rfl hnode
    obtain ⟨h₂, hext₂, hfiles₂⟩ := ih h₁ hop
    refine ⟨h₂, hext₁.trans hext₂, fun f hf => ?_⟩
    rcases mem_append.mp hf with hf | hf
    · exact (hfiles₁ f hf).extends hext₂
    · exact hfiles₂ f hf

end

/-! ### The finished image -/

section

variable {part : Partition} {image image' : ℕ → Sector} {imageSize : ℕ}
  {paths : List (CString × HostNode)}

lemma blockCount_eq_some (h : partitionBlockCount imageSize = some blockCount) :
    blockCount.toNat < 2 ^ 32 ∧ dataPartitionStartLba + blockCount.toNat = imageSize / sectorSize := by
  rw [partitionBlockCount] at h
  split_ifs at h with hsize hlow hhigh
  rw [← Option.some_inj.mp h, UInt64.toNat_ofNat', Nat.mod_eq_of_lt (by omega)]
  omega

lemma formatLainfs_sound (h : partitionBlockCount imageSize = some part.blockCount)
    (image : ℕ → Sector) : Sound part (formatLainfs image part.blockCount) :=
  ⟨rfl, (blockCount_eq_some h).1, fun _ hi => (by cases hi), fun hl =>
    ⟨validate_eq_none.mpr (sound_empty hl), fun _ _ hi => absurd rfl hi⟩⟩

lemma writeBlocks_add (image : ℕ → Sector) (lba count : ℕ) (data : ℕ → Sector) (hk : k < count) :
    writeBlocks image lba count data (dataPartitionStartLba + (lba + k)) = data k := by
  rw [writeBlocks, if_pos (by omega)]
  congr 1
  omega

lemma saveDirectory_image_of_le (st : State) {l : ℕ} (hl : l ≤ dataPartitionStartLba) :
    (saveDirectory st).image l = st.image l := by
  have hstart : 0 < formatSuper.dirStartLba.toNat := by decide
  exact if_neg (by omega)

/-- What the tool leaves in the image: the superblock, the table and the files of a sound state. -/
structure Written (part : Partition) (st : State) (image : ℕ → Sector)
    (files : List ImportedFile) : Prop where
  sound : Sound part st
  super : image dataPartitionStartLba = sectorOfSuper formatSuper
  table : ∀ k < formatSuper.dirBlocks.toNat,
    image (dataPartitionStartLba + (formatSuper.dirStartLba.toNat + k))
      = sectorsOfDirectory st.directory k
  data : ∀ lba : UInt32, formatSuper.dataStartLba.toNat ≤ lba.toNat →
    blockOf image lba = blockOf st.image lba
  files : ∀ f ∈ files, Found part st rootDir f

lemma seed_written (hpart : partitionBlockCount imageSize = some part.blockCount)
    (h : seed image imageSize paths = some image') :
    ∃ st, Written part st image' (filesOf paths) := by
  rw [seed, hpart] at h
  dsimp only at h
  rcases hop : importPaths (formatLainfs (createMbr image part.blockCount) part.blockCount) paths with _ | st
  · rw [hop] at h
    cases h
  rw [hop] at h
  cases h
  obtain ⟨hs, hext, hfiles⟩ := importPaths_sound (formatLainfs_sound hpart _) hop
  refine ⟨st, hs, ?_, fun k hk => ?_, fun lba hlba => ?_, hfiles⟩
  · -- the superblock lies in front of all that is written later
    have hformat := writeBlocks_add (createMbr image part.blockCount) 0 1
      (fun _ => sectorOfSuper formatSuper) Nat.one_pos
    rw [saveDirectory_image_of_le st le_rfl, hext.front _ (by decide), formatLainfs,
      saveDirectory_image_of_le _ le_rfl]
    exact hformat
  · exact writeBlocks_add _ _ _ _ hk
  · have hdata : formatSuper.dirStartLba.toNat + formatSuper.dirBlocks.toNat
        = formatSuper.dataStartLba.toNat := rfl
    exact if_neg (by omega)

end

/-! ### The kernel on the image -/

/-- The kernel has the data partition of the image, has read nothing of it yet, and its devices
work. -/
structure Presents (st : LainFS.State) (p : UInt32) (part : Partition) (image : ℕ → Sector) :
    Prop where
  healthy : Healthy st
  partition : storageGetPartition st.storage p = some part
  sectors : ∀ l < part.blockCount.toNat,
    partSector st.storage p l = image (dataPartitionStartLba + l)
  table : ∀ dirty, st.directoryTag ≠ some ⟨p, dirty⟩
  blocks : ∀ i l, st.dataCache i = some l → l.key.1 ≠ p

section

variable {part : Partition} {seeded : State} {image : ℕ → Sector} {files : List ImportedFile}
  {st : LainFS.State} {p : UInt32} {drive : UInt8}

section

variable (h : Presents st p part image) (hw : Written part seeded image files)
  (hl : ¬ layoutIsBad formatSuper part.blockCount)
include h hw hl

lemma Presents.usable : Usable st.storage p part checkedFormatSuper := by
  have hend : 257 < part.blockCount.toNat :=
    (bounds_of_layout (show ¬ layoutIsBad checkedFormatSuper.1 part.blockCount from hl)).2.2
  refine ⟨h.partition, diskSuper_eq_some ?_, hl⟩
  rw [h.sectors 0 (by omega), add_zero, hw.super]
  rfl

lemma Presents.tableView_eq : tableView st p checkedFormatSuper = seeded.directory := by
  have hend : 257 < part.blockCount.toNat :=
    (bounds_of_layout (show ¬ layoutIsBad checkedFormatSuper.1 part.blockCount from hl)).2.2
  rw [tableView_untagged _ h.table, diskDirectory, ← ofSectors_sectors seeded.directory]
  refine ofSectors_congr fun k hk => ?_
  have hk' : k < 256 := hk
  rw [h.sectors _ (by change 1 + k < _; omega)]
  exact hw.table k hk

end

lemma Presents.blockView_eq (h : Presents st p part image)
    (hlba : lba.toNat < part.blockCount.toNat) : blockView st p lba = blockOf image lba := by
  rw [blockView, view_of_absent fun i l hl hkey => h.blocks i l hl (by rw [hkey])]
  exact h.sectors _ hlba

variable {id parentId : UInt32}

/-- A file of the image is stored on the volume. -/
lemma Presents.stored (h : Presents st p part image) (hw : Written part seeded image files)
    (hl : ¬ layoutIsBad formatSuper part.blockCount) {name : List UInt8}
    (hf : FileAt seeded.directory (blockOf seeded.image) i id name buffer size) :
    Stored st p part checkedFormatSuper id name buffer size := by
  have htv := h.tableView_eq hw hl
  have hvalid := hw.sound.table hl
  refine ⟨h.usable hw hl, .of_not_tag h.table, htv ▸ hvalid, i, htv ▸ ?_⟩
  refine hf.congr_block fun xs hxs lba hlba => ?_
  obtain ⟨hlow, hhigh⟩ := hf.inData hvalid.sound hw.sound.small hxs hlba
  rw [h.blockView_eq hhigh, hw.data lba hlow]

lemma DirAt.findEntryInDir {name : List UInt8} (h : DirAt d parentId name id)
    (hnames : NamesDistinct d) :
    ∃ i, LainFS.findEntryInDir d parentId name = some i ∧ id = entryIdFromIndex i ∧
      (d i).used = entryDir := by
  obtain ⟨i, rfl, hu, hp, hn⟩ := h
  refine ⟨i, ?_, rfl, hu⟩
  rw [← hp, ← hn]
  exact hnames.findEntryInDir (by rw [hu]; decide)

/-- The search for a directory that is there, on a volume that opens. -/
lemma findDir_eq {st₁ : LainFS.State} (hm : mountForDrive st drive = some p)
    (ho : openDirectory st p = (.ok super, st₁)) (hname : validName name.bytes = true)
    (hnames : NamesDistinct st₁.directory) (hparent : validDirId st₁.directory parentId = true)
    (hat : DirAt st₁.directory parentId name.bytes id) :
    lainfsFindDir st drive parentId name = ((0, id), st₁) := by
  obtain ⟨i, hfind, rfl, hu⟩ := hat.findEntryInDir hnames
  rw [lainfsFindDir, hm]
  dsimp only
  rw [if_neg (by simp [hname]), ho]
  dsimp only
  rw [if_neg (by simp [hparent]), hfind]
  exact if_neg (not_not.mpr hu)

/-- Going down to a stored file and loading it gives its bytes. -/
lemma loadAlong_eq {bufferSize : UInt32} (hreach : Reaches d parentId dirs id) (hh : Healthy st)
    (hm : mountForDrive st drive = some p) (hbc : part.blockCount.toNat < 2 ^ 32)
    (htv : tableView st p super = d) (hs : Stored st p part super id name.bytes buffer size)
    (hparent : validDirId d parentId = true) (hname : validName name.bytes = true)
    (hbuffer : max size.toNat 1 ≤ bufferSize.toNat) :
    (loadAlong drive name bufferSize st parentId dirs).1 =
      ⟨0, size, (List.range size.toNat).map buffer⟩ := by
  induction hreach generalizing st with
  | here id => exact hs.load hh hm hname hbuffer
  | @down parentId mid id dir dirs hdir hat _ ih =>
    obtain ⟨st₁, ho, hk, hd₁, hh₁⟩ := hh.openDirectory hs.usable hs.valid
    have hd : st₁.directory = d := hd₁.trans htv
    have hm₁ : mountForDrive st₁ drive = some p := by
      rw [mountForDrive, hk.tables.getMountByDrive]
      exact hm
    have hfound : lainfsFindDir st drive parentId dir = ((0, mid), st₁) := by
      refine findDir_eq hm ho hdir ?_ (by rw [hd]; exact hparent) (by rw [hd]; exact hat)
      rw [hd₁]
      exact hs.valid.names
    rw [loadAlong, hfound]
    dsimp only
    exact ih hh₁ hm₁ ((tableView_of_open ho).trans hd) (hs.of_keeps hbc hk) hat.validDirId

end

/-! ### Main result -/

lemma map_bufferOf (bytes : List UInt8) : (List.range bytes.length).map (bufferOf bytes) = bytes := by
  refine ext_getElem (by simp) fun n h₁ h₂ => ?_
  simp [bufferOf, h₂]

/-- An image with at least one imported file is accepted by the kernel, no two of its entries have
the same parent and name, and every imported file is loaded along its path as it was on the host. -/
theorem seeded_image_accepted_and_faithful {image image' : ℕ → Sector} {imageSize : ℕ}
    {paths : List (CString × HostNode)} (hseed : seed image imageSize paths = some image')
    (hfiles : filesOf paths ≠ []) {st : LainFS.State} {p : UInt32} {part : Partition} {drive : UInt8}
    (hsize : partitionBlockCount imageSize = some part.blockCount)
    (hkernel : Presents st p part image') (hm : mountForDrive st drive = some p) :
    (readSuper st p).1 = some checkedFormatSuper ∧
      (∃ st₁, openDirectory st p = (.ok checkedFormatSuper, st₁) ∧
        validateDirectory (some part) formatSuper st₁.directory = none ∧
        NamesDistinct st₁.directory) ∧
      ∀ f ∈ filesOf paths, ∀ bufferSize : UInt32, max f.bytes.length 1 ≤ bufferSize.toNat →
        (loadAlong drive f.name bufferSize st rootDir f.dirs).1 =
          ⟨0, UInt32.ofNat f.bytes.length, f.bytes⟩ := by
  obtain ⟨seeded, hw⟩ := seed_written hsize hseed
  obtain ⟨f₀, hf₀⟩ := exists_mem_of_ne_nil _ hfiles
  have hl := (hw.files f₀ hf₀).layout
  have hh := hkernel.healthy
  have hu := hkernel.usable hw hl
  have htv := hkernel.tableView_eq hw hl
  have hvalid := hw.sound.table hl
  obtain ⟨st₁, ho, -, hdir, -⟩ := hh.openDirectory hu (htv ▸ hvalid)
  rw [htv] at hdir
  refine ⟨?_, ⟨st₁, ho, hdir ▸ hvalid.accepted, hdir ▸ hvalid.names⟩, fun f hf bufferSize hbuf => ?_⟩
  · rw [readSuper_ok hh.quiet (hh.isolated p) (hh.cache p), hu.onDisk]
  obtain ⟨-, hname, hfits, id, i, hreach, hfile⟩ := hw.files f hf
  have hlen : (UInt32.ofNat f.bytes.length).toNat = f.bytes.length :=
    toNat_ofNat_of_lt (lt_of_le_of_lt hfits fileCapacity.toNat_lt)
  rw [loadAlong_eq hreach hh hm hw.sound.small htv (hkernel.stored hw hl hfile) rfl hname
    (by rw [hlen]; exact hbuf), hlen, map_bufferOf]

/-- A directory `a` with a file `a` of three bytes in it. -/
def sampleTree : List (CString × HostNode) :=
  [(nameA, .dir (.cons ⟨nameA, by decide⟩ (.file [1, 2, 3]) .nil))]

/-- The machine that finds the image on its only device, mounted as drive C. -/
def seededVolume (image : ℕ → Sector) (blockCount : UInt64) : LainFS.State :=
  { freshVolume blockCount with storage := { oneVolume blockCount with disk := fun _ => image } }

lemma seededVolume_presents (image : ℕ → Sector) (h : blockCount.toNat ≤ 6144) :
    Presents (seededVolume image blockCount) 0 (volumePartition blockCount) image := by
  have hh : Healthy (seededVolume image blockCount) :=
    (fresh_healthy h).congr ⟨rfl, rfl, rfl, rfl⟩ (cacheAt_of_empty rfl rfl fun _ => rfl)
  have hpart : storageGetPartition (seededVolume image blockCount).storage 0
      = some (volumePartition blockCount) := rfl
  exact ⟨hh, hpart, fun l hl => partSector_of_lt hpart hl, fun _ => Option.some_ne_none _ |>.symm,
    fun _ _ hl => by cases hl⟩

theorem seeded_image_accepted_and_faithful_sampleTree :
    ∃ image', seed (fun _ => Sector.zero) ((2048 + 300) * 512) sampleTree = some image' ∧
      (loadAlong 0x43 nameA 3 (seededVolume image' 300) rootDir [nameA]).1 = ⟨0, 3, [1, 2, 3]⟩ := by
  have hsome : (seed (fun _ => Sector.zero) ((2048 + 300) * 512) sampleTree).isSome = true := by
    decide +kernel
  obtain ⟨image', himage⟩ := Option.isSome_iff_exists.mp hsome
  have hfile : (⟨[nameA], nameA, [1, 2, 3]⟩ : ImportedFile) ∈ filesOf sampleTree :=
    mem_singleton_self _
  have hsize : partitionBlockCount ((2048 + 300) * 512) = some (volumePartition 300).blockCount := by
    decide
  have hm : mountForDrive (seededVolume image' 300) 0x43 = some 0 := rfl
  obtain ⟨-, -, hload⟩ := seeded_image_accepted_and_faithful himage (ne_nil_of_mem hfile) hsize
    (seededVolume_presents image' (by decide)) hm
  exact ⟨image', himage, hload _ hfile 3 (by decide)⟩

end Seed

end LainFS
