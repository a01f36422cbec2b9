import LainOS.LainFS.ReadBack
import LainOS.LainFS.Seed

/-!
# What the slots of a volume hold

A slot of the directory is seen as an `Item`: its kind, parent, name, size and bytes, without the
place of its blocks. On a machine without faults, where every cache agrees with the disks (`Tidy`),
readers change no item of any volume (`Undisturbed`), and a save that returns 0 changes the one slot
that `saveIn` computes from the table (`Tidy.save`).
-/

namespace LainFS

open Storage WriteBack List Option

variable {super : Superblock} {blockCount : UInt64} {parentId size : UInt32} {name : List UInt8}
  {buffer : ℕ → UInt8} {st st' : State} {i : Fin maxFiles}

/-! ### Readers -/

/-- `lainfs_parent_dir`: the status and the id. -/
def lainfsParentDir (st : State) (drive : UInt8) (dirId : UInt32) : (ℤ × UInt32) × State :=
  match mountForDrive st drive with
  | none => ((-1, rootDir), st)
  | some p =>
    if dirId = rootDir then ((0, rootDir), st)
    else
      match openDirectory st p with
      | (.error .badSuper, st') => ((-3, rootDir), st')
      | (.error .badDirectory, st') => ((-4, rootDir), st')
      | (.ok _, st') =>
        if validDirId st'.directory dirId = false then ((-5, rootDir), st')
        else ((0, entryParentId (st'.directory (indexFromEntryId dirId))), st')

/-- The entries that the loops of `lainfs_child_count` and `lainfs_child_info` count. -/
def childrenOf (d : Directory) (parentId : UInt32) : List (Fin maxFiles) :=
  (List.finRange maxFiles).filter fun i => (d i).used != 0 && entryParentId (d i) == parentId

/-- `lainfs_child_count`: the status and `*out_count`. -/
def lainfsChildCount (st : State) (drive : UInt8) (parentId : UInt32) : (ℤ × ℕ) × State :=
  match mountForDrive st drive with
  | none => ((-1, 0), st)
  | some p =>
    match openDirectory st p with
    | (.error .badSuper, st') => ((-2, 0), st')
    | (.error .badDirectory, st') => ((-3, 0), st')
    | (.ok _, st') =>
      if validDirId st'.directory parentId = false then ((-5, 0), st')
      else ((0, (childrenOf st'.directory parentId).length), st')

/-- The bytes up to the first NUL as a string. -/
def CString.ofBytes (bytes : List UInt8) : CString :=
  ⟨cString bytes, fun _ hb => by simpa using mem_takeWhile_imp hb⟩

/-- The name of an entry as a string of its own. -/
def entryString (e : Dirent) : CString := CString.ofBytes e.name.toList

/-- What `lainfs_child_info` hands back. -/
structure ChildInfo where
  name : CString
  type : UInt8
  size : UInt32

/-- The row of an entry. A name has at most 31 bytes, which is what the callers have room for. -/
def childInfo (e : Dirent) : ChildInfo :=
  ⟨entryString e, e.used, if e.used = entryDir then 0 else e.byteSize⟩

def lainfsChildInfo (st : State) (drive : UInt8) (parentId : UInt32) (childIndex : ℕ) :
    Except ℤ ChildInfo × State :=
  match mountForDrive st drive with
  | none => (.error (-1), st)
  | some p =>
    match openDirectory st p with
    | (.error .badSuper, st') => (.error (-2), st')
    | (.error .badDirectory, st') => (.error (-3), st')
    | (.ok _, st') =>
      if validDirId st'.directory parentId = false then (.error (-5), st')
      else
        match (childrenOf st'.directory parentId)[childIndex]? with
        | none => (.error (-6), st')
        | some i => (.ok (childInfo (st'.directory i)), st')

/-! ### Items -/

/-- A used slot, without the place of its blocks. -/
structure Item where
  used : UInt8
  parent : UInt32
  name : List UInt8
  size : UInt32
  bytes : List UInt8
deriving DecidableEq

/-- The bytes of the file in a slot. -/
def fileBytes (d : Directory) (block : UInt32 → Sector) (i : Fin maxFiles) : List UInt8 :=
  if (d i).used = entryFile then
    match entryExtents (d i) with
    | none => []
    | some xs => bytesOf (d i).byteSize block 0 (fileLbas xs)
  else []

def itemAt (d : Directory) (block : UInt32 → Sector) (i : Fin maxFiles) : Option Item :=
  if (d i).used = 0 then none
  else some ⟨(d i).used, entryParentId (d i), entryName (d i), (d i).byteSize, fileBytes d block i⟩

/-- The table of a volume that can be opened. -/
def tableOf (st : State) (p : UInt32) : Directory :=
  match heldTable st p with
  | .ok (_, d) => d
  | .error _ => Directory.empty

/-- What slot `i` of the volume holds. -/
def itemOf (st : State) (p : UInt32) (i : Fin maxFiles) : Option Item :=
  itemAt (tableOf st p) (blockView st p) i

section

variable {p : UInt32} {super : CheckedSuper} {d d' : Directory} {block block' : UInt32 → Sector}

lemma tableOf_eq (h : heldTable st p = .ok (super, d)) : tableOf st p = d := by rw [tableOf, h]

lemma itemOf_eq (h : heldTable st p = .ok (super, d)) (i : Fin maxFiles) :
    itemOf st p i = itemAt d (blockView st p) i := by
  rw [itemOf, tableOf_eq h]

/-- An item depends on its entry and on the blocks of its file. -/
lemma itemAt_congr (hentry : d' i = d i)
    (hblock : ∀ xs lba, (d i).used = entryFile → entryExtents (d i) = some xs →
      lba ∈ fileLbas xs → block' lba = block lba) :
    itemAt d' block' i = itemAt d block i := by
  have hbytes : fileBytes d' block' i = fileBytes d block i := by
    rw [fileBytes, fileBytes, hentry]
    split_ifs with hfile
    · cases hxs : entryExtents (d i) with
      | none => rfl
      | some xs => exact bytesOf_congr (fun lba hlba => hblock xs lba hfile hxs hlba) 0
    · rfl
  rw [itemAt, itemAt, hentry, hbytes]

lemma length_bytesOf (size : UInt32) (block : UInt32 → Sector) (k : ℕ) (lbas : List UInt32) :
    (bytesOf size block k lbas).length = min (size.toNat - 512 * k) (512 * lbas.length) := by
  induction lbas generalizing k with
  | nil => simp [bytesOf]
  | cons lba rest ih =>
    rw [bytesOf, length_append, ih, length_take, length_ofFn, bytesInBlock, sectorSize, length_cons]
    omega

/-- A file of an accepted table has as many bytes as its entry says. -/
lemma fileBytes_spec {super : Superblock} (hd : DirectorySound super blockCount d)
    (hi : (d i).used = entryFile) (block : UInt32 → Sector) :
    (d i).byteSize.toNat ≤ fileCapacity.toNat ∧
      (fileBytes d block i).length = (d i).byteSize.toNat ∧
      ∃ xs, entryExtents (d i) = some xs ∧
        fileBytes d block i = bytesOf (d i).byteSize block 0 (fileLbas xs) := by
  obtain ⟨hcap, xs, hxs, -⟩ := ((hd.entry i).resolve_left (by rw [hi]; decide)).file hi
  have hbytes : fileBytes d block i = bytesOf (d i).byteSize block 0 (fileLbas xs) := by
    rw [fileBytes, if_pos hi, hxs]
  refine ⟨hcap, ?_, xs, hxs, hbytes⟩
  have hroom := size_le_blocks hxs hcap
  rw [hbytes, length_bytesOf, mul_zero, Nat.sub_zero, min_eq_left hroom]

/-- A file that was written holds the buffer. -/
lemma FileAt.itemAt (h : FileAt d block i parentId name buffer size)
    (hsize : size.toNat ≤ fileCapacity.toNat) : LainFS.itemAt d block i =
      some ⟨entryFile, parentId, name, size, (List.range size.toNat).map buffer⟩ := by
  obtain ⟨xs, hxs, hdata⟩ := h.data
  have hroom := size_le_blocks hxs (by rw [h.byteSize]; exact hsize)
  have hbytes : fileBytes d block i = (List.range size.toNat).map buffer := by
    rw [h.byteSize] at hroom
    rw [fileBytes, if_pos h.used, hxs]
    dsimp only
    rw [h.byteSize, bytesOf_fileBlock (k := 0) fun j lba hj => by rw [hdata j lba hj, zero_add],
      mul_zero, Nat.sub_zero, min_eq_left hroom, range_eq_range']
  rw [LainFS.itemAt, if_neg (by rw [h.used]; decide), h.used, h.parent, h.named, h.byteSize, hbytes]

end

/-! ### Searching the items -/

def isFileUnder (dir : UInt32) (name : List UInt8) : Option Item → Bool
  | some item => item.used != entryDir && item.parent == dir && item.name == name
  | none => false

/-- The file a search in the directory finds under the name. -/
def fileUnder (items : Fin maxFiles → Option Item) (dir : UInt32) (name : List UInt8) :
    Option (Fin maxFiles) :=
  (List.finRange maxFiles).find? fun k => isFileUnder dir name (items k)

/-- What that file holds. -/
def itemUnder (items : Fin maxFiles → Option Item) (dir : UInt32) (name : List UInt8) :
    Option Item :=
  (fileUnder items dir name).bind items

/-- The directory has the same children in both. -/
def SameChildren (dir : UInt32) (items items' : Fin maxFiles → Option Item) : Prop :=
  ∀ k item, item.parent = dir → (items' k = some item ↔ items k = some item)

section

variable {d d' : Directory} {block block' : UInt32 → Sector} {dir dir' : UInt32}
  {name' : List UInt8} {items items' : Fin maxFiles → Option Item} {k : Fin maxFiles} {item : Item}

lemma isFile_iff : isFileUnder dir name (items k) = true ↔
    ∃ item, items k = some item ∧ item.used ≠ entryDir ∧ item.parent = dir ∧ item.name = name := by
  cases items k with
  | none => simp [isFileUnder]
  | some item => simp [isFileUnder, and_assoc]

lemma itemAt_eq_some : itemAt d block k = some item ↔ (d k).used ≠ 0 ∧
    item = ⟨(d k).used, entryParentId (d k), entryName (d k), (d k).byteSize,
      fileBytes d block k⟩ := by
  rw [itemAt]
  split_ifs with h
  · exact ⟨fun h' => (by cases h'), fun h' => absurd h h'.1⟩
  · rw [some_inj]
    exact ⟨fun h' => ⟨h, h'.symm⟩, fun h' => h'.2.symm⟩

lemma findFileInDir_eq (block : UInt32 → Sector) (dir : UInt32) (name : List UInt8) :
    findFileInDir d dir name = fileUnder (itemAt d block) dir name := by
  rw [findFileInDir, fileUnder]
  congr 1
  funext k
  rw [itemAt]
  split_ifs with h
  · rw [h]
    rfl
  · rw [isFileUnder, bne_iff_ne.mpr h, Bool.true_and]

lemma fileUnder_some (h : fileUnder items dir name = some i) :
    ∃ item, items i = some item ∧ item.used ≠ entryDir ∧ item.parent = dir ∧ item.name = name := by
  have hi := find?_some h
  exact isFile_iff.mp hi

lemma exists_fileUnder (hitem : items k = some item) (hused : item.used ≠ entryDir)
    (hparent : item.parent = dir) (hname : item.name = name) :
    ∃ i, fileUnder items dir name = some i := by
  cases hfind : fileUnder items dir name with
  | none =>
    have hk : isFileUnder dir name (items k) = true :=
      isFile_iff.mpr ⟨item, hitem, hused, hparent, hname⟩
    exact absurd hk (find?_eq_none.mp hfind k (mem_finRange k))
  | some i => exact ⟨i, rfl⟩

lemma SameChildren.refl (dir : UInt32) (items : Fin maxFiles → Option Item) :
    SameChildren dir items items := fun _ _ _ => .rfl

lemma SameChildren.trans {items₁ items₂ items₃ : Fin maxFiles → Option Item}
    (h₁ : SameChildren dir items₁ items₂) (h₂ : SameChildren dir items₂ items₃) :
    SameChildren dir items₁ items₃ :=
  fun k item hp => (h₂ k item hp).trans (h₁ k item hp)

lemma SameChildren.fileUnder (h : SameChildren dir items items') (name : List UInt8) :
    LainFS.fileUnder items' dir name = LainFS.fileUnder items dir name := by
  rw [LainFS.fileUnder, LainFS.fileUnder]
  congr 1
  funext k
  rw [Bool.eq_iff_iff, isFile_iff, isFile_iff]
  constructor
  · rintro ⟨item, hk, hu, hp, hn⟩
    exact ⟨item, (h k item hp).mp hk, hu, hp, hn⟩
  · rintro ⟨item, hk, hu, hp, hn⟩
    exact ⟨item, (h k item hp).mpr hk, hu, hp, hn⟩

lemma mem_childrenOf : k ∈ childrenOf d dir ↔ (d k).used ≠ 0 ∧ entryParentId (d k) = dir := by
  simp [childrenOf]

/-- A child is an item with that parent. -/
lemma mem_childrenOf_iff (block : UInt32 → Sector) :
    k ∈ childrenOf d dir ↔ ∃ item, itemAt d block k = some item ∧ item.parent = dir := by
  rw [mem_childrenOf]
  constructor
  · rintro ⟨hu, hp⟩
    exact ⟨_, itemAt_eq_some.mpr ⟨hu, rfl⟩, hp⟩
  · rintro ⟨item, hk, hp⟩
    obtain ⟨hu, rfl⟩ := itemAt_eq_some.mp hk
    exact ⟨hu, hp⟩

lemma SameChildren.childrenOf (h : SameChildren dir (itemAt d block) (itemAt d' block')) :
    LainFS.childrenOf d' dir = LainFS.childrenOf d dir := by
  refine filter_congr fun k hk => ?_
  have hmem : k ∈ LainFS.childrenOf d' dir ↔ k ∈ LainFS.childrenOf d dir := by
    rw [mem_childrenOf_iff block', mem_childrenOf_iff block]
    constructor
    · rintro ⟨item, hk, hp⟩
      exact ⟨item, (h k item hp).mp hk, hp⟩
    · rintro ⟨item, hk, hp⟩
      exact ⟨item, (h k item hp).mpr hk, hp⟩
  rw [mem_childrenOf, mem_childrenOf] at hmem
  rw [Bool.eq_iff_iff]
  simpa using hmem

/-- The first element that satisfies `q`, from the first that satisfies a weaker test. -/
lemma find?_eq_some_of_first {α : Type*} {p q : α → Bool} {a : α} {l : List α} (ha : a ∈ l)
    (hqa : q a = true) (hfirst : ∀ b, l.find? p = some b → b = a)
    (himp : ∀ b, q b = true → b = a ∨ p b = true) : l.find? q = some a := by
  induction l with
  | nil => cases ha
  | cons b l ih =>
    by_cases hq : q b = true
    · rw [find?_cons_of_pos hq]
      rcases himp b hq with rfl | hp
      · rfl
      · rw [hfirst b (find?_cons_of_pos hp)]
    · have hba : b ≠ a := fun h => hq (h ▸ hqa)
      rw [find?_cons_of_neg hq]
      refine ih ((mem_cons.mp ha).resolve_left hba.symm) fun c hc => ?_
      by_cases hp : p b = true
      · exact absurd (hfirst b (find?_cons_of_pos hp)) hba
      · exact hfirst c (by rw [find?_cons_of_neg hp, hc])

section

variable (hfirst : ∀ k, findEntryInDir d dir name = some k → k = i)
include hfirst

/-- After a save the search finds the slot. -/
lemma fileUnder_self (hself : items' i = some item) (hused : item.used ≠ entryDir)
    (hparent : item.parent = dir) (hname : item.name = name)
    (hother : ∀ k, k ≠ i → items' k = itemAt d block k) : fileUnder items' dir name = some i := by
  simp only [findEntryInDir] at hfirst
  refine find?_eq_some_of_first (mem_finRange i) ?_ hfirst fun k hk => ?_
  · exact isFile_iff.mpr ⟨item, hself, hused, hparent, hname⟩
  by_cases hki : k = i
  · exact .inl hki
  right
  obtain ⟨item', hk', -, hp, hn⟩ := isFile_iff.mp hk
  rw [hother k hki] at hk'
  obtain ⟨hu, rfl⟩ := itemAt_eq_some.mp hk'
  dsimp only at hp hn
  simp [hu, hp, hn]

/-- Before it, the search found the slot or nothing. -/
lemma eq_of_fileUnder (hdir : (d i).used ≠ entryDir)
    (h : fileUnder (itemAt d block) dir name = some k) : k = i := by
  obtain ⟨item, hk, -, hp, hn⟩ := fileUnder_some h
  obtain ⟨hu, rfl⟩ := itemAt_eq_some.mp hk
  rcases hfind : findEntryInDir d dir name with _ | j
  · exact absurd ⟨hu, hp, hn⟩ (findEntry_eq_none hfind k)
  obtain rfl := hfirst j hfind
  obtain ⟨hju, hjp, hjn⟩ := findEntry_eq_some hfind
  have hself : fileUnder (itemAt d block) dir name = some j :=
    fileUnder_self hfirst (itemAt_eq_some.mpr ⟨hju, rfl⟩) hdir hjp hjn fun _ _ => rfl
  rw [h] at hself
  exact some_inj.mp hself

end

/-- The other files are found as before. -/
lemma fileUnder_other (hbefore : ∀ old, items i = some old → old.parent = dir ∧ old.name = name)
    (hself : items' i = some item) (hparent : item.parent = dir) (hname : item.name = name)
    (hother : ∀ k, k ≠ i → items' k = items k) (hne : ¬ (dir' = dir ∧ name' = name)) :
    fileUnder items' dir' name' = fileUnder items dir' name' := by
  rw [fileUnder, fileUnder]
  congr 1
  funext k
  by_cases hki : k = i
  · rw [Bool.eq_iff_iff, isFile_iff, isFile_iff, hki, hself]
    constructor
    · rintro ⟨item', hk, -, hp, hn⟩
      cases hk
      exact absurd ⟨hp.symm.trans hparent, hn.symm.trans hname⟩ hne
    · rintro ⟨old, hk, -, hp, hn⟩
      obtain ⟨hp', hn'⟩ := hbefore old hk
      exact absurd ⟨hp.symm.trans hp', hn.symm.trans hn'⟩ hne
  · rw [hother k hki]

end

/-! ### Tidy machines -/

/-- A machine without faults whose volumes are small enough for 32-bit sector numbers, and with caches
that agree with the disks. -/
structure Tidy (st : State) : Prop where
  healthy : Healthy st
  small : ∀ q, Small st.storage q
  clean : ∀ q, CleanAt st q

/-- Every volume holds the same as before. -/
structure Undisturbed (st st' : State) : Prop where
  tidy : Tidy st'
  tables : SameTables st.storage st'.storage
  held : ∀ q, heldTable st' q = heldTable st q
  items : ∀ q i, itemOf st' q i = itemOf st q i

lemma Undisturbed.refl (h : Tidy st) : Undisturbed st st :=
  ⟨h, .refl _, fun _ => rfl, fun _ _ => rfl⟩

lemma Undisturbed.trans {st₁ st₂ st₃ : State} (h₁ : Undisturbed st₁ st₂)
    (h₂ : Undisturbed st₂ st₃) : Undisturbed st₁ st₃ :=
  ⟨h₂.tidy, h₁.tables.trans h₂.tables, fun q => (h₂.held q).trans (h₁.held q),
    fun q i => (h₂.items q i).trans (h₁.items q i)⟩

lemma Undisturbed.mountForDrive (h : Undisturbed st st') (drive : UInt8) :
    LainFS.mountForDrive st' drive = LainFS.mountForDrive st drive := by
  rw [LainFS.mountForDrive, LainFS.mountForDrive, h.tables.getMountByDrive]

/-- A tidy machine on which the validator accepts every mounted volume. -/
structure Validated (st : State) : Prop extends Tidy st where
  valid : ∀ drive p, mountForDrive st drive = some p → ∃ super d, heldTable st p = .ok (super, d)

lemma Undisturbed.validated (h : Undisturbed st st') (hst : Validated st) : Validated st' := by
  refine ⟨h.tidy, fun drive p hm => ?_⟩
  rw [h.mountForDrive] at hm
  rw [h.held]
  exact hst.valid drive p hm

section

variable {st st' : State} {p : UInt32} {super : CheckedSuper} {d : Directory} {drive : UInt8}

lemma heldTable_eq_ok (h : heldTable st p = .ok (super, d)) :
    d = tableView st p super ∧ ∃ part, Usable st.storage p part super ∧
      DirectorySound super.1 part.blockCount d := by
  rw [heldTable] at h
  rcases hd : diskSuper st.storage p with _ | super'
  · rw [hd] at h
    cases h
  rw [hd] at h
  dsimp only at h
  cases hv : validateDirectory (storageGetPartition st.storage p) super'.1
      (tableView st p super') with
  | some _ =>
    rw [hv] at h
    cases h
  | none =>
    rw [hv] at h
    cases h
    obtain ⟨part, hp, hs⟩ := sound_of_accepted hv
    exact ⟨rfl, part, ⟨hp, hd, hs.layout⟩, hs⟩

lemma heldTable_of_keeps (hclean : CleanAt st p) (hk : Keeps p ∅ st st') :
    heldTable st' p = heldTable st p := by
  rw [heldTable, heldTable, hk.super]
  cases hd : diskSuper st.storage p with
  | none => rfl
  | some super =>
    dsimp only
    rw [hk.tables.getPartition, (hk.table hclean).2 super hd]

lemma itemOf_of_keeps (hsmall : Small st.storage p) (hclean : CleanAt st p)
    (hk : Keeps p ∅ st st') (i : Fin maxFiles) : itemOf st' p i = itemOf st p i := by
  have htable : tableOf st' p = tableOf st p := by
    rw [tableOf, tableOf, heldTable_of_keeps hclean hk]
  refine itemAt_congr (by rw [htable]) fun xs lba hfile hxs hlba => ?_
  rcases hheld : heldTable st p with e | held
  · rw [tableOf, hheld] at hfile
    cases hfile
  obtain ⟨super, d⟩ := held
  obtain ⟨-, part, hu, hs⟩ := heldTable_eq_ok hheld
  rw [tableOf_eq hheld] at hfile hxs
  exact hk.block part super lba hu (fileLbas_inData (hsmall part hu.partition)
    (hs.extentsSound hfile hxs) hlba) (Set.notMem_empty lba)

lemma Tidy.of_keeps (h : Tidy st) (hk : ∀ q, Keeps q ∅ st st') : Undisturbed st st' := by
  have ht := (hk 0).tables
  refine ⟨⟨h.healthy.congr ht fun q => (hk q).cache, fun q => (h.small q).congr ht, fun q => ?_⟩, ht,
    fun q => heldTable_of_keeps (h.clean q) (hk q),
    fun q i => itemOf_of_keeps (h.small q) (h.clean q) (hk q) i⟩
  exact ((hk q).table (h.clean q)).1

lemma Tidy.openDirectory (h : Tidy st) (hheld : heldTable st p = .ok (super, d)) :
    ∃ st₁, LainFS.openDirectory st p = (.ok super, st₁) ∧ st₁.directory = d ∧
      Undisturbed st st₁ := by
  obtain ⟨st₁, ho, hdir, hk⟩ := h.healthy.open_held hheld
  exact ⟨st₁, ho, hdir, h.of_keeps hk⟩

variable (h : Tidy st) (hm : mountForDrive st drive = some p)
  (hheld : heldTable st p = .ok (super, d))
include h hm hheld

lemma Tidy.load (parentId : UInt32) (name : CString) (bufferSize : UInt32) :
    (lainfsLoadFileInDir st drive parentId name bufferSize).1 =
        loadOf (.ok (super, d)) (blockView st p) parentId name.bytes bufferSize ∧
      Undisturbed st (lainfsLoadFileInDir st drive parentId name bufferSize).2 := by
  refine ⟨?_, h.of_keeps fun q => ?_⟩
  · rw [loadFile_eq (h.healthy.readable p) hm, hheld]
  refine (loadFile_keeps (h.healthy.cache q) (h.healthy.isolated q) (fun _ => h.small q)
    parentId name bufferSize).resolve_right ?_
  rintro ⟨hq, e, ho⟩
  obtain ⟨st₁, ho', -⟩ := h.openDirectory hheld
  rw [hm] at hq
  cases hq
  rw [ho'] at ho
  cases ho

/-- The file that a load of the name reads. -/
def fileNamed (st : State) (p dir : UInt32) (name : List UInt8) : Option (Fin maxFiles) :=
  if validName name = true ∧ validDirId (tableOf st p) dir = true then
    fileUnder (itemOf st p) dir name
  else none

/-- A load finds no file, or one that is too long for the buffer, or it hands back the bytes. -/
theorem Tidy.load_cases (dir : UInt32) (name : CString) {bufferSize : UInt32}
    (hbuffer : bufferSize ≠ 0) :
    let r := (lainfsLoadFileInDir st drive dir name bufferSize).1
    (fileNamed st p dir name.bytes = none ∧ r.status ≠ 0 ∧ r.bytes = []) ∨
      ∃ i item, fileNamed st p dir name.bytes = some i ∧ itemOf st p i = some item ∧
        item.used = entryFile ∧ item.parent = dir ∧ item.name = name.bytes ∧
        item.size.toNat ≤ fileCapacity.toNat ∧ item.bytes.length = item.size.toNat ∧
        ((bufferSize.toNat < item.size.toNat ∧ r.status ≠ 0 ∧ r.bytes = []) ∨
          (item.size.toNat ≤ bufferSize.toNat ∧ r = ⟨0, item.size, item.bytes⟩)) := by
  intro r
  have hr : r = loadOf (.ok (super, d)) (blockView st p) dir name.bytes bufferSize :=
    (h.load hm hheld dir name bufferSize).1
  obtain ⟨-, part, -, hsound⟩ := heldTable_eq_ok hheld
  have hitems : itemOf st p = itemAt d (blockView st p) := funext (itemOf_eq hheld)
  unfold loadOf at hr
  rw [fileNamed, tableOf_eq hheld, hitems, ← findFileInDir_eq]
  by_cases hname : validName name.bytes = false
  · left
    rw [if_pos (Or.inl hname)] at hr
    rw [if_neg (by rw [hname]; exact fun hc => absurd hc.1 (by decide)), hr]
    exact ⟨rfl, (by decide : (-2 : ℤ) ≠ 0), rfl⟩
  rw [if_neg (not_or.mpr ⟨hname, hbuffer⟩)] at hr
  dsimp only at hr
  by_cases hdir : validDirId d dir = false
  · left
    rw [if_pos hdir] at hr
    rw [if_neg (by rw [hdir]; exact fun hc => absurd hc.2 (by decide)), hr]
    exact ⟨rfl, (by decide : (-7 : ℤ) ≠ 0), rfl⟩
  rw [if_neg hdir] at hr
  rw [Bool.not_eq_false] at hname hdir
  rw [if_pos ⟨hname, hdir⟩]
  rcases hfind : findFileInDir d dir name.bytes with _ | i
  · rw [hfind] at hr
    left
    rw [hr]
    exact ⟨rfl, (by decide : (-5 : ℤ) ≠ 0), rfl⟩
  right
  rw [hfind] at hr
  dsimp only at hr
  obtain ⟨hfile, -⟩ := findFileInDir_sound hsound hfind
  obtain ⟨hcap, hlen, xs, hxs, hbytes⟩ := fileBytes_spec hsound hfile (blockView st p)
  rw [findFileInDir_eq (blockView st p)] at hfind
  obtain ⟨item, hitem, -, hparent, hnm⟩ := fileUnder_some hfind
  obtain ⟨-, heq⟩ := itemAt_eq_some.mp hitem
  refine ⟨i, item, rfl, hitem, by rw [heq]; exact hfile, hparent, hnm, by rw [heq]; exact hcap,
    by rw [heq]; exact hlen, ?_⟩
  have hsize : item.size = (d i).byteSize := by rw [heq]
  have hdata : item.bytes = fileBytes d (blockView st p) i := by rw [heq]
  rw [hsize, hdata]
  by_cases hfit : (d i).byteSize > bufferSize
  · left
    rw [if_pos (Or.inr hfit)] at hr
    rw [gt_iff_lt, UInt32.lt_iff_toNat_lt] at hfit
    rw [hr]
    exact ⟨hfit, (by decide : (-6 : ℤ) ≠ 0), rfl⟩
  · right
    have hcap' : ¬ (d i).byteSize > fileCapacity := by
      rw [gt_iff_lt, UInt32.lt_iff_toNat_lt]
      omega
    rw [if_neg (not_or.mpr ⟨hcap', hfit⟩), hxs] at hr
    rw [gt_iff_lt, UInt32.lt_iff_toNat_lt, not_lt] at hfit
    rw [hr, hbytes]
    exact ⟨hfit, rfl⟩

/-- `lainfs_find_dir` on the table. -/
def findDirIn (d : Directory) (parentId : UInt32) (name : List UInt8) : Option UInt32 :=
  if validName name = false ∨ validDirId d parentId = false then none
  else
    match findEntryInDir d parentId name with
    | none => none
    | some i => if (d i).used = entryDir then some (entryIdFromIndex i) else none

/-- `lainfs_parent_dir` on the table. -/
def parentDirIn (d : Directory) (dirId : UInt32) : Option UInt32 :=
  if dirId = rootDir then some rootDir
  else if validDirId d dirId = false then none
  else some (entryParentId (d (indexFromEntryId dirId)))

/-- A status with an id, or a failure. -/
def Answers (result : ℤ × UInt32) (answer : Option UInt32) : Prop :=
  match answer with
  | some id => result = (0, id)
  | none => result.1 ≠ 0

lemma Tidy.findDir (parentId : UInt32) (name : CString) :
    Answers (lainfsFindDir st drive parentId name).1 (findDirIn d parentId name.bytes) ∧
      Undisturbed st (lainfsFindDir st drive parentId name).2 := by
  obtain ⟨st₁, ho, rfl, hst₁⟩ := h.openDirectory hheld
  rw [lainfsFindDir, hm, findDirIn]
  dsimp only
  by_cases hname : validName name.bytes = false
  · rw [if_pos hname, if_pos (Or.inl hname)]
    exact ⟨(by decide : (-2 : ℤ) ≠ 0), .refl h⟩
  rw [if_neg hname, ho]
  dsimp only
  by_cases hdir : validDirId st₁.directory parentId = false
  · rw [if_pos hdir, if_pos (Or.inr hdir)]
    exact ⟨(by decide : (-7 : ℤ) ≠ 0), hst₁⟩
  rw [if_neg hdir, if_neg (not_or.mpr ⟨hname, hdir⟩)]
  rcases findEntryInDir st₁.directory parentId name.bytes with _ | i
  · exact ⟨(by decide : (-5 : ℤ) ≠ 0), hst₁⟩
  dsimp only
  by_cases hi : (st₁.directory i).used = entryDir
  · rw [if_neg (not_not.mpr hi), if_pos hi]
    exact ⟨rfl, hst₁⟩
  · rw [if_pos hi, if_neg hi]
    exact ⟨(by decide : (-5 : ℤ) ≠ 0), hst₁⟩

lemma Tidy.parentDir (dirId : UInt32) :
    Answers (lainfsParentDir st drive dirId).1 (parentDirIn d dirId) ∧
      Undisturbed st (lainfsParentDir st drive dirId).2 := by
  obtain ⟨st₁, ho, rfl, hst₁⟩ := h.openDirectory hheld
  rw [lainfsParentDir, hm, parentDirIn]
  dsimp only
  by_cases hroot : dirId = rootDir
  · rw [if_pos hroot, if_pos hroot]
    exact ⟨rfl, .refl h⟩
  rw [if_neg hroot, if_neg hroot, ho]
  dsimp only
  by_cases hdir : validDirId st₁.directory dirId = false
  · rw [if_pos hdir, if_pos hdir]
    exact ⟨(by decide : (-5 : ℤ) ≠ 0), hst₁⟩
  · rw [if_neg hdir, if_neg hdir]
    exact ⟨rfl, hst₁⟩

lemma Tidy.childCount (parentId : UInt32) : (lainfsChildCount st drive parentId).1 =
        (if validDirId d parentId = false then (-5, 0) else (0, (childrenOf d parentId).length)) ∧
      Undisturbed st (lainfsChildCount st drive parentId).2 := by
  obtain ⟨st₁, ho, rfl, hst₁⟩ := h.openDirectory hheld
  rw [lainfsChildCount, hm]
  dsimp only
  rw [ho]
  dsimp only
  split_ifs
  · exact ⟨rfl, hst₁⟩
  · exact ⟨rfl, hst₁⟩

lemma Tidy.childInfo (hdir : validDirId d parentId = true) {k : ℕ}
    (hi : (childrenOf d parentId)[k]? = some i) :
    (lainfsChildInfo st drive parentId k).1 = .ok (LainFS.childInfo (d i)) ∧
      Undisturbed st (lainfsChildInfo st drive parentId k).2 := by
  obtain ⟨st₁, ho, rfl, hst₁⟩ := h.openDirectory hheld
  rw [lainfsChildInfo, hm]
  dsimp only
  rw [ho]
  dsimp only
  rw [if_neg (by rw [hdir]; decide), hi]
  exact ⟨rfl, hst₁⟩

end

/-! ### Saving -/

/-- The slot a save uses and the table it leaves, if the table has a slot and room for the file. -/
def saveIn (part : Option Partition) (super : Superblock) (d : Directory) (parentId : UInt32)
    (name : List UInt8) (size : UInt32) : Option (Fin maxFiles × Directory) :=
  match claimSlot d parentId name with
  | .error _ => none
  | .ok (i, d₁) =>
    (findFreeExtents part super (requiredBlocks size) i d₁).map fun xs =>
      (i, d₁.set i (fileEntry (d₁ i) name size xs))

/-- Slot `i` of the volume got the item, and no other slot of any volume changed. -/
structure Saved (st st' : State) (p : UInt32) (i : Fin maxFiles) (item : Item) : Prop where
  tidy : Tidy st'
  tables : SameTables st.storage st'.storage
  held : ∀ q, q ≠ p → heldTable st' q = heldTable st q
  self : itemOf st' p i = some item
  other : ∀ q k, ¬ (q = p ∧ k = i) → itemOf st' q k = itemOf st q k

section

variable {p : UInt32} {super : CheckedSuper} {d : Directory} {drive : UInt8}

lemma Tidy.run_save (h : Tidy st) (hm : mountForDrive st drive = some p) (parentId : UInt32)
    (name : CString) (buffer : ℕ → UInt8) (size : UInt32) :
    let st' := (lainfsSaveFileInDir st drive parentId name buffer size).2
    CleanAt st' p →
      Tidy st' ∧ SameTables st.storage st'.storage ∧ ∀ q, q ≠ p → Keeps q ∅ st st' := by
  intro st' hclean
  have hkeeps : ∀ q, q ≠ p → Keeps q ∅ st st' := by
    intro q hq
    refine saveFile_keeps_other (h.healthy.cache q) (h.healthy.isolated q) ?_ parentId
      name buffer size
    rw [hm]
    exact fun heq => hq (some_inj.mp heq).symm
  have ht := h.healthy.sameTables (.table (.save drive parentId name buffer size))
  refine ⟨⟨h.healthy.run h.small (.table (.save drive parentId name buffer size)),
    fun q => (h.small q).congr ht, fun q => ?_⟩, ht, hkeeps⟩
  by_cases hq : q = p
  · exact hq ▸ hclean
  · exact ((hkeeps q hq).table (h.clean q)).1

lemma heldTable_saveDirectory {part : Partition} (hu : Usable st.storage p part super)
    (hsound : DirectorySound super.1 part.blockCount st.directory) :
    heldTable (saveDirectory st p) p = .ok (super, st.directory) := by
  have htv : tableView (saveDirectory st p) p super = st.directory := tableView_tagged super rfl
  have hu' : Usable (saveDirectory st p).storage p part super := hu
  rw [← htv] at hsound ⊢
  exact hu'.heldTable_eq (validate_eq_none.mpr hsound)

/-- A save does what the table says. -/
theorem Tidy.save (h : Tidy st) (hm : mountForDrive st drive = some p)
    (hheld : heldTable st p = .ok (super, d)) (parentId : UInt32) {name : CString}
    (hname : validName name.bytes = true) (buffer : ℕ → UInt8)
    (hsize : size.toNat ≤ fileCapacity.toNat) :
    let r := lainfsSaveFileInDir st drive parentId name buffer size
    (saveIn (storageGetPartition st.storage p) super.1 d parentId name.bytes size = none ∧ r.1 ≠ 0) ∨
      ∃ i d', saveIn (storageGetPartition st.storage p) super.1 d parentId name.bytes size
          = some (i, d') ∧ r.1 = 0 ∧ heldTable r.2 p = .ok (super, d') ∧
        Saved st r.2 p i
          ⟨entryFile, parentId, name.bytes, size, (List.range size.toNat).map buffer⟩ := by
  intro r
  obtain ⟨st₁, ho, rfl, hst₁⟩ := h.openDirectory hheld
  have hheld₁ : heldTable st₁ p = .ok (super, st₁.directory) := (hst₁.held p).trans hheld
  obtain ⟨-, part, hu, hsound⟩ := heldTable_eq_ok hheld₁
  have hbc := hst₁.tidy.small p part hu.partition
  have hpart : storageGetPartition st.storage p = some part :=
    (hst₁.tables.getPartition p).symm.trans hu.partition
  rw [saveIn, hpart]
  have hrun := saveFile_outcome hm parentId name buffer size
  obtain ⟨r', hr⟩ : ∃ r', r = r' := ⟨r, rfl⟩
  rw [ho, show lainfsSaveFileInDir st drive parentId name buffer size = r' from hr] at hrun
  cases hrun with
  | refused hbad =>
    rw [hname, gt_iff_lt, UInt32.lt_iff_toNat_lt] at hbad
    exact absurd hsize (not_le.mpr (hbad.resolve_left Bool.noConfusion))
  | unclaimed _ _ hclaim =>
    left
    rw [hr, hclaim]
    exact ⟨rfl, claim_error_ne hclaim⟩
  | full _ _ hclaim hext =>
    rw [hu.partition] at hext
    left
    rw [hr, hclaim]
    dsimp only
    rw [hext]
    exact ⟨rfl, (by decide : (-9 : ℤ) ≠ 0)⟩
  | @written _ _ i d₁ xs ok st₃ _ _ hclaim hext hw =>
    rw [hu.partition] at hext
    have hplan : SavePlan part super.1 st₁.directory parentId name.bytes size _ _ _ :=
      ⟨hbc, hsound, hname, name.nonzero, hsize, hclaim, hext⟩
    obtain rfl : true = ok := by rw [← hst₁.tidy.healthy.writeBlocks hplan hu, hw]
    obtain ⟨hu₃, hdir, hfile, hother, hblock⟩ := savedFile_sound hplan
      (hst₁.tidy.healthy.cache p) (hst₁.tidy.healthy.isolated p) hu hw
    have hheld₃ := heldTable_saveDirectory hu₃ (hdir ▸ hplan.sound_set)
    rw [if_pos rfl, if_pos rfl] at hr
    obtain ⟨htidy, htables, hkeeps⟩ := h.run_save hm parentId name buffer size
      (by change CleanAt r.2 p; rw [hr]; exact .of_dirty rfl)
    rw [hclaim]
    dsimp only
    rw [hext]
    refine .inr ⟨i, _, rfl, by rw [hr], ?_, htidy, htables,
      fun q hq => heldTable_of_keeps (h.clean q) (hkeeps q hq), ?_, fun q k hqk => ?_⟩
    · rw [hr, hheld₃, hdir]
    · rw [hr, itemOf_eq hheld₃]
      exact hfile.itemAt hsize
    by_cases hq : q = p
    · subst hq
      have hk : k ≠ i := fun hki => hqk ⟨rfl, hki⟩
      rw [← hst₁.items, itemOf_eq hheld₁, hr, itemOf_eq hheld₃]
      exact itemAt_congr (hother k hk) fun ys lba hf hys hlba => hblock k ys lba hk hf hys hlba
    · exact itemOf_of_keeps (h.small q) (h.clean q) (hkeeps q hq) k

/-- The slot that a save claims is free or holds the old file. -/
lemma saveIn_slot {part : Option Partition} {super : Superblock} {d' : Directory}
    (h : saveIn part super d parentId name size = some (i, d')) (block : UInt32 → Sector) :
    (∀ k, findEntryInDir d parentId name = some k → k = i) ∧ (d i).used ≠ entryDir ∧
      ∀ old, itemAt d block i = some old → old.parent = parentId ∧ old.name = name := by
  rw [saveIn] at h
  rcases hclaim : claimSlot d parentId name with code | slot
  · rw [hclaim] at h
    cases h
  rw [hclaim] at h
  obtain ⟨xs, -, heq⟩ := map_eq_some_iff.mp h
  cases heq
  obtain ⟨-, ⟨hfind, hnd, -⟩ | ⟨hfind, hfree, -⟩⟩ := claim_eq_ok hclaim
  · refine ⟨fun k hk => ?_, hnd, fun old hold => ?_⟩
    · rw [hfind] at hk
      exact (some_inj.mp hk).symm
    · obtain ⟨-, hp, hn⟩ := findEntry_eq_some hfind
      obtain ⟨-, rfl⟩ := itemAt_eq_some.mp hold
      exact ⟨hp, hn⟩
  · refine ⟨fun k hk => ?_, by rw [hfree]; decide, fun old hold => ?_⟩
    · rw [hfind] at hk
      cases hk
    · exact absurd hfree (itemAt_eq_some.mp hold).1

/-- What a save that returns 0 did. -/
lemma Tidy.save_zero (h : Tidy st) (hm : mountForDrive st drive = some p)
    (hheld : heldTable st p = .ok (super, d)) {name : CString} {r : ℤ × State}
    (hr : lainfsSaveFileInDir st drive parentId name buffer size = r) (hzero : r.1 = 0) : ∃ i d',
    saveIn (storageGetPartition st.storage p) super.1 d parentId name.bytes size
        = some (i, d') ∧ heldTable r.2 p = .ok (super, d') ∧
      Saved st r.2 p i
        ⟨entryFile, parentId, name.bytes, size, (List.range size.toNat).map buffer⟩ := by
  have harg : validName name.bytes = true ∧ size.toNat ≤ fileCapacity.toNat := by
    have hrun := saveFile_outcome hm parentId name buffer size
    generalize LainFS.openDirectory st p = o at hrun
    rw [hr] at hrun
    cases hrun with
    | refused => cases hzero
    | unopened hne => exact absurd hzero hne
    | unclaimed hname hsize => exact ⟨hname, hsize⟩
    | full hname hsize => exact ⟨hname, hsize⟩
    | written hname hsize => exact ⟨hname, hsize⟩
  subst hr
  rcases h.save hm hheld parentId harg.1 buffer harg.2 with
    ⟨-, hne⟩ | ⟨i, d', hin, -, hheld', hsaved⟩
  · exact absurd hzero hne
  · exact ⟨i, d', hin, hheld', hsaved⟩

end

/-! ### An example -/

lemma one_getMount {drive : UInt8} {m : Mount}
    (h : storageGetMountByDrive (oneVolume blockCount) drive = some m) : m.partitionIndex = 0 := by
  have hindex : ∀ i, ((oneVolume blockCount).mounts i).partitionIndex = 0 := by
    intro i
    simp only [oneVolume]
    split_ifs <;> rfl
  simp only [storageGetMountByDrive] at h
  split_ifs at h
  cases h
  exact hindex _

lemma buffered_validated {d : Directory} (h : blockCount.toNat ≤ 6144)
    (hl : ¬ layoutIsBad formatSuper blockCount)
    (hv : validateDirectory (some (volumePartition blockCount)) formatSuper d = none) :
    Validated (bufferedVolume blockCount d true) ∧
      heldTable (bufferedVolume blockCount d true) 0 = .ok (checkedFormatSuper, d) := by
  have hu : Usable (oneVolume blockCount) 0 (volumePartition blockCount) checkedFormatSuper :=
    (fresh_usable hl).1
  have hheld : heldTable (bufferedVolume blockCount d true) 0 = .ok (checkedFormatSuper, d) := by
    have hu' : Usable (bufferedVolume blockCount d true).storage 0 (volumePartition blockCount)
        checkedFormatSuper := hu
    have htv : tableView (bufferedVolume blockCount d true) 0 checkedFormatSuper = d :=
      tableView_tagged _ rfl
    exact hu'.heldTable_eq hv
  refine ⟨⟨⟨?_, fresh_small h, fun q hq => by cases hq⟩, fun drive p hm => ?_⟩, hheld⟩
  · refine (fresh_healthy h).congr (.refl _) fun q =>
      cacheAt_of_no_lines (fun _ => rfl) (fun super hs => ?_) fun hd => ?_
    · cases hs
      exact hu.onDisk
    · cases hd
      exact ⟨_, _, hu⟩
  · obtain ⟨m, hmount, rfl⟩ := map_eq_some_iff.mp hm
    rw [one_getMount hmount]
    exact ⟨_, _, hheld⟩

end LainFS
