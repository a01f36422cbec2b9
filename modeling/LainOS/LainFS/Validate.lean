import LainOS.LainFS.Extents
import LainOS.Lib.ParentWalk
import LainOS.Storage.Basic

/-!
# The directory validator

`validate_directory` checks the layout of the superblock, then every entry of the table in
order, and last every pair of files for shared sectors. It stops at the first defect and reports
its reason and entry id. `validate_eq_none` says what an accepted table is.
-/

namespace LainFS

open Storage ParentWalk List Directory

variable {j : Fin maxFiles} {total : UInt32} {xs : List Extent}

structure Superblock where
  magic0 : UInt32
  magic1 : UInt32
  version : UInt32
  blockSize : UInt32
  dirStartLba : UInt32
  dirBlocks : UInt32
  dataStartLba : UInt32
  maxFiles : UInt32
deriving DecidableEq

/-- The `LAINFS_CHECK_*` reasons. -/
inductive CheckReason
  | ok | noPartition | badSuperblock | badLayout | badEntryType | badName | badParent
  | badDirectory | badFileSize | badFileExtent | overlappingExtents
deriving DecidableEq

def CheckReason.code : CheckReason → UInt32
  | ok => 0
  | noPartition => 1
  | badSuperblock => 2
  | badLayout => 3
  | badEntryType => 4
  | badName => 5
  | badParent => 6
  | badDirectory => 7
  | badFileSize => 8
  | badFileExtent => 9
  | overlappingExtents => 10

/-! ### Parent links -/

/-- The loop of `find_directory_parent_cycle`; `seen` holds the marked entries. -/
def parentCycleLoop (d : Directory) (seen : Finset (Fin maxFiles)) (current : UInt32) :
    Option UInt32 :=
  if current = rootDir then none
  else if current = 0 ∨ maxFiles < current.toNat then none
  else if indexFromEntryId current ∈ seen then some current
  else if (d (indexFromEntryId current)).used ≠ entryDir then none
  else
    let parentId := entryParentId (d (indexFromEntryId current))
    if parentId = rootDir then none
    else if maxFiles < parentId.toNat then none
    else parentCycleLoop d (insert (indexFromEntryId current) seen) parentId
termination_by maxFiles - seen.card
decreasing_by
  rename_i hnot _ _ _
  have hlt : seen.card < Fintype.card (Fin maxFiles) := Finset.card_lt_univ_of_notMem hnot
  rw [Fintype.card_fin] at hlt
  rw [Finset.card_insert_of_notMem hnot]
  omega

/-- `some c`: the walk from `dirId` comes back to the entry with id `c`. -/
def findDirectoryParentCycle (d : Directory) (dirId : UInt32) : Option UInt32 :=
  if dirId = rootDir ∨ maxFiles < dirId.toNat then none else parentCycleLoop d ∅ dirId

/-! ### The checks -/

/-- The loop over the extents of one file. -/
def checkExtents (dataStart : UInt32) (blockCount : UInt64) :
    UInt32 → List Extent → Option CheckReason
  | _, [] => none
  | total, x :: rest =>
    let endLba := x.startLba.toUInt64 + x.blocks.toUInt64
    if x.blocks = 0 ∨ total > maxFileBlocks - x.blocks ∨ x.startLba < dataStart ∨
        endLba > blockCount then some .badFileExtent
    else if rest.any fun y => rangesOverlap x.startLba x.blocks y.startLba y.blocks then
      some .overlappingExtents
    else checkExtents dataStart blockCount (total + x.blocks) rest

/-- One round of the loop over the entries. -/
def checkEntry (super : Superblock) (blockCount : UInt64) (d : Directory) (i : Fin maxFiles) :
    Option (CheckReason × UInt32) :=
  let e := d i
  let id := entryIdFromIndex i
  let parentId := entryParentId e
  if e.used = 0 then none
  else if e.used ≠ entryFile ∧ e.used ≠ entryDir then some (.badEntryType, id)
  else if entryNameIsValid e.name = false then some (.badName, id)
  else if maxFiles < parentId.toNat ∨ parentId = id then some (.badParent, id)
  else if parentId ≠ rootDir ∧ (d (indexFromEntryId parentId)).used ≠ entryDir then
    some (.badParent, id)
  else if e.used = entryDir then
    if e.startLba ≠ 0 ∨ e.byteSize ≠ 0 then some (.badDirectory, id)
    else
      match findDirectoryParentCycle d id with
      | some cycleId => some (.badParent, if cycleId ≠ 0 then cycleId else id)
      | none => none
  else if e.byteSize > fileCapacity then some (.badFileSize, id)
  else
    match entryExtents e with
    | none => some (.badFileExtent, id)
    | some extents =>
      (checkExtents super.dataStartLba blockCount 0 extents).map fun reason => (reason, id)

/-- The inner round of the second loop: file `i` against a later entry `j`. -/
def checkPair (d : Directory) (i j : Fin maxFiles) : Option (CheckReason × UInt32) :=
  if (d j).used ≠ entryFile then none
  else
    match entryExtents (d i), entryExtents (d j) with
    | some xs, some ys =>
      if xs.any fun x => ys.any fun y => rangesOverlap x.startLba x.blocks y.startLba y.blocks then
        some (.overlappingExtents, entryIdFromIndex j)
      else none
    | _, _ => some (.badFileExtent, entryIdFromIndex j)

/-- The second loop: no two files share a sector. -/
def checkOverlaps (d : Directory) : Option (CheckReason × UInt32) :=
  (List.finRange maxFiles).findSome? fun i =>
    if (d i).used ≠ entryFile then none
    else ((List.finRange maxFiles).filter fun j => i < j).findSome? (checkPair d i)

def layoutIsBad (super : Superblock) (blockCount : UInt64) : Prop :=
  super.dirStartLba = 0 ∨ super.dirBlocks = 0 ∨ super.dataStartLba ≤ super.dirStartLba ∨
    super.dirStartLba.toUInt64 + super.dirBlocks.toUInt64 > super.dataStartLba.toUInt64 ∨
    super.dataStartLba.toUInt64 ≥ blockCount

instance (super : Superblock) (blockCount : UInt64) : Decidable (layoutIsBad super blockCount) :=
  inferInstanceAs (Decidable (_ ∨ _))

/-- `none` when the table is accepted, else the reason and the entry id reported. -/
def validateDirectory (part : Option Partition) (super : Superblock) (d : Directory) :
    Option (CheckReason × UInt32) :=
  match part with
  | none => some (.noPartition, 0)
  | some part =>
    if layoutIsBad super part.blockCount then some (.badLayout, 0)
    else
      match (List.finRange maxFiles).findSome? (checkEntry super part.blockCount d) with
      | some defect => some defect
      | none => checkOverlaps d

/-! ### The parent cycle search -/

/-- The parent of a directory that is not in the root, as an index. -/
def parentLink (d : Directory) (i : Fin maxFiles) : Option (Fin maxFiles) :=
  if (d i).used = entryDir ∧ entryParentId (d i) ≠ rootDir ∧
      (entryParentId (d i)).toNat ≤ maxFiles then
    some (indexFromEntryId (entryParentId (d i)))
  else none

variable {d : Directory} {i : Fin maxFiles}

lemma link_eq_some : parentLink d i = some j ↔
      (d i).used = entryDir ∧ entryParentId (d i) = entryIdFromIndex j := by
  simp only [parentLink]
  split_ifs with h
  · obtain ⟨hdir, hroot, hle⟩ := h
    simp only [Option.some.injEq, hdir, true_and]
    constructor
    · rintro rfl
      rw [entryId_index hroot hle]
    · intro hp
      rw [hp, index_entryId]
  · simp only [false_iff]
    rintro ⟨hdir, hp⟩
    rw [hp] at h
    exact h ⟨hdir, entryId_ne_root j, toNat_entryId_le j⟩

lemma cycleLoop_entryId (d : Directory) (seen : Finset (Fin maxFiles)) (i : Fin maxFiles) :
    parentCycleLoop d seen (entryIdFromIndex i)
      = (findRepeat (parentLink d) seen i).map entryIdFromIndex := by
  have hroot := fun i => entryId_ne_root i
  have hrange := entryId_inRange
  fun_induction findRepeat (parentLink d) seen i with
  | case1 seen i hmem =>
    rw [parentCycleLoop, if_neg (hroot i), if_neg (hrange i), index_entryId, if_pos hmem]
    rfl
  | case2 seen i hmem hnone =>
    rw [parentCycleLoop, if_neg (hroot i), if_neg (hrange i), index_entryId, if_neg hmem]
    simp only [parentLink, ite_eq_right_iff, reduceCtorEq, imp_false] at hnone
    dsimp only
    split_ifs with hdir hr hle
    · rfl
    · rfl
    · rfl
    · exact absurd ⟨not_not.mp hdir, hr, not_lt.mp hle⟩ hnone
  | case3 seen i hmem j hsome ih =>
    obtain ⟨hdir, hp⟩ := link_eq_some.mp hsome
    rw [parentCycleLoop, if_neg (hroot i), if_neg (hrange i), index_entryId,
      if_neg hmem, if_neg (not_not.mpr hdir)]
    simp only [hp]
    rw [if_neg (hroot j), if_neg fun h => hrange j (Or.inr h), ih]

lemma findCycle_eq : findDirectoryParentCycle d (entryIdFromIndex i) =
      (findRepeat (parentLink d) ∅ i).map entryIdFromIndex :=
  (if_neg (entryId_inRange i)).trans (cycleLoop_entryId d ∅ i)

/-- The search reports nothing exactly when the parent chain ends. -/
lemma findCycle_eq_none :
    findDirectoryParentCycle d (entryIdFromIndex i) = none ↔ Grounded (parentLink d) i := by
  rw [findCycle_eq, Option.map_eq_none_iff, findRepeat_none_iff]

/-- A reported id belongs to an entry on a cycle of parent links. -/
lemma findCycle_eq_some {c : UInt32}
    (h : findDirectoryParentCycle d (entryIdFromIndex i) = some c) :
    ∃ k, c = entryIdFromIndex k ∧ Relation.TransGen (Step (parentLink d)) k k := by
  rw [findCycle_eq] at h
  obtain ⟨k, hk, rfl⟩ := Option.map_eq_some_iff.mp h
  exact ⟨k, rfl, (findRepeat_eq_some (by simp) hk).1⟩

/-! ### What an accepted entry satisfies -/

/-- The parent link of a used entry is legal. -/
structure ParentSound (d : Directory) (i : Fin maxFiles) : Prop where
  le : (entryParentId (d i)).toNat ≤ maxFiles
  ne_self : entryParentId (d i) ≠ entryIdFromIndex i
  isDir : entryParentId (d i) ≠ rootDir →
    (d (indexFromEntryId (entryParentId (d i)))).used = entryDir

/-- The extents of a file lie in the data area and do not overlap, as the code compares them. -/
structure ExtentsSound (super : Superblock) (blockCount : UInt64) (xs : List Extent) : Prop where
  inData : ∀ x ∈ xs, super.dataStartLba.toNat ≤ x.startLba.toNat ∧
    x.startLba.toNat + x.blocks.toNat ≤ blockCount.toNat
  apart : xs.Pairwise fun x y => rangesOverlap x.startLba x.blocks y.startLba y.blocks = false

/-- What `checkEntry` accepts of a used entry. -/
structure EntrySound (super : Superblock) (blockCount : UInt64) (d : Directory)
    (i : Fin maxFiles) : Prop where
  type : (d i).used = entryFile ∨ (d i).used = entryDir
  name : entryNameIsValid (d i).name = true
  parent : ParentSound d i
  dir : (d i).used = entryDir →
    (d i).startLba = 0 ∧ (d i).byteSize = 0 ∧ Grounded (parentLink d) i
  file : (d i).used = entryFile → (d i).byteSize.toNat ≤ fileCapacity.toNat ∧
    ∃ xs, entryExtents (d i) = some xs ∧ ExtentsSound super blockCount xs

lemma file_or_dir {t : UInt8} (h : ¬ (t ≠ entryFile ∧ t ≠ entryDir)) :
    t = entryFile ∨ t = entryDir := by
  rwa [not_and_or, not_not, not_not] at h

lemma used_ne_zero {t : UInt8} (h : t = entryFile ∨ t = entryDir) : t ≠ 0 := by
  rcases h with rfl | rfl <;> decide

lemma toNat_add_toUInt64 (a b : UInt32) : (a.toUInt64 + b.toUInt64).toNat = a.toNat + b.toNat := by
  have ha := a.toNat_lt
  have hb := b.toNat_lt
  rw [UInt64.toNat_add, UInt32.toNat_toUInt64, UInt32.toNat_toUInt64, Nat.mod_eq_of_lt (by omega)]

variable {super : Superblock} {blockCount : UInt64}

/-- The loop over the extents accepts exactly the sound lists; `hsum` keeps its total small. -/
lemma checkExtents_eq_none (hnz : ∀ x ∈ xs, x.blocks ≠ 0)
    (hsum : total.toNat + blockSum xs ≤ maxFileBlocks.toNat) :
    checkExtents super.dataStartLba blockCount total xs = none ↔
      ExtentsSound super blockCount xs := by
  have hmax : maxFileBlocks.toNat = 8192 := rfl
  induction xs generalizing total with
  | nil =>
    simp only [checkExtents, true_iff]
    exact ⟨by simp, .nil⟩
  | cons x xs ih =>
    rw [blockSum_cons] at hsum
    obtain ⟨hx0, hnz'⟩ := forall_mem_cons.mp hnz
    have hsub : (maxFileBlocks - x.blocks).toNat = 8192 - x.blocks.toNat :=
      UInt32.toNat_sub_of_le _ _ (UInt32.le_iff_toNat_le.mpr (by omega))
    have hadd : (total + x.blocks).toNat = total.toNat + x.blocks.toNat := by
      rw [UInt32.toNat_add, Nat.mod_eq_of_lt (by omega)]
    have htot : ¬ total > maxFileBlocks - x.blocks := by
      rw [gt_iff_lt, UInt32.lt_iff_toNat_lt, hsub]
      omega
    simp only [checkExtents, hx0, htot, false_or, gt_iff_lt, UInt32.lt_iff_toNat_lt,
      UInt64.lt_iff_toNat_lt, toNat_add_toUInt64]
    split_ifs with hrange hover
    · simp only [false_iff]
      intro hs
      have := hs.inData x mem_cons_self
      omega
    · simp only [false_iff]
      intro hs
      obtain ⟨y, hy, hxy⟩ := any_eq_true.mp hover
      rw [(pairwise_cons.mp hs.apart).1 y hy] at hxy
      cases hxy
    have hsum' : (total + x.blocks).toNat + blockSum xs ≤ maxFileBlocks.toNat := by omega
    refine (ih hnz' hsum').trans ?_
    have hover' : ∀ y ∈ xs, rangesOverlap x.startLba x.blocks y.startLba y.blocks = false :=
      fun y hy => Bool.eq_false_iff.mpr fun h => hover (any_eq_true.mpr ⟨y, hy, h⟩)
    constructor
    · intro hs
      exact ⟨forall_mem_cons.mpr ⟨by omega, hs.inData⟩, pairwise_cons.mpr ⟨hover', hs.apart⟩⟩
    · intro hs
      exact ⟨(forall_mem_cons.mp hs.inData).2, (pairwise_cons.mp hs.apart).2⟩

/-- The extents of an entry do not exceed the total of the loop. -/
lemma checkExtents_of_extents {e : Dirent} {xs : List Extent} (hx : entryExtents e = some xs)
    (hsize : e.byteSize.toNat ≤ fileCapacity.toNat) :
    checkExtents super.dataStartLba blockCount 0 xs = none ↔ ExtentsSound super blockCount xs := by
  obtain ⟨-, -, hnz, hsum⟩ := extents_spec hx
  have hle := toNat_allocated_le hsize
  exact checkExtents_eq_none hnz (by rw [hsum]; simpa using hle)

lemma sound_iff : ParentSound d i ↔
    ¬ (maxFiles < (entryParentId (d i)).toNat ∨ entryParentId (d i) = entryIdFromIndex i) ∧
      ¬ (entryParentId (d i) ≠ rootDir ∧
        (d (indexFromEntryId (entryParentId (d i)))).used ≠ entryDir) := by
  rw [not_or, not_lt, not_and, not_not]
  exact ⟨fun h => ⟨⟨h.le, h.ne_self⟩, h.isDir⟩, fun h => ⟨h.1.1, h.1.2, h.2⟩⟩

/-- One round of the loop accepts exactly the free entries and the sound ones. -/
lemma entry_eq_none : checkEntry super blockCount d i = none ↔
      (d i).used = 0 ∨ EntrySound super blockCount d i := by
  simp only [checkEntry]
  constructor
  · intro h
    split_ifs at h with hused htype hname hparent hpdir hdir hdata hsize
    · exact .inl hused
    · cases hc : findDirectoryParentCycle d (entryIdFromIndex i) with
      | some c => rw [hc] at h; cases h
      | none =>
        simp only [not_or, not_not] at hdata
        exact .inr ⟨.inr hdir, by simpa using hname, sound_iff.mpr ⟨hparent, hpdir⟩,
          fun _ => ⟨hdata.1, hdata.2, findCycle_eq_none.mp hc⟩,
          fun hf => absurd (hf.symm.trans hdir) (by decide)⟩
    · rw [gt_iff_lt, UInt32.lt_iff_toNat_lt, not_lt] at hsize
      rcases hx : entryExtents (d i) with _ | xs
      · rw [hx] at h; cases h
      rw [hx] at h
      have hsound := (checkExtents_of_extents hx hsize).mp (Option.map_eq_none_iff.mp h)
      exact .inr ⟨file_or_dir htype, by simpa using hname, sound_iff.mpr ⟨hparent, hpdir⟩,
        fun hd => absurd hd hdir, fun _ => ⟨hsize, xs, hx, hsound⟩⟩
  · rintro (h0 | hs)
    · rw [if_pos h0]
    obtain ⟨hself, hpdir⟩ := sound_iff.mp hs.parent
    rw [if_neg (used_ne_zero hs.type), if_neg fun h => hs.type.elim h.1 h.2, if_neg (by rw [hs.name]; decide),
      if_neg hself, if_neg hpdir]
    rcases hs.type with hf | hd
    · obtain ⟨hsize, xs, hx, hsound⟩ := hs.file hf
      rw [if_neg (by rw [hf]; decide), if_neg (UInt32.not_lt.mpr hsize), hx,
        Option.map_eq_none_iff, checkExtents_of_extents hx hsize]
      exact hsound
    · obtain ⟨hstart, hbytes, hground⟩ := hs.dir hd
      rw [if_pos hd, if_neg (by simp [hstart, hbytes]), findCycle_eq_none.mpr hground]

/-- The extents of two different files never overlap, as the code compares them. -/
def FilesApart (d : Directory) : Prop :=
  ∀ i j, i < j → (d i).used = entryFile → (d j).used = entryFile →
    ∃ xs ys, entryExtents (d i) = some xs ∧ entryExtents (d j) = some ys ∧
      ∀ x ∈ xs, ∀ y ∈ ys, rangesOverlap x.startLba x.blocks y.startLba y.blocks = false

lemma overlaps_eq_none : checkOverlaps d = none ↔ FilesApart d := by
  simp only [checkOverlaps, findSome?_eq_none_iff, mem_finRange, true_implies,
    ite_eq_left_iff, not_not, mem_filter, decide_eq_true_eq, true_and]
  constructor
  · intro h i j hij hi hj
    have hpair := h i hi j hij
    rw [checkPair, if_neg (not_not.mpr hj)] at hpair
    rcases hx : entryExtents (d i) with _ | xs
    · rw [hx] at hpair; cases hpair
    rcases hy : entryExtents (d j) with _ | ys
    · rw [hx, hy] at hpair; cases hpair
    refine ⟨xs, ys, rfl, rfl, fun x hxm y hym => ?_⟩
    rw [hx, hy] at hpair
    simp only [ite_eq_right_iff, reduceCtorEq, imp_false] at hpair
    by_contra hne
    exact hpair (any_eq_true.mpr ⟨x, hxm, any_eq_true.mpr ⟨y, hym, by simpa using hne⟩⟩)
  · intro h i hi j hij
    rw [checkPair]
    split_ifs with hj
    · rfl
    obtain ⟨xs, ys, hx, hy, hap⟩ := h i j hij hi (not_not.mp hj)
    rw [hx, hy]
    simp only [ite_eq_right_iff, reduceCtorEq, imp_false]
    intro hany
    obtain ⟨x, hxm, hany⟩ := any_eq_true.mp hany
    obtain ⟨y, hym, hxy⟩ := any_eq_true.mp hany
    rw [hap x hxm y hym] at hxy
    cases hxy

/-- An accepted table, spelled out. -/
structure DirectorySound (super : Superblock) (blockCount : UInt64) (d : Directory) : Prop where
  layout : ¬ layoutIsBad super blockCount
  entry : ∀ i, (d i).used = 0 ∨ EntrySound super blockCount d i
  apart : FilesApart d

section

variable (hd : DirectorySound super blockCount d) (hj : (d j).used = entryFile)
include hd hj

/-- The size and the extents of a file. -/
lemma DirectorySound.file : (d j).byteSize.toNat ≤ fileCapacity.toNat ∧
      ∃ xs, entryExtents (d j) = some xs ∧ ExtentsSound super blockCount xs :=
  ((hd.entry j).resolve_left (by rw [hj]; decide)).file hj

lemma DirectorySound.extentsSound (hxs : entryExtents (d j) = some xs) :
    ExtentsSound super blockCount xs := by
  obtain ⟨-, ys, hys, hin⟩ := hd.file hj
  rw [hxs] at hys
  cases hys
  exact hin

end

lemma extents_singleton {x : Extent} (hlow : super.dataStartLba.toNat ≤ x.startLba.toNat)
    (hhigh : x.startLba.toNat + x.blocks.toNat ≤ blockCount.toNat) :
    ExtentsSound super blockCount [x] := by
  refine ⟨fun y hy => ?_, pairwise_singleton _ _⟩
  obtain rfl := mem_singleton.mp hy
  exact ⟨hlow, hhigh⟩

variable {part : Partition}

theorem validate_eq_none :
    validateDirectory (some part) super d = none ↔ DirectorySound super part.blockCount d := by
  simp only [validateDirectory]
  split_ifs with hlayout
  · simp only [false_iff]
    exact fun h => h.layout hlayout
  cases hfind : (List.finRange maxFiles).findSome? (checkEntry super part.blockCount d) with
  | none =>
    have hentry := findSome?_eq_none_iff.mp hfind
    simp only [mem_finRange, true_implies, entry_eq_none] at hentry
    simp only [overlaps_eq_none]
    exact ⟨fun h => ⟨hlayout, hentry, h⟩, fun h => h.apart⟩
  | some defect =>
    simp only [reduceCtorEq, false_iff]
    intro h
    obtain ⟨i, -, hi⟩ := exists_of_findSome?_eq_some hfind
    rw [entry_eq_none.mpr (h.entry i)] at hi
    cases hi

/-- Only the table of a partition that exists is accepted. -/
lemma sound_of_accepted {part : Option Partition} (h : validateDirectory part super d = none) : ∃ p,
    part = some p ∧ DirectorySound super p.blockCount d := by
  cases part with
  | none => cases h
  | some p => exact ⟨p, rfl, validate_eq_none.mp h⟩

lemma sound_empty (hlayout : ¬ layoutIsBad super blockCount) :
    DirectorySound super blockCount Directory.empty :=
  ⟨hlayout, fun _ => .inl rfl, fun _ _ _ hi => by cases hi⟩

lemma sound_single {e : Dirent} (hlayout : ¬ layoutIsBad super blockCount)
    (he : checkEntry super blockCount (single e) 0 = none) :
    DirectorySound super blockCount (single e) := by
  refine ⟨hlayout, fun i => ?_, fun i j hij _ hj => ?_⟩
  · by_cases hi : (single e i).used = 0
    · exact .inl hi
    · obtain rfl := eq_zero_of_single hi
      exact entry_eq_none.mp he
  · obtain rfl := eq_zero_of_single (ne_of_eq_of_ne hj (by decide))
    exact absurd hij (Fin.not_lt_zero i)

/-! ### What a rejected table shows -/

/-- A search over all indices finds the first one with a result. -/
lemma findSome_finRange {α : Type*} {n : ℕ} {f : Fin n → Option α} {b : α} :
    (List.finRange n).findSome? f = some b ↔ ∃ i, f i = some b ∧ ∀ j < i, f j = none := by
  rw [findSome?_eq_some_iff]
  constructor
  · rintro ⟨l₁, i, l₂, hl, hi, hnone⟩
    refine ⟨i, hi, fun j hj => hnone j ?_⟩
    have hmem : j ∈ l₁ ++ i :: l₂ := hl ▸ mem_finRange j
    have hsorted : (l₁ ++ i :: l₂).Pairwise (· < ·) := hl ▸ pairwise_lt_finRange n
    rcases mem_append.mp hmem with h | h
    · exact h
    -- `j` cannot stand at or behind `i` in the sorted list
    rcases mem_cons.mp h with rfl | h
    · exact absurd hj (lt_irrefl _)
    · have := rel_of_pairwise_cons (pairwise_append.mp hsorted).2.1 h
      exact absurd (hj.trans this) (lt_irrefl _)
  · rintro ⟨i, hi, hnone⟩
    obtain ⟨l₁, l₂, hl⟩ := append_of_mem (mem_finRange i)
    refine ⟨l₁, i, l₂, hl, hi, fun j hj => hnone j ?_⟩
    have hsorted : (l₁ ++ i :: l₂).Pairwise (· < ·) := hl ▸ pairwise_lt_finRange n
    exact (pairwise_append.mp hsorted).2.2 j hj i mem_cons_self

/-- The reports `checkEntry` can make about entry `i`, each with the facts it rests on. -/
inductive EntryDefect (super : Superblock) (blockCount : UInt64) (d : Directory)
    (i : Fin maxFiles) : CheckReason × UInt32 → Prop
  | type (used : (d i).used ≠ 0) (file : (d i).used ≠ entryFile) (dir : (d i).used ≠ entryDir) :
    EntryDefect super blockCount d i (.badEntryType, entryIdFromIndex i)
  | name (used : (d i).used ≠ 0) (bad : entryNameIsValid (d i).name = false) :
    EntryDefect super blockCount d i (.badName, entryIdFromIndex i)
  | parent (type : (d i).used = entryFile ∨ (d i).used = entryDir)
      (name : entryNameIsValid (d i).name = true) (bad : ¬ ParentSound d i) :
    EntryDefect super blockCount d i (.badParent, entryIdFromIndex i)
  | directory (dir : (d i).used = entryDir) (name : entryNameIsValid (d i).name = true)
      (bad : (d i).startLba ≠ 0 ∨ (d i).byteSize ≠ 0) :
    EntryDefect super blockCount d i (.badDirectory, entryIdFromIndex i)
  | cycle (dir : (d i).used = entryDir) (name : entryNameIsValid (d i).name = true)
      (k : Fin maxFiles) (bad : Relation.TransGen (Step (parentLink d)) k k) :
    EntryDefect super blockCount d i (.badParent, entryIdFromIndex k)
  | size (file : (d i).used = entryFile) (name : entryNameIsValid (d i).name = true)
      (parent : ParentSound d i) (bad : fileCapacity.toNat < (d i).byteSize.toNat) :
    EntryDefect super blockCount d i (.badFileSize, entryIdFromIndex i)
  | undecodable (file : (d i).used = entryFile) (name : entryNameIsValid (d i).name = true)
      (size : (d i).byteSize.toNat ≤ fileCapacity.toNat) (bad : entryExtents (d i) = none) :
    EntryDefect super blockCount d i (.badFileExtent, entryIdFromIndex i)
  | extents (file : (d i).used = entryFile) (name : entryNameIsValid (d i).name = true)
      (size : (d i).byteSize.toNat ≤ fileCapacity.toNat) (xs : List Extent)
      (decodes : entryExtents (d i) = some xs) (reason : CheckReason)
      (bad : checkExtents super.dataStartLba blockCount 0 xs = some reason) :
    EntryDefect super blockCount d i (reason, entryIdFromIndex i)

lemma checkExtents_eq_some {dataStart : UInt32} {reason : CheckReason}
    (h : checkExtents dataStart blockCount total xs = some reason) :
    reason = .badFileExtent ∨ reason = .overlappingExtents := by
  induction xs generalizing total with
  | nil => cases h
  | cons x xs ih =>
    simp only [checkExtents] at h
    split_ifs at h
    · cases h
      exact .inl rfl
    · cases h
      exact .inr rfl
    · exact ih h

variable {report : CheckReason × UInt32}

lemma checkEntry_of_not_parentSound (htype : (d i).used = entryFile ∨ (d i).used = entryDir)
    (hname : entryNameIsValid (d i).name = true) (h : ¬ ParentSound d i) :
    checkEntry super blockCount d i = some (.badParent, entryIdFromIndex i) := by
  simp only [checkEntry]
  rw [if_neg (used_ne_zero htype), if_neg fun h => htype.elim h.1 h.2,
    if_neg (by rw [hname]; decide)]
  by_cases hself : maxFiles < (entryParentId (d i)).toNat ∨ entryParentId (d i) = entryIdFromIndex i
  · rw [if_pos hself]
  · rw [if_neg hself, if_pos (by_contra fun hp => h (sound_iff.mpr ⟨hself, hp⟩))]

lemma entry_eq_some (h : checkEntry super blockCount d i = some report) :
    EntryDefect super blockCount d i report := by
  simp only [checkEntry] at h
  split_ifs at h with hused htype hname hparent hpdir hdir hdata hsize
  · cases h
    exact .type hused htype.1 htype.2
  · cases h
    exact .name hused hname
  · cases h
    exact .parent (file_or_dir htype) (by simpa using hname) fun hs =>
      (sound_iff.mp hs).1 hparent
  · cases h
    exact .parent (file_or_dir htype) (by simpa using hname) fun hs =>
      (sound_iff.mp hs).2 hpdir
  · cases h
    exact .directory hdir (by simpa using hname) hdata
  · rcases hc : findDirectoryParentCycle d (entryIdFromIndex i) with _ | c
    · rw [hc] at h; cases h
    rw [hc] at h
    obtain ⟨k, rfl, hk⟩ := findCycle_eq_some hc
    have hk0 : entryIdFromIndex k ≠ 0 := entryId_ne_root k
    dsimp only at h
    rw [if_pos hk0] at h
    cases h
    exact .cycle hdir (by simpa using hname) k hk
  · cases h
    exact .size ((file_or_dir htype).resolve_right hdir) (by simpa using hname)
      (sound_iff.mpr ⟨hparent, hpdir⟩) (UInt32.lt_iff_toNat_lt.mp hsize)
  · have hfile : (d i).used = entryFile := (file_or_dir htype).resolve_right hdir
    have hle : (d i).byteSize.toNat ≤ fileCapacity.toNat := by
      rw [gt_iff_lt, UInt32.lt_iff_toNat_lt, not_lt] at hsize
      exact hsize
    cases hx : entryExtents (d i) with
    | none =>
      rw [hx] at h
      cases h
      exact .undecodable hfile (by simpa using hname) hle hx
    | some xs =>
      rw [hx] at h
      obtain ⟨reason, hreason, rfl⟩ := Option.map_eq_some_iff.mp h
      exact .extents hfile (by simpa using hname) hle xs hx reason hreason

/-- A rejected table has a bad layout, or a first unsound entry, or sound entries that overlap. -/
lemma validate_eq_some (h : validateDirectory (some part) super d = some report) :
    (layoutIsBad super part.blockCount ∧ report = (.badLayout, 0)) ∨
    (¬ layoutIsBad super part.blockCount ∧
      ∃ i, checkEntry super part.blockCount d i = some report ∧
        ∀ j < i, checkEntry super part.blockCount d j = none) ∨
    (¬ layoutIsBad super part.blockCount ∧
      (∀ i, checkEntry super part.blockCount d i = none) ∧ checkOverlaps d = some report) := by
  simp only [validateDirectory] at h
  split_ifs at h with hlayout
  · cases h
    exact .inl ⟨hlayout, rfl⟩
  cases hfind : (List.finRange maxFiles).findSome? (checkEntry super part.blockCount d) with
  | none =>
    rw [hfind] at h
    have hall := findSome?_eq_none_iff.mp hfind
    exact .inr (.inr ⟨hlayout, fun i => hall i (mem_finRange i), h⟩)
  | some defect =>
    rw [hfind] at h
    cases h
    exact .inr (.inl ⟨hlayout, findSome_finRange.mp hfind⟩)

/-- The first unsound entry is what a table with a good layout is rejected for. -/
lemma validate_of_check (hlayout : ¬ layoutIsBad super part.blockCount)
    (hi : checkEntry super part.blockCount d i = some report)
    (hbefore : ∀ j < i, checkEntry super part.blockCount d j = none) :
    validateDirectory (some part) super d = some report := by
  simp only [validateDirectory, if_neg hlayout, findSome_finRange.mpr ⟨i, hi, hbefore⟩]

/-- Among sound entries the second loop can only report an overlap. -/
lemma overlaps_eq_some (hall : ∀ i, checkEntry super blockCount d i = none)
    (h : checkOverlaps d = some report) : report.1 = .overlappingExtents := by
  -- every file decodes, so the decoding branch of `checkPair` is dead
  have hdec : ∀ i, (d i).used = entryFile → ∃ xs, entryExtents (d i) = some xs := by
    intro i hi
    rcases entry_eq_none.mp (hall i) with h0 | hs
    · rw [hi] at h0
      cases h0
    · obtain ⟨-, xs, hxs, -⟩ := hs.file hi
      exact ⟨xs, hxs⟩
  obtain ⟨i, -, hi⟩ := exists_of_findSome?_eq_some h
  split_ifs at hi with hfile
  obtain ⟨j, -, hj⟩ := exists_of_findSome?_eq_some hi
  rw [checkPair] at hj
  split_ifs at hj with hfile'
  obtain ⟨xs, hxs⟩ := hdec i (not_not.mp hfile)
  obtain ⟨ys, hys⟩ := hdec j (not_not.mp hfile')
  rw [hxs, hys] at hj
  dsimp only at hj
  split_ifs at hj
  cases hj
  rfl

end LainFS
