import LainOS.LainFS.Codec
import LainOS.LainFS.Table

/-!
# Extents at the word limit

`ranges_overlap` adds the start and the length of an extent in 32 bits, while the bounds of an extent
are checked in 64 bits. A partition of at least `2 ^ 32` blocks, which a GPT entry can describe, has
room for extents whose end is no 32-bit number, and such extents overlap unnoticed.
-/

namespace LainFS

open Storage Option Directory

/-- Extent number `n` of the file in slot `i`. -/
def FileExtent (d : Directory) (i : Fin maxFiles) (n : ℕ) (x : Extent) : Prop :=
  (d i).used = entryFile ∧ ∃ xs, entryExtents (d i) = some xs ∧ xs[n]? = some x

/-- No sector belongs to two extents, of the same file or of different files. -/
def NoSharedSector (d : Directory) : Prop :=
  ∀ i n x j m y, FileExtent d i n x → FileExtent d j m y → (i, n) ≠ (j, m) →
    Disjoint x.sectors y.sectors

section

variable {part : Partition} {super : Superblock} {d : Directory}

/-- The end of the extent is no 32-bit number. -/
def Extent.AtWordLimit (x : Extent) : Prop := 2 ^ 32 ≤ x.startLba.toNat + x.blocks.toNat

/-- Below the word limit the comparison of the code is exact. -/
lemma disjoint_of_small {i j : Fin maxFiles} {n m : ℕ} {x y : Extent}
    (hd : DirectorySound super part.blockCount d) (hi : FileExtent d i n x)
    (hj : FileExtent d j m y) (hne : (i, n) ≠ (j, m)) (hx : ¬ x.AtWordLimit)
    (hy : ¬ y.AtWordLimit) : Disjoint x.sectors y.sectors := by
  obtain ⟨hi, xs, hxs, hxn⟩ := hi
  obtain ⟨hj, ys, hys, hym⟩ := hj
  have hxmem := List.mem_of_getElem? hxn
  have hymem := List.mem_of_getElem? hym
  have hxend := lt_of_not_ge hx
  have hyend := lt_of_not_ge hy
  have hx0 := (extents_spec hxs).2.2.1 x hxmem
  have hy0 := (extents_spec hys).2.2.1 y hymem
  by_cases hij : i = j
  · subst hij
    obtain rfl := some.inj (hxs.symm.trans hys)
    have hnm : n ≠ m := fun h => hne (by rw [h])
    have hpair := List.pairwise_iff_getElem.mp (hd.extentsSound hi hxs).apart
    obtain ⟨hn, rfl⟩ := List.getElem?_eq_some_iff.mp hxn
    obtain ⟨hm, rfl⟩ := List.getElem?_eq_some_iff.mp hym
    rcases Nat.lt_or_gt_of_ne hnm with hlt | hlt
    · exact (overlap_eq_false hxend hyend hx0 hy0).mp (hpair n m hn hm hlt)
    · exact ((overlap_eq_false hyend hxend hy0 hx0).mp (hpair m n hm hn hlt)).symm
  · obtain ⟨xs', ys', hxs', hys', hap⟩ := hd.apart_symm (Ne.symm hij) hi hj
    obtain rfl := some.inj (hxs.symm.trans hxs')
    obtain rfl := some.inj (hys.symm.trans hys')
    exact (overlap_eq_false hxend hyend hx0 hy0).mp (hap x hxmem y hymem)

/-- **An accepted table** shares a sector exactly if an extent that ends at or beyond `2 ^ 32` meets
another one. -/
theorem accepted_noSharedSector_iff (h : validateDirectory (some part) super d = none) :
    NoSharedSector d ↔ ∀ i n x j m y, FileExtent d i n x → FileExtent d j m y → (i, n) ≠ (j, m) →
      x.AtWordLimit → Disjoint x.sectors y.sectors := by
  constructor
  · exact fun hd i n x j m y hi hj hne _ => hd i n x j m y hi hj hne
  · intro hlimit i n x j m y hi hj hne
    by_cases hx : x.AtWordLimit
    · exact hlimit i n x j m y hi hj hne hx
    by_cases hy : y.AtWordLimit
    · exact (hlimit j m y i n x hj hi hne.symm hy).symm
    · exact disjoint_of_small (validate_eq_none.mp h) hi hj hne hx hy

end

/-! ### Two files beyond the word limit -/

/-- A file of one byte at sector `start`. -/
def oneByteFile (name : UInt8) (start : UInt32) : Dirent :=
  fileEntry (claimedEntry rootDir) [name] 1 [⟨start, 1⟩]

/-- Two files of one byte, one of them on the last sector that has a 32-bit number. -/
def withLastSector (start : UInt32) : Directory :=
  (Directory.empty.set 0 (oneByteFile 0x61 0xFFFFFFFF)).set 1 (oneByteFile 0x62 start)

lemma oneByteFile_holdsFile {name : UInt8} (start : UInt32) (hname : validName [name] = true)
    (h0 : name ≠ 0) : HoldsFile (oneByteFile name start) rootDir [name] 1 [⟨start, 1⟩] :=
  fileEntry_holdsFile rfl (parentId_setParent _ _) hname (by simpa using h0) (by decide)
    (by simp) (by simp) (by simp) rfl

/-- The table is accepted wherever its extents fit: for `ranges_overlap` the last sector ends at
sector 0. -/
lemma withLastSector_accepted {part : Partition} {super : Superblock} {start : UInt32}
    (hl : ¬ layoutIsBad super part.blockCount) (hbc : 2 ^ 32 ≤ part.blockCount.toNat)
    (hstart : super.dataStartLba ≤ start) :
    validateDirectory (some part) super (withLastSector start) = none := by
  have hempty : TableValid part super Directory.empty :=
    ⟨validate_eq_none.mpr (sound_empty hl), fun _ _ hi => absurd rfl hi⟩
  have hin (s : UInt32) (hs : super.dataStartLba ≤ s) :
      ExtentsSound super part.blockCount [⟨s, 1⟩] :=
    extents_singleton (UInt32.le_iff_toNat_le.mp hs) ((Nat.succ_le_of_lt s.toNat_lt).trans hbc)
  have he := oneByteFile_holdsFile 0xFFFFFFFF (show validName [0x61] = true by decide) (by decide)
  have he' := oneByteFile_holdsFile start (show validName [0x62] = true by decide) (by decide)
  have hsize : (1 : UInt32).toNat ≤ fileCapacity.toNat := by decide
  have hlast : super.dataStartLba ≤ 0xFFFFFFFF :=
    UInt32.le_iff_toNat_le.mpr (Nat.le_of_lt_succ super.dataStartLba.toNat_lt)
  have hfirst : TableValid part super (Directory.empty.set 0 (oneByteFile 0x61 0xFFFFFFFF)) :=
    setFile_valid hempty rfl (by decide) he hsize (hin _ hlast) (fun _ _ hj => by cases hj)
      fun _ _ hj => absurd rfl hj
  -- the entries of the table with the first file
  have hself : Directory.empty.set 0 (oneByteFile 0x61 0xFFFFFFFF) 0 = _ := set_self _ _ _
  have hother : ∀ j : Fin maxFiles, j ≠ 0 →
      (Directory.empty.set 0 (oneByteFile 0x61 0xFFFFFFFF) j).used = 0 := by
    intro j hj
    rw [set_of_ne _ _ hj]
    rfl
  refine (setFile_valid hfirst rfl ?_ he' hsize (hin _ hstart) (fun j _ hj => ?_)
    fun j _ hj hsame => ?_).accepted
  · rw [hother 1 (by decide)]
    decide
  · by_cases hj0 : j = 0
    · subst hj0
      refine ⟨_, by rw [hself, he.extents], fun x hx y hy => ?_⟩
      obtain rfl := List.mem_singleton.mp hx
      obtain rfl := List.mem_singleton.mp hy
      simp [rangesOverlap]
    · rw [hother j hj0] at hj
      cases hj
  · by_cases hj0 : j = 0
    · subst hj0
      rw [hself, he.named] at hsame
      exact absurd hsame.2 (by decide)
    · exact hj (hother j hj0)

/-- The two extents of the table. -/
lemma withLastSector_extent {start : UInt32} {i : Fin maxFiles} {n : ℕ} {x : Extent} :
    FileExtent (withLastSector start) i n x ↔
      (i = 0 ∧ n = 0 ∧ x = ⟨0xFFFFFFFF, 1⟩) ∨ (i = 1 ∧ n = 0 ∧ x = ⟨start, 1⟩) := by
  have he := oneByteFile_holdsFile 0xFFFFFFFF (show validName [0x61] = true by decide) (by decide)
  have he' := oneByteFile_holdsFile start (show validName [0x62] = true by decide) (by decide)
  have hsingle (y : Extent) : (∃ xs, some [y] = some xs ∧ xs[n]? = some x) ↔ n = 0 ∧ x = y := by
    cases n <;> simp [eq_comm]
  have h10 : (1 : Fin maxFiles) ≠ 0 := by decide
  rw [FileExtent, withLastSector]
  by_cases h1 : i = 1
  · subst h1
    rw [set_self, he'.extents, hsingle]
    simp [he'.used, h10]
  rw [set_of_ne _ _ h1]
  by_cases h0 : i = 0
  · subst h0
    rw [set_self, he.extents, hsingle]
    simp [he.used, h10.symm]
  · rw [set_of_ne _ _ h0]
    simp [h0, h1, Directory.empty, Dirent.zero, entryFile]

/-- A partition of `2 ^ 33` blocks. -/
def hugePartition : Partition := ⟨true, [], 0, 1, 34, 0x200000000, 0xEE, .gpt⟩

/-- An extent that ends at `2 ^ 32` and meets no other one. -/
theorem noSharedSector_beside_last :
    validateDirectory (some hugePartition) formatSuper (withLastSector 5000) = none ∧
      NoSharedSector (withLastSector 5000) := by
  have haccepted : validateDirectory (some hugePartition) formatSuper (withLastSector 5000) = none :=
    withLastSector_accepted (by decide) (by decide) (by decide)
  refine ⟨haccepted, (accepted_noSharedSector_iff haccepted).mpr ?_⟩
  intro i n x j m y hi hj hne _
  have hdisj : Disjoint (Extent.sectors ⟨0xFFFFFFFF, 1⟩) (Extent.sectors ⟨5000, 1⟩) := by
    simp [Extent.sectors]
  rcases withLastSector_extent.mp hi with ⟨rfl, rfl, rfl⟩ | ⟨rfl, rfl, rfl⟩ <;>
    rcases withLastSector_extent.mp hj with ⟨rfl, rfl, rfl⟩ | ⟨rfl, rfl, rfl⟩
  · exact absurd rfl hne
  · exact hdisj
  · exact hdisj.symm
  · exact absurd rfl hne

/-- Two files share the sector `2 ^ 32 - 1`. -/
theorem last_sector_shared_unnoticed :
    validateDirectory (some hugePartition) formatSuper (withLastSector 0xFFFFFFFF) = none ∧
      ¬ NoSharedSector (withLastSector 0xFFFFFFFF) := by
  refine ⟨withLastSector_accepted (by decide) (by decide) (by decide), fun h => ?_⟩
  have hdisj := h 0 0 _ 1 0 _ (withLastSector_extent.mpr (Or.inl ⟨rfl, rfl, rfl⟩))
    (withLastSector_extent.mpr (Or.inr ⟨rfl, rfl, rfl⟩)) (by decide)
  rw [disjoint_self, Extent.sectors] at hdisj
  exact absurd hdisj (Set.nonempty_Ico.mpr (by decide)).ne_empty

end LainFS
