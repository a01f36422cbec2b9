import LainOS.Lib.LongestRuns
import LainOS.LainFS.Alloc
import LainOS.LainFS.Codec

/-!
# The allocator misses nothing

`find_free_extents` takes the longest run of free sectors, then the longest of what is left, up to
three times. It fails exactly if the three longest maximal runs are too short together.
-/

namespace LainFS

open Storage RunSearch Option Directory

variable {s : ℕ} {selected : List Extent}

/-- No file but the one in slot `ignore` has the sector. -/
def FreeSector (d : Directory) (ignore : Fin maxFiles) (s : ℕ) : Prop :=
  ∀ j, j ≠ ignore → (d j).used = entryFile → ∀ xs, entryExtents (d j) = some xs →
    ∀ x ∈ xs, s ∉ x.sectors

section

variable {part : Partition} {super : Superblock} {d : Directory} {ignore : Fin maxFiles}

lemma overlap_sector {x : Extent} (hs : s + 1 < 2 ^ 32)
    (hx : x.startLba.toNat + x.blocks.toNat < 2 ^ 32) :
    rangesOverlap (UInt32.ofNat s) 1 x.startLba x.blocks = false ↔ s ∉ x.sectors := by
  have hone : (1 : UInt32).toNat = 1 := rfl
  have hsn := toNat_ofNat_of_lt (show s < 2 ^ 32 by omega)
  rw [← Bool.not_eq_true, overlap_eq_true (by omega) hx, hsn, hone, Extent.sectors, Set.mem_Ico]
  omega

/-- The extents of a file in an accepted table. -/
lemma DirectorySound.extents (hd : DirectorySound super part.blockCount d) {j : Fin maxFiles}
    (hj : (d j).used = entryFile) : ∃ ys, entryExtents (d j) = some ys ∧
      ∀ y ∈ ys, y.blocks ≠ 0 ∧ y.startLba.toNat + y.blocks.toNat ≤ part.blockCount.toNat := by
  obtain ⟨-, ys, hys, hin⟩ := hd.file hj
  exact ⟨ys, hys, fun y hy => ⟨(extents_spec hys).2.2.1 y hy, (hin.inData y hy).2⟩⟩

/-- The test of the code is the set of free sectors. -/
lemma isFree_iff (hd : DirectorySound super part.blockCount d)
    (hbc : part.blockCount.toNat < 2 ^ 32) (hlow : super.dataStartLba.toNat ≤ s)
    (hs : s < part.blockCount.toNat) :
    sectorIsFree super d ignore [] s = true ↔ FreeSector d ignore s := by
  have hsn := toNat_ofNat_of_lt (show s < 2 ^ 32 by omega)
  have hsector : ∀ j xs, (d j).used = entryFile → entryExtents (d j) = some xs → ∀ x ∈ xs,
      (rangesOverlap (UInt32.ofNat s) 1 x.startLba x.blocks = false ↔ s ∉ x.sectors) := by
    intro j xs hj hxs x hx
    obtain ⟨ys, hys, hin⟩ := hd.extents hj
    obtain rfl := some.inj (hxs.symm.trans hys)
    exact overlap_sector (by omega) (lt_of_le_of_lt (hin x hx).2 hbc)
  constructor
  · intro h j hj hfile xs hxs x hx
    obtain ⟨ys, hys, hap⟩ := (isFree_eq_true h).1 j hj hfile
    obtain rfl := some.inj (hxs.symm.trans hys)
    exact (hsector j xs hfile hxs x hx).mp (hap x hx)
  intro h
  have hguard : ¬ ((1 : UInt32) = 0 ∨ UInt32.ofNat s < super.dataStartLba) := by
    rw [UInt32.lt_iff_toNat_lt, hsn]
    rintro (h0 | hlt)
    · cases h0
    · omega
  rw [sectorIsFree, extentIsFree, if_neg hguard, Bool.and_eq_true, List.all_eq_true]
  refine ⟨fun j _ => ?_, rfl⟩
  split_ifs with hskip
  · rfl
  rw [not_or, not_not] at hskip
  obtain ⟨ys, hys, -⟩ := hd.extents hskip.2
  rw [hys]
  refine List.all_eq_true.mpr fun y hy => ?_
  rw [(hsector j ys hskip.2 hys y hy).mpr (h j hskip.1 hskip.2 ys hys y hy)]
  rfl

/-- Selecting a run takes its sectors away. -/
lemma isFree_append {r : ℕ × ℕ} (hs : s + 1 < 2 ^ 32) (hr : r.1 + r.2 < 2 ^ 32) :
    sectorIsFree super d ignore (selected ++ [⟨UInt32.ofNat r.1, UInt32.ofNat r.2⟩]) s = true ↔
      without (fun s => sectorIsFree super d ignore selected s = true) r s := by
  have hstart := toNat_ofNat_of_lt (show r.1 < 2 ^ 32 by omega)
  have hlength := toNat_ofNat_of_lt (show r.2 < 2 ^ 32 by omega)
  have hmem : rangesOverlap (UInt32.ofNat s) 1 (UInt32.ofNat r.1) (UInt32.ofNat r.2) = false ↔
      ¬ (r.1 ≤ s ∧ s < r.1 + r.2) := by
    rw [overlap_sector (x := ⟨UInt32.ofNat r.1, UInt32.ofNat r.2⟩) hs
      (by rw [hstart, hlength]; exact hr), Extent.sectors, Set.mem_Ico, hstart, hlength]
  rw [without, ← hmem]
  simp only [sectorIsFree, extentOverlapsSelected, List.any_append, List.any_cons, List.any_nil,
    Bool.or_false, Bool.and_eq_true, Bool.not_eq_true', Bool.or_eq_false_iff]
  tauto

/-- The loop succeeds exactly if the longest runs that it may still take are long enough. -/
lemma extentsLoop_isSome_iff {dataEnd remaining : ℕ} (hend : dataEnd < 2 ^ 32) :
    (findFreeExtentsLoop super dataEnd d ignore remaining selected).isSome = true ↔
      remaining ≤ longestRuns (3 - selected.length)
        (fun s => sectorIsFree super d ignore selected s = true) super.dataStartLba.toNat dataEnd := by
  fun_induction findFreeExtentsLoop super dataEnd d ignore remaining selected with
  | case1 selected => simp
  | case2 remaining selected h0 best hbad =>
    have hpos := Nat.pos_of_ne_zero h0
    simp only [Option.isSome_none, Bool.false_eq_true, false_iff, not_le]
    rcases hbad with hnone | hfull
    · rcases bestRun_scan (sectorIsFree super d ignore selected) super.dataStartLba.toNat dataEnd
        hpos with ⟨hlong, -⟩ | ⟨-, hmax, -⟩
      · exact absurd (hlong.symm.trans hnone) h0
      · rw [longestRuns_of_none]
        · exact hpos
        · intro r hr
          exact absurd hr.pos (not_lt.mpr ((hmax r hr).trans hnone.le))
    · have hthree : maxExtents.toNat = 3 := rfl
      rw [show 3 - selected.length = 0 by omega, longestRuns_zero]
      exact hpos
  | case3 remaining selected h0 best hbest ih =>
    have hpos := Nat.pos_of_ne_zero h0
    obtain ⟨hbest0, hroom⟩ := not_or.mp hbest
    have hthree : maxExtents.toNat = 3 := rfl
    have hleft : 3 - selected.length = (3 - (selected.length + 1)) + 1 := by omega
    rw [ih, List.length_append, List.length_singleton, hleft]
    rcases bestRun_scan (sectorIsFree super d ignore selected) super.dataStartLba.toNat dataEnd
      hpos with ⟨hlong, r, hr, hle⟩ | ⟨-, hmax, hrun⟩
    · -- one run is enough for all that remains
      have hdone : remaining - best.2 = 0 := Nat.sub_eq_zero_of_le hlong.ge
      rw [hdone]
      exact iff_of_true (Nat.zero_le _) (hle.trans (le_longestRuns hr))
    · have hrun := hrun.resolve_left hbest0
      rw [longestRuns_succ hrun hmax, Nat.sub_le_iff_le_add']
      refine Eq.to_iff (congrArg (fun n => remaining ≤ best.2 + n) ?_)
      refine longestRuns_congr fun s _ hs => isFree_append (by omega) ?_
      exact lt_of_le_of_lt hrun.le_stop hend

/-- The search succeeds exactly if the three longest runs of free sectors have room enough. -/
lemma freeExtents_isSome_iff (hd : DirectorySound super part.blockCount d)
    (hbc : part.blockCount.toNat < 2 ^ 32) {blocks : UInt32} (h0 : blocks ≠ 0)
    (hmax : blocks ≤ maxFileBlocks) :
    (findFreeExtents (some part) super blocks ignore d).isSome = true ↔
      blocks.toNat ≤ longestRuns 3 (FreeSector d ignore) super.dataStartLba.toNat
        part.blockCount.toNat := by
  have hrequest : ¬ (blocks = 0 ∨ blocks > maxFileBlocks) := by
    rintro (h | h)
    · exact h0 h
    · exact absurd hmax (UInt32.not_le.mpr h)
  simp only [findFreeExtents]
  rw [if_neg hrequest, extentsLoop_isSome_iff hbc, List.length_nil, Nat.sub_zero,
    longestRuns_congr fun s hlow hs => isFree_iff hd hbc hlow hs]

end

/-- What the search returns is one to three extents that are free for a file of that length, and it
fails exactly if no three runs of free sectors are long enough. -/
theorem findFreeExtents_sound_and_complete {part : Partition} {super : Superblock} {d : Directory}
    {blocks : UInt32} (hvalid : validateDirectory (some part) super d = none)
    (hbc : part.blockCount.toNat < 2 ^ 32) (hone : 1 ≤ blocks) (hmax : blocks ≤ maxFileBlocks)
    (ignore : Fin maxFiles) :
    (∀ xs, findFreeExtents (some part) super blocks ignore d = some xs →
      (1 ≤ xs.length ∧ xs.length ≤ 3) ∧
      (∀ x ∈ xs, x.blocks ≠ 0 ∧
        x.sectors ⊆ Set.Ico super.dataStartLba.toNat part.blockCount.toNat) ∧
      xs.Pairwise (fun x y => Disjoint x.sectors y.sectors) ∧
      (∀ j, j ≠ ignore → (d j).used = entryFile → ∀ ys, entryExtents (d j) = some ys →
        ∀ x ∈ xs, ∀ y ∈ ys, Disjoint x.sectors y.sectors) ∧
      blockSum xs = blocks.toNat) ∧
    (findFreeExtents (some part) super blocks ignore d = none ↔
      longestRuns 3 (FreeSector d ignore) super.dataStartLba.toNat part.blockCount.toNat
        < blocks.toNat) := by
  have hd := validate_eq_none.mp hvalid
  have h0 : blocks ≠ 0 := by
    rintro rfl
    exact absurd hone (by decide)
  refine ⟨fun xs hxs => ?_, ?_⟩
  · obtain ⟨hfresh, hsum, -⟩ := freeExtents_spec hbc (fun j _ hj => hd.extents hj) hxs
    have hword : ∀ x ∈ xs, x.startLba.toNat + x.blocks.toNat < 2 ^ 32 := fun x hx =>
      lt_of_le_of_lt (hfresh.sound.inData x hx).2 hbc
    refine ⟨⟨?_, hfresh.length_le⟩, fun x hx => ⟨hfresh.nonzero x hx, ?_⟩, ?_, ?_, hsum⟩
    · -- an empty list would hold no block
      cases xs with
      | nil => exact absurd (UInt32.toNat_inj.mp hsum.symm) h0
      | cons x xs => simp
    · exact Set.Ico_subset_Ico (hfresh.sound.inData x hx).1 (hfresh.sound.inData x hx).2
    · refine hfresh.sound.apart.imp_of_mem fun hx hy hap => ?_
      exact (overlap_eq_false (hword _ hx) (hword _ hy) (hfresh.nonzero _ hx)
        (hfresh.nonzero _ hy)).mp hap
    · intro j hj hfile ys hys x hx y hy
      obtain ⟨zs, hzs, hap⟩ := hfresh.apart j hj hfile
      obtain rfl := some.inj (hys.symm.trans hzs)
      obtain ⟨zs, hzs, hin⟩ := hd.extents hfile
      obtain rfl := some.inj (hys.symm.trans hzs)
      exact (overlap_eq_false (hword x hx) (lt_of_le_of_lt (hin y hy).2 hbc)
        (hfresh.nonzero x hx) (hin y hy).1).mp (hap x hx y hy)
  · rw [← not_le, ← freeExtents_isSome_iff hd hbc h0 hmax, Option.not_isSome_iff_eq_none]

/-- A file called `a` in the root with one byte in sector 270, in the middle of the data area of a
volume of 300 blocks. -/
def middleFile : Dirent :=
  { Dirent.zero with
    used := entryFile, name := copyName (.replicate 31 0) [0x61], startLba := 270,
    byteSize := 1 }

def middlePartition : Partition :=
  { present := true, name := [], deviceIndex := 0, partitionNumber := 1, startLba := 2048,
    blockCount := 300, mbrType := 0x99, fsHint := .lainfs }

theorem findFreeExtents_sound_and_complete_middleFile :
    validateDirectory (some middlePartition) formatSuper (single middleFile) = none ∧
    (findFreeExtents (some middlePartition) formatSuper 42 1 (single middleFile) = none ↔
      longestRuns 3 (FreeSector (single middleFile) 1) 257 300 < 42) := by
  have hvalid : validateDirectory (some middlePartition) formatSuper (single middleFile) =
      none :=
    validate_eq_none.mpr (sound_single (by decide) (by decide))
  exact ⟨hvalid, (findFreeExtents_sound_and_complete hvalid (by decide) (by decide) (by decide) 1).2⟩

end LainFS
