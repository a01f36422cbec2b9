import LainOS.LainFS.Validate
import LainOS.Lib.RunSearch

/-!
# Lookup and allocation

Finding an entry by parent and name, finding a free slot of the table, and finding the sectors
for a file: `find_free_extents` takes the longest free run three times at most. What it returns
is disjoint from every other file, which is the heart of `freeExtents_spec`.
-/

namespace LainFS

open Storage ParentWalk RunSearch List UInt32

variable {parentId : UInt32} {name : List UInt8} {selected xs : List Extent} {lba : ℕ}

/-! ### Lookup -/

/-- `str_eq` compares strings; the name of an accepted entry is terminated. -/
def findEntryInDir (d : Directory) (parentId : UInt32) (name : List UInt8) :
    Option (Fin maxFiles) :=
  (List.finRange maxFiles).find? fun i =>
    (d i).used != 0 && entryParentId (d i) == parentId && entryName (d i) == name

def findFreeEntry (d : Directory) : Option (Fin maxFiles) :=
  (List.finRange maxFiles).find? fun i => (d i).used == 0

variable {d : Directory} {i ignore : Fin maxFiles}

lemma findEntry_eq_some (h : findEntryInDir d parentId name = some i) :
    (d i).used ≠ 0 ∧ entryParentId (d i) = parentId ∧ entryName (d i) = name := by
  have := find?_some h
  simpa [and_assoc] using this

lemma findEntry_eq_none (h : findEntryInDir d parentId name = none) (i : Fin maxFiles) :
    ¬ ((d i).used ≠ 0 ∧ entryParentId (d i) = parentId ∧ entryName (d i) = name) := by
  have := find?_eq_none.mp h i (mem_finRange i)
  simpa [and_assoc] using this

lemma freeEntry_eq_some (h : findFreeEntry d = some i) : (d i).used = 0 := by
  simpa using find?_some h

lemma freeEntry_of_first (hi : (d i).used = 0)
    (hbefore : ∀ j < i, (d j).used ≠ 0) : findFreeEntry d = some i := by
  rcases h : findFreeEntry d with _ | k
  · exact absurd (by simpa using hi) (find?_eq_none.mp h i (mem_finRange i))
  obtain ⟨hk, l₁, l₂, hl, hnot⟩ := find?_eq_some_iff_append.mp h
  have hsorted : (l₁ ++ k :: l₂).Pairwise (· < ·) := hl ▸ pairwise_lt_finRange maxFiles
  have hmem : i ∈ l₁ ++ k :: l₂ := hl ▸ mem_finRange i
  rcases mem_append.mp hmem with hin | hin
  · exact absurd hi (by simpa using hnot i hin)
  · rcases mem_cons.mp hin with rfl | hin
    · rfl
    · have hlt := rel_of_pairwise_cons (pairwise_append.mp hsorted).2.1 hin
      exact absurd (by simpa using hk) (hbefore k hlt)

/-! ### Free sectors -/

def extentIsFree (super : Superblock) (d : Directory) (startLba blocks : UInt32)
    (ignore : Fin maxFiles) : Bool :=
  if blocks = 0 ∨ startLba < super.dataStartLba then false
  else
    (List.finRange maxFiles).all fun i =>
      if i = ignore ∨ (d i).used ≠ entryFile then true
      else
        match entryExtents (d i) with
        | none => false
        | some xs => xs.all fun x => !rangesOverlap startLba blocks x.startLba x.blocks

def extentOverlapsSelected (startLba blocks : UInt32) (selected : List Extent) : Bool :=
  selected.any fun x => rangesOverlap startLba blocks x.startLba x.blocks

/-- The test the search makes of one sector. -/
def sectorIsFree (super : Superblock) (d : Directory) (ignore : Fin maxFiles)
    (selected : List Extent) (lba : ℕ) : Bool :=
  extentIsFree super d (UInt32.ofNat lba) 1 ignore &&
    !extentOverlapsSelected (UInt32.ofNat lba) 1 selected

/-- The loop of `find_free_extents`. -/
def findFreeExtentsLoop (super : Superblock) (dataEnd : ℕ) (d : Directory)
    (ignore : Fin maxFiles) (remaining : ℕ) (selected : List Extent) : Option (List Extent) :=
  if remaining = 0 then some selected
  else
    let best := bestRun (sectorIsFree super d ignore selected) dataEnd remaining
      super.dataStartLba.toNat 0 0
    if best.2 = 0 ∨ maxExtents.toNat ≤ selected.length then none
    else
      findFreeExtentsLoop super dataEnd d ignore (remaining - best.2)
        (selected ++ [⟨UInt32.ofNat best.1, UInt32.ofNat best.2⟩])
termination_by remaining
decreasing_by
  rename_i h0 hbest
  exact Nat.sub_lt (Nat.pos_of_ne_zero h0) (Nat.pos_of_ne_zero fun h => hbest (.inl h))

def findFreeExtents (part : Option Partition) (super : Superblock) (blocks : UInt32)
    (ignore : Fin maxFiles) (d : Directory) : Option (List Extent) :=
  match part with
  | none => none
  | some part =>
    if blocks = 0 ∨ blocks > maxFileBlocks then none
    else findFreeExtentsLoop super part.blockCount.toNat d ignore blocks.toNat []

/-! ### What the search returns -/

lemma toNat_ofNat_of_lt {n : ℕ} (h : n < 2 ^ 32) : (UInt32.ofNat n).toNat = n := by
  rw [toNat_ofNat', Nat.mod_eq_of_lt h]

/-- A run avoids an extent when each of its sectors does. -/
lemma overlap_run {start length : ℕ} {x : Extent} (hlen : 0 < length)
    (hend : start + length < 2 ^ 32) (hx : x.startLba.toNat + x.blocks.toNat < 2 ^ 32)
    (hx0 : x.blocks ≠ 0) (h : ∀ s, start ≤ s → s < start + length →
      rangesOverlap (UInt32.ofNat s) 1 x.startLba x.blocks = false) :
    rangesOverlap (UInt32.ofNat start) (UInt32.ofNat length) x.startLba x.blocks = false := by
  have hpos := toNat_pos hx0
  have hone : (1 : UInt32).toNat = 1 := rfl
  have hstart := toNat_ofNat_of_lt (show start < 2 ^ 32 by omega)
  have hlength := toNat_ofNat_of_lt (show length < 2 ^ 32 by omega)
  by_contra hover
  rw [Bool.not_eq_false, overlap_eq_true (by omega) hx, hstart, hlength] at hover
  -- a sector of the run inside `x`
  have hin := toNat_ofNat_of_lt (show max start x.startLba.toNat < 2 ^ 32 by omega)
  have hs := h (max start x.startLba.toNat) (by omega) (by omega)
  rw [← Bool.not_eq_true, overlap_eq_true (by omega) hx, hin, hone] at hs
  omega

variable {super : Superblock}

lemma isFree_eq_true (h : sectorIsFree super d ignore selected lba = true) :
    (∀ j, j ≠ ignore → (d j).used = entryFile → ∃ ys, entryExtents (d j) = some ys ∧
      ∀ y ∈ ys, rangesOverlap (UInt32.ofNat lba) 1 y.startLba y.blocks = false) ∧
    ∀ y ∈ selected, rangesOverlap (UInt32.ofNat lba) 1 y.startLba y.blocks = false := by
  simp only [sectorIsFree, Bool.and_eq_true, Bool.not_eq_true', extentOverlapsSelected,
    any_eq_false, Bool.not_eq_true] at h
  refine ⟨fun j hj hfile => ?_, h.2⟩
  have hfree := h.1
  rw [extentIsFree] at hfree
  split_ifs at hfree
  have hall := all_eq_true.mp hfree j (mem_finRange j)
  rw [if_neg (not_or.mpr ⟨hj, not_not.mpr hfile⟩)] at hall
  cases hys : entryExtents (d j) with
  | none => rw [hys] at hall; cases hall
  | some ys =>
    rw [hys] at hall
    exact ⟨ys, rfl, fun y hy => by simpa using all_eq_true.mp hall y hy⟩

/-- Extents for a file: long enough, in the data area, apart from each other and from the
extents of every file but the one being replaced. -/
structure FreshExtents (super : Superblock) (blockCount : UInt64) (d : Directory)
    (ignore : Fin maxFiles) (xs : List Extent) : Prop where
  length_le : xs.length ≤ 3
  nonzero : ∀ x ∈ xs, x.blocks ≠ 0
  sound : ExtentsSound super blockCount xs
  apart : ∀ j, j ≠ ignore → (d j).used = entryFile → ∃ ys, entryExtents (d j) = some ys ∧
    ∀ x ∈ xs, ∀ y ∈ ys, rangesOverlap x.startLba x.blocks y.startLba y.blocks = false

/-- The invariant of the loop: what is selected so far is fresh. -/
lemma extentsLoop_spec {blockCount : UInt64} {remaining : ℕ} (hbc : blockCount.toNat < 2 ^ 32)
    (hd : ∀ j, j ≠ ignore → (d j).used = entryFile → ∃ ys, entryExtents (d j) = some ys ∧
      ∀ y ∈ ys, y.blocks ≠ 0 ∧ y.startLba.toNat + y.blocks.toNat ≤ blockCount.toNat)
    (hsel : FreshExtents super blockCount d ignore selected)
    (h : findFreeExtentsLoop super blockCount.toNat d ignore remaining selected = some xs) :
    FreshExtents super blockCount d ignore xs ∧ blockSum xs = blockSum selected + remaining := by
  fun_induction findFreeExtentsLoop super blockCount.toNat d ignore remaining selected with
  | case1 selected =>
    cases h
    exact ⟨hsel, rfl⟩
  | case2 remaining selected h0 best hbad => cases h
  | case3 remaining selected h0 best hbest ih =>
    have hrun : IsRun (sectorIsFree super d ignore selected) blockCount.toNat
        super.dataStartLba.toNat remaining best := bestRun_isRun (le_refl _) isRun_zero
    rw [not_or, not_le] at hbest
    have hpos : 0 < best.2 := Nat.pos_of_ne_zero hbest.1
    have hlow := hrun.low_le hpos
    have hle := hrun.length_le
    have hlast := (hrun.free (best.1 + best.2 - 1) (by omega) (by omega)).1
    have hstart := toNat_ofNat_of_lt (show best.1 < 2 ^ 32 by omega)
    have hlength := toNat_ofNat_of_lt (show best.2 < 2 ^ 32 by omega)
    -- the new extent against one that avoids every sector of the run
    have hnew : ∀ y : Extent, y.blocks ≠ 0 →
        y.startLba.toNat + y.blocks.toNat ≤ blockCount.toNat →
        (∀ s, best.1 ≤ s → s < best.1 + best.2 →
          rangesOverlap (UInt32.ofNat s) 1 y.startLba y.blocks = false) →
        rangesOverlap (UInt32.ofNat best.1) (UInt32.ofNat best.2) y.startLba y.blocks = false :=
      fun y hy0 hyend hall => overlap_run hpos (by omega) (by omega) hy0 hall
    have hfree : ∀ s, best.1 ≤ s → s < best.1 + best.2 →
        sectorIsFree super d ignore selected s = true := fun s hs hlt => (hrun.free s hs hlt).2
    have hsel' : FreshExtents super blockCount d ignore
        (selected ++ [⟨UInt32.ofNat best.1, UInt32.ofNat best.2⟩]) := by
      refine ⟨?_, ?_, ⟨?_, ?_⟩, ?_⟩
      · have hmax : maxExtents.toNat = 3 := rfl
        rw [length_append, length_singleton]
        omega
      · rw [forall_mem_append, forall_mem_singleton]
        refine ⟨hsel.nonzero, fun h0 => ?_⟩
        have h0' : (UInt32.ofNat best.2).toNat = 0 := congrArg UInt32.toNat h0
        omega
      · rw [forall_mem_append, forall_mem_singleton]
        refine ⟨hsel.sound.inData, ?_⟩
        simp only [hstart, hlength]
        omega
      · rw [pairwise_append]
        refine ⟨hsel.sound.apart, pairwise_singleton _ _, fun y hy z hz => ?_⟩
        rw [mem_singleton.mp hz, overlap_comm]
        exact hnew y (hsel.nonzero y hy) (hsel.sound.inData y hy).2
          fun s hs hlt => (isFree_eq_true (hfree s hs hlt)).2 y hy
      intro j hj hfile
      obtain ⟨ys, hys, hin⟩ := hd j hj hfile
      obtain ⟨zs, hzs, hap⟩ := hsel.apart j hj hfile
      rw [hys] at hzs
      cases hzs
      refine ⟨ys, hys, ?_⟩
      rw [forall_mem_append, forall_mem_singleton]
      refine ⟨hap, fun y hy => hnew y (hin y hy).1 (hin y hy).2 fun s hs hlt => ?_⟩
      obtain ⟨ws, hws, hfs⟩ := (isFree_eq_true (hfree s hs hlt)).1 j hj hfile
      rw [hys] at hws
      cases hws
      exact hfs y hy
    obtain ⟨hfresh, hsum⟩ := ih hsel' h
    refine ⟨hfresh, hsum.trans ?_⟩
    rw [blockSum_append, blockSum_cons, blockSum_nil, hlength]
    omega

variable {part : Partition} {blocks : UInt32}

/-- What a successful search returns. -/
theorem freeExtents_spec (hbc : part.blockCount.toNat < 2 ^ 32)
    (hd : ∀ j, j ≠ ignore → (d j).used = entryFile → ∃ ys, entryExtents (d j) = some ys ∧
      ∀ y ∈ ys, y.blocks ≠ 0 ∧ y.startLba.toNat + y.blocks.toNat ≤ part.blockCount.toNat)
    (h : findFreeExtents (some part) super blocks ignore d = some xs) :
    FreshExtents super part.blockCount d ignore xs ∧ blockSum xs = blocks.toNat ∧ blocks ≠ 0 := by
  simp only [findFreeExtents] at h
  split_ifs at h with hb
  rw [not_or] at hb
  have hnil : FreshExtents super part.blockCount d ignore [] := by
    refine ⟨by simp, by simp, ⟨by simp, .nil⟩, fun j hj hfile => ?_⟩
    obtain ⟨ys, hys, -⟩ := hd j hj hfile
    exact ⟨ys, hys, by simp⟩
  obtain ⟨hfresh, hsum⟩ := extentsLoop_spec hbc hd hnil h
  exact ⟨hfresh, by simpa using hsum, hb.1⟩

/-- Without a free sector the search fails. -/
lemma freeExtents_of_full (h : ∀ lba, super.dataStartLba.toNat ≤ lba → lba < part.blockCount.toNat →
      sectorIsFree super d ignore [] lba = false) :
    findFreeExtents (some part) super blocks ignore d = none := by
  simp only [findFreeExtents]
  split_ifs with hb
  · rfl
  · rw [not_or] at hb
    have hne : blocks.toNat ≠ 0 := fun h0 => hb.1 (UInt32.toNat_inj.mp h0)
    rw [findFreeExtentsLoop, if_neg hne]
    exact if_pos (.inl (bestRun_of_taken h))

/-- In a table without other files every data sector is free. -/
lemma isFree_of_no_files (hd : ∀ j, j ≠ ignore → (d j).used ≠ entryFile)
    (hlo : super.dataStartLba.toNat ≤ lba) (hhi : lba < 2 ^ 32) :
    sectorIsFree super d ignore [] lba = true := by
  have hlba := toNat_ofNat_of_lt hhi
  have hfree : extentIsFree super d (UInt32.ofNat lba) 1 ignore = true := by
    rw [extentIsFree, if_neg, all_eq_true]
    · intro j _
      by_cases hj : j = ignore
      · rw [if_pos (Or.inl hj)]
      · rw [if_pos (Or.inr (hd j hj))]
    · rw [not_or, lt_iff_toNat_lt, hlba, not_lt]
      exact ⟨by decide, hlo⟩
  rw [sectorIsFree, hfree]
  rfl

/-- A free data area is used from its start. -/
lemma freeExtents_of_free (h0 : blocks ≠ 0) (hmax : ¬ blocks > maxFileBlocks)
    (hend : super.dataStartLba.toNat + blocks.toNat ≤ part.blockCount.toNat)
    (h : ∀ lba, super.dataStartLba.toNat ≤ lba → lba < super.dataStartLba.toNat + blocks.toNat →
      sectorIsFree super d ignore [] lba = true) :
    findFreeExtents (some part) super blocks ignore d = some [⟨super.dataStartLba, blocks⟩] := by
  have hpos := toNat_pos h0
  have hbest := bestRun_of_free 0 hpos hend h
  simp only [findFreeExtents]
  rw [if_neg (not_or.mpr ⟨h0, hmax⟩), findFreeExtentsLoop, if_neg hpos.ne']
  simp only [hbest, Nat.sub_self]
  rw [if_neg, findFreeExtentsLoop, if_pos rfl, nil_append, UInt32.ofNat_toNat, UInt32.ofNat_toNat]
  rw [not_or, not_le]
  exact ⟨hpos.ne', by decide⟩

end LainFS
