import LainOS.LainFS.Dirent
import Mathlib.Order.CompletePartialOrder

/-!
# File extents

A file occupies one to three runs of sectors. One run is stored in the legacy fields alone
(extent metadata zero); several runs are stored with their count and the first length packed in
the metadata word and the others in the reserved bytes behind it.
-/

namespace LainFS

open LittleEndian UInt32

variable {e f : Dirent} {xs : List Extent} {n b : UInt32}

structure Extent where
  startLba : UInt32
  blocks : UInt32
deriving DecidableEq

/-- The sector numbers of an extent, as mathematical integers. -/
def Extent.sectors (x : Extent) : Set ℕ :=
  Set.Ico x.startLba.toNat (x.startLba.toNat + x.blocks.toNat)

def blocksForSize (size : UInt32) : UInt32 := (size + 512 - 1) / 512

def allocatedBlocksForEntry (e : Dirent) : UInt32 :=
  let blocks := blocksForSize e.byteSize
  if blocks = 0 then 1 else blocks

/-- The loop of `entry_extents` that adds up the lengths. -/
def extentsTotal (required : UInt32) : UInt32 → List Extent → Option UInt32
  | total, [] => some total
  | total, x :: xs =>
    if x.blocks = 0 ∨ x.blocks > required - total then none
    else extentsTotal required (total + x.blocks) xs

/-- The first `count` extents stored in an entry with nonzero metadata. -/
def storedExtents (e : Dirent) (count : ℕ) : List Extent :=
  ([⟨e.startLba, entryExtentMeta e &&& extentBlockMask⟩,
    ⟨entryExtraExtentStart e 0, entryExtraExtentBlocks e 0⟩,
    ⟨entryExtraExtentStart e 1, entryExtraExtentBlocks e 1⟩] : List Extent).take count

def entryExtents (e : Dirent) : Option (List Extent) :=
  let required := allocatedBlocksForEntry e
  let word := entryExtentMeta e
  if word = 0 then some [⟨e.startLba, required⟩]
  else
    let count := word >>> extentCountShift
    if count = 0 ∨ count > maxExtents then none
    else
      let extents := storedExtents e count.toNat
      match extentsTotal required 0 extents with
      | none => none
      | some total => if total ≠ required then none else some extents

/-- Store the extents behind the first one, at most two. -/
def setExtraExtents (e : Dirent) : List Extent → Dirent
  | [] => e
  | [x] => setEntryExtraExtent e 0 x.startLba x.blocks
  | x :: y :: _ =>
    setEntryExtraExtent (setEntryExtraExtent e 0 x.startLba x.blocks) 1 y.startLba y.blocks

/-- The loop over `reserved[4..]`: the parent id in the first four bytes stays. -/
def clearExtentBytes (r : Vector UInt8 24) : Vector UInt8 24 :=
  Vector.ofFn fun i => if i.val < 4 then r[i.val] else 0

/-- Every caller passes at least one extent. -/
def setEntryExtents (e : Dirent) (extents : List Extent) : Dirent :=
  let e := { e with reserved := clearExtentBytes e.reserved }
  match extents with
  | [] => e
  | x :: rest =>
    let e := { e with startLba := x.startLba }
    if rest.length + 1 ≤ 1 then e
    else
      let count := UInt32.ofNat (rest.length + 1)
      setExtraExtents
        (setEntryExtentMeta e ((count <<< extentCountShift) ||| (x.blocks &&& extentBlockMask))) rest

def rangesOverlap (aStart aBlocks bStart bBlocks : UInt32) : Bool :=
  let aEnd := aStart + aBlocks
  let bEnd := bStart + bBlocks
  decide (aStart < bEnd) && decide (bStart < aEnd)

/-! ### Block counts -/

lemma toNat_blocksForSize {size : UInt32} (h : size.toNat ≤ 2 ^ 32 - 512) :
    (blocksForSize size).toNat = (size.toNat + 511) / 512 := by
  rw [blocksForSize, UInt32.toNat_div, UInt32.toNat_sub, UInt32.toNat_add]
  change (2 ^ 32 - 1 + (size.toNat + 512) % 2 ^ 32) % 2 ^ 32 / 512 = _
  omega

lemma toNat_allocated (h : e.byteSize.toNat ≤ 2 ^ 32 - 512) :
    (allocatedBlocksForEntry e).toNat = max 1 ((e.byteSize.toNat + 511) / 512) := by
  have hb := toNat_blocksForSize h
  simp only [allocatedBlocksForEntry]
  split_ifs with hz
  · rw [hz] at hb
    change 0 = _ at hb
    change 1 = _
    omega
  · have : (blocksForSize e.byteSize).toNat ≠ 0 := fun h0 => hz (UInt32.toNat_inj.mp h0)
    omega

lemma toNat_allocated_le (h : e.byteSize.toNat ≤ fileCapacity.toNat) :
    (allocatedBlocksForEntry e).toNat ≤ maxFileBlocks.toNat := by
  have hcap : fileCapacity.toNat = 4194304 := rfl
  have hmax : maxFileBlocks.toNat = 8192 := rfl
  rw [toNat_allocated (by omega)]
  omega

lemma allocated_pos (e : Dirent) : 0 < (allocatedBlocksForEntry e).toNat := by
  simp only [allocatedBlocksForEntry]
  split_ifs with hz
  · decide
  · exact Nat.pos_of_ne_zero fun h0 => hz (UInt32.toNat_inj.mp h0)

/-! ### Decoding -/

/-- The number of sectors of a list of extents. -/
def blockSum (xs : List Extent) : ℕ := (xs.map fun x => x.blocks.toNat).sum

@[simp] lemma blockSum_nil : blockSum [] = 0 := rfl

@[simp] lemma blockSum_cons (x : Extent) (xs : List Extent) :
    blockSum (x :: xs) = x.blocks.toNat + blockSum xs := rfl

lemma blockSum_append (xs ys : List Extent) : blockSum (xs ++ ys) = blockSum xs + blockSum ys := by
  simp [blockSum]

lemma toNat_pos {x : UInt32} (h : x ≠ 0) : 0 < x.toNat :=
  Nat.pos_of_ne_zero fun h0 => h (UInt32.toNat_inj.mp h0)

/-- The running total never wraps: it stays below the required number of blocks. -/
lemma extentsTotal_eq_some {required total t : UInt32} {xs : List Extent}
    (h : total.toNat ≤ required.toNat) : extentsTotal required total xs = some t ↔
      (∀ x ∈ xs, x.blocks ≠ 0) ∧ total.toNat + blockSum xs ≤ required.toNat ∧
        t.toNat = total.toNat + blockSum xs := by
  have hreq := required.toNat_lt
  induction xs generalizing total with
  | nil =>
    simp only [extentsTotal, Option.some.injEq, List.not_mem_nil, false_implies, implies_true,
      blockSum_nil, Nat.add_zero, true_and]
    rw [← UInt32.toNat_inj]
    exact ⟨fun ht => ⟨h, ht.symm⟩, fun ht => ht.2.symm⟩
  | cons x xs ih =>
    have hsub : (required - total).toNat = required.toNat - total.toNat :=
      UInt32.toNat_sub_of_le _ _ (UInt32.le_iff_toNat_le.mpr h)
    simp only [extentsTotal, gt_iff_lt, lt_iff_toNat_lt, hsub, List.forall_mem_cons, blockSum_cons]
    split_ifs with hbad
    · simp only [false_iff]
      rintro ⟨⟨hx, -⟩, hle, -⟩
      rcases hbad with hz | hlt
      · exact hx hz
      · omega
    · rw [not_or] at hbad
      have hadd : (total + x.blocks).toNat = total.toNat + x.blocks.toNat := by
        rw [UInt32.toNat_add, Nat.mod_eq_of_lt]
        omega
      have hle : (total + x.blocks).toNat ≤ required.toNat := by omega
      refine (ih hle).trans ?_
      rw [hadd, Nat.add_assoc]
      simp only [hbad.1, ne_eq, not_false_eq_true, true_and]

/-- The two layouts of an entry whose extents decode. -/
lemma extents_eq_some : entryExtents e = some xs ↔
      (entryExtentMeta e = 0 ∧ xs = [⟨e.startLba, allocatedBlocksForEntry e⟩]) ∨
      (entryExtentMeta e ≠ 0 ∧ entryExtentMeta e >>> extentCountShift ≠ 0 ∧
        (entryExtentMeta e >>> extentCountShift).toNat ≤ 3 ∧
        xs = storedExtents e (entryExtentMeta e >>> extentCountShift).toNat ∧
        (∀ x ∈ xs, x.blocks ≠ 0) ∧ blockSum xs = (allocatedBlocksForEntry e).toNat) := by
  simp only [entryExtents]
  split_ifs with hz hcount
  · simp [hz, eq_comm]
  · simp only [hz, false_and, ne_eq, not_false_eq_true, true_and, false_or, false_iff]
    rintro ⟨h0, hle, -⟩
    rcases hcount with hc | hc
    · exact h0 hc
    · exact absurd (UInt32.lt_iff_toNat_lt.mp hc) (not_lt.mpr hle)
  rw [not_or, gt_iff_lt, lt_iff_toNat_lt, not_lt] at hcount
  have hle : (entryExtentMeta e >>> extentCountShift).toNat ≤ 3 := hcount.2
  simp only [hz, false_and, ne_eq, not_false_eq_true, true_and, false_or, hcount.1, hle]
  generalize hst : storedExtents e (entryExtentMeta e >>> extentCountShift).toNat = st
  have htotal : extentsTotal (allocatedBlocksForEntry e) 0 st = some (allocatedBlocksForEntry e) ↔
      (∀ x ∈ st, x.blocks ≠ 0) ∧ blockSum st = (allocatedBlocksForEntry e).toNat := by
    rw [extentsTotal_eq_some (Nat.zero_le _), UInt32.toNat_zero]
    exact and_congr_right fun _ => by omega
  split
  next hnone =>
    rw [hnone] at htotal
    simp only [reduceCtorEq, false_iff]
    rintro ⟨rfl, h⟩
    cases htotal.mpr h
  next total hsome =>
    rw [hsome, Option.some.injEq] at htotal
    rw [ite_not]
    split_ifs with heq
    · rw [Option.some.injEq, eq_comm]
      exact ⟨fun h => ⟨h, h ▸ htotal.mp heq⟩, And.left⟩
    · simp only [false_iff]
      rintro ⟨rfl, h⟩
      exact heq (htotal.mpr h)

/-- What every decoded extent list satisfies. -/
lemma extents_spec (h : entryExtents e = some xs) :
    xs ≠ [] ∧ xs.length ≤ 3 ∧ (∀ x ∈ xs, x.blocks ≠ 0) ∧
      blockSum xs = (allocatedBlocksForEntry e).toNat := by
  have hpos := allocated_pos e
  rcases extents_eq_some.mp h with ⟨-, rfl⟩ | ⟨-, h0, hle, rfl, hnz, hsum⟩
  · refine ⟨by simp, by simp, ?_, by simp⟩
    simp only [List.mem_singleton, forall_eq]
    intro hz
    rw [hz] at hpos
    exact absurd hpos (by decide)
  · refine ⟨fun hnil => ?_, ?_, hnz, hsum⟩
    · rw [hnil] at hsum
      simp only [blockSum_nil] at hsum
      omega
    · rw [storedExtents, List.length_take]
      exact min_le_right _ _

/-! ### Encoding -/

@[simp] lemma word_clear_zero (r : Vector UInt8 24) :
    reservedWord (clearExtentBytes r) 0 = reservedWord r 0 := by
  simp [reservedWord, clearExtentBytes]

lemma word_clear_of_ne (r : Vector UInt8 24) {k : Fin 6} (h : k ≠ 0) :
    reservedWord (clearExtentBytes r) k = 0 := by
  simp only [reservedWord, clearExtentBytes, Vector.getElem_ofFn]
  repeat' rw [if_neg (by omega)]
  rfl

lemma setExtras_fields (e : Dirent) (xs : List Extent) :
    (setExtraExtents e xs).used = e.used ∧ (setExtraExtents e xs).name = e.name ∧
      (setExtraExtents e xs).startLba = e.startLba ∧
      (setExtraExtents e xs).byteSize = e.byteSize ∧
      entryParentId (setExtraExtents e xs) = entryParentId e := by
  match xs with
  | [] => simp only [setExtraExtents, and_self]
  | [x] =>
    simp only [setExtraExtents, parentId_setExtra, and_true]
    simp only [setEntryExtraExtent, and_self]
  | x :: y :: _ =>
    simp only [setExtraExtents, parentId_setExtra, and_true]
    simp only [setEntryExtraExtent, and_self]

/-- Storing extents touches the start sector and the reserved bytes behind the parent id only. -/
lemma setExtents_fields (e : Dirent) (xs : List Extent) :
    (setEntryExtents e xs).used = e.used ∧ (setEntryExtents e xs).name = e.name ∧
      (setEntryExtents e xs).byteSize = e.byteSize ∧
      entryParentId (setEntryExtents e xs) = entryParentId e := by
  match xs with
  | [] => simp only [setEntryExtents, entryParentId, word_clear_zero, and_self]
  | x :: rest =>
    simp only [setEntryExtents]
    split_ifs
    · simp only [entryParentId, word_clear_zero, and_self]
    · obtain ⟨h1, h2, -, h4, h5⟩ := setExtras_fields (setEntryExtentMeta _ _) rest
      rw [h1, h2, h4, h5, parentId_setMeta]
      simp only [setEntryExtentMeta, entryParentId, word_clear_zero, and_self]

/-- One extent is stored in the legacy fields alone. -/
lemma setExtents_singleton (e : Dirent) (x : Extent) : setEntryExtents e [x] =
      { e with startLba := x.startLba, reserved := clearExtentBytes e.reserved } := by
  simp only [setEntryExtents, List.length_nil, Nat.zero_add, le_refl, if_true]

lemma meta_set_singleton (e : Dirent) (x : Extent) :
    entryExtentMeta (setEntryExtents e [x]) = 0 := by
  exact word_clear_of_ne _ (by decide)

lemma allocated_congr (h : e.byteSize = f.byteSize) :
    allocatedBlocksForEntry e = allocatedBlocksForEntry f := by
  simp only [allocatedBlocksForEntry, h]

section

variable (hn : n.toNat < 256) (hb : b.toNat < 2 ^ 24)
include hn hb

/-- The metadata word packs a count of two or three above a length below `2 ^ 24`. -/
lemma toNat_extentMeta :
    ((n <<< extentCountShift) ||| (b &&& extentBlockMask)).toNat = b.toNat + n.toNat * 2 ^ 24 := by
  have hmask : (b &&& extentBlockMask).toNat = b.toNat := by
    change b.toNat &&& 2 ^ 24 - 1 = _
    rw [Nat.and_two_pow_sub_one_eq_mod, Nat.mod_eq_of_lt hb]
  have hshift : (n <<< extentCountShift).toNat = n.toNat <<< 24 := by
    change n.toNat <<< 24 % 2 ^ 32 = _
    rw [Nat.shiftLeft_eq, Nat.mod_eq_of_lt (by omega)]
  rw [UInt32.toNat_or, hmask, hshift, Nat.or_comm, or_shiftLeft_eq_add _ _ _ hb]

lemma extentMeta_shiftRight :
    ((n <<< extentCountShift) ||| (b &&& extentBlockMask)) >>> extentCountShift = n := by
  apply UInt32.toNat_inj.mp
  rw [UInt32.toNat_shiftRight, toNat_extentMeta hn hb]
  change (b.toNat + n.toNat * 2 ^ 24) >>> 24 = _
  omega

lemma extentMeta_mask :
    ((n <<< extentCountShift) ||| (b &&& extentBlockMask)) &&& extentBlockMask = b := by
  apply UInt32.toNat_inj.mp
  rw [UInt32.toNat_and, toNat_extentMeta hn hb]
  change (b.toNat + n.toNat * 2 ^ 24) &&& 2 ^ 24 - 1 = _
  rw [Nat.and_two_pow_sub_one_eq_mod]
  omega

end

lemma meta_setExtras (e : Dirent) (xs : List Extent) :
    entryExtentMeta (setExtraExtents e xs) = entryExtentMeta e := by
  match xs with
  | [] => rfl
  | [x] | x :: y :: _ =>
    simp only [setExtraExtents, setEntryExtraExtent, entryExtentMeta]
    repeat' rw [word_set_of_ne _ _ (by decide)]

/-- The extra extents read back as they were stored. -/
lemma stored_setExtras (e : Dirent) (h : xs.length ≤ 2) :
    storedExtents (setExtraExtents e xs) (xs.length + 1)
      = ⟨e.startLba, entryExtentMeta e &&& extentBlockMask⟩ :: xs := by
  rw [storedExtents, meta_setExtras, (setExtras_fields e xs).2.2.1]
  rcases xs with _ | ⟨x, _ | ⟨y, _ | ⟨z, zs⟩⟩⟩
  · rfl
  · simp (disch := decide) [setExtraExtents, setEntryExtraExtent, entryExtraExtentStart,
      entryExtraExtentBlocks, word_set_of_ne]
  · simp (disch := decide) [setExtraExtents, setEntryExtraExtent, entryExtraExtentStart,
      entryExtraExtentBlocks, word_set_of_ne]
  · simp at h

/-- Decoding what `set_entry_extents` stored gives back the extents. -/
theorem extents_setExtents (e : Dirent) (hne : xs ≠ []) (hlen : xs.length ≤ 3)
    (hnz : ∀ x ∈ xs, x.blocks ≠ 0) (hsum : blockSum xs = (allocatedBlocksForEntry e).toNat)
    (hcap : e.byteSize.toNat ≤ fileCapacity.toNat) :
    entryExtents (setEntryExtents e xs) = some xs := by
  have hsize : allocatedBlocksForEntry (setEntryExtents e xs) = allocatedBlocksForEntry e :=
    allocated_congr (setExtents_fields e xs).2.2.1
  rw [extents_eq_some, hsize]
  obtain ⟨x, rest, rfl⟩ := List.exists_cons_of_ne_nil hne
  simp only [setEntryExtents]
  split_ifs with hone
  · -- a single extent is the legacy layout: the metadata word is zero
    have hrest : rest = [] := List.eq_nil_of_length_eq_zero (by omega)
    subst hrest
    left
    constructor
    · rw [entryExtentMeta, word_clear_of_ne _ (by decide)]
    · simp only [blockSum_cons, blockSum_nil, Nat.add_zero] at hsum
      rw [UInt32.toNat_inj.mp hsum.symm]
  have hb : x.blocks.toNat < 2 ^ 24 := by
    have hle := toNat_allocated_le hcap
    have hmax : maxFileBlocks.toNat = 8192 := rfl
    rw [blockSum_cons] at hsum
    omega
  have hlen' : rest.length ≤ 2 := by
    rw [List.length_cons] at hlen
    omega
  have hn : (UInt32.ofNat (rest.length + 1)).toNat = rest.length + 1 := by
    rw [toNat_ofNat']
    omega
  have hcount := extentMeta_shiftRight (n := UInt32.ofNat (rest.length + 1)) (by omega) hb
  have hmask := extentMeta_mask (n := UInt32.ofNat (rest.length + 1)) (by omega) hb
  have hn0 : UInt32.ofNat (rest.length + 1) ≠ 0 := by
    intro h0
    rw [h0] at hn
    change 0 = _ at hn
    omega
  have hword : (UInt32.ofNat (rest.length + 1) <<< extentCountShift) |||
      (x.blocks &&& extentBlockMask) ≠ 0 := by
    intro h0
    rw [h0] at hcount
    exact hn0 hcount.symm
  right
  rw [meta_setExtras]
  simp only [entryExtentMeta, setEntryExtentMeta, word_set]
  rw [hcount, hn, stored_setExtras _ hlen']
  simp only [entryExtentMeta, word_set, hmask]
  exact ⟨hword, hn0, by omega, trivial, hnz, hsum⟩

/-- Rounding up a size in the last 511 bytes below `2 ^ 32` wraps around. -/
lemma allocated_of_wrap (h : 2 ^ 32 - 512 < e.byteSize.toNat) : allocatedBlocksForEntry e = 1 := by
  have hlt := e.byteSize.toNat_lt
  have hblocks : blocksForSize e.byteSize = 0 := by
    apply UInt32.toNat_inj.mp
    rw [blocksForSize, UInt32.toNat_div, UInt32.toNat_sub, UInt32.toNat_add]
    change (2 ^ 32 - 1 + (e.byteSize.toNat + 512) % 2 ^ 32) % 2 ^ 32 / 512 = 0
    omega
  simp only [allocatedBlocksForEntry, hblocks, if_true]

/-- A single stored block: the metadata counts one extent and gives it one block. -/
lemma stored_single_iff :
    (entryExtentMeta e >>> extentCountShift).toNat = 1 ∧ entryExtentMeta e &&& extentBlockMask = 1 ↔
      entryExtentMeta e = 0x01000001 := by
  constructor
  · rintro ⟨hcount, hmask⟩
    have hmod := congrArg UInt32.toNat hmask
    rw [UInt32.toNat_and] at hmod
    change (entryExtentMeta e).toNat &&& 2 ^ 24 - 1 = 1 at hmod
    rw [Nat.and_two_pow_sub_one_eq_mod] at hmod
    rw [UInt32.toNat_shiftRight] at hcount
    change (entryExtentMeta e).toNat >>> 24 = 1 at hcount
    rw [Nat.shiftRight_eq_div_pow] at hcount
    apply UInt32.toNat_inj.mp
    change _ = 16777217
    omega
  · intro h
    rw [h]
    decide

/-- What decodes when the number of blocks has wrapped around to one. -/
lemma extents_of_wrap (h : 2 ^ 32 - 512 < e.byteSize.toNat) : entryExtents e = some xs ↔
    (entryExtentMeta e = 0 ∨ entryExtentMeta e = 0x01000001) ∧ xs = [⟨e.startLba, 1⟩] := by
  rw [extents_eq_some, allocated_of_wrap h, or_and_right]
  refine or_congr_right ⟨?_, ?_⟩
  · rintro ⟨-, h0, hle, rfl, hnz, hsum⟩
    -- one block in all leaves room for one extent
    have hcount : (entryExtentMeta e >>> extentCountShift).toNat = 1 := by
      have hpos := toNat_pos h0
      by_contra hne
      obtain ⟨k, hk⟩ : ∃ k, (entryExtentMeta e >>> extentCountShift).toNat = k + 2 :=
        ⟨_, (Nat.sub_add_cancel (by omega)).symm⟩
      rw [hk, storedExtents] at hsum hnz
      simp only [List.take_succ_cons, List.forall_mem_cons, blockSum_cons] at hsum hnz
      have h1 := toNat_pos hnz.1
      have h2 := toNat_pos hnz.2.1
      change _ = 1 at hsum
      omega
    rw [hcount] at hsum ⊢
    have hmask : entryExtentMeta e &&& extentBlockMask = 1 := UInt32.toNat_inj.mp hsum
    exact ⟨stored_single_iff.mp ⟨hcount, hmask⟩, by rw [storedExtents, hmask]; rfl⟩
  · rintro ⟨hmeta, rfl⟩
    obtain ⟨hcount, hmask⟩ := stored_single_iff.mpr hmeta
    rw [hcount, storedExtents, hmask, hmeta]
    simp only [List.take_succ_cons, List.take_zero, List.mem_singleton, forall_eq, blockSum_cons,
      blockSum_nil]
    decide

/-- Extents that are stored are read back. Whatever an entry decodes to has the blocks of its size,
unless `blocks_for_size` overflows and the metadata stands for a single block. -/
theorem extents_roundTrip (e : Dirent) :
    (∀ xs : List Extent, xs ≠ [] → xs.length ≤ 3 → (∀ x ∈ xs, x.blocks ≠ 0) →
      e.byteSize ≤ fileCapacity → blockSum xs = max 1 ((e.byteSize.toNat + 511) / 512) →
      entryExtents (setEntryExtents e xs) = some xs ∧
        entryParentId (setEntryExtents e xs) = entryParentId e) ∧
    ((∀ xs, entryExtents e = some xs → xs ≠ [] ∧ xs.length ≤ 3 ∧ (∀ x ∈ xs, x.blocks ≠ 0) ∧
        blockSum xs = max 1 ((e.byteSize.toNat + 511) / 512)) ↔
      e.byteSize.toNat ≤ 2 ^ 32 - 512 ∨
        entryExtentMeta e ≠ 0 ∧ entryExtentMeta e ≠ 0x01000001) := by
  constructor
  · intro xs hne hlen hnz hcap hsum
    have hsize : e.byteSize.toNat ≤ 4194304 := UInt32.le_iff_toNat_le.mp hcap
    rw [← toNat_allocated (by omega)] at hsum
    exact ⟨extents_setExtents e hne hlen hnz hsum hcap, (setExtents_fields e xs).2.2.2⟩
  rcases le_or_gt e.byteSize.toNat (2 ^ 32 - 512) with hsize | hsize
  · rw [← toNat_allocated hsize]
    exact iff_of_true (fun xs => extents_spec) (Or.inl hsize)
  · simp only [not_le.mpr hsize, false_or, ← not_or, extents_of_wrap hsize]
    constructor
    · intro hall hmeta
      have hsum := (hall _ ⟨hmeta, rfl⟩).2.2.2
      change 1 = max 1 _ at hsum
      omega
    · exact fun hmeta xs hxs => absurd hxs.1 hmeta

theorem extents_roundTrip_two :
    entryExtents (setEntryExtents { Dirent.zero with byteSize := 1024 } [⟨7, 1⟩, ⟨3, 1⟩]) =
      some [⟨7, 1⟩, ⟨3, 1⟩] :=
  ((extents_roundTrip _).1 [⟨7, 1⟩, ⟨3, 1⟩] (by decide) (by decide) (by decide)
    (by decide) (by decide)).1

/-- The size is rounded up beyond the largest 32-bit number, and one block is left. -/
theorem extents_of_largest_size : ∃ xs, entryExtents { Dirent.zero with byteSize := 0xFFFFFFFF } =
    some xs ∧ blockSum xs < (0xFFFFFFFF + 511) / 512 :=
  ⟨[⟨0, 1⟩], by decide, by decide⟩

/-- Storing the legacy run makes an entry decode to it. -/
lemma extents_set_legacy (e : Dirent) :
    entryExtents (setEntryExtents e [⟨e.startLba, allocatedBlocksForEntry e⟩])
      = some [⟨e.startLba, allocatedBlocksForEntry e⟩] := by
  have hrequired : allocatedBlocksForEntry
      (setEntryExtents e [⟨e.startLba, allocatedBlocksForEntry e⟩]) = allocatedBlocksForEntry e :=
    allocated_congr (setExtents_fields e _).2.2.1
  rw [extents_eq_some]
  refine Or.inl ⟨meta_set_singleton e _, ?_⟩
  rw [hrequired, setExtents_singleton]

/-- The name and the type do not matter. -/
lemma extents_congr (hs : e.startLba = f.startLba) (hb : e.byteSize = f.byteSize)
    (hr : e.reserved = f.reserved) : entryExtents e = entryExtents f := by
  have hrequired := allocated_congr hb
  have hword : entryExtentMeta e = entryExtentMeta f := congrArg (reservedWord · 1) hr
  have hstored : ∀ n, storedExtents e n = storedExtents f n := by
    intro n
    simp only [storedExtents, hword, hs, entryExtraExtentStart, entryExtraExtentBlocks, hr]
  simp only [entryExtents, hrequired, hword, hs, hstored]

lemma extents_setParent (e : Dirent) (p : UInt32) :
    entryExtents (setEntryParentId e p) = entryExtents e := by
  have hstored : ∀ n, storedExtents (setEntryParentId e p) n = storedExtents e n := by
    intro n
    simp only [storedExtents, meta_setParent, extraStart_setParent, extraBlocks_setParent]
    rfl
  have hrequired : allocatedBlocksForEntry (setEntryParentId e p) = allocatedBlocksForEntry e :=
    allocated_congr rfl
  have hstart : (setEntryParentId e p).startLba = e.startLba := rfl
  simp only [entryExtents, hstored, hrequired, hstart, meta_setParent]

/-! ### Overlap -/

lemma overlap_comm (a n b m : UInt32) : rangesOverlap a n b m = rangesOverlap b m a n :=
  Bool.and_comm _ _

/-- `ranges_overlap` compares as in `ℕ` as long as neither end wraps around. -/
lemma overlap_eq_true {a m : UInt32} (ha : a.toNat + n.toNat < 2 ^ 32)
    (hb : b.toNat + m.toNat < 2 ^ 32) : rangesOverlap a n b m = true ↔
      a.toNat < b.toNat + m.toNat ∧ b.toNat < a.toNat + n.toNat := by
  simp only [rangesOverlap, Bool.and_eq_true, decide_eq_true_eq, UInt32.lt_iff_toNat_lt,
    UInt32.toNat_add, Nat.mod_eq_of_lt ha, Nat.mod_eq_of_lt hb]

/-- Two extents that end below `2 ^ 32` are disjoint exactly when the test finds no overlap. -/
lemma overlap_eq_false {x y : Extent} (hx : x.startLba.toNat + x.blocks.toNat < 2 ^ 32)
    (hy : y.startLba.toNat + y.blocks.toNat < 2 ^ 32) (hx0 : x.blocks ≠ 0) (hy0 : y.blocks ≠ 0) :
    rangesOverlap x.startLba x.blocks y.startLba y.blocks = false ↔
      Disjoint x.sectors y.sectors := by
  have hxp := toNat_pos hx0
  have hyp := toNat_pos hy0
  rw [← Bool.not_eq_true, overlap_eq_true hx hy, Extent.sectors, Extent.sectors,
    Set.Ico_disjoint_Ico]
  omega

end LainFS
