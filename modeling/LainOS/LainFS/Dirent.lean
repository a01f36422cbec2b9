import LainOS.Lib.LittleEndian
import Mathlib.Data.List.TakeWhile

/-!
# Directory entries

The on-disk constants, the 64-byte directory entry `lainfs_dirent_t` and the accessors of its
fields. The 24 reserved bytes are part of the format: they hold, as little-endian words, the
parent entry id, the extent metadata and up to two extra extents.
-/

namespace LainFS

open LittleEndian Function

/-! ### Constants -/

def blockSize : ℕ := 512
def dirBlocks : ℕ := 256
def entrySize : ℕ := 64
def maxFiles : ℕ := dirBlocks * blockSize / entrySize
def rootDir : UInt32 := 0
def fileCapacity : UInt32 := 4 * 1024 * 1024
def maxFileBlocks : UInt32 := fileCapacity / 512
def maxExtents : UInt32 := 3
def entryFile : UInt8 := 1
def entryDir : UInt8 := 2
def extentBlockMask : UInt32 := 0x00FFFFFF
def extentCountShift : UInt32 := 24

instance : NeZero maxFiles := ⟨by decide⟩

/-! ### C strings -/

/-- A string argument of the source: the bytes before the terminating NUL. -/
structure CString where
  bytes : List UInt8
  nonzero : ∀ b ∈ bytes, b ≠ 0
deriving DecidableEq

/-- The string a character array holds: the bytes up to the first NUL. -/
def cString (bytes : List UInt8) : List UInt8 := bytes.takeWhile (· ≠ 0)

/-- The characters `/ \ : space tab` that no entry name may hold. -/
def isForbiddenChar (c : UInt8) : Bool :=
  c == 0x2F || c == 0x5C || c == 0x3A || c == 0x20 || c == 0x09

def validName (name : List UInt8) : Bool :=
  !(name.length == 0 || 30 < name.length) && name.all fun c => !isForbiddenChar c

/-- `valid_name` on the name field of an entry, which need not be terminated. -/
def entryNameIsValid (name : Vector UInt8 31) : Bool :=
  let len := (cString name.toList).length
  if 31 ≤ len then false else validName (cString name.toList)

/-- Copy at most 30 characters and terminate; the bytes behind the NUL stay. -/
def copyName (dst : Vector UInt8 31) (src : List UInt8) : Vector UInt8 31 :=
  Vector.ofFn fun i =>
    if h : i.val < src.length ∧ i.val < 30 then src[i.val]
    else if i.val = min src.length 30 then 0 else dst[i.val]

/-! ### Entries -/

structure Dirent where
  used : UInt8
  name : Vector UInt8 31
  startLba : UInt32
  byteSize : UInt32
  reserved : Vector UInt8 24
deriving DecidableEq

/-- What `mem_zero` leaves of an entry. -/
def Dirent.zero : Dirent := ⟨0, Vector.replicate 31 0, 0, 0, Vector.replicate 24 0⟩

/-- The directory buffer: `LAINFS_MAX_FILES` entries of 64 bytes. -/
abbrev Directory : Type := Fin maxFiles → Dirent

/-- Replace entry `i` of the table. -/
def Directory.set (d : Directory) (i : Fin maxFiles) (e : Dirent) : Directory :=
  update d i e

@[simp] lemma Directory.set_self (d : Directory) (i : Fin maxFiles) (e : Dirent) :
    d.set i e i = e := by
  rw [Directory.set, update_self]

lemma Directory.set_of_ne (d : Directory) {i j : Fin maxFiles} (e : Dirent) (h : j ≠ i) :
    d.set i e j = d j := by
  rw [Directory.set, update_of_ne h]

@[simp] lemma Directory.set_set (d : Directory) (i : Fin maxFiles) (e f : Dirent) :
    (d.set i e).set i f = d.set i f := by
  rw [Directory.set, Directory.set, update_idem, Directory.set]

/-- The table of a fresh volume. -/
def Directory.empty : Directory := fun _ => Dirent.zero

/-- A table with one entry. -/
def Directory.single (e : Dirent) : Directory := Directory.empty.set 0 e

lemma Directory.eq_zero_of_single {e : Dirent} {i : Fin maxFiles}
    (h : (Directory.single e i).used ≠ 0) : i = 0 := by
  by_contra hi
  rw [Directory.single, Directory.set_of_ne _ _ hi] at h
  exact h rfl

/-- Word number `k` of the reserved bytes. -/
def reservedWord (r : Vector UInt8 24) (k : Fin 6) : UInt32 :=
  readLe32 r[4 * k.val] r[4 * k.val + 1] r[4 * k.val + 2] r[4 * k.val + 3]

/-- Store `x` as word number `k` of the reserved bytes. -/
def setReservedWord (r : Vector UInt8 24) (k : Fin 6) (x : UInt32) : Vector UInt8 24 :=
  (((r.set (4 * k.val) (le32Byte x 0)).set (4 * k.val + 1) (le32Byte x 1)).set
    (4 * k.val + 2) (le32Byte x 2)).set (4 * k.val + 3) (le32Byte x 3)

@[simp] lemma word_set (r : Vector UInt8 24) (k : Fin 6) (x : UInt32) :
    reservedWord (setReservedWord r k x) k = x := by
  simp [reservedWord, setReservedWord]

lemma word_set_of_ne (r : Vector UInt8 24) {k l : Fin 6} (x : UInt32)
    (h : l ≠ k) : reservedWord (setReservedWord r k x) l = reservedWord r l := by
  have hkl : l.val ≠ k.val := fun hv => h (Fin.ext hv)
  simp only [reservedWord, setReservedWord, Vector.getElem_set]
  congr 1 <;> repeat' rw [if_neg (by omega)]

def entryParentId (e : Dirent) : UInt32 := reservedWord e.reserved 0

def setEntryParentId (e : Dirent) (parentId : UInt32) : Dirent :=
  { e with reserved := setReservedWord e.reserved 0 parentId }

def entryExtentMeta (e : Dirent) : UInt32 := reservedWord e.reserved 1

def setEntryExtentMeta (e : Dirent) (word : UInt32) : Dirent :=
  { e with reserved := setReservedWord e.reserved 1 word }

def entryExtraExtentStart (e : Dirent) (i : Fin 2) : UInt32 :=
  reservedWord e.reserved ⟨2 + 2 * i.val, by omega⟩

def entryExtraExtentBlocks (e : Dirent) (i : Fin 2) : UInt32 :=
  reservedWord e.reserved ⟨3 + 2 * i.val, by omega⟩

def setEntryExtraExtent (e : Dirent) (i : Fin 2) (startLba blocks : UInt32) : Dirent :=
  { e with reserved := setReservedWord (setReservedWord e.reserved ⟨2 + 2 * i.val, by omega⟩ startLba)
                        ⟨3 + 2 * i.val, by omega⟩ blocks }

/-- The name of an entry as a string. -/
def entryName (e : Dirent) : List UInt8 := cString e.name.toList

def entryIdFromIndex (i : Fin maxFiles) : UInt32 := UInt32.ofNat i.val + 1

/-- Index of a non-root id; every caller has checked `1 ≤ id ≤ LAINFS_MAX_FILES`. -/
def indexFromEntryId (id : UInt32) : Fin maxFiles := Fin.ofNat maxFiles (id - 1).toNat

@[simp] lemma toNat_entryId (i : Fin maxFiles) : (entryIdFromIndex i).toNat = i.val + 1 := by
  have hi : i.val < 2048 := i.isLt
  rw [entryIdFromIndex, UInt32.toNat_add, UInt32.toNat_ofNat']
  change (i.val % 2 ^ 32 + 1) % 2 ^ 32 = _
  omega

lemma val_index {id : UInt32} (h0 : id ≠ 0) (hle : id.toNat ≤ maxFiles) :
    (indexFromEntryId id).val = id.toNat - 1 := by
  have hpos : 1 ≤ id.toNat := by
    rcases Nat.eq_zero_or_pos id.toNat with hz | hz
    · exact absurd (UInt32.toNat_inj.mp hz) h0
    · exact hz
  have hsub : (id - 1).toNat = id.toNat - 1 :=
    UInt32.toNat_sub_of_le id 1 (UInt32.le_iff_toNat_le.mpr hpos)
  rw [indexFromEntryId, Fin.val_ofNat, hsub]
  exact Nat.mod_eq_of_lt (by omega)

@[simp] lemma index_entryId (i : Fin maxFiles) : indexFromEntryId (entryIdFromIndex i) = i := by
  have hi : i.val < maxFiles := i.isLt
  have h0 : entryIdFromIndex i ≠ 0 := fun h => by
    have := congrArg UInt32.toNat h
    simp at this
  apply Fin.ext
  rw [val_index h0 (by rw [toNat_entryId]; omega), toNat_entryId]
  omega

lemma entryId_index {id : UInt32} (h0 : id ≠ 0)
    (hle : id.toNat ≤ maxFiles) : entryIdFromIndex (indexFromEntryId id) = id := by
  have hpos : id.toNat ≠ 0 := fun hz => h0 (UInt32.toNat_inj.mp hz)
  apply UInt32.toNat_inj.mp
  rw [toNat_entryId, val_index h0 hle]
  omega

lemma entryId_injective : Function.Injective entryIdFromIndex := fun i j h => by
  rw [← index_entryId i, h, index_entryId]

lemma entryId_ne_root (i : Fin maxFiles) : entryIdFromIndex i ≠ rootDir := fun h => by
  have := congrArg UInt32.toNat h
  simp [rootDir] at this

lemma toNat_entryId_le (i : Fin maxFiles) : (entryIdFromIndex i).toNat ≤ maxFiles := by
  rw [toNat_entryId]
  exact i.isLt

/-- The guard on ids never stops that of an index. -/
lemma entryId_inRange (i : Fin maxFiles) :
    ¬ (entryIdFromIndex i = 0 ∨ maxFiles < (entryIdFromIndex i).toNat) :=
  not_or.mpr ⟨entryId_ne_root i, (toNat_entryId_le i).not_gt⟩

/-! ### Field updates -/

section

variable (e : Dirent)
include e

@[simp] lemma parentId_setParent (p : UInt32) : entryParentId (setEntryParentId e p) = p := by
  simp [entryParentId, setEntryParentId]

@[simp] lemma parentId_setMeta (w : UInt32) :
    entryParentId (setEntryExtentMeta e w) = entryParentId e :=
  word_set_of_ne _ _ (by decide)

@[simp] lemma parentId_setExtra (i : Fin 2) (s b : UInt32) :
    entryParentId (setEntryExtraExtent e i s b) = entryParentId e := by
  rw [entryParentId, setEntryExtraExtent, word_set_of_ne, word_set_of_ne, entryParentId]
  all_goals exact fun h => by simp only [Fin.ext_iff, Fin.val_zero] at h; omega

@[simp] lemma meta_setParent (p : UInt32) :
    entryExtentMeta (setEntryParentId e p) = entryExtentMeta e :=
  word_set_of_ne _ _ (by decide)

@[simp] lemma extraStart_setParent (p : UInt32) (i : Fin 2) :
    entryExtraExtentStart (setEntryParentId e p) i = entryExtraExtentStart e i :=
  word_set_of_ne _ _ fun h => by
    simp only [Fin.ext_iff, Fin.val_zero] at h; omega

@[simp] lemma extraBlocks_setParent (p : UInt32) (i : Fin 2) :
    entryExtraExtentBlocks (setEntryParentId e p) i = entryExtraExtentBlocks e i :=
  word_set_of_ne _ _ fun h => by
    simp only [Fin.ext_iff, Fin.val_zero] at h; omega

end

/-! ### Names -/

/-- A name of at most 30 characters is stored unchanged. -/
lemma cString_copy (dst : Vector UInt8 31) {src : List UInt8} (hlen : src.length ≤ 30)
    (hnz : ∀ b ∈ src, b ≠ 0) : cString (copyName dst src).toList = src := by
  have hsplit : (copyName dst src).toList
      = src ++ 0 :: (copyName dst src).toList.drop (src.length + 1) := by
    apply List.ext_getElem
    · simp; omega
    intro i h1 h2
    have hi : i < 31 := by simpa using h1
    rcases lt_trichotomy i src.length with hlt | heq | hgt
    · rw [List.getElem_append_left hlt]
      simp [copyName, hlt, show i < 30 by omega]
    · subst heq
      simp [copyName, hlen]
    · rw [List.getElem_append_right (by omega), List.getElem_cons, dif_neg (by omega),
        List.getElem_drop]
      congr 1
      omega
  rw [hsplit, cString, List.takeWhile_append_of_pos (by simpa using hnz)]
  simp

/-- An entry name is legal exactly when its field is terminated and holds a legal name. -/
lemma nameIsValid_eq_true {name : Vector UInt8 31} :
    entryNameIsValid name = true ↔ validName (cString name.toList) = true := by
  simp only [entryNameIsValid]
  split_ifs with hlen
  · simp only [false_iff]
    intro hv
    simp only [validName, Bool.and_eq_true, Bool.not_eq_true', Bool.or_eq_false_iff,
      decide_eq_false_iff_not] at hv
    omega
  · rfl

end LainFS
