import LainOS.LainFS.Validate

/-!
# Sectors of the volume

The superblock lies in sector 0 and the directory in 256 sectors of eight entries each. The
packed structures of the source make both a plain copy of bytes; here the copy is spelled out,
and reading back what was written gives the same table (`ofSectors_sectors`).
-/

namespace LainFS

open Storage LittleEndian Sector

/-! ### Superblock -/

def superOfSector (s : Sector) : Superblock :=
  { magic0 := s.le32 0, magic1 := s.le32 4, version := s.le32 8, blockSize := s.le32 12,
    dirStartLba := s.le32 16, dirBlocks := s.le32 20, dataStartLba := s.le32 24,
    maxFiles := s.le32 28 }

/-- The tests of `raw_read_super`. -/
def superIsValid (super : Superblock) : Prop :=
  super.magic0 = 0x4E49414C ∧ super.magic1 = 0x315346 ∧ super.version = 1 ∧
    super.blockSize = 512 ∧ super.dirBlocks = 256 ∧ super.maxFiles = 2048

instance (super : Superblock) : Decidable (superIsValid super) :=
  inferInstanceAs (Decidable (_ ∧ _))

/-- A superblock that has passed `raw_read_super`. -/
abbrev CheckedSuper : Type := { super : Superblock // superIsValid super }

/-- The superblock `format_partition_index` writes. -/
def formatSuper : Superblock :=
  { magic0 := 0x4E49414C, magic1 := 0x315346, version := 1, blockSize := 512, dirStartLba := 1,
    dirBlocks := 256, dataStartLba := 257, maxFiles := 2048 }

/-- A word of the superblock by its number; the rest of the sector is zero. -/
def superWord (super : Superblock) (k : ℕ) : UInt32 :=
  match k with
  | 0 => super.magic0
  | 1 => super.magic1
  | 2 => super.version
  | 3 => super.blockSize
  | 4 => super.dirStartLba
  | 5 => super.dirBlocks
  | 6 => super.dataStartLba
  | 7 => super.maxFiles
  | _ => 0

def sectorOfSuper (super : Superblock) : Sector := fun b =>
  le32Byte (superWord super (b.val / 4)) (UInt32.ofNat (b.val % 4))

lemma le32_super (super : Superblock) {k : ℕ} (hk : k < 8) :
    (sectorOfSuper super).le32 (4 * k) = superWord super k := by
  have hbyte : ∀ r < 4, (sectorOfSuper super).byte (4 * k + r)
      = le32Byte (superWord super k) (UInt32.ofNat r) := by
    intro r hr
    have hlt : 4 * k + r < sectorSize := by rw [sectorSize]; omega
    rw [byte_eq _ hlt, sectorOfSuper, show (4 * k + r) / 4 = k by omega,
      show (4 * k + r) % 4 = r by omega]
  rw [le32, ← Nat.add_zero (4 * k), hbyte 0 (by omega), Nat.add_zero, hbyte 1 (by omega),
    hbyte 2 (by omega), hbyte 3 (by omega)]
  exact readLe32_le32Byte _

lemma superOfSector_sector (super : Superblock) : superOfSector (sectorOfSuper super) = super := by
  have h0 : (sectorOfSuper super).le32 0 = super.magic0 := le32_super super (k := 0) (by omega)
  have h1 : (sectorOfSuper super).le32 4 = super.magic1 := le32_super super (k := 1) (by omega)
  have h2 : (sectorOfSuper super).le32 8 = super.version := le32_super super (k := 2) (by omega)
  have h3 : (sectorOfSuper super).le32 12 = super.blockSize := le32_super super (k := 3) (by omega)
  have h4 : (sectorOfSuper super).le32 16 = super.dirStartLba :=
    le32_super super (k := 4) (by omega)
  have h5 : (sectorOfSuper super).le32 20 = super.dirBlocks := le32_super super (k := 5) (by omega)
  have h6 : (sectorOfSuper super).le32 24 = super.dataStartLba :=
    le32_super super (k := 6) (by omega)
  have h7 : (sectorOfSuper super).le32 28 = super.maxFiles := le32_super super (k := 7) (by omega)
  rw [superOfSector, h0, h1, h2, h3, h4, h5, h6, h7]

lemma superIsValid_formatSuper : superIsValid formatSuper := by decide

/-! ### Directory -/

/-- Entry number `k` of a sector. -/
def direntOfSector (s : Sector) (k : ℕ) : Dirent :=
  let offset := 64 * k
  { used := s.byte offset
    name := Vector.ofFn fun i => s.byte (offset + 1 + i.val)
    startLba := s.le32 (offset + 32)
    byteSize := s.le32 (offset + 36)
    reserved := Vector.ofFn fun i => s.byte (offset + 40 + i.val) }

/-- Byte `n` of the 64 bytes of an entry. -/
def direntByte (e : Dirent) (n : ℕ) : UInt8 :=
  if n = 0 then e.used
  else if h : n < 32 then e.name[n - 1]
  else if n < 36 then le32Byte e.startLba (UInt32.ofNat (n - 32))
  else if n < 40 then le32Byte e.byteSize (UInt32.ofNat (n - 36))
  else if h : n < 64 then e.reserved[n - 40]
  else 0

def directoryOfSectors (f : ℕ → Sector) : Directory := fun i =>
  direntOfSector (f (i.val / 8)) (i.val % 8)

def sectorsOfDirectory (d : Directory) : ℕ → Sector := fun k b =>
  direntByte (d (Fin.ofNat maxFiles (8 * k + b.val / 64))) (b.val % 64)

lemma ofSectors_congr {f g : ℕ → Sector} (h : ∀ k < dirBlocks, f k = g k) :
    directoryOfSectors f = directoryOfSectors g := by
  funext i
  have hi : i.val < 2048 := i.isLt
  rw [directoryOfSectors, directoryOfSectors, h _ (by rw [dirBlocks]; omega)]

/-- The bytes of an entry stored in a sector are the bytes of the entry. -/
lemma direntOfSector_eq {s : Sector} {k : ℕ} {e : Dirent}
    (h : ∀ n < 64, s.byte (64 * k + n) = direntByte e n) : direntOfSector s k = e := by
  have hle32 : ∀ m x, (∀ r < 4, direntByte e (m + r) = le32Byte x (UInt32.ofNat r)) → m + 3 < 64 →
      s.le32 (64 * k + m) = x := by
    intro m x hx hm
    rw [le32, h m (by omega), Nat.add_assoc, h (m + 1) (by omega), Nat.add_assoc,
      h (m + 2) (by omega), Nat.add_assoc, h (m + 3) (by omega), ← Nat.add_zero m,
      hx 0 (by omega), Nat.add_zero, hx 1 (by omega), hx 2 (by omega), hx 3 (by omega)]
    exact readLe32_le32Byte x
  have hstart : s.le32 (64 * k + 32) = e.startLba := by
    refine hle32 32 e.startLba (fun r hr => ?_) (by omega)
    rw [direntByte, if_neg (by omega), dif_neg (by omega), if_pos (by omega),
      Nat.add_sub_cancel_left]
  have hsize : s.le32 (64 * k + 36) = e.byteSize := by
    refine hle32 36 e.byteSize (fun r hr => ?_) (by omega)
    rw [direntByte, if_neg (by omega), dif_neg (by omega), if_neg (by omega), if_pos (by omega),
      Nat.add_sub_cancel_left]
  have hused : s.byte (64 * k) = e.used := by
    have := h 0 (by omega)
    rwa [Nat.add_zero, direntByte, if_pos rfl] at this
  have hname : (Vector.ofFn fun i : Fin 31 => s.byte (64 * k + 1 + i.val)) = e.name := by
    ext i hi
    rw [Vector.getElem_ofFn, Nat.add_assoc, h (1 + i) (by omega), direntByte, if_neg (by omega),
      dif_pos (by omega)]
    simp only [Nat.add_sub_cancel_left]
  have hreserved : (Vector.ofFn fun i : Fin 24 => s.byte (64 * k + 40 + i.val)) = e.reserved := by
    ext i hi
    rw [Vector.getElem_ofFn, Nat.add_assoc, h (40 + i) (by omega), direntByte, if_neg (by omega),
      dif_neg (by omega), if_neg (by omega), if_neg (by omega), dif_pos (by omega)]
    simp only [Nat.add_sub_cancel_left]
  rw [direntOfSector, hused, hname, hstart, hsize, hreserved]

/-- Reading back a directory that was written. -/
theorem ofSectors_sectors (d : Directory) : directoryOfSectors (sectorsOfDirectory d) = d := by
  funext i
  have hi : i.val < 2048 := i.isLt
  refine direntOfSector_eq fun n hn => ?_
  have hlt : 64 * (i.val % 8) + n < sectorSize := by rw [sectorSize]; omega
  have hindex : Fin.ofNat maxFiles (8 * (i.val / 8) + (64 * (i.val % 8) + n) / 64) = i := by
    apply Fin.ext
    change (8 * (i.val / 8) + (64 * (i.val % 8) + n) / 64) % 2048 = i.val
    omega
  rw [byte_eq _ hlt, sectorsOfDirectory]
  simp only [hindex, show (64 * (i.val % 8) + n) % 64 = n by omega]

lemma ofSectors_zero : directoryOfSectors (fun _ => zero) = Directory.empty := by
  funext i
  have hzero : ∀ n < 64, direntByte Dirent.zero n = 0 := by decide
  exact direntOfSector_eq fun n hn => (hzero n hn).symm

end LainFS
