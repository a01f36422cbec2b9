import Mathlib.Tactic

/-!
# Blocks of a 64-bit address space

A block is the bytes from an address on, as a loop over them reaches them: the addresses wrap at
`2 ^ 64`. `Block.inside_iff` says when a block lies in a range of addresses.
-/

structure Block where
  start : UInt64
  size : UInt64
  deriving DecidableEq, Repr

namespace Block

variable {b : Block} {x : UInt64} {lo hi : ℕ}

def Mem (b : Block) (x : UInt64) : Prop := x - b.start < b.size

instance (b : Block) (x : UInt64) : Decidable (b.Mem x) := inferInstanceAs (Decidable (_ < _))

/-- All addresses of the block are at least `lo` and below `hi`. -/
def Inside (b : Block) (lo hi : ℕ) : Prop := ∀ x, b.Mem x → lo ≤ x.toNat ∧ x.toNat < hi

lemma mem_iff : b.Mem x ↔ (x - b.start).toNat < b.size.toNat := UInt64.lt_iff_toNat_lt

lemma mem_add {i : UInt64} : b.Mem (b.start + i) ↔ i < b.size := by
  rw [Mem, UInt64.add_comm, UInt64.add_sub_cancel]

lemma sub_add_eq_sub_sub (x y z : UInt64) : x - (y + z) = x - y - z := by
  rw [UInt64.sub_eq_add_neg x, UInt64.neg_add, UInt64.sub_eq_add_neg (-y), ← UInt64.add_assoc,
    ← UInt64.sub_eq_add_neg, ← UInt64.sub_eq_add_neg]

/-- An address in a block that starts further on. -/
lemma mem_add_add {a n size i : UInt64} : Block.Mem ⟨a + n, size⟩ (a + i) ↔ i - n < size := by
  rw [Mem, sub_add_eq_sub_sub, UInt64.add_comm a i, UInt64.add_sub_cancel]

lemma mem_of_le (hle : b.start.toNat ≤ x.toNat) (hlt : x.toNat < b.start.toNat + b.size.toNat) :
    b.Mem x := by
  rw [mem_iff, UInt64.toNat_sub_of_le _ _ (UInt64.le_iff_toNat_le.mpr hle)]
  omega

/-- An address of a block that does not wrap lies between its ends. -/
lemma Mem.bounds (h : b.Mem x) (hwrap : b.start.toNat + b.size.toNat ≤ 2 ^ 64) :
    b.start.toNat ≤ x.toNat ∧ x.toNat < b.start.toNat + b.size.toNat := by
  rw [mem_iff, UInt64.toNat_sub] at h
  have hx := x.toNat_lt
  have hstart := b.start.toNat_lt
  omega

/-- A block lies in a range if it is empty, if its ends do, or if the range is everything. -/
theorem inside_iff (hhi : hi ≤ 2 ^ 64) : b.Inside lo hi ↔
    b.size = 0 ∨ (lo ≤ b.start.toNat ∧ b.start.toNat + b.size.toNat ≤ hi) ∨
      (lo = 0 ∧ hi = 2 ^ 64) := by
  have hstart := b.start.toNat_lt
  have hsize := b.size.toNat_lt
  constructor
  · intro h
    by_cases hempty : b.size = 0
    · exact .inl hempty
    right
    have hpos : 0 < b.size.toNat :=
      Nat.pos_of_ne_zero fun hzero => hempty (UInt64.toNat_inj.mp hzero)
    obtain ⟨hlo, hhi'⟩ := h b.start (mem_of_le le_rfl (by omega))
    by_cases hwrap : b.start.toNat + b.size.toNat ≤ 2 ^ 64
    · -- the last byte
      have hlast : (UInt64.ofNat (b.start.toNat + b.size.toNat - 1)).toNat =
          b.start.toNat + b.size.toNat - 1 := UInt64.toNat_ofNat_of_lt' (by
        change _ < 2 ^ 64
        omega)
      have := h (.ofNat (b.start.toNat + b.size.toNat - 1)) (mem_of_le (by omega) (by omega))
      exact .inl ⟨hlo, by omega⟩
    · -- a block that wraps has the first and the last address of all
      have hzero : b.Mem 0 := by
        rw [mem_iff, UInt64.toNat_sub, UInt64.toNat_zero]
        omega
      have hmax : (UInt64.ofNat (2 ^ 64 - 1)).toNat = 2 ^ 64 - 1 := by decide
      have hfirst := h 0 hzero
      have hlast := h (.ofNat (2 ^ 64 - 1)) (mem_of_le (by omega) (by omega))
      rw [UInt64.toNat_zero] at hfirst
      exact .inr ⟨by omega, by omega⟩
  · intro h x hx
    rcases h with hempty | ⟨hlo, hend⟩ | ⟨rfl, rfl⟩
    · rw [mem_iff, hempty, UInt64.toNat_zero] at hx
      omega
    · have := hx.bounds (by omega)
      omega
    · exact ⟨Nat.zero_le _, x.toNat_lt⟩

/-- No address is in both. -/
def Apart (b b' : Block) : Prop := ∀ x, b.Mem x → ¬ b'.Mem x

end Block

/-- A memory of the whole address space. -/
abbrev Space : Type := UInt64 → UInt8

/-- The bytes of a block replaced by those of `f`, which counts from the start of the block. -/
def Space.write (m : Space) (b : Block) (f : UInt64 → UInt8) : Space := fun x =>
  if b.Mem x then f (x - b.start) else m x

namespace Space

variable {m : Space} {b : Block} {f : UInt64 → UInt8}

lemma write_add {i : UInt64} (h : i < b.size) : m.write b f (b.start + i) = f i := by
  rw [write, if_pos (Block.mem_add.mpr h), UInt64.add_comm, UInt64.add_sub_cancel]

end Space
