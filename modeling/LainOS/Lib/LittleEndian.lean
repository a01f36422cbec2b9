import Mathlib.Tactic

/-!
# Little-endian words

A 32-bit word is stored as four bytes, least significant byte first. `readLe32` puts four bytes
together with shifts and ors, `le32Byte` extracts one of them with a shift and a mask, and the
two are inverse to each other. All reasoning goes through the value in `ℕ`.
-/

namespace LittleEndian

/-- The word stored in the bytes `b0 b1 b2 b3`. -/
def readLe32 (b0 b1 b2 b3 : UInt8) : UInt32 :=
  b0.toUInt32 ||| b1.toUInt32 <<< 8 ||| b2.toUInt32 <<< 16 ||| b3.toUInt32 <<< 24

/-- Byte number `k` of the word `x`. -/
def le32Byte (x k : UInt32) : UInt8 := ((x >>> (8 * k)) &&& 0xFF).toUInt8

/-- Or-ing in a shifted word adds it when the low part fits below the shift. -/
lemma or_shiftLeft_eq_add (a b i : ℕ) (h : a < 2 ^ i) : a ||| b <<< i = a + b * 2 ^ i := by
  rw [Nat.or_comm, ← Nat.shiftLeft_add_eq_or_of_lt h, Nat.shiftLeft_eq, Nat.add_comm]

/-- Shifting a byte inside a word loses no bits. -/
lemma toNat_shiftLeft_byte (b : UInt8) (s : UInt32) (hs : s.toNat ≤ 24) :
    (b.toUInt32 <<< s).toNat = b.toNat <<< s.toNat := by
  have hb := b.toNat_lt
  have hpow : 2 ^ s.toNat ≤ 2 ^ 24 := Nat.pow_le_pow_right (by norm_num) hs
  have hlt : b.toNat * 2 ^ s.toNat < 2 ^ 32 :=
    calc b.toNat * 2 ^ s.toNat ≤ 255 * 2 ^ 24 := Nat.mul_le_mul (by omega) hpow
      _ < 2 ^ 32 := by norm_num
  rw [UInt32.toNat_shiftLeft, UInt8.toNat_toUInt32, Nat.mod_eq_of_lt (by omega : s.toNat < 32),
    Nat.shiftLeft_eq, Nat.mod_eq_of_lt hlt]

lemma toNat_readLe32 (b0 b1 b2 b3 : UInt8) : (readLe32 b0 b1 b2 b3).toNat
      = b0.toNat + b1.toNat * 2 ^ 8 + b2.toNat * 2 ^ 16 + b3.toNat * 2 ^ 24 := by
  have h0 := b0.toNat_lt
  have h1 := b1.toNat_lt
  have h2 := b2.toNat_lt
  simp only [readLe32, UInt32.toNat_or, UInt8.toNat_toUInt32]
  rw [toNat_shiftLeft_byte b1 8 (by decide), toNat_shiftLeft_byte b2 16 (by decide),
    toNat_shiftLeft_byte b3 24 (by decide)]
  change b0.toNat ||| b1.toNat <<< 8 ||| b2.toNat <<< 16 ||| b3.toNat <<< 24 = _
  rw [or_shiftLeft_eq_add b0.toNat b1.toNat 8 (by omega),
    or_shiftLeft_eq_add (b0.toNat + b1.toNat * 2 ^ 8) b2.toNat 16 (by omega),
    or_shiftLeft_eq_add (b0.toNat + b1.toNat * 2 ^ 8 + b2.toNat * 2 ^ 16) b3.toNat 24 (by omega)]

lemma toNat_le32Byte (x k : UInt32) (hk : k.toNat < 4) :
    (le32Byte x k).toNat = x.toNat / 2 ^ (8 * k.toNat) % 256 := by
  have hshift : (8 * k).toNat % 32 = 8 * k.toNat := by
    rw [UInt32.toNat_mul]
    change 8 * k.toNat % 2 ^ 32 % 32 = _
    omega
  simp only [le32Byte, UInt32.toNat_toUInt8, UInt32.toNat_and, UInt32.toNat_shiftRight, hshift]
  change (_ &&& 2 ^ 8 - 1) % 2 ^ 8 = _
  rw [Nat.and_two_pow_sub_one_eq_mod, Nat.shiftRight_eq_div_pow, Nat.mod_mod]

/-- Reading back the four bytes of a word gives the word. -/
@[simp] theorem readLe32_le32Byte (x : UInt32) :
    readLe32 (le32Byte x 0) (le32Byte x 1) (le32Byte x 2) (le32Byte x 3) = x := by
  apply UInt32.toNat_inj.mp
  have hx := x.toNat_lt
  rw [toNat_readLe32, toNat_le32Byte x 0 (by decide), toNat_le32Byte x 1 (by decide),
    toNat_le32Byte x 2 (by decide), toNat_le32Byte x 3 (by decide)]
  change x.toNat / 2 ^ 0 % 256 + x.toNat / 2 ^ 8 % 256 * 2 ^ 8 + x.toNat / 2 ^ 16 % 256 * 2 ^ 16
    + x.toNat / 2 ^ 24 % 256 * 2 ^ 24 = x.toNat
  omega

end LittleEndian
