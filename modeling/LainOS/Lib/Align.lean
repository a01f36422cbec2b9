import Mathlib.Tactic

/-!
# Rounding to powers of two

Clearing the low bits of a 64-bit word rounds it down to a multiple of a power of two; adding the
power less one before rounds it up, as long as the sum does not wrap.
-/

namespace Align

def down (x a : UInt64) : UInt64 := x &&& ~~~(a - 1)

def up (x a : UInt64) : UInt64 := down (x + a - 1) a

variable {x a : UInt64} {k : ℕ} (ha : a.toNat = 2 ^ k)
include ha

lemma toNat_sub_one : (a - 1).toNat = 2 ^ k - 1 := by
  have hle : (1 : UInt64) ≤ a := by
    rw [UInt64.le_iff_toNat_le, ha]
    exact Nat.one_le_two_pow
  rw [UInt64.toNat_sub_of_le _ _ hle, ha]
  rfl

lemma toNat_down : (down x a).toNat = x.toNat / 2 ^ k * 2 ^ k := by
  have hk : 2 ^ k - 1 < 2 ^ 64 := (Nat.sub_le _ _).trans_lt (ha ▸ a.toNat_lt)
  rw [down, UInt64.toNat_and, UInt64.toNat_not, toNat_sub_one ha]
  refine Nat.eq_of_testBit_eq fun i => ?_
  -- the mask has the bits from k to 63
  have hmask : (UInt64.size - 1 - (2 ^ k - 1)).testBit i = (decide (i < 64) && !decide (i < k)) := by
    rw [← Nat.testBit_two_pow_sub_one k i, ← Nat.testBit_two_pow_sub_succ hk, Nat.sub_sub,
      Nat.add_comm]
  rw [Nat.testBit_and, hmask, Nat.mul_comm, Nat.testBit_two_pow_mul, Nat.testBit_div_two_pow]
  by_cases hi : i < 64
  · by_cases hle : k ≤ i
    · simp [hi, hle, Nat.sub_add_cancel hle]
    · simp [hle, Nat.lt_of_not_le hle]
  have hx : x.toNat.testBit i = false :=
    Nat.testBit_lt_two_pow (x.toNat_lt.trans_le (Nat.pow_le_pow_right (by omega) (by omega)))
  by_cases hle : k ≤ i
  · simp [hx, Nat.sub_add_cancel hle]
  · simp [hx, hle]

lemma toNat_up_mod : (up x a).toNat = (x.toNat + (2 ^ k - 1)) % 2 ^ 64 / 2 ^ k * 2 ^ k := by
  have hsum : x + a - 1 = x + (a - 1) := by
    rw [UInt64.sub_eq_add_neg, UInt64.sub_eq_add_neg, UInt64.add_assoc]
  rw [up, toNat_down ha, hsum, UInt64.toNat_add, toNat_sub_one ha]

lemma toNat_up (hx : x.toNat + 2 ^ k ≤ 2 ^ 64) :
    (up x a).toNat = (x.toNat + (2 ^ k - 1)) / 2 ^ k * 2 ^ k := by
  have hpos := Nat.two_pow_pos k
  rw [toNat_up_mod ha, Nat.mod_eq_of_lt (by omega)]

end Align
