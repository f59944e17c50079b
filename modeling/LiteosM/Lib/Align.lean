import Mathlib.Algebra.Order.Ring.Nat
import Mathlib.Data.Nat.Bitwise
import Mathlib.Data.Nat.ModEq

/-!
# Alignment by masks, and ranges of bytes

For a power of two `b`, masking a machine word with `b - 1` is its remainder, and masking it with the
complement is rounding down. Both are stated about the number of the word, where `omega` can use them.

Addresses are words too, so a range of bytes may run over the end of the address space.

* `toNat_align_add`: rounding down an address behind an aligned one;
* **`within_iff`**: the bytes of a range are all in a block that does not run over the end, exactly when
  the range does not reach over the end of the block.
-/

namespace LiteosM.Lib

open Nat

variable {a b x : UInt32} {k n : Nat}

theorem exponent_le (hb : b.toNat = 2 ^ k) : k ≤ 32 := by
  have hlt : 2 ^ k < 2 ^ 32 := hb ▸ b.toNat_lt
  exact ((Nat.pow_lt_pow_iff_right (by decide)).mp hlt).le

theorem toNat_pred_two_pow (hb : b.toNat = 2 ^ k) : (b - 1).toNat = 2 ^ k - 1 := by
  have hpos : 1 ≤ 2 ^ k := Nat.one_le_two_pow
  have hone : (1 : UInt32) ≤ b := UInt32.le_iff_toNat_le.mpr (by rwa [hb])
  rw [UInt32.toNat_sub_of_le b 1 hone, hb]
  rfl

/-- The remainder. -/
theorem toNat_and_pred (hb : b.toNat = 2 ^ k) : (x &&& (b - 1)).toNat = x.toNat % b.toNat := by
  rw [UInt32.toNat_and, toNat_pred_two_pow hb, and_two_pow_sub_one_eq_mod, hb]

theorem and_compl_two_pow (hk : k ≤ 32) (hn : n < 2 ^ 32) :
    n &&& (2 ^ 32 - 1 - (2 ^ k - 1)) = n - n % 2 ^ k := by
  have hdown : n - n % 2 ^ k = n / 2 ^ k * 2 ^ k := by
    have hdiv := div_add_mod' n (2 ^ k)
    omega
  have hmask : 2 ^ 32 - 1 - (2 ^ k - 1) = 2 ^ 32 - (2 ^ k - 1 + 1) := by omega
  have hlt : 2 ^ k - 1 < 2 ^ 32 := by
    have hle : 2 ^ k ≤ 2 ^ 32 := Nat.pow_le_pow_right (by decide) hk
    omega
  rw [hdown, hmask]
  refine eq_of_testBit_eq fun i => ?_
  rw [testBit_and, testBit_two_pow_sub_succ hlt, testBit_two_pow_sub_one, testBit_mul_two_pow,
    testBit_div_two_pow]
  by_cases hi : i < 32
  · by_cases hik : k ≤ i
    · simp [hi, hik]
    · simp [Nat.lt_of_not_le hik]
  have hbit : n.testBit i = false :=
    testBit_lt_two_pow (hn.trans_le (Nat.pow_le_pow_right (by decide) (Nat.le_of_not_lt hi)))
  have hik : k ≤ i := hk.trans (Nat.le_of_not_lt hi)
  simp [hbit, Nat.sub_add_cancel hik]

/-- Rounding down. -/
theorem toNat_and_compl (hb : b.toNat = 2 ^ k) :
    (x &&& ~~~(b - 1)).toNat = x.toNat - x.toNat % b.toNat := by
  rw [UInt32.toNat_and, UInt32.toNat_not, toNat_pred_two_pow hb, hb]
  exact and_compl_two_pow (exponent_le hb) x.toNat_lt

/-- Rounding down an address behind an aligned one. -/
theorem toNat_align_add (hb : b.toNat = 2 ^ k) (ha : a.toNat % b.toNat = 0) :
    ((x + a) &&& ~~~(b - 1)).toNat = (a.toNat + (x.toNat - x.toNat % b.toNat)) % 2 ^ 32 := by
  have hdvd : b.toNat ∣ 2 ^ 32 := by
    rw [hb]
    exact pow_dvd_pow 2 (exponent_le hb)
  have hsum : (x + a).toNat = (x.toNat + a.toNat) % 2 ^ 32 := UInt32.toNat_add x a
  have hmod : (x + a).toNat % b.toNat = x.toNat % b.toNat := by
    rw [hsum, mod_mod_of_dvd _ hdvd, add_mod, ha, add_zero, mod_mod]
  have hle : (x + a).toNat % b.toNat ≤ (x + a).toNat := mod_le _ _
  have hle' : x.toNat % b.toNat ≤ x.toNat := mod_le _ _
  rw [toNat_and_compl hb]
  omega

/-- The `n` bytes from `start` on are in the block of `size` bytes at `base`. -/
def Within (base size start : UInt32) (n : Nat) : Prop :=
  ∀ j < n, base.toNat ≤ (start.toNat + j) % 2 ^ 32 ∧
    (start.toNat + j) % 2 ^ 32 < base.toNat + size.toNat

theorem within_iff {base size start : UInt32} {r : Nat} (hstart : start.toNat = (base.toNat + r) % 2 ^ 32)
    (hr : r < 2 ^ 32) (hn : 0 < n) (hbase : 0 < base.toNat) (hblock : base.toNat + size.toNat ≤ 2 ^ 32) :
    Within base size start n ↔ r + n ≤ size.toNat := by
  constructor
  · intro h
    by_contra hover
    -- The byte behind the block, or the first one, is not in the block.
    by_cases hin : r < size.toNat
    · have hbyte := h (size.toNat - r) (by omega)
      omega
    · have hbyte := h 0 hn
      omega
  · intro hle j hj
    omega

end LiteosM.Lib
