import Mathlib.Tactic.Common
import Mathlib.Algebra.Group.Nat.Defs

/-!
# Words made of a page address and low flag bits

A page-table entry is a 32-bit word: the address of a 4 KiB page in the upper twenty bits and flags
in the lower twelve.  The code takes such words apart with `&` and puts them together with `|`;
here is what these do, said with division and addition.

* `and_mask_or` — **and taken apart again**: the address of `a ||| f` is `a`.
-/

namespace Btos.Lib.Bits

theorem testBit_mask (i : ℕ) : (0xFFFFF000 : ℕ).testBit i = (decide (12 ≤ i) && decide (i < 32)) := by
  have h : (0xFFFFF000 : ℕ) = (2 ^ 20 - 1) <<< 12 := by decide
  rw [h, Nat.testBit_shiftLeft, Nat.testBit_two_pow_sub_one]
  by_cases h12 : 12 ≤ i
  · simp [h12]
    omega
  · simp [h12]

theorem and_mask_eq (h : e < 2 ^ 32) : e &&& 0xFFFFF000 = e / 4096 * 4096 := by
  have hshift : e / 4096 * 4096 = (e >>> 12) <<< 12 := by
    rw [Nat.shiftRight_eq_div_pow, Nat.shiftLeft_eq]
  apply Nat.eq_of_testBit_eq
  intro i
  rw [Nat.testBit_and, testBit_mask, hshift, Nat.testBit_shiftLeft, Nat.testBit_shiftRight]
  by_cases h12 : 12 ≤ i
  · have hi : 12 + (i - 12) = i := by omega
    simp only [ge_iff_le, h12, decide_true, Bool.true_and, hi]
    by_cases h32 : i < 32
    · simp [h32]
    · have hpow : 2 ^ 32 ≤ 2 ^ i := Nat.pow_le_pow_right (by decide) (by omega)
      simp [Nat.testBit_lt_two_pow (Nat.lt_of_lt_of_le h hpow)]
  · simp [h12]

theorem and_mask_lt (e : ℕ) : e &&& 0xFFFFF000 < 2 ^ 32 := Nat.lt_of_le_of_lt Nat.and_le_right (by decide)

theorem and_mask_aligned (e : ℕ) : (e &&& 0xFFFFF000) % 4096 = 0 := by
  have hidem : (e &&& 0xFFFFF000) &&& 0xFFFFF000 = e &&& 0xFFFFF000 := by
    rw [Nat.and_assoc, Nat.and_self]
  rw [← hidem, and_mask_eq (and_mask_lt e)]
  omega

theorem or_eq_add (ha : a % 4096 = 0) (hf : f < 4096) : a ||| f = a + f := by
  have h : a = 2 ^ 12 * (a / 4096) := by omega
  rw [h, ← Nat.two_pow_add_eq_or_of_lt (show f < 2 ^ 12 from hf)]

theorem and_mask_or (ha : a % 4096 = 0) (hlt : a < 2 ^ 32) (hf : f < 4096) : (a ||| f) &&& 0xFFFFF000 = a := by
  rw [or_eq_add ha hf, and_mask_eq (by omega)]
  omega

theorem and_mask_self (ha : a % 4096 = 0) (hlt : a < 2 ^ 32) : a &&& 0xFFFFF000 = a := by
  rw [and_mask_eq hlt]
  omega

theorem or_and_one (ha : a % 4096 = 0) (hf : f < 4096) : (a ||| f) &&& 1 = f % 2 := by
  rw [or_eq_add ha hf, Nat.and_one_is_mod]
  omega

end Btos.Lib.Bits
