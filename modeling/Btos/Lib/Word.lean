import Mathlib.Tactic.Common
import Mathlib.Algebra.Group.Nat.Defs
import Mathlib.Algebra.GroupWithZero.Nat

/-!
# Unsigned machine words as natural numbers

A value of an unsigned C type of `w` bits is a natural number below `2 ^ w`; its arithmetic wraps.
The operations are definitions of their own, so that a proof meets a wrap by name and removes it
with the lemma for the case that does not wrap.
-/

namespace Btos.Lib.Word

abbrev Word32 := Fin (2 ^ 32)

abbrev Word64 := Fin (2 ^ 64)

/-- Numerals are 32-bit words. -/
instance neZeroModulus32 : NeZero (2 ^ 32) := ⟨by decide⟩

/-- Numerals are 64-bit words. -/
instance neZeroModulus64 : NeZero (2 ^ 64) := ⟨by decide⟩

def add32 (a b : ℕ) : ℕ := (a + b) % 2 ^ 32

def sub32 (a b : ℕ) : ℕ := (2 ^ 32 - b % 2 ^ 32 + a) % 2 ^ 32

def add64 (a b : ℕ) : ℕ := (a + b) % 2 ^ 64

def sub64 (a b : ℕ) : ℕ := (2 ^ 64 - b % 2 ^ 64 + a) % 2 ^ 64

def mul32 (a b : ℕ) : ℕ := (a * b) % 2 ^ 32

theorem add32_lt (a b : ℕ) : add32 a b < 2 ^ 32 := Nat.mod_lt _ (by decide)

theorem add32_of_lt (h : a + b < 2 ^ 32) : add32 a b = a + b := Nat.mod_eq_of_lt h

theorem add32_of_ge (h : 2 ^ 32 ≤ a + b) (hb : a + b < 2 ^ 33) : add32 a b = a + b - 2 ^ 32 := by
  unfold add32
  omega

theorem sub32_of_le (ha : a < 2 ^ 32) (h : b ≤ a) : sub32 a b = a - b := by
  unfold sub32
  omega

theorem sub32_of_gt (hb : b < 2 ^ 32) (h : a < b) : sub32 a b = a + 2 ^ 32 - b := by
  unfold sub32
  omega

theorem add64_lt (a b : ℕ) : add64 a b < 2 ^ 64 := Nat.mod_lt _ (by decide)

theorem sub64_lt (a b : ℕ) : sub64 a b < 2 ^ 64 := Nat.mod_lt _ (by decide)

theorem add64_of_lt (h : a + b < 2 ^ 64) : add64 a b = a + b := Nat.mod_eq_of_lt h

theorem sub64_of_le (ha : a < 2 ^ 64) (h : b ≤ a) : sub64 a b = a - b := by
  unfold sub64
  omega

end Btos.Lib.Word
