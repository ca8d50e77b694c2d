import Mathlib.Data.UInt

/-!
# Machine integers

Library `Base`. Bounds of the fixed-width types and saturating arithmetic, observed
through the value of a word.
-/

namespace Vidarax.Base

/-- Greatest `u64`, and greatest `usize` of a 64-bit target. -/
abbrev u64Max : Nat := 2 ^ 64 - 1

/-- Greatest `u32`. -/
abbrev u32Max : Nat := 2 ^ 32 - 1

/-- Addition that stops at the greatest value. -/
def satAdd (a b : UInt64) : UInt64 := UInt64.ofNat (min (a.toNat + b.toNat) u64Max)

/-- Subtraction that stops at zero. -/
def satSub (a b : UInt64) : UInt64 := UInt64.ofNat (a.toNat - b.toNat)

/-- `u64::count_ones`. -/
def countOnes (bits : UInt64) : Nat := (List.range 64).countP bits.toNat.testBit

/-- The value of a word is at most the greatest one. -/
theorem toNat_le_u64Max (a : UInt64) : a.toNat ≤ u64Max := Nat.le_sub_one_of_lt a.toNat_lt

/-- A number within the bound is the value of its word. -/
theorem toNat_ofNat_of_le {n : Nat} (h : n ≤ u64Max) : (UInt64.ofNat n).toNat = n := by
  apply UInt64.toNat_ofNat_of_lt'
  have : u64Max < 2 ^ 64 := by decide
  exact Nat.lt_of_le_of_lt h this

@[simp] theorem toNat_satAdd (a b : UInt64) :
    (satAdd a b).toNat = min (a.toNat + b.toNat) u64Max :=
  toNat_ofNat_of_le (Nat.min_le_right _ _)

@[simp] theorem toNat_satSub (a b : UInt64) : (satSub a b).toNat = a.toNat - b.toNat :=
  toNat_ofNat_of_le (Nat.le_trans (Nat.sub_le _ _) (toNat_le_u64Max a))

end Vidarax.Base
