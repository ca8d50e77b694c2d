import Mathlib.Algebra.Group.Nat.Defs
import Vidarax.Base.Utf8

/-!
# Numbers in bytes

Library `Base`. A number as so many bytes, the least or the most significant one first, and back;
bytes that are fields of fixed widths.
-/

namespace Vidarax.Base

/-- So many bytes of a number. -/
def leBytes : Nat → Nat → Bytes
  | 0, _ => []
  | count + 1, n => UInt8.ofNat n :: leBytes count (n / 256)

/-- The number that bytes stand for. -/
def ofLe : Bytes → Nat
  | [] => 0
  | b :: bs => b.toNat + 256 * ofLe bs

@[simp]
theorem length_leBytes (count n : Nat) : (leBytes count n).length = count := by
  induction count generalizing n with
  | zero => rfl
  | succ count ih => rw [leBytes, List.length_cons, ih]

theorem ofLe_leBytes (count n : Nat) : ofLe (leBytes count n) = n % 256 ^ count := by
  induction count generalizing n with
  | zero => rw [Nat.pow_zero, Nat.mod_one]; rfl
  | succ count ih =>
    have hpow : 256 ^ (count + 1) = 256 * 256 ^ count := Nat.pow_succ'
    rw [leBytes, ofLe, ih, UInt8.toNat_ofNat', hpow]
    exact Nat.mod_mul.symm

/-- A number that fits is read back. -/
theorem ofLe_leBytes_of_lt {count n : Nat} (h : n < 256 ^ count) : ofLe (leBytes count n) = n := by
  rw [ofLe_leBytes, Nat.mod_eq_of_lt h]

/-! ### Big-endian numbers -/

/-- So many bytes of a number, the most significant one first. -/
def beBytes (count n : Nat) : Bytes := (leBytes count n).reverse

/-- The number that bytes stand for. -/
def ofBe (bs : Bytes) : Nat := ofLe bs.reverse

@[simp]
theorem length_beBytes (count n : Nat) : (beBytes count n).length = count := by
  rw [beBytes, List.length_reverse, length_leBytes]

/-- A number that fits is read back. -/
theorem ofBe_beBytes_of_lt {count n : Nat} (h : n < 256 ^ count) : ofBe (beBytes count n) = n := by
  rw [ofBe, beBytes, List.reverse_reverse, ofLe_leBytes_of_lt h]

/-! ### Fields -/

/-- Bytes cut into fields of the given widths. -/
def fields : List Nat → Bytes → List Bytes
  | [], _ => []
  | width :: widths, bs => bs.take width :: fields widths (bs.drop width)

/-- Fields that were written one after another are read back. -/
theorem fields_flatten (parts : List Bytes) (rest : Bytes) :
    fields (parts.map List.length) (parts.flatten ++ rest) = parts := by
  induction parts with
  | nil => rfl
  | cons part parts ih =>
    rw [List.map_cons, List.flatten_cons, fields, List.append_assoc, List.take_left,
      List.drop_left, ih]

end Vidarax.Base
