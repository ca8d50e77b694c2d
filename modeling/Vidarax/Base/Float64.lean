import Mathlib.Data.UInt

/-!
# Double-precision numbers

Library `Base`. An `f64` is its IEEE 754 bit pattern: one sign bit, eleven exponent bits and 52
fraction bits. Comparisons with a NaN are false, and both zeros are equal.
-/

namespace Vidarax.Base

/-- A double-precision number, as its bits. -/
structure F64 where
  bits : UInt64
  deriving DecidableEq

namespace F64

/-- The biased exponent. -/
def exponent (x : F64) : Nat := x.bits.toNat / 2 ^ 52 % 2 ^ 11

/-- The bits without the sign. -/
def magnitude (x : F64) : Nat := x.bits.toNat % 2 ^ 63

/-- The sign bit is set. -/
def negative (x : F64) : Bool := x.bits.toNat ≥ 2 ^ 63

/-- Neither infinite nor NaN. -/
def isFinite (x : F64) : Bool := x.exponent ≠ 2047

/-- Not a number. -/
def isNan (x : F64) : Bool := x.exponent = 2047 ∧ x.bits.toNat % 2 ^ 52 ≠ 0

/-- Position on the number line, the same for both zeros. -/
def position (x : F64) : Int := if x.negative then -x.magnitude else x.magnitude

/-- `a <= b`. -/
def le (a b : F64) : Bool := ¬ a.isNan ∧ ¬ b.isNan ∧ a.position ≤ b.position

/-- `a == b`. -/
def eq (a b : F64) : Bool := ¬ a.isNan ∧ ¬ b.isNan ∧ a.position = b.position

/-- The number of a natural number below `2 ^ 53`. -/
def ofNat (n : Nat) : F64 :=
  if n = 0 then ⟨0⟩
  else ⟨UInt64.ofNat ((1023 + n.log2) * 2 ^ 52 + (n * 2 ^ (52 - n.log2) - 2 ^ 52))⟩

/-- `0.0`. -/
def zero : F64 := ⟨0⟩

/-- `1.0`. -/
def one : F64 := ⟨0x3FF0000000000000⟩

end F64

end Vidarax.Base
