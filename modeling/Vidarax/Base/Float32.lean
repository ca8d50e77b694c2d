import Mathlib.Data.UInt

/-!
# Single-precision numbers

Library `Base`. An `f32` is its IEEE 754 bit pattern: one sign bit, eight exponent bits
and 23 fraction bits. Comparisons with a NaN are false, and both zeros are equal.
-/

namespace Vidarax.Base

/-- A single-precision number, as its bits. -/
structure F32 where
  bits : UInt32
  deriving DecidableEq

namespace F32

/-- The biased exponent. -/
def exponent (x : F32) : Nat := x.bits.toNat / 2 ^ 23 % 2 ^ 8

/-- The fraction bits. -/
def fraction (x : F32) : Nat := x.bits.toNat % 2 ^ 23

/-- The bits without the sign. -/
def magnitude (x : F32) : Nat := x.bits.toNat % 2 ^ 31

/-- The sign bit is set. -/
def negative (x : F32) : Bool := x.bits.toNat ≥ 2 ^ 31

/-- Neither infinite nor NaN. -/
def isFinite (x : F32) : Bool := x.exponent ≠ 255

/-- Not a number. -/
def isNan (x : F32) : Bool := x.exponent = 255 ∧ x.fraction ≠ 0

/-- Position on the number line, the same for both zeros. -/
def position (x : F32) : Int := if x.negative then -x.magnitude else x.magnitude

/-- `a < b`. -/
def lt (a b : F32) : Bool := ¬ a.isNan ∧ ¬ b.isNan ∧ a.position < b.position

/-- `a <= b`. -/
def le (a b : F32) : Bool := ¬ a.isNan ∧ ¬ b.isNan ∧ a.position ≤ b.position

/-- `a == b`. -/
def eq (a b : F32) : Bool := ¬ a.isNan ∧ ¬ b.isNan ∧ a.position = b.position

/-- `0.0`. -/
def zero : F32 := ⟨0⟩

/-- `1.0`. -/
def one : F32 := ⟨0x3F800000⟩

/-- `f32::NAN`. -/
def nan : F32 := ⟨0x7FC00000⟩

/-- Every comparison with a NaN on the left is false. -/
theorem comparison_nan (b : F32) :
    lt nan b = false ∧ le nan b = false ∧ lt b nan = false ∧ le b nan = false ∧
      eq nan b = false := by
  have h : nan.isNan = true := by decide
  simp [lt, le, eq, h]

end F32

end Vidarax.Base
