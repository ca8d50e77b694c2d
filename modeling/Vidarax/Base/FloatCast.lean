import Vidarax.Base.FloatArith
import Vidarax.Base.Float64
import Vidarax.Base.Json

/-!
# Conversions of double-precision numbers

Library `Base`. Whole numbers and single-precision numbers are rounded to nearest with ties to even,
and the numbers of JSON are read as doubles.
-/

namespace Vidarax.Base

namespace F64

/-- `a < b`. -/
def lt (a b : F64) : Bool := ¬ a.isNan ∧ ¬ b.isNan ∧ a.position < b.position

/-- `f64::clamp`. -/
def clamp (a low high : F64) : F64 := if a.lt low then low else if high.lt a then high else a

/-- `as f64` of an integer. -/
def ofInt (i : Int) : F64 :=
  let n := i.natAbs
  let magnitude :=
    if n = 0 then 0
    else
      let m := if n.log2 ≤ 52 then n * 2 ^ (52 - n.log2) else F32.dropBits n (n.log2 - 52)
      (1022 + n.log2) * 2 ^ 52 + m
  ⟨UInt64.ofNat (magnitude + if i < 0 then 2 ^ 63 else 0)⟩

/-- `as f64` of a single-precision number, which is exact. -/
def ofF32 (x : F32) : F64 :=
  let magnitude :=
    if x.isNan then 0x7FF8000000000000
    else if ¬ x.isFinite then 0x7FF0000000000000
    else if x.mantissa = 0 then 0
    else
      -- subnormal numbers become normal ones
      (1022 + x.mantissa.log2 + x.scale).toNat * 2 ^ 52 + x.mantissa * 2 ^ (52 - x.mantissa.log2)
  ⟨UInt64.ofNat (magnitude + if x.negative then 2 ^ 63 else 0)⟩

/-- A finite number is its mantissa times two to its scale. -/
def mantissa (x : F64) : Nat :=
  if x.exponent = 0 then x.bits.toNat % 2 ^ 52 else x.bits.toNat % 2 ^ 52 + 2 ^ 52

/-- The power of two of the last bit of the mantissa. -/
def scale (x : F64) : Int := max (x.exponent : Int) 1 - 1075

/-- `as f32`. -/
def toF32 (x : F64) : F32 :=
  if x.isNan then F32.nan
  else if ¬ x.isFinite then F32.infinity x.negative
  else F32.nearest x.negative x.mantissa x.scale

/-- Large whole numbers are rounded, and doubles are rounded to singles. -/
example : ofInt 9007199254740993 = ⟨0x4340000000000000⟩ ∧ ofInt (-3) = ⟨0xC008000000000000⟩ ∧
    toF32 ⟨0x3FD5555555555555⟩ = ⟨0x3EAAAAAB⟩ ∧ toF32 (ofInt 1) = F32.one ∧
    ofF32 ⟨0x3EAAAAAB⟩ = ⟨0x3FD5555560000000⟩ ∧ ofF32 ⟨1⟩ = ⟨0x36A0000000000000⟩ := by
  decide +kernel

end F64

namespace Json

/-- `Value::from` of a single-precision number. -/
def ofF32 (x : F32) : Json := if x.isFinite then number (.float (F64.ofF32 x).bits) else null

/-- `Value::as_u64`. -/
def asU64 : Json → Option Nat
  | number (.posInt n) => some n.toNat
  | _ => none

/-- `Value::as_f64`. -/
def asF64 : Json → Option F64
  | number (.posInt n) => some (F64.ofInt n.toNat)
  | number (.negInt n) => some (F64.ofInt n.toInt)
  | number (.float bits) => some ⟨bits⟩
  | _ => none

end Json

end Vidarax.Base
