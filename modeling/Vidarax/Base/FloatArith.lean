import Vidarax.Base.Float32

/-!
# Single-precision arithmetic

Library `Base`. The operations of IEEE 754 on `F32`, rounded to the nearest number with ties to
even, and the rounding, clamping and conversion of Rust. A finite number is a sign and a mantissa
times a power of two; operations compute exactly, or with a sticky bit, and round once.
-/

namespace Vidarax.Base

namespace F32

/-! ### Parts and rounding -/

/-- A number of given sign and bits. -/
def signed (negative : Bool) (magnitude : Nat) : F32 :=
  ⟨UInt32.ofNat (magnitude + if negative then 2 ^ 31 else 0)⟩

/-- An infinity. -/
def infinity (negative : Bool) : F32 := signed negative 0x7F800000

/-- Either zero. -/
def isZero (x : F32) : Bool := x.magnitude = 0

/-- `f32::MAX`. -/
def maximum : F32 := ⟨0x7F7FFFFF⟩

/-- `f32::MIN_POSITIVE`. -/
def minPositive : F32 := ⟨0x00800000⟩

/-- A finite number is its mantissa times two to its scale. -/
def mantissa (x : F32) : Nat := if x.exponent = 0 then x.fraction else x.fraction + 2 ^ 23

/-- The power of two of the last bit of the mantissa. -/
def scale (x : F32) : Int := max (x.exponent : Int) 1 - 150

/-- The mantissa with its sign. -/
def signedMantissa (x : F32) : Int := if x.negative then -x.mantissa else x.mantissa

/-- Drop bits, to nearest with ties to even. -/
def dropBits (m count : Nat) : Nat :=
  let rest := 2 * (m % 2 ^ count)
  if 2 ^ count < rest ∨ (2 ^ count = rest ∧ m / 2 ^ count % 2 = 1) then m / 2 ^ count + 1
  else m / 2 ^ count

/-- Bits of the nearest number to `m * 2 ^ e`. -/
def roundBits (m : Nat) (e : Int) : Nat :=
  if m = 0 then 0
  else
    -- the last bit of the result, not below that of subnormal numbers
    let last := max (e + m.log2 - 23) (-149)
    let n := if last ≤ e then m * 2 ^ (e - last).toNat else dropBits m (last - e).toNat
    min ((last + 149).toNat * 2 ^ 23 + n) 0x7F800000

/-- The nearest number to `± m * 2 ^ e`. -/
def nearest (negative : Bool) (m : Nat) (e : Int) : F32 := signed negative (roundBits m e)

/-! ### Operations -/

/-- `a + b`. -/
def add (a b : F32) : F32 :=
  if a.isNan ∨ b.isNan then nan
  else if ¬ a.isFinite then if ¬ b.isFinite ∧ a.negative ≠ b.negative then nan else a
  else if ¬ b.isFinite then b
  else
    let e := min a.scale b.scale
    let sum := a.signedMantissa * 2 ^ (a.scale - e).toNat + b.signedMantissa * 2 ^ (b.scale - e).toNat
    if sum = 0 then signed (a.negative && b.negative) 0
    else nearest (sum < 0) sum.natAbs e

/-- `-a`. -/
def neg (a : F32) : F32 := signed (!a.negative) a.magnitude

/-- `a - b`. -/
def sub (a b : F32) : F32 := add a (neg b)

/-- `a * b`. -/
def mul (a b : F32) : F32 :=
  if a.isNan ∨ b.isNan then nan
  else if ¬ a.isFinite ∨ ¬ b.isFinite then
    if a.isZero ∨ b.isZero then nan else infinity (a.negative ^^ b.negative)
  else nearest (a.negative ^^ b.negative) (a.mantissa * b.mantissa) (a.scale + b.scale)

/-- Numerator over denominator with 60 bits more and a sticky bit. -/
def quotient (n d : Nat) : Nat :=
  2 * (n * 2 ^ 60 / d) + if n * 2 ^ 60 % d = 0 then 0 else 1

/-- `a / b`. -/
def div (a b : F32) : F32 :=
  let negative := a.negative ^^ b.negative
  if a.isNan ∨ b.isNan then nan
  else if ¬ a.isFinite then if ¬ b.isFinite then nan else infinity negative
  else if ¬ b.isFinite then signed negative 0
  else if b.isZero then if a.isZero then nan else infinity negative
  else nearest negative (quotient a.mantissa b.mantissa) (a.scale - b.scale - 61)

/-- Square root with 30 bits more and a sticky bit. -/
def root (n : Nat) : Nat :=
  2 * (n * 2 ^ 60).sqrt + if (n * 2 ^ 60).sqrt ^ 2 = n * 2 ^ 60 then 0 else 1

/-- `f32::sqrt`. -/
def sqrt (a : F32) : F32 :=
  if a.isNan then nan
  else if a.isZero then a
  else if a.negative then nan
  else if ¬ a.isFinite then a
  else if a.scale % 2 = 0 then nearest false (root a.mantissa) (a.scale / 2 - 31)
  else nearest false (root (2 * a.mantissa)) ((a.scale - 1) / 2 - 31)

/-- `f32::abs`. -/
def abs (a : F32) : F32 := signed false a.magnitude

/-- `f32::round`: to the nearest integer, halves away from zero. -/
def round (a : F32) : F32 :=
  if ¬ a.isFinite ∨ 0 ≤ a.scale then a
  else
    let count := (-a.scale).toNat
    nearest a.negative ((a.mantissa + 2 ^ (count - 1)) / 2 ^ count) 0

/-- `f32::clamp`. -/
def clamp (a low high : F32) : F32 := if a.lt low then low else if high.lt a then high else a

/-- `f32::min`. -/
def minimum (a b : F32) : F32 :=
  if a.isNan then b else if b.isNan then a else if a.lt b then a else b

/-- `as i8`: truncated and saturated, and zero for NaN. -/
def toI8 (a : F32) : Int :=
  if a.isNan then 0
  else if ¬ a.isFinite then if a.negative then -128 else 127
  else
    let whole := if 0 ≤ a.scale then a.mantissa * 2 ^ a.scale.toNat
      else a.mantissa / 2 ^ (-a.scale).toNat
    if a.negative then max (-(whole : Int)) (-128) else min (whole : Int) 127

/-- `as u32`: truncated and saturated, and zero for NaN. -/
def toU32 (a : F32) : Nat :=
  if a.isNan then 0
  else if a.negative then 0
  else if ¬ a.isFinite then 2 ^ 32 - 1
  else if 0 ≤ a.scale then min (a.mantissa * 2 ^ a.scale.toNat) (2 ^ 32 - 1)
  else min (a.mantissa / 2 ^ (-a.scale).toNat) (2 ^ 32 - 1)

/-- `as u64`: truncated and saturated, and zero for NaN. -/
def toU64 (a : F32) : UInt64 :=
  if a.isNan then 0
  else if a.negative then 0
  else if ¬ a.isFinite then UInt64.ofNat (2 ^ 64 - 1)
  else if 0 ≤ a.scale then UInt64.ofNat (min (a.mantissa * 2 ^ a.scale.toNat) (2 ^ 64 - 1))
  else UInt64.ofNat (min (a.mantissa / 2 ^ (-a.scale).toNat) (2 ^ 64 - 1))

/-- `as f32` of an integer. -/
def ofInt (i : Int) : F32 := nearest (i < 0) i.natAbs 0

/-- Sums, quotients, roots and conversions are rounded as the standard says. -/
example : add ⟨0x3DCCCCCD⟩ ⟨0x3E4CCCCD⟩ = ⟨0x3E99999A⟩ ∧ div one (ofInt 3) = ⟨0x3EAAAAAB⟩ ∧
    sqrt (ofInt 2) = ⟨0x3FB504F3⟩ ∧ ofInt 16777217 = ⟨0x4B800000⟩ ∧
    toI8 (round ⟨0xC0200000⟩) = -3 ∧ toU32 ⟨0x4120CCCD⟩ = 10 := by decide +kernel

/-! ### Numbers that are not finite -/

theorem not_finite_nan : nan.isFinite = false := by decide

theorem not_finite_infinity (negative : Bool) : (infinity negative).isFinite = false := by
  cases negative with
  | false => decide
  | true => decide

theorem add_nan {a b : F32} (h : a.isNan = true ∨ b.isNan = true) : add a b = nan := by
  rw [add, if_pos h]

/-- Sums with a number that is not finite are not finite. -/
theorem not_finite_add {a b : F32} (h : a.isFinite = false ∨ b.isFinite = false) :
    (add a b).isFinite = false := by
  unfold add
  split
  · exact not_finite_nan
  · split
    · next ha =>
      split
      · exact not_finite_nan
      · exact eq_false_of_ne_true ha
    · next ha =>
      split
      · next hb => exact eq_false_of_ne_true hb
      · next hb =>
        rcases h with h | h
        · exact absurd (by rw [h]; decide) ha
        · exact absurd (by rw [h]; decide) hb

theorem magnitude_eq (x : F32) : x.magnitude = x.exponent * 2 ^ 23 + x.fraction := by
  unfold magnitude exponent fraction
  omega

/-- Squares of numbers that are not finite are not finite. -/
theorem not_finite_mul_self {a : F32} (h : a.isFinite = false) : (mul a a).isFinite = false := by
  have hexponent : a.exponent = 255 := by
    unfold isFinite at h
    exact not_not.mp (of_decide_eq_false h)
  have hzero : a.isZero = false := by
    apply decide_eq_false
    rw [magnitude_eq, hexponent]
    omega
  unfold mul
  split
  · exact not_finite_nan
  · rw [if_pos (.inl (by rw [h]; decide)), hzero, if_neg (by decide)]
    exact not_finite_infinity _

/-! ### Numbers that are zero or NaN -/

/-- The number is NaN or a zero. -/
def Void (x : F32) : Prop := x.isNan = true ∨ x.magnitude = 0

theorem void_nan : Void nan := .inl (by decide)

theorem magnitude_signed_zero (negative : Bool) : (signed negative 0).magnitude = 0 := by
  cases negative with
  | false => decide
  | true => decide

theorem void_signed_zero (negative : Bool) : Void (signed negative 0) :=
  .inr (magnitude_signed_zero negative)

/-- Sign and magnitude are all bits. -/
theorem signed_magnitude (x : F32) : signed x.negative x.magnitude = x := by
  obtain ⟨bits⟩ := x
  have hlt := bits.toNat_lt
  rw [signed, magnitude, negative]
  congr 1
  by_cases hsign : bits.toNat ≥ 2 ^ 31
  · rw [decide_eq_true hsign, if_pos rfl]
    have hbits : bits.toNat % 2 ^ 31 + 2 ^ 31 = bits.toNat := by omega
    rw [hbits, UInt32.ofNat_toNat]
  · rw [decide_eq_false hsign, if_neg Bool.false_ne_true, Nat.add_zero,
      Nat.mod_eq_of_lt (Nat.lt_of_not_le hsign), UInt32.ofNat_toNat]

/-- Both zeros. -/
theorem eq_zero_or {x : F32} (h : x.magnitude = 0) : x = ⟨0⟩ ∨ x = ⟨0x80000000⟩ := by
  obtain ⟨bits⟩ := x
  have hlt := bits.toNat_lt
  have hbits : bits.toNat = 0 ∨ bits.toNat = 2 ^ 31 := by
    unfold magnitude at h
    dsimp only at h
    omega
  rcases hbits with hbits | hbits
  · exact .inl (congrArg F32.mk (UInt32.toNat_inj.mp hbits))
  · exact .inr (congrArg F32.mk (UInt32.toNat_inj.mp hbits))

theorem mantissa_of_magnitude {x : F32} (h : x.magnitude = 0) : x.mantissa = 0 := by
  rcases eq_zero_or h with rfl | rfl
  · decide
  · decide

theorem nearest_zero (negative : Bool) (e : Int) : nearest negative 0 e = signed negative 0 := by
  rw [nearest, roundBits, if_pos rfl]

/-- A product with NaN or a zero is one of them. -/
theorem void_mul {a b : F32} (h : Void a ∨ Void b) : Void (mul a b) := by
  unfold mul
  split
  · exact void_nan
  · next hnan =>
    have hzero : a.magnitude = 0 ∨ b.magnitude = 0 := by
      rcases h with (h | h) | (h | h)
      · exact absurd (.inl h) hnan
      · exact .inl h
      · exact absurd (.inr h) hnan
      · exact .inr h
    split
    · have hsome : a.isZero = true ∨ b.isZero = true := by
        rcases hzero with h | h
        · exact .inl (decide_eq_true h)
        · exact .inr (decide_eq_true h)
      rw [if_pos hsome]
      exact void_nan
    · have hmantissa : a.mantissa * b.mantissa = 0 := by
        rcases hzero with h | h
        · rw [mantissa_of_magnitude h, Nat.zero_mul]
        · rw [mantissa_of_magnitude h, Nat.mul_zero]
      rw [hmantissa, nearest_zero]
      exact void_signed_zero _

/-- One over the root of a number that is not finite. -/
theorem void_div_sqrt {n : F32} (h : n.isFinite = false) : Void (one.div n.sqrt) := by
  have hexponent : n.exponent = 255 := by
    unfold isFinite at h
    exact not_not.mp (of_decide_eq_false h)
  have hzero : ¬ n.isZero = true := by
    intro hzero
    have := of_decide_eq_true hzero
    rw [magnitude_eq, hexponent] at this
    omega
  have hinfinite : Void (one.div nan) := .inl (by decide)
  unfold sqrt
  split
  · exact hinfinite
  · next hnumber =>
    split
    · exact hinfinite
    · have hnot : ¬ (one.isNan = true ∨ n.isNan = true) :=
        not_or.mpr ⟨by decide, hnumber⟩
      rw [if_pos (by rw [h]; decide), div, if_neg hnot, if_neg (by decide),
        if_pos (by rw [h]; decide)]
      exact void_signed_zero _

theorem magnitude_abs (x : F32) : x.abs.magnitude = x.magnitude := by
  have hlt : x.magnitude < 2 ^ 31 := Nat.mod_lt _ (by decide)
  have hbits : x.abs.bits.toNat = x.magnitude :=
    UInt32.toNat_ofNat_of_lt' (Nat.lt_trans hlt (by decide))
  rw [magnitude, hbits, Nat.mod_eq_of_lt hlt]

/-- NaN is read off the magnitude. -/
theorem isNan_eq (x : F32) : x.isNan = decide (255 * 2 ^ 23 < x.magnitude) := by
  have hexponent : x.exponent < 2 ^ 8 := Nat.mod_lt _ (by decide)
  have hfraction : x.fraction < 2 ^ 23 := Nat.mod_lt _ (by decide)
  rw [isNan, magnitude_eq]
  apply decide_eq_decide.mpr
  constructor
  · rintro ⟨hexp, hnot⟩
    omega
  · intro hlt
    omega

theorem void_abs {x : F32} (h : Void x) : Void x.abs := by
  rcases h with h | h
  · exact .inl (by rw [isNan_eq, magnitude_abs, ← isNan_eq, h])
  · exact .inr ((magnitude_abs x).trans h)

/-- What is above a number is a number. -/
theorem not_nan_of_lt {a b : F32} (h : a.lt b = true) : b.isNan = false :=
  eq_false_of_ne_true (of_decide_eq_true h).2.1

/-- Numbers are ordered. -/
theorem lt_of_not_le {a b : F32} (ha : a.isNan = false) (hb : b.isNan = false)
    (h : a.le b = false) : b.lt a = true := by
  have hnot := of_decide_eq_false h
  have ha' := ne_true_of_eq_false ha
  have hb' := ne_true_of_eq_false hb
  exact decide_eq_true ⟨hb', ha', Int.not_le.mp fun hle ↦ hnot ⟨ha', hb', hle⟩⟩

/-- Nothing is below NaN, and no zero is above another. -/
theorem not_zero_lt_void {x : F32} (h : Void x) : zero.lt x = false := by
  rcases h with h | h
  · simp [lt, h]
  · rcases eq_zero_or h with rfl | rfl
    · decide
    · decide

theorem void_round {x : F32} (h : Void x) : Void x.round := by
  rcases h with h | h
  · have hnot : ¬ x.isFinite = true := by
      unfold isNan at h
      have := (of_decide_eq_true h).1
      simp [isFinite, this]
    rw [round, if_pos (.inl hnot)]
    exact .inl h
  · rcases eq_zero_or h with rfl | rfl
    · exact .inr (by decide)
    · exact .inr (by decide)

/-- A zero or NaN between two bounds of either sign becomes the integer zero. -/
theorem toI8_clamp_void {x low high : F32} (h : Void x) (hlow : zero.lt low = false)
    (hlow' : (⟨0x80000000⟩ : F32).lt low = false) (hhigh : high.lt zero = false)
    (hhigh' : high.lt ⟨0x80000000⟩ = false) : (x.clamp low high).toI8 = 0 := by
  unfold clamp
  rcases h with h | h
  · have hlt : x.lt low = false := by simp [lt, h]
    have hgt : high.lt x = false := by simp [lt, h]
    rw [hlt, hgt, if_neg (by decide), if_neg (by decide), toI8, if_pos h]
  · rcases eq_zero_or h with rfl | rfl
    · rw [show (⟨0⟩ : F32).lt low = false from hlow, show high.lt ⟨0⟩ = false from hhigh,
        if_neg (by decide), if_neg (by decide)]
      decide
    · rw [hlow', hhigh', if_neg (by decide), if_neg (by decide)]
      decide

end F32

end Vidarax.Base
