import Mathlib.Algebra.Order.Ring.Int
import Mathlib.Order.Monotone.Basic
import Mathlib.Tactic.Ring
import Vidarax.Base.FloatCast

/-!
# Differences of double-precision numbers

Library `Base`. Sums and differences of IEEE 754 on `F64`, rounded to the nearest number with ties
to even. The difference of two finite numbers is zero exactly if they are equal, and its sign tells
which of them is greater: numbers lie on one grid, on which nothing is rounded away to zero.
-/

namespace Vidarax.Base

namespace F64

/-! ### Rounding -/

/-- A number of given sign and bits. -/
def signed (negative : Bool) (magnitude : Nat) : F64 :=
  ⟨UInt64.ofNat (magnitude + if negative then 2 ^ 63 else 0)⟩

/-- The mantissa with its sign. -/
def signedMantissa (x : F64) : Int := if x.negative then -x.mantissa else x.mantissa

/-- Bits of the nearest number to `m * 2 ^ e`. -/
def roundBits (m : Nat) (e : Int) : Nat :=
  if m = 0 then 0
  else
    -- the last bit of the result, not below that of subnormal numbers
    let last := max (e + m.log2 - 52) (-1074)
    let n := if last ≤ e then m * 2 ^ (e - last).toNat else F32.dropBits m (last - e).toNat
    min ((last + 1074).toNat * 2 ^ 52 + n) 0x7FF0000000000000

/-! ### Operations -/

/-- A number that is no number. -/
def nan : F64 := ⟨0x7FF8000000000000⟩

/-- `a + b`. -/
def add (a b : F64) : F64 :=
  if a.isNan ∨ b.isNan then nan
  else if ¬ a.isFinite then if ¬ b.isFinite ∧ a.negative ≠ b.negative then nan else a
  else if ¬ b.isFinite then b
  else
    let e := min a.scale b.scale
    let sum := a.signedMantissa * 2 ^ (a.scale - e).toNat + b.signedMantissa * 2 ^ (b.scale - e).toNat
    if sum = 0 then signed (a.negative && b.negative) 0
    else signed (sum < 0) (roundBits sum.natAbs e)

/-- `-a`. -/
def neg (a : F64) : F64 := signed (!a.negative) a.magnitude

/-- `a - b`. -/
def sub (a b : F64) : F64 := add a (neg b)

/-- Differences are rounded, and overflow. -/
example : (ofInt 3).sub (ofInt 5) = ofInt (-2) ∧ (ofInt 9007199254740992).sub one =
    ofInt 9007199254740991 ∧ (ofInt 9007199254740992).sub (ofInt (-1)) = ofInt 9007199254740992 ∧
    sub ⟨0x7FEFFFFFFFFFFFFF⟩ ⟨0xFFEFFFFFFFFFFFFF⟩ = ⟨0x7FF0000000000000⟩ ∧
    sub ⟨2⟩ ⟨1⟩ = ⟨1⟩ ∧ sub one one = zero := by
  decide +kernel

/-! ### The grid -/

/-- Multiples of the least positive number that a pattern without a sign stands for. -/
def gridUnits (magnitude : Nat) : Nat :=
  if magnitude / 2 ^ 52 = 0 then magnitude % 2 ^ 52
  else (magnitude % 2 ^ 52 + 2 ^ 52) * 2 ^ (magnitude / 2 ^ 52 - 1)

theorem gridUnits_strictMono : StrictMono gridUnits := by
  refine strictMono_nat_of_lt_succ fun m ↦ ?_
  have hparts : m = 2 ^ 52 * (m / 2 ^ 52) + m % 2 ^ 52 := (Nat.div_add_mod m (2 ^ 52)).symm
  have hlt := Nat.mod_lt m (show 0 < 2 ^ 52 by decide)
  generalize hq : m / 2 ^ 52 = q at hparts
  generalize hr : m % 2 ^ 52 = r at hparts hlt
  rcases Nat.lt_or_ge (r + 1) (2 ^ 52) with hnext | hcarry
  · have hq' : (m + 1) / 2 ^ 52 = q := by omega
    have hr' : (m + 1) % 2 ^ 52 = r + 1 := by omega
    unfold gridUnits
    rw [hq, hr, hq', hr']
    split
    · omega
    · exact Nat.mul_lt_mul_of_pos_right (by omega) (Nat.two_pow_pos _)
  · have hq' : (m + 1) / 2 ^ 52 = q + 1 := by omega
    have hr' : (m + 1) % 2 ^ 52 = 0 := by omega
    unfold gridUnits
    rw [hq, hr, hq', hr', if_neg (Nat.succ_ne_zero q), Nat.zero_add, Nat.add_sub_cancel]
    split
    · next hzero =>
      rw [hzero, Nat.pow_zero, Nat.mul_one]
      exact hlt
    · next hpos =>
      obtain ⟨k, rfl⟩ := Nat.exists_eq_succ_of_ne_zero hpos
      rw [Nat.succ_sub_one, Nat.pow_succ]
      have := Nat.two_pow_pos k
      calc (r + 2 ^ 52) * 2 ^ k < (2 ^ 52 + 2 ^ 52) * 2 ^ k :=
            Nat.mul_lt_mul_of_pos_right (by omega) this
        _ = 2 ^ 52 * (2 ^ k * 2) := by ring

/-- A finite number, in multiples of the least positive one. -/
def units (x : F64) : Int := x.signedMantissa * 2 ^ (x.scale + 1074).toNat

theorem le_scale (x : F64) : -1074 ≤ x.scale := by
  unfold scale
  omega

theorem magnitude_eq (x : F64) : x.magnitude / 2 ^ 52 = x.exponent ∧
    x.magnitude % 2 ^ 52 = x.bits.toNat % 2 ^ 52 := by
  unfold magnitude exponent
  omega

theorem units_eq (x : F64) :
    x.units = if x.negative then -(gridUnits x.magnitude : Int) else gridUnits x.magnitude := by
  have habs : (x.mantissa : Int) * 2 ^ (x.scale + 1074).toNat = gridUnits x.magnitude := by
    unfold gridUnits mantissa
    rw [(magnitude_eq x).1, (magnitude_eq x).2]
    split
    · next hzero =>
      have hscale : (x.scale + 1074).toNat = 0 := by
        unfold scale
        omega
      rw [hscale, Int.pow_zero, Int.mul_one]
    · next hpos =>
      have hscale : (x.scale + 1074).toNat = x.exponent - 1 := by
        unfold scale
        omega
      rw [hscale]
      push_cast
      rfl
  unfold units signedMantissa
  split
  · rw [Int.neg_mul, habs]
  · exact habs

/-- Numbers are ordered as their places on the grid are. -/
theorem units_lt_iff (a b : F64) : a.units < b.units ↔ a.position < b.position := by
  have hlt := gridUnits_strictMono.lt_iff_lt (a := a.magnitude) (b := b.magnitude)
  have hgt := gridUnits_strictMono.lt_iff_lt (a := b.magnitude) (b := a.magnitude)
  have hzero (m : Nat) : gridUnits m = 0 ↔ m = 0 :=
    ⟨fun h ↦ gridUnits_strictMono.injective (h.trans rfl), fun h ↦ by rw [h]; rfl⟩
  have ha := hzero a.magnitude
  have hb := hzero b.magnitude
  rw [units_eq, units_eq]
  unfold position
  split <;> split <;> omega

/-! ### Signs of differences -/

theorem bits_parts (x : F64) : x.bits.toNat = x.magnitude + if x.negative then 2 ^ 63 else 0 := by
  have hlt := x.bits.toNat_lt
  unfold magnitude negative
  by_cases hneg : x.bits.toNat ≥ 2 ^ 63
  · rw [decide_eq_true hneg, if_pos rfl]
    omega
  · rw [decide_eq_false hneg, if_neg Bool.false_ne_true]
    omega

theorem parts_signed {magnitude : Nat} (negative : Bool) (h : magnitude < 2 ^ 63) :
    (signed negative magnitude).magnitude = magnitude ∧
      (signed negative magnitude).negative = negative := by
  have htoNat : (signed negative magnitude).bits.toNat =
      magnitude + if negative then 2 ^ 63 else 0 := by
    refine UInt64.toNat_ofNat_of_lt' ?_
    change _ < 2 ^ 64
    cases negative
    · rw [if_neg Bool.false_ne_true]
      omega
    · rw [if_pos rfl]
      omega
  have hboth := bits_parts (signed negative magnitude)
  have hlt : (signed negative magnitude).magnitude < 2 ^ 63 := Nat.mod_lt _ (by decide)
  rw [htoNat] at hboth
  cases negative <;> cases hsign : (signed _ magnitude).negative <;> rw [hsign] at hboth <;>
    simp only [if_true, Bool.false_eq_true, if_false, and_true, and_false] at hboth ⊢ <;> omega

theorem magnitude_lt (x : F64) : x.magnitude < 2 ^ 63 := Nat.mod_lt _ (by decide)

theorem isNan_eq (x : F64) : x.isNan = decide (0x7FF0000000000000 < x.magnitude) := by
  have hlt := x.magnitude_lt
  obtain ⟨hexponent, hfraction⟩ := magnitude_eq x
  unfold isNan
  rw [← hexponent, ← hfraction, decide_eq_decide]
  omega

theorem isFinite_eq (x : F64) : x.isFinite = decide (x.magnitude < 0x7FF0000000000000) := by
  have hlt := x.magnitude_lt
  obtain ⟨hexponent, -⟩ := magnitude_eq x
  unfold isFinite
  rw [← hexponent, decide_eq_decide]
  omega

theorem not_nan_of_finite {x : F64} (h : x.isFinite = true) : x.isNan = false := by
  rw [isFinite_eq, decide_eq_true_eq] at h
  rw [isNan_eq, decide_eq_false_iff_not]
  omega

theorem parts_neg (x : F64) : x.neg.magnitude = x.magnitude ∧ x.neg.negative = !x.negative :=
  parts_signed _ x.magnitude_lt

theorem isFinite_neg (x : F64) : x.neg.isFinite = x.isFinite := by
  rw [isFinite_eq, isFinite_eq, (parts_neg x).1]

theorem units_neg (x : F64) : x.neg.units = -x.units := by
  rw [units_eq, units_eq, (parts_neg x).1, (parts_neg x).2]
  cases x.negative <;> simp

theorem roundBits_pos {m : Nat} {e : Int} (hm : m ≠ 0) (he : -1074 ≤ e) :
    0 < roundBits m e ∧ roundBits m e ≤ 0x7FF0000000000000 := by
  unfold roundBits
  rw [if_neg hm]
  dsimp only
  refine ⟨Nat.lt_min.mpr ⟨?_, by decide⟩, Nat.min_le_right _ _⟩
  rcases le_or_gt (e + m.log2 - 52) (-1074) with hsubnormal | hnormal
  · -- the last bit is that of the grid, so nothing is dropped
    have hlast : max (e + m.log2 - 52) (-1074) = -1074 := max_eq_right hsubnormal
    rw [hlast, if_pos he]
    exact Nat.add_pos_right _ (Nat.mul_pos (Nat.pos_of_ne_zero hm) (Nat.two_pow_pos _))
  · refine Nat.add_pos_left (Nat.mul_pos ?_ (by decide)) _
    omega

/-- The exact sum, in multiples of the least positive number. -/
theorem units_add (a b : F64) : (a.signedMantissa * 2 ^ (a.scale - min a.scale b.scale).toNat +
    b.signedMantissa * 2 ^ (b.scale - min a.scale b.scale).toNat) *
      2 ^ (min a.scale b.scale + 1074).toNat = a.units + b.units := by
  have ha := le_scale a
  have hb := le_scale b
  rw [Int.add_mul, Int.mul_assoc, Int.mul_assoc, ← Int.pow_add, ← Int.pow_add]
  unfold units
  congr 3 <;> omega

/-- A difference of finite numbers is a number of the sign of the exact difference. -/
theorem position_sub {a b : F64} (ha : a.isFinite = true) (hb : b.isFinite = true) :
    (a.sub b).isNan = false ∧ ((a.sub b).position < 0 ↔ a.position < b.position) ∧
      ((a.sub b).position = 0 ↔ a.position = b.position) := by
  have hexact := units_add a b.neg
  have hlt := units_lt_iff a b
  have hgt := units_lt_iff b a
  have hscale : -1074 ≤ min a.scale b.neg.scale := le_min (le_scale a) (le_scale _)
  rw [units_neg] at hexact
  unfold sub add
  rw [← isFinite_neg] at hb
  rw [if_neg (by simp [not_nan_of_finite ha, not_nan_of_finite hb]), if_neg (not_not.mpr ha),
    if_neg (not_not.mpr hb)]
  dsimp only
  generalize a.signedMantissa * 2 ^ (a.scale - min a.scale b.neg.scale).toNat +
    b.neg.signedMantissa * 2 ^ (b.neg.scale - min a.scale b.neg.scale).toNat = sum at hexact ⊢
  have hunit : (0 : Int) < 2 ^ (min a.scale b.neg.scale + 1074).toNat := Int.pow_pos (by decide)
  by_cases hzero : sum = 0
  · rw [if_pos hzero]
    rw [hzero, Int.zero_mul] at hexact
    obtain ⟨hmagnitude, -⟩ := parts_signed (a.negative && b.neg.negative) (show 0 < 2 ^ 63 by decide)
    have hposition : (signed (a.negative && b.neg.negative) 0).position = 0 := by
      unfold position
      rw [hmagnitude]
      split <;> rfl
    rw [isNan_eq, hmagnitude, hposition]
    refine ⟨rfl, ?_, ?_⟩ <;> omega
  · rw [if_neg hzero]
    obtain ⟨hpos, hle⟩ := roundBits_pos (Int.natAbs_ne_zero.mpr hzero) hscale
    obtain ⟨hmagnitude, hnegative⟩ := parts_signed (decide (sum < 0))
      (show roundBits sum.natAbs (min a.scale b.neg.scale) < 2 ^ 63 by omega)
    have hsign : sum < 0 ↔ a.units < b.units := by
      rw [← Int.mul_lt_mul_right hunit, hexact, Int.zero_mul]
      omega
    have hne : a.units ≠ b.units := by
      intro hsame
      rw [hsame, Int.add_right_neg] at hexact
      rcases Int.mul_eq_zero.mp hexact with h | h
      · exact hzero h
      · exact absurd h hunit.ne'
    unfold position
    rw [isNan_eq, hmagnitude, hnegative]
    change decide _ = false ∧ (_ ↔ a.position < b.position) ∧ (_ ↔ a.position = b.position)
    rw [decide_eq_false_iff_not]
    simp only [decide_eq_true_eq]
    refine ⟨by omega, ?_, ?_⟩ <;> split <;> omega

end F64

end Vidarax.Base
