import Mathlib.Algebra.Order.Floor.Semiring
import Mathlib.Data.Rat.Floor
import Vidarax.Base.FloatArith

/-!
# Exact values of single-precision numbers

Library `Base`. A finite number stands for a rational one, and is printed with six decimals as the
nearest decimal fraction, with ties to an even last digit.
-/

namespace Vidarax.Base

namespace F32

/-- The number that a finite one stands for. -/
def toRat (x : F32) : ℚ := x.signedMantissa * 2 ^ x.scale

/-- The number without its sign in millionths, to nearest with ties to even. -/
def millionths (x : F32) : Nat :=
  if 0 ≤ x.scale then x.mantissa * 2 ^ x.scale.toNat * 10 ^ 6
  else dropBits (x.mantissa * 10 ^ 6) (-x.scale).toNat

/-- The number that `{:.6}` prints. -/
def printed (x : F32) : ℚ := (if x.negative then -(x.millionths : ℚ) else x.millionths) / 10 ^ 6

/-- `{:.6}` of a finite number. -/
def sixDecimals (x : F32) : String :=
  (if x.negative then "-" else "") ++ toString (x.millionths / 10 ^ 6) ++ "." ++
    String.ofList ((Nat.toDigits 10 (10 ^ 6 + x.millionths % 10 ^ 6)).drop 1)

/-- A third and a tie are printed as Rust prints them. -/
example : sixDecimals ⟨0x3EAAAAAB⟩ = "0.333333" ∧ sixDecimals ⟨0x3C000000⟩ = "0.007812" ∧
    sixDecimals ⟨0xC0200000⟩ = "-2.500000" := by decide +kernel

/-- A number that is not below zero is printed as one. -/
theorem printed_nonneg {x : F32} (h : ¬ (x.negative = true ∧ x.magnitude ≠ 0)) :
    0 ≤ x.printed := by
  unfold printed
  by_cases hsign : x.negative = true
  · have hzero : x.magnitude = 0 := not_not.mp fun hne ↦ h ⟨hsign, hne⟩
    have hmillionths : x.millionths = 0 := by
      rcases eq_zero_or hzero with rfl | rfl
      · decide
      · decide
    rw [hmillionths]
    simp
  · rw [if_neg hsign]
    positivity

/-- A number that is not below zero stands for one. -/
theorem toRat_nonneg {x : F32} (h : ¬ (x.negative = true ∧ x.magnitude ≠ 0)) : 0 ≤ x.toRat := by
  have hmantissa : 0 ≤ x.signedMantissa := by
    unfold signedMantissa
    split
    · next hsign =>
      rw [mantissa_of_magnitude (not_not.mp fun hne ↦ h ⟨hsign, hne⟩)]
      rfl
    · exact Int.natCast_nonneg _
  have hcast : 0 ≤ (x.signedMantissa : ℚ) := by exact_mod_cast hmantissa
  exact mul_nonneg hcast (zpow_nonneg (by norm_num) _)

/-- A number is below zero when it has a sign and is no zero. -/
theorem lt_zero_iff {x : F32} (h : x.isNan = false) :
    x.lt zero = true ↔ x.negative = true ∧ x.magnitude ≠ 0 := by
  have hzero : zero.isNan = false ∧ zero.position = 0 := by decide
  unfold lt
  rw [decide_eq_true_iff, h, hzero.1, hzero.2, position]
  split
  · next hsign => simp [hsign, Nat.pos_iff_ne_zero]
  · next hsign => simp [hsign]

theorem not_nan_of_finite {x : F32} (h : x.isFinite = true) : x.isNan = false := by
  unfold isFinite at h
  simp [isNan, of_decide_eq_true h]

/-- A number between zero and one. -/
theorem toRat_clamp_nonneg {x : F32} (h : x.isFinite = true) : 0 ≤ (x.clamp zero one).toRat := by
  unfold clamp
  split
  · exact toRat_nonneg (by decide)
  · next hlow =>
    split
    · exact toRat_nonneg (by decide)
    · exact toRat_nonneg fun hbelow ↦ hlow ((lt_zero_iff (not_nan_of_finite h)).mpr hbelow)

/-- A whole number is not below zero. -/
theorem toRat_ofInt_nonneg (n : Nat) : 0 ≤ (ofInt n).toRat := by
  have hsign : (ofInt n).negative = false := by
    have hneg : decide ((n : Int) < 0) = false := decide_eq_false (Int.not_lt.mpr n.cast_nonneg)
    have hbits : roundBits (n : Int).natAbs 0 + 0 < 2 ^ 31 := by
      have hle : roundBits (n : Int).natAbs 0 ≤ 0x7F800000 := by
        unfold roundBits
        split
        · exact Nat.zero_le _
        · exact Nat.min_le_right _ _
      omega
    have htoNat : (signed false (roundBits (n : Int).natAbs 0)).bits.toNat =
        roundBits (n : Int).natAbs 0 + 0 :=
      UInt32.toNat_ofNat_of_lt' (Nat.lt_trans hbits (by decide))
    rw [ofInt, nearest, hneg, negative, htoNat]
    exact decide_eq_false (Nat.not_le.mpr hbits)
  exact toRat_nonneg fun h ↦ absurd h.1 (by rw [hsign]; decide)

end F32

end Vidarax.Base
