import Mathlib.Data.Nat.Bitwise
import Mathlib.Logic.Function.Iterate
import Vidarax.Base.Utf8

/-!
# Checksums as remainders of polynomials

Library `Base`. A message is a polynomial over two elements, its first bit the leading coefficient.
Its checksum is the remainder of the message times `x ^ 32` by another polynomial. The direct
algorithm, which lets bytes in at the top of a shift register, computes this remainder.
-/

namespace Vidarax.Base

/-- Multiplication by `x`, modulo a polynomial whose leading term `x ^ 32` is left out. -/
def timesX (poly r : BitVec 32) : BitVec 32 := if r.msb then (r <<< 1) ^^^ poly else r <<< 1

/-- One more coefficient. -/
def nextCoefficient (poly r : BitVec 32) (bit : Bool) : BitVec 32 :=
  timesX poly r ^^^ (BitVec.ofBool bit).setWidth 32

/-- The remainder of a polynomial, after that of what comes before it. -/
def remainderFrom (poly r : BitVec 32) (bits : List Bool) : BitVec 32 :=
  bits.foldl (nextCoefficient poly) r

/-- Bits of a byte, the most significant one first. -/
def byteBits (b : UInt8) : List Bool := (List.range 8).map b.toBitVec.getMsbD

/-- The checksum of a message. -/
def checksum (poly : BitVec 32) (bytes : Bytes) : BitVec 32 :=
  remainderFrom poly 0 (bytes.flatMap byteBits ++ List.replicate 32 false)

/-- A byte goes into the register at the top, and eight bits come out. -/
def directByte (poly crc : BitVec 32) (b : UInt8) : BitVec 32 :=
  (timesX poly)^[8] (crc ^^^ b.toBitVec.setWidth 32 <<< 24)

section

variable (poly : BitVec 32)

theorem timesX_xor (a b : BitVec 32) : timesX poly (a ^^^ b) = timesX poly a ^^^ timesX poly b := by
  unfold timesX
  rw [BitVec.msb_xor, BitVec.shiftLeft_xor_distrib]
  cases a.msb <;> cases b.msb <;> simp only [Bool.xor_false, Bool.xor_true, Bool.not_false,
    Bool.not_true, if_true, Bool.false_eq_true, if_false]
  · rw [BitVec.xor_assoc]
  · rw [BitVec.xor_assoc, BitVec.xor_assoc, BitVec.xor_comm poly]
  · rw [BitVec.xor_assoc, BitVec.xor_comm poly, BitVec.xor_assoc, BitVec.xor_self, BitVec.xor_zero]

theorem iterate_timesX_xor (n : Nat) (a b : BitVec 32) :
    (timesX poly)^[n] (a ^^^ b) = (timesX poly)^[n] a ^^^ (timesX poly)^[n] b := by
  induction n generalizing a b with
  | zero => rfl
  | succ n ih => rw [Function.iterate_succ_apply, timesX_xor, ih]; rfl

/-- Nothing comes out of the register as long as there is room. -/
theorem toNat_iterate_timesX {n : Nat} {r : BitVec 32} (h : r.toNat * 2 ^ n < 2 ^ 32) :
    ((timesX poly)^[n] r).toNat = r.toNat * 2 ^ n := by
  induction n generalizing r with
  | zero => exact (Nat.mul_one _).symm
  | succ n ih =>
    have hpow := Nat.two_pow_pos n
    have hdouble : r.toNat * 2 * 2 ^ n < 2 ^ 32 := by rwa [Nat.mul_assoc, ← Nat.pow_succ']
    have hroom : r.toNat * 2 < 2 ^ 32 := Nat.lt_of_le_of_lt (Nat.le_mul_of_pos_right _ hpow) hdouble
    have hshift : (timesX poly r).toNat = r.toNat * 2 := by
      have hmsb : r.msb = false := by
        rw [BitVec.msb_eq_false_iff_two_mul_lt]
        omega
      rw [timesX, hmsb, if_neg Bool.false_ne_true, BitVec.toNat_shiftLeft, Nat.shiftLeft_eq,
        Nat.pow_one, Nat.mod_eq_of_lt hroom]
    rw [Function.iterate_succ_apply, ih (by rwa [hshift]), hshift, Nat.mul_assoc, ← Nat.pow_succ']

theorem iterate_timesX_byte (b : UInt8) :
    (timesX poly)^[24] (b.toBitVec.setWidth 32) = b.toBitVec.setWidth 32 <<< 24 := by
  have hlt := b.toNat_lt
  have hwidth : (b.toBitVec.setWidth 32).toNat = b.toNat := by
    rw [BitVec.toNat_setWidth]
    exact Nat.mod_eq_of_lt (by omega)
  apply BitVec.eq_of_toNat_eq
  rw [toNat_iterate_timesX poly (by rw [hwidth]; omega), BitVec.toNat_shiftLeft, hwidth,
    Nat.shiftLeft_eq, Nat.mod_eq_of_lt (by omega)]

theorem remainderFrom_xor (bits : List Bool) (r : BitVec 32) : remainderFrom poly r bits =
    (timesX poly)^[bits.length] r ^^^ remainderFrom poly 0 bits := by
  induction bits generalizing r with
  | nil => exact (BitVec.xor_zero).symm
  | cons bit bits ih =>
    have hzero : nextCoefficient poly 0 bit = (BitVec.ofBool bit).setWidth 32 := BitVec.zero_xor
    change remainderFrom poly (nextCoefficient poly r bit) bits =
      _ ^^^ remainderFrom poly (nextCoefficient poly 0 bit) bits
    rw [ih, ih (nextCoefficient poly 0 bit), hzero, nextCoefficient, iterate_timesX_xor,
      BitVec.xor_assoc]
    rfl

theorem remainderFrom_zeros (n : Nat) (r : BitVec 32) :
    remainderFrom poly r (List.replicate n false) = (timesX poly)^[n] r := by
  induction n generalizing r with
  | zero => rfl
  | succ n ih =>
    have hnext : nextCoefficient poly r false = timesX poly r := BitVec.xor_zero
    change remainderFrom poly (nextCoefficient poly r false) (List.replicate n false) = _
    rw [hnext, ih]
    rfl

/-- The number that bits stand for, after a number. -/
def bitsValue (n : Nat) (bits : List Bool) : Nat := bits.foldl (fun n bit ↦ 2 * n + bit.toNat) n

/-- Bits that fit are their own remainder. -/
theorem toNat_remainderFrom (bits : List Bool) (r : BitVec 32)
    (h : (r.toNat + 1) * 2 ^ bits.length ≤ 2 ^ 32) :
    (remainderFrom poly r bits).toNat = bitsValue r.toNat bits := by
  induction bits generalizing r with
  | nil => rfl
  | cons bit bits ih =>
    have hpow := Nat.two_pow_pos bits.length
    have hdouble : (r.toNat + 1) * 2 * 2 ^ bits.length ≤ 2 ^ 32 := by
      rwa [Nat.mul_assoc, ← Nat.pow_succ']
    have hroom : (r.toNat + 1) * 2 ≤ 2 ^ 32 :=
      Nat.le_trans (Nat.le_mul_of_pos_right _ hpow) hdouble
    have hnext : (nextCoefficient poly r bit).toNat = 2 * r.toNat + bit.toNat := by
      have htimes := toNat_iterate_timesX poly (n := 1) (r := r) (by omega)
      have hbit : ((BitVec.ofBool bit).setWidth 32).toNat = bit.toNat := by cases bit <;> rfl
      rw [Function.iterate_one] at htimes
      rw [nextCoefficient, BitVec.toNat_xor, htimes, hbit, Nat.pow_one, Nat.mul_comm]
      cases bit with
      | false => rw [Bool.toNat_false, Nat.xor_zero, Nat.add_zero]
      | true => exact Nat.xor_one_of_even (even_two_mul r.toNat)
    have hbit : bit.toNat ≤ 1 := Bool.toNat_le bit
    change (remainderFrom poly (nextCoefficient poly r bit) bits).toNat = bitsValue (2 * _ + _) bits
    rw [← hnext]
    refine ih _ (Nat.le_trans (Nat.mul_le_mul_right _ ?_) hdouble)
    omega

theorem bitsValue_byteBits : ∀ n < 256, bitsValue 0 (byteBits (UInt8.ofNat n)) = n := by
  decide +kernel

theorem remainderFrom_byteBits (b : UInt8) :
    remainderFrom poly 0 (byteBits b) = b.toBitVec.setWidth 32 := by
  have hlt := b.toNat_lt
  have hvalue := bitsValue_byteBits b.toNat hlt
  rw [UInt8.ofNat_toNat] at hvalue
  apply BitVec.eq_of_toNat_eq
  have hlength : (byteBits b).length = 8 := by rw [byteBits, List.length_map, List.length_range]
  rw [toNat_remainderFrom poly _ _ (by rw [hlength]; decide), BitVec.toNat_setWidth]
  exact hvalue.trans (Nat.mod_eq_of_lt (Nat.lt_trans hlt (by decide))).symm

/-- The register is the remainder of what has come in, times `x ^ 32`. -/
theorem foldl_directByte (bytes : Bytes) (r : BitVec 32) :
    bytes.foldl (directByte poly) ((timesX poly)^[32] r) =
      (timesX poly)^[32] (remainderFrom poly r (bytes.flatMap byteBits)) := by
  induction bytes generalizing r with
  | nil => rfl
  | cons b bytes ih =>
    have hbyte : directByte poly ((timesX poly)^[32] r) b =
        (timesX poly)^[32] (remainderFrom poly r (byteBits b)) := by
      rw [directByte, iterate_timesX_xor, ← iterate_timesX_byte poly, ← Function.iterate_add_apply,
        ← Function.iterate_add_apply, remainderFrom_xor, remainderFrom_byteBits, iterate_timesX_xor,
        ← Function.iterate_add_apply]
      rfl
    rw [List.foldl_cons, hbyte, ih, List.flatMap_cons, remainderFrom, remainderFrom, remainderFrom,
      List.foldl_append]

/-- The direct algorithm computes the checksum. -/
theorem foldl_directByte_eq_checksum (bytes : Bytes) :
    bytes.foldl (directByte poly) 0 = checksum poly bytes := by
  have hzero : (timesX poly)^[32] 0 = 0 :=
    BitVec.eq_of_toNat_eq ((toNat_iterate_timesX poly (by decide)).trans (Nat.zero_mul _))
  have hfold := foldl_directByte poly bytes 0
  rw [hzero, ← remainderFrom_zeros] at hfold
  rw [hfold, checksum, remainderFrom, remainderFrom, remainderFrom, List.foldl_append]

end

end Vidarax.Base
