import Mathlib.Logic.Function.Iterate
import Vidarax.Base.Utf8

/-!
# CRC-32

Library `Base`. The reflected CRC-32 of the IEEE polynomial, with initial value
and final complement of all ones. One bit step is injective, so the checksum of a
sequence changes whenever exactly one of its bytes does.
-/

namespace Vidarax.Base

/-- The reflected IEEE polynomial. -/
def crcPolynomial : BitVec 32 := 0xEDB88320#32

/-- One bit step of the shift register. -/
def crcBit (crc : BitVec 32) : BitVec 32 :=
  if crc.getLsbD 0 then (crc >>> 1) ^^^ crcPolynomial else crc >>> 1

/-- One byte step: the byte enters at the low end and eight bits are shifted out. -/
def crcByte (crc : BitVec 32) (b : UInt8) : BitVec 32 :=
  crcBit^[8] (crc ^^^ b.toBitVec.setWidth 32)

/-- Checksum of a byte sequence. -/
def crc32 (bs : Bytes) : UInt32 :=
  UInt32.ofBitVec (~~~ bs.foldl crcByte 0xFFFFFFFF#32)

/-- The standard check value, of the digits one to nine. -/
example : crc32 [0x31, 0x32, 0x33, 0x34, 0x35, 0x36, 0x37, 0x38, 0x39] = 0xCBF43926 := by
  decide +kernel

/-- The bit shifted out shows in the top bit, because the polynomial has its top bit set. -/
theorem crcBit_top (x : BitVec 32) : (crcBit x).getLsbD 31 = x.getLsbD 0 := by
  unfold crcBit
  split
  · next h => simp [h, crcPolynomial]
  · next h =>
    rw [Bool.not_eq_true] at h
    rw [BitVec.getLsbD_ushiftRight, h, BitVec.getLsbD_of_ge _ _ (by decide)]

/-- Shifting out a bit loses nothing but that bit. -/
theorem eq_of_ushiftRight_one {x y : BitVec 32} (h : x >>> 1 = y >>> 1)
    (h0 : x.getLsbD 0 = y.getLsbD 0) : x = y := by
  apply BitVec.eq_of_getLsbD_eq
  intro i hi
  cases i with
  | zero => exact h0
  | succ i =>
    have hb := congrArg (fun z : BitVec 32 ↦ z.getLsbD i) h
    simp only [BitVec.getLsbD_ushiftRight] at hb
    rwa [Nat.add_comm i 1]

/-- One bit step is injective. -/
theorem crcBit_injective : Function.Injective crcBit := by
  intro x y h
  have h0 : x.getLsbD 0 = y.getLsbD 0 := by rw [← crcBit_top, ← crcBit_top, h]
  apply eq_of_ushiftRight_one _ h0
  unfold crcBit at h
  rw [h0] at h
  split at h
  · exact (BitVec.xor_left_inj crcPolynomial).mp h
  · exact h

/-- One byte step is injective in the register. -/
theorem crcByte_injective (b : UInt8) : Function.Injective (crcByte · b) := by
  intro x y h
  have hx := crcBit_injective.iterate 8 h
  exact (BitVec.xor_left_inj _).mp hx

/-- One byte step is injective in the byte. -/
theorem crcByte_byte_injective (crc : BitVec 32) : Function.Injective (crcByte crc) := by
  intro b c h
  have hx := (BitVec.xor_right_inj _).mp (crcBit_injective.iterate 8 h)
  apply UInt8.toBitVec_inj.mp
  apply BitVec.eq_of_toNat_eq
  have hn := congrArg BitVec.toNat hx
  rw [BitVec.toNat_setWidth, BitVec.toNat_setWidth] at hn
  have hb := b.toBitVec.isLt
  have hc := c.toBitVec.isLt
  omega

/-- Feeding equal bytes keeps different registers different. -/
theorem foldl_crcByte_injective (bs : Bytes) :
    Function.Injective fun crc ↦ bs.foldl crcByte crc := by
  induction bs with
  | nil => exact fun _ _ h ↦ h
  | cons b bs ih => exact fun _ _ h ↦ crcByte_injective b (ih h)

/-- Replacing exactly one byte changes the checksum. -/
theorem crc32_replace_ne (xs ys : Bytes) {b c : UInt8} (h : b ≠ c) :
    crc32 (xs ++ b :: ys) ≠ crc32 (xs ++ c :: ys) := by
  intro he
  have hb := congrArg UInt32.toBitVec he
  simp only [crc32, UInt32.toBitVec_ofBitVec, BitVec.not_inj, List.foldl_append,
    List.foldl_cons] at hb
  exact h (crcByte_byte_injective _ (foldl_crcByte_injective ys hb))

end Vidarax.Base
