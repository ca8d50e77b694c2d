import Vidarax.Audio.Aggregate
import Vidarax.Base.OggPages
import Vidarax.Base.Result

/-!
# Live audio as an Ogg stream

Package `vidarax-api`, `live_audio.rs:438–533`. The frames of a window become the packets of an Opus
stream, one page each, after the two pages of its head.
-/

namespace Vidarax.Audio

open Base

/-- `OPUS_PRE_SKIP`. -/
def OPUS_PRE_SKIP : UInt16 := 312

/-- `OPUS_CLOCK_RATE`. -/
def OPUS_CLOCK_RATE : UInt32 := 48000

/-- The serial number of the stream; `live_audio.rs:439`. -/
def serial : UInt32 := 0x56494458

/-- How no stream is built. -/
inductive OggFailure where
  | error (message : String)
  | panicked

/-- `u32::saturating_add` of one. -/
def nextSequence (sequence : UInt32) : UInt32 := UInt32.ofNat (min (sequence.toNat + 1) (2 ^ 32 - 1))

/-- One bit of `ogg_crc`; `live_audio.rs:525`. -/
def oggCrcBit (crc : UInt32) : UInt32 :=
  if crc &&& 0x80000000 ≠ 0 then (crc <<< 1) ^^^ 0x04C11DB7 else crc <<< 1

/-- One byte of `ogg_crc`; `live_audio.rs:522`. -/
def oggCrcByte (crc : UInt32) (byte : UInt8) : UInt32 :=
  let top : UInt32 := byte.toUInt32 <<< 24
  oggCrcBit^[8] (crc ^^^ top)

/-- `ogg_crc`; `live_audio.rs:520`. -/
def oggCrc (bytes : Bytes) : UInt32 := bytes.foldl oggCrcByte 0

/-- `append_ogg_page`; `live_audio.rs:489`. -/
def appendOggPage (output packet : Bytes) (granule : UInt64) (serial sequence : UInt32) (flags : UInt8) :
    Except OggFailure Bytes :=
  let fullSegments := packet.length / 255
  let remainder := packet.length % 255
  let segmentCount := fullSegments + 1
  if segmentCount > 255 then .error (.error "Opus packet is too large for one Ogg page")
  else
    let pageStart := output.length
    let output := output ++ oggCapture ++ [0] ++ [flags] ++ leBytes 8 granule.toNat ++
      leBytes 4 serial.toNat ++ leBytes 4 sequence.toNat ++ leBytes 4 0 ++
      [UInt8.ofNat segmentCount] ++ List.replicate fullSegments 255 ++ [UInt8.ofNat remainder] ++ packet
    let checksum := oggCrc (output.drop pageStart)
    .ok (output.take (pageStart + 22) ++ leBytes 4 checksum.toNat ++ output.drop (pageStart + 26))

/-- `OpusHead`; `live_audio.rs:442`. -/
def opusHead : Bytes :=
  [0x4F, 0x70, 0x75, 0x73, 0x48, 0x65, 0x61, 0x64] ++ [1] ++ [2] ++ leBytes 2 OPUS_PRE_SKIP.toNat ++
    leBytes 4 OPUS_CLOCK_RATE.toNat ++ leBytes 2 0 ++ [0]

/-- `vidarax`. -/
def vendor : Bytes := [0x76, 0x69, 0x64, 0x61, 0x72, 0x61, 0x78]

/-- `OpusTags`; `live_audio.rs:453`. -/
def opusTags : Bytes :=
  [0x4F, 0x70, 0x75, 0x73, 0x54, 0x61, 0x67, 0x73] ++ leBytes 4 vendor.length ++ vendor ++ leBytes 4 0

/-- `clamp(120, 5_760)`; `live_audio.rs:478`. -/
def clampDuration (duration : UInt32) : UInt32 :=
  if duration < 120 then 120 else if 5760 < duration then 5760 else duration

/-- `next_duration`; `live_audio.rs:466`. -/
def nextDuration (frames : List LiveAudioFrame) (index : Nat) (frame : LiveAudioFrame) : UInt32 :=
  clampDuration (((frames[index + 1]?.map fun next ↦ next.rtpTimestamp - frame.rtpTimestamp).or
    (if index = 0 then none
      else frames[index - 1]?.map fun previous ↦ frame.rtpTimestamp - previous.rtpTimestamp)).getD 960)

/-- `granule`; `live_audio.rs:479`. -/
def granule (frames : List LiveAudioFrame) (firstTimestamp : UInt32) (index : Nat)
    (frame : LiveAudioFrame) : UInt64 :=
  satAdd (satAdd OPUS_PRE_SKIP.toUInt64 (frame.rtpTimestamp - firstTimestamp).toUInt64)
    (nextDuration frames index frame).toUInt64

/-- The page of a frame, unless it is empty; `live_audio.rs:462`. -/
def appendFrame (frames : List LiveAudioFrame) (firstTimestamp : UInt32) (state : Bytes × UInt32)
    (entry : LiveAudioFrame × Nat) : Except OggFailure (Bytes × UInt32) :=
  let (output, sequence) := state
  let (frame, index) := entry
  if frame.data = [] then .ok (output, sequence)
  else do
    let flags := if index + 1 = frames.length then 0x04 else 0
    let output ← appendOggPage output frame.data (granule frames firstTimestamp index frame) serial
      sequence flags
    .ok (output, nextSequence sequence)

/-- `build_ogg_opus`; `live_audio.rs:438`. -/
def buildOggOpus (frames : List LiveAudioFrame) : Except OggFailure Bytes := do
  let sequence : UInt32 := 0
  let output ← appendOggPage [] opusHead 0 serial sequence 0x02
  let sequence := nextSequence sequence
  let output ← appendOggPage output opusTags 0 serial sequence 0
  let sequence := nextSequence sequence
  match frames.head? with
  | none => .error .panicked
  | some first =>
    let (output, _) ← frames.zipIdx.foldlM (appendFrame frames first.rtpTimestamp) (output, sequence)
    .ok output

/-- The checksum of the digits one to nine, without a final complement. -/
example : oggCrc [0x31, 0x32, 0x33, 0x34, 0x35, 0x36, 0x37, 0x38, 0x39] = 0x89A1897F := by
  decide +kernel

/-! ### Pages -/

/-- The checksum as a number. -/
def crcValue (bytes : Bytes) : Nat := (oggCrc bytes).toNat

theorem crcValue_lt (bytes : Bytes) : crcValue bytes < 256 ^ 4 := (oggCrc bytes).toNat_lt

/-- The polynomial of Ogg. -/
def oggPolynomial : BitVec 32 := 0x04C11DB7#32

theorem oggCrcBit_eq (crc : UInt32) : (oggCrcBit crc).toBitVec = timesX oggPolynomial crc.toBitVec := by
  have hmsb : crc &&& 0x80000000 ≠ 0 ↔ crc.toBitVec.msb = true := by
    rw [ne_eq, ← UInt32.toBitVec_inj, UInt32.toBitVec_and]
    have hbit (x : BitVec 32) : ¬x &&& 0x80000000#32 = 0#32 ↔ x.msb = true := by
      constructor
      · intro h
        by_contra hmsb
        refine h (BitVec.eq_of_getLsbD_eq fun i hi ↦ ?_)
        rw [BitVec.getLsbD_and]
        by_cases htop : i = 31
        · subst htop
          rw [Bool.not_eq_true, BitVec.msb_eq_getLsbD_last] at hmsb
          rw [show x.getLsbD 31 = false from hmsb, Bool.false_and]
          rfl
        · have hzero : (0x80000000#32).getLsbD i = false := by
            have : ∀ j < 32, j ≠ 31 → (0x80000000#32).getLsbD j = false := by decide
            exact this i hi htop
          rw [hzero, Bool.and_false, BitVec.getLsbD_zero]
      · intro hmsb h
        have hbit := congrArg (fun y : BitVec 32 ↦ y.getLsbD 31) h
        rw [BitVec.msb_eq_getLsbD_last] at hmsb
        simp only [BitVec.getLsbD_and, hmsb] at hbit
        revert hbit
        decide
    exact hbit crc.toBitVec
  unfold oggCrcBit timesX
  by_cases h : crc.toBitVec.msb = true
  · rw [if_pos (hmsb.mpr h), if_pos h]
    rfl
  · rw [if_neg (mt hmsb.mp h), if_neg h]
    rfl

/-- The checksum is the remainder of the bytes as a polynomial. -/
theorem crcValue_eq (bytes : Bytes) : crcValue bytes = (checksum oggPolynomial bytes).toNat := by
  have hbits (n : Nat) (crc : UInt32) :
      (oggCrcBit^[n] crc).toBitVec = (timesX oggPolynomial)^[n] crc.toBitVec := by
    induction n generalizing crc with
    | zero => rfl
    | succ n ih => rw [Function.iterate_succ_apply, ih, oggCrcBit_eq]; rfl
  have hfold (crc : UInt32) : (bytes.foldl oggCrcByte crc).toBitVec =
      bytes.foldl (directByte oggPolynomial) crc.toBitVec := by
    induction bytes generalizing crc with
    | nil => rfl
    | cons b bytes ih =>
      rw [List.foldl_cons, ih, oggCrcByte, hbits]
      rfl
  rw [← foldl_directByte_eq_checksum]
  exact congrArg BitVec.toNat (hfold 0)

end Vidarax.Audio
