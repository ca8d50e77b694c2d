import Vidarax.Rtp.Packet

/-!
# The H.265 depacketizer

Package `vidarax-core`, `crates/vidarax-core/src/webrtc/depacketize.rs:200–468`. Payloads of
one access unit are collected in a buffer, with a second buffer for a fragmented NAL unit.
No `push` fails, so its result is the list of samples. How an audio packet becomes a sample
is a parameter.
-/

namespace Vidarax.Rtp

/-- `H265_NAL_TYPE_AP`. -/
def H265_NAL_TYPE_AP : UInt8 := 48

/-- `H265_NAL_TYPE_FU`. -/
def H265_NAL_TYPE_FU : UInt8 := 49

/-- `ANNEX_B_START_CODE`. -/
def ANNEX_B_START_CODE : List UInt8 := [0x00, 0x00, 0x00, 0x01]

/-- Type in the first byte of a NAL unit or payload header; `depacketize.rs:428`. -/
def nalType (header0 : UInt8) : UInt8 := (header0 >>> 1) &&& 0x3f

/-- Value of a big-endian length field. -/
def naluSize (size0 size1 : UInt8) : Nat := size0.toNat * 256 + size1.toNat

/-- The start bit of a fragmentation unit. -/
def isStart (fuHeader : UInt8) : Bool := (fuHeader &&& 0x80) ≠ 0

/-- The end bit of a fragmentation unit. -/
def isEnd (fuHeader : UInt8) : Bool := (fuHeader &&& 0x40) ≠ 0

/-- First header byte of the NAL unit that fragmentation units carry. -/
def reconstructedHeader0 (payloadHeader0 fuHeader : UInt8) : UInt8 :=
  let fuType : UInt8 := fuHeader &&& 0x3f
  let kept : UInt8 := payloadHeader0 &&& 0x81
  kept ||| (fuType <<< (1 : UInt8))

/-- State of the depacketizer; `depacketize.rs:214`. -/
structure H265Depacketizer where
  accessUnitBuf : List UInt8
  fragmentBuf : List UInt8
  frameTimestamp : UInt32
  lastSeq : Option UInt16
  droppingUntilNewTs : Bool
  deriving DecidableEq

namespace H265Depacketizer

/-- `new`; `depacketize.rs:229`. -/
def new : H265Depacketizer := ⟨[], [], 0, none, false⟩

/-- `reset_access_unit`; `depacketize.rs:239`. -/
def resetAccessUnit (d : H265Depacketizer) : H265Depacketizer :=
  { d with accessUnitBuf := [], fragmentBuf := [] }

/-- What every refusal does: `reset_access_unit`, then drop up to a new timestamp. -/
def dropUnit (d : H265Depacketizer) : H265Depacketizer :=
  { d.resetAccessUnit with droppingUntilNewTs := true }

/-- `append_nal`; `depacketize.rs:244`. -/
def appendNal (d : H265Depacketizer) (nal : List UInt8) : H265Depacketizer × Bool :=
  if nal.length < 2 then (d.dropUnit, false)
  else
    let front := if d.accessUnitBuf = [] then [] else d.accessUnitBuf ++ ANNEX_B_START_CODE
    ({ d with accessUnitBuf := front ++ nal }, true)

/-- `append_fragment_nal`; `depacketize.rs:258`. -/
def appendFragmentNal (d : H265Depacketizer) : H265Depacketizer :=
  if d.accessUnitBuf = [] then { d with accessUnitBuf := d.fragmentBuf, fragmentBuf := [] }
  else
    { d with
      accessUnitBuf := d.accessUnitBuf ++ ANNEX_B_START_CODE ++ d.fragmentBuf
      fragmentBuf := [] }

/-- The loop of `push_aggregation_packet` over the payload from its offset on. The offsets
stay within a payload and two bytes, so the source's additions do not overflow. -/
def pushAggregationUnits (d : H265Depacketizer) (sawNal : Bool) :
    List UInt8 → H265Depacketizer × Bool
  | [] => if sawNal then (d, true) else (d.dropUnit, false)
  | [_] => (d.dropUnit, false)
  | size0 :: size1 :: rest =>
    if rest.length < naluSize size0 size1 then (d.dropUnit, false)
    else
      match d.appendNal (rest.take (naluSize size0 size1)) with
      | (d, false) => (d, false)
      | (d, true) => pushAggregationUnits d true (rest.drop (naluSize size0 size1))
  termination_by payload => payload.length
  decreasing_by
    rw [List.length_drop, List.length_cons, List.length_cons]
    omega

/-- `push_aggregation_packet`; `depacketize.rs:269`. -/
def pushAggregationPacket (d : H265Depacketizer) (payload : List UInt8) :
    H265Depacketizer × Bool :=
  pushAggregationUnits d false (payload.drop 2)

/-- `push_fragmentation_unit`; `depacketize.rs:316`. -/
def pushFragmentationUnit (d : H265Depacketizer) (payload : List UInt8) :
    H265Depacketizer × Bool :=
  match payload with
  | payloadHeader0 :: payloadHeader1 :: fuHeader :: fuPayload =>
    if isStart fuHeader ∧ d.fragmentBuf ≠ [] then (d.dropUnit, false)
    else if ¬ isStart fuHeader ∧ d.fragmentBuf = [] then (d.dropUnit, false)
    else
      let front := if isStart fuHeader then
        [reconstructedHeader0 payloadHeader0 fuHeader, payloadHeader1] else d.fragmentBuf
      let d := { d with fragmentBuf := front ++ fuPayload }
      (if isEnd fuHeader then d.appendFragmentNal else d, true)
  | _ => (d.dropUnit, false)

/-- Dispatch on the payload type; `depacketize.rs:428`. -/
def parsePayload (d : H265Depacketizer) (payload : List UInt8) : H265Depacketizer × Bool :=
  match payload with
  | payloadHeader0 :: _ :: _ =>
    let type := nalType payloadHeader0
    if type ≤ 47 then d.appendNal payload
    else if type = H265_NAL_TYPE_AP then d.pushAggregationPacket payload
    else if type = H265_NAL_TYPE_FU then d.pushFragmentationUnit payload
    -- PACI, reserved and unspecified structures
    else (d.dropUnit, false)
  | _ => (d.dropUnit, false)

/-- Timestamp and continuity of a packet; false where it is dropped; `depacketize.rs:403`. -/
def admitPacket (d : H265Depacketizer) (seq : UInt16) (timestamp : UInt32) :
    H265Depacketizer × Bool :=
  let newAu := d.lastSeq = none ∨ timestamp ≠ d.frameTimestamp
  let isContinuous := d.lastSeq.any fun last ↦ seq == seqSucc last
  if newAu then
    ({ d.resetAccessUnit with
      frameTimestamp := timestamp, droppingUntilNewTs := false, lastSeq := some seq }, true)
  else if d.droppingUntilNewTs then ({ d with lastSeq := some seq }, false)
  else if ¬ isContinuous then ({ d.dropUnit with lastSeq := some seq }, false)
  else ({ d with lastSeq := some seq }, true)

variable {Extension Addr Audio : Type}
  (fromRtpPacket : RtpPacket Extension → MediaKind → UInt32 → Addr →
    MediaSample Extension Addr Audio)

/-- End of an access unit; `depacketize.rs:450`. -/
def finishUnit (d : H265Depacketizer) (packet : RtpPacket Extension) (addr : Addr) :
    H265Depacketizer × List (MediaSample Extension Addr Audio) :=
  let seq := some packet.header.sequenceNumber
  if d.accessUnitBuf = [] ∨ d.fragmentBuf ≠ [] then ({ d.dropUnit with lastSeq := seq }, [])
  else ({ d.dropUnit with lastSeq := seq },
    [.video (videoFrame d.frameTimestamp d.accessUnitBuf packet addr)])

/-- `push`; `depacketize.rs:382`. -/
def push (d : H265Depacketizer) (call : Call Extension Addr) :
    H265Depacketizer × List (MediaSample Extension Addr Audio) :=
  if call.kind = .audio then
    (d, [fromRtpPacket call.packet call.kind call.clockRate call.addr])
  else if call.payload = [] then (d, [])
  else
    match d.admitPacket call.seq call.timestamp with
    | (d, false) => (d, [])
    | (d, true) =>
      match d.parsePayload call.payload with
      | (d, false) => (d, [])
      | (d, true) => if call.marker then d.finishUnit call.packet call.addr else (d, [])

end H265Depacketizer

end Vidarax.Rtp
