import Vidarax.Rtp.Packet

/-!
# The VP8 depacketizer

Package `vidarax-core`, `crates/vidarax-core/src/webrtc/depacketize.rs:43–198`. Payloads of one
frame are collected behind its start packet; what does not continue it is dropped up to the
next start. No `push` fails, so its result is the list of samples. How an audio packet becomes
a sample is a parameter.
-/

namespace Vidarax.Rtp

/-- A payload descriptor; `depacketize.rs:125`. -/
structure Vp8PayloadDescriptor where
  isStart : Bool
  partitionId : UInt8
  payloadOffset : Nat
  deriving DecidableEq

/-- `payload.get(offset)?` and the offset behind it. -/
def skipByte (payload : List UInt8) (offset : Nat) : Option Nat :=
  payload[offset]?.map fun _ ↦ offset + 1

/-- A field that is there only if its bit is set. -/
def skipField (bit : Bool) (skip : Nat → Option Nat) (offset : Nat) : Option Nat :=
  if bit then skip offset else some offset

/-- The offset behind a picture id, which has a second byte if its first bit is set. -/
def skipPictureId (payload : List UInt8) (offset : Nat) : Option Nat := do
  let pictureId ← payload[offset]?
  skipField ((pictureId &&& 0x80) ≠ 0) (skipByte payload) (offset + 1)

/-- The offset behind the extension byte and the fields that it announces. -/
def skipExtension (payload : List UInt8) (offset : Nat) : Option Nat := do
  let ext ← payload[offset]?
  let offset ← skipField ((ext &&& 0x80) ≠ 0) (skipPictureId payload) (offset + 1)
  let offset ← skipField ((ext &&& 0x40) ≠ 0) (skipByte payload) offset
  skipField ((ext &&& 0x30) ≠ 0) (skipByte payload) offset

/-- `parse_descriptor`; `depacketize.rs:71`. -/
def parseDescriptor (payload : List UInt8) : Option Vp8PayloadDescriptor := do
  let first ← payload[0]?
  let payloadOffset ← skipField ((first &&& 0x80) ≠ 0) (skipExtension payload) 1
  some ⟨(first &&& 0x10) ≠ 0, first &&& 0x07, payloadOffset⟩

/-- A packet that begins a frame. -/
def Vp8PayloadDescriptor.isFrameStart (descriptor : Vp8PayloadDescriptor) : Bool :=
  descriptor.isStart && descriptor.partitionId == 0

/-- State of the depacketizer; `depacketize.rs:43`. -/
structure Vp8Depacketizer where
  frameBuf : List UInt8
  frameTimestamp : UInt32
  lastSeq : Option UInt16
  droppingUntilStart : Bool
  deriving DecidableEq

namespace Vp8Depacketizer

/-- `new`; `depacketize.rs:57`. -/
def new : Vp8Depacketizer := ⟨[], 0, none, false⟩

/-- `reset_frame`; `depacketize.rs:66`. -/
def resetFrame (d : Vp8Depacketizer) : Vp8Depacketizer := { d with frameBuf := [], lastSeq := none }

/-- What a packet that fits no frame does. -/
def dropFrame (d : Vp8Depacketizer) (seq : UInt16) : Vp8Depacketizer :=
  { d with frameBuf := [], lastSeq := some seq, droppingUntilStart := true }

/-- Whether a packet begins or continues a frame; `depacketize.rs:162`. -/
def admitPacket (d : Vp8Depacketizer) (isFrameStart : Bool) (seq : UInt16) (timestamp : UInt32) :
    Vp8Depacketizer × Bool :=
  if isFrameStart then
    if d.frameBuf ≠ [] ∧ timestamp = d.frameTimestamp then (d.dropFrame seq, false)
    else ({ d with frameBuf := [], frameTimestamp := timestamp, droppingUntilStart := false }, true)
  else
    let isContinuous := d.lastSeq.any fun lastSeq ↦ seq == seqSucc lastSeq
    let sameTimestamp := timestamp = d.frameTimestamp
    if d.droppingUntilStart ∨ ¬ isContinuous ∨ ¬ sameTimestamp then (d.dropFrame seq, false)
    else (d, true)

variable {Extension Addr Audio : Type}
  (fromRtpPacket : RtpPacket Extension → MediaKind → UInt32 → Addr →
    MediaSample Extension Addr Audio)

/-- End of a frame; `depacketize.rs:193`. -/
def finishFrame (d : Vp8Depacketizer) (packet : RtpPacket Extension) (addr : Addr) :
    Vp8Depacketizer × List (MediaSample Extension Addr Audio) :=
  if d.frameBuf = [] ∨ d.droppingUntilStart then (d.resetFrame, [])
  else (d.resetFrame, [.video (videoFrame d.frameTimestamp d.frameBuf packet addr)])

/-- `push`; `depacketize.rs:132`. -/
def push (d : Vp8Depacketizer) (call : Call Extension Addr) :
    Vp8Depacketizer × List (MediaSample Extension Addr Audio) :=
  if call.kind = .audio then
    (d, [fromRtpPacket call.packet call.kind call.clockRate call.addr])
  else if call.payload = [] then (d, [])
  else
    match parseDescriptor call.payload with
    | none => ({ d.resetFrame with droppingUntilStart := true }, [])
    | some descriptor =>
      match d.admitPacket descriptor.isFrameStart call.seq call.timestamp with
      | (d, false) => (d, [])
      | (d, true) =>
        let partition := call.payload.drop descriptor.payloadOffset
        let d := { d with lastSeq := some call.seq, frameBuf := d.frameBuf ++ partition }
        if call.marker then d.finishFrame call.packet call.addr else (d, [])

end Vp8Depacketizer

end Vidarax.Rtp
