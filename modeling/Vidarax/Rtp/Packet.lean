import Mathlib.Data.UInt

/-!
# Packets and samples

Package `vidarax-core`, `crates/vidarax-core/src/webrtc/depacketize.rs:1–43,105–121,362–378`.
The fields of RTP packets and media samples that a depacketizer reads or writes. Header
extensions, addresses and audio samples are only passed on, so their types are parameters.
-/

namespace Vidarax.Rtp

/-- Kinds of media. -/
inductive MediaKind where
  | audio
  | video
  | application
  deriving DecidableEq

/-- Header of an RTP packet. -/
structure RtpHeader (Extension : Type) where
  marker : Bool
  payloadType : UInt8
  sequenceNumber : UInt16
  timestamp : UInt32
  csrcs : List UInt32
  extension : Option Extension
  deriving DecidableEq

/-- An RTP packet. -/
structure RtpPacket (Extension : Type) where
  header : RtpHeader Extension
  payload : List UInt8
  deriving DecidableEq

/-- Pixel formats that a depacketizer assigns. -/
inductive VideoPixelFormat where
  | unspecified
  deriving DecidableEq

/-- A frame of encoded video. -/
structure VideoFrame (Extension Addr : Type) where
  rtpTimestamp : UInt32
  width : Nat
  height : Nat
  format : VideoPixelFormat
  rotationDeg : Nat
  isLastPacket : Bool
  data : List UInt8
  headerExtension : Option Extension
  csrcs : List UInt32
  sequenceNumber : Option UInt16
  payloadType : Option UInt8
  sourceAddr : Option Addr
  rawPacket : Option (RtpPacket Extension)
  deriving DecidableEq

/-- What a depacketizer emits. -/
inductive MediaSample (Extension Addr Audio : Type) where
  | audio (frame : Audio)
  | video (frame : VideoFrame Extension Addr)
  deriving DecidableEq

/-- Arguments of one `push`. -/
structure Call (Extension Addr : Type) where
  packet : RtpPacket Extension
  clockRate : UInt32
  addr : Addr
  kind : MediaKind
  deriving DecidableEq

variable {Extension Addr : Type}

/-- Sequence number of a call's packet. -/
def Call.seq (call : Call Extension Addr) : UInt16 := call.packet.header.sequenceNumber

/-- Timestamp of a call's packet. -/
def Call.timestamp (call : Call Extension Addr) : UInt32 := call.packet.header.timestamp

/-- Marker of a call's packet. -/
def Call.marker (call : Call Extension Addr) : Bool := call.packet.header.marker

/-- Payload of a call's packet. -/
def Call.payload (call : Call Extension Addr) : List UInt8 := call.packet.payload

/-- `video_sample` of either depacketizer, whose timestamp is its `frame_timestamp`. -/
def videoFrame (frameTimestamp : UInt32) (data : List UInt8) (packet : RtpPacket Extension)
    (addr : Addr) : VideoFrame Extension Addr where
  rtpTimestamp := frameTimestamp
  width := 0
  height := 0
  format := .unspecified
  rotationDeg := 0
  isLastPacket := true
  data := data
  headerExtension := packet.header.extension
  csrcs := packet.header.csrcs
  sequenceNumber := some packet.header.sequenceNumber
  payloadType := some packet.header.payloadType
  sourceAddr := some addr
  rawPacket := some packet

/-- Successors of sequence numbers; `wrapping_add(1)`. -/
def seqSucc (seq : UInt16) : UInt16 := seq + 1

/-- The successor counted `k` times. -/
theorem toNat_seqSucc_iterate (k : Nat) (seq : UInt16) :
    (seqSucc^[k] seq).toNat = (seq.toNat + k) % 65536 := by
  induction k generalizing seq with
  | zero => simp [Nat.mod_eq_of_lt seq.toNat_lt]
  | succ k ih =>
    rw [Function.iterate_succ_apply, ih, seqSucc, UInt16.toNat_add]
    simp only [UInt16.toNat_one]
    omega

/-- Sequence numbers come back after 65536 packets, not before. -/
theorem seqSucc_iterate_ne (seq : UInt16) (k : Nat) (hpos : 0 < k) (hk : k < 65536) :
    seqSucc^[k] seq ≠ seq := by
  intro h
  have hvalue := toNat_seqSucc_iterate k seq
  have := seq.toNat_lt
  rw [h] at hvalue
  omega

end Vidarax.Rtp
