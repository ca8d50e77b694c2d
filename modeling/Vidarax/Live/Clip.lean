import Mathlib.Data.List.Basic
import Vidarax.Base.Machine
import Vidarax.Base.Utf8

/-!
# Frames of a live session and the clip path

Package `vidarax-core`, `crates/vidarax-core/src/webrtc/session.rs:78,806–861`,
`workers.rs:337–373` and `clip.rs:153–286,549–598`. The session attaches a presentation time to
each video access unit. The clip path samples frames by this time at two places that keep their own
last accepted frame. Of the signal of a frame only its time is used here; lengths and delays are
given in milliseconds, and the time that passed since the last clip is an input.
-/

namespace Vidarax.Live

open Vidarax.Base

/-! ### The track task -/

/-- A video access unit as the track receives it. -/
structure VideoFrame where
  data : Bytes
  rtpTimestamp : UInt32

/-- A frame on its way to the decoder. -/
structure RtpFrame where
  nals : List Bytes
  ptsMs : UInt64
  seq : UInt64

/-- `MAX_RTP_ACCESS_UNIT_BYTES`; `session.rs:78`. -/
def maxRtpAccessUnitBytes : Nat := 2 * 1024 * 1024

/-- Video branch of the track task: the frame that is queued, and the next sequence number. How a
payload is split is an input; `session.rs:809`. -/
def onVideo (framePayloadToNals : Bytes → List Bytes) (seq : UInt64) (frame : VideoFrame) :
    Option RtpFrame × UInt64 :=
  if frame.data.length > maxRtpAccessUnitBytes then (none, seq)
  else
    -- RTP timestamp is on a 90 kHz clock
    let ptsMs := frame.rtpTimestamp.toUInt64 / 90
    (some ⟨framePayloadToNals frame.data, ptsMs, seq⟩, seq + 1)

/-! ### Sampling -/

/-- `ClipRateGate`; `clip.rs:153`. -/
structure ClipRateGate where
  sampleIntervalMs : UInt64
  lastAcceptedPts : Option UInt64
  deriving DecidableEq

namespace ClipRateGate

/-- `ClipRateGate::new`. -/
def new (targetFps : UInt32) : ClipRateGate := ⟨1000 / max targetFps.toUInt64 1, none⟩

/-- `ClipRateGate::should_keep`. -/
def shouldKeep (gate : ClipRateGate) (ptsMs : UInt64) : Bool :=
  match gate.lastAcceptedPts with
  | none => true
  | some lastPts => gate.sampleIntervalMs ≤ satSub ptsMs lastPts

/-- `ClipRateGate::commit`. -/
def commit (gate : ClipRateGate) (ptsMs : UInt64) : ClipRateGate :=
  { gate with lastAcceptedPts := some ptsMs }

end ClipRateGate

/-- A decoded frame of the clip path. -/
structure StreamFrame where
  jpeg : Option Bytes
  ptsMs : UInt64

/-- An image that is there and not empty. -/
def usable (jpeg : Option Bytes) : Option Bytes := jpeg.filter (· ≠ [])

/-- `build_clip_stream_frame_from_yuv`: the frame that is sent on, and the gate after it. Whether
the planes are well formed and what the encoder yields are inputs; `workers.rs:337`. -/
def buildClipStreamFrame (gate : ClipRateGate) (wellFormed : Bool) (ptsMs : UInt64)
    (encode : Option Bytes) : Option StreamFrame × ClipRateGate :=
  if !wellFormed then (none, gate)
  else if gate.shouldKeep ptsMs then
    let jpeg := usable encode
    (some ⟨jpeg, ptsMs⟩, if jpeg.isSome then gate.commit ptsMs else gate)
  else (some ⟨none, ptsMs⟩, gate)

/-- A frame in the buffer of the accumulator. -/
structure ClipFrame where
  ptsMs : UInt64
  jpeg : Bytes

/-- `MAX_CLIP_FRAMES_PER_REQUEST`; `clip.rs:59`. -/
def maxClipFramesPerRequest : Nat := 64

/-- `u64::abs_diff`. -/
def absDiff (a b : UInt64) : UInt64 := if a ≤ b then b - a else a - b

/-- The slot of a frame that is neither first nor last. -/
def clipSlot (ptsMs windowStartPts windowMs : UInt64) : Nat :=
  let elapsed := min (satSub ptsMs windowStartPts) windowMs
  let slot := if windowMs = 0 then 0 else (elapsed.toNat * 63 + windowMs.toNat / 2) / windowMs.toNat
  min (max slot 1) (maxClipFramesPerRequest - 2)

/-- Put a frame into its slot, unless what is there lies at least as close to the middle of it. -/
def placeInSlot (windowStartPts windowMs : UInt64) (slots : List (Option ClipFrame))
    (frame : ClipFrame) : List (Option ClipFrame) :=
  let slot := clipSlot frame.ptsMs windowStartPts windowMs
  let targetPts := windowStartPts + UInt64.ofNat ((slot * windowMs.toNat + 63 / 2) / 63)
  match slots[slot]? with
  | some (some existing) =>
    if absDiff existing.ptsMs targetPts ≤ absDiff frame.ptsMs targetPts then slots
    else slots.set slot (some frame)
  | _ => slots.set slot (some frame)

/-- `downsample_clip_buffer`; `clip.rs:549`. -/
def downsampleClipBuffer (buffer : List ClipFrame) (windowStartPts windowMs : UInt64) :
    List ClipFrame :=
  match buffer with
  | [] => []
  | first :: rest =>
    if buffer.length ≤ maxClipFramesPerRequest then buffer
    else
      let slots := rest.dropLast.foldl (placeInSlot windowStartPts windowMs)
        ((List.replicate maxClipFramesPerRequest none).set 0 (some first))
      (slots.set (maxClipFramesPerRequest - 1) rest.getLast?).filterMap id

/-- A clip that is ready. -/
structure ClipWork where
  frames : List ClipFrame
  ptsStart : UInt64
  ptsEnd : UInt64

/-- `ClipAccumulator`, where the length of a window and the delay are in milliseconds and the last
emission is kept by the caller's clock; `clip.rs:193`. -/
structure ClipAccumulator where
  windowMs : UInt64
  delayMs : UInt64
  buffer : List ClipFrame
  rateGate : ClipRateGate
  windowStartPts : Option UInt64
  lastEmit : Option Nat

namespace ClipAccumulator

/-- `ClipAccumulator::new`. -/
def new (targetFps : UInt32) (windowMs delayMs : UInt64) : ClipAccumulator :=
  ⟨windowMs, delayMs, [], .new targetFps, none, none⟩

/-- The frame is taken into the buffer. -/
def accepts (acc : ClipAccumulator) (frame : StreamFrame) : Bool :=
  acc.rateGate.shouldKeep frame.ptsMs && (usable frame.jpeg).isSome

/-- `ClipAccumulator::push` at a time; `clip.rs:225`. -/
def push (acc : ClipAccumulator) (now : Nat) (frame : StreamFrame) :
    Option ClipWork × ClipAccumulator :=
  if !acc.rateGate.shouldKeep frame.ptsMs then (none, acc)
  else
    match usable frame.jpeg with
    | none => (none, acc)
    | some jpeg =>
      let windowStartPts := acc.windowStartPts.getD frame.ptsMs
      let buffer := acc.buffer ++ [⟨frame.ptsMs, jpeg⟩]
      let buffer := if buffer.length > maxClipFramesPerRequest then
        downsampleClipBuffer buffer windowStartPts acc.windowMs else buffer
      let acc := { acc with
        rateGate := acc.rateGate.commit frame.ptsMs
        windowStartPts := some windowStartPts
        buffer := buffer }
      if satSub frame.ptsMs windowStartPts < acc.windowMs then (none, acc)
      else if 0 < acc.delayMs ∧ acc.lastEmit.any (now - · < acc.delayMs.toNat) then
        let buffer := acc.buffer.drop 1
        (none, { acc with buffer := buffer, windowStartPts := buffer.head?.map ClipFrame.ptsMs })
      else
        let ptsStart := (acc.buffer.head?.map ClipFrame.ptsMs).getD 0
        (some ⟨acc.buffer, ptsStart, (acc.buffer.getLast?.map ClipFrame.ptsMs).getD ptsStart⟩,
          { acc with buffer := [], lastEmit := some now, windowStartPts := none })

/-- The gate after a frame. -/
theorem rateGate_push (acc : ClipAccumulator) (now : Nat) (frame : StreamFrame) :
    (acc.push now frame).2.rateGate =
      if acc.accepts frame then acc.rateGate.commit frame.ptsMs else acc.rateGate := by
  unfold push accepts
  cases acc.rateGate.shouldKeep frame.ptsMs with
  | false => rfl
  | true =>
    cases usable frame.jpeg with
    | none => rfl
    | some jpeg =>
      rw [if_neg (by decide)]
      dsimp only
      split
      · rfl
      · split <;> rfl

end ClipAccumulator

/-- A frame that is sent on has the time it came with. -/
theorem ptsMs_buildClipStreamFrame {gate : ClipRateGate} {wellFormed : Bool} {ptsMs : UInt64}
    {encode : Option Bytes} {frame : StreamFrame}
    (h : (buildClipStreamFrame gate wellFormed ptsMs encode).1 = some frame) :
    frame.ptsMs = ptsMs := by
  unfold buildClipStreamFrame at h
  split at h
  · cases h
  · split at h
    · cases h
      rfl
    · cases h
      rfl

/-- The gate after a decoded frame. -/
theorem gate_buildClipStreamFrame (gate : ClipRateGate) (wellFormed : Bool) (ptsMs : UInt64)
    (encode : Option Bytes) :
    (buildClipStreamFrame gate wellFormed ptsMs encode).2 =
      if ((buildClipStreamFrame gate wellFormed ptsMs encode).1.bind StreamFrame.jpeg).isSome
      then gate.commit ptsMs else gate := by
  unfold buildClipStreamFrame
  cases wellFormed with
  | false => rfl
  | true =>
    cases gate.shouldKeep ptsMs with
    | false => rfl
    | true => rfl

end Vidarax.Live
