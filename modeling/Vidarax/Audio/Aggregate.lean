import Vidarax.Base.Machine
import Vidarax.Base.Table

/-!
# Windows of live audio

Package `vidarax-api`, `live_audio.rs:24–162`, with `LiveAudioFrame` of `webrtc/session.rs`. The
aggregation task collects the frames of each track in an accumulator and hands windows of them to a
queue that may be full. A frame that does not follow the one before it begins a new accumulator.
-/

namespace Vidarax.Audio

open Base

/-- `LiveAudioFrame`. -/
structure LiveAudioFrame where
  trackId : UInt64
  rtpTimestamp : UInt32
  clockRate : UInt32
  sequenceNumber : Option UInt16
  data : List UInt8
  deriving DecidableEq

/-- `LiveAudioWindow`. -/
structure LiveAudioWindow where
  trackId : UInt64
  sourceStartMs : Nat
  frames : List LiveAudioFrame
  deriving DecidableEq

/-- `MIN_LIVE_AUDIO_WINDOW_MS`. -/
def MIN_LIVE_AUDIO_WINDOW_MS : Nat := 250

/-- `TrackAccumulator`. -/
structure TrackAccumulator where
  anchorTimestamp : UInt32
  windowStartTimestamp : UInt32
  clockRate : UInt32
  lastSequenceNumber : Option UInt16
  frames : List LiveAudioFrame

namespace TrackAccumulator

/-- `TrackAccumulator::new`. -/
def new (frame : LiveAudioFrame) : TrackAccumulator where
  anchorTimestamp := frame.rtpTimestamp
  windowStartTimestamp := frame.rtpTimestamp
  clockRate := frame.clockRate
  lastSequenceNumber := frame.sequenceNumber
  frames := [frame]

/-- `TrackAccumulator::push`. -/
def push (acc : TrackAccumulator) (frame : LiveAudioFrame) : TrackAccumulator :=
  { acc with
    windowStartTimestamp :=
      if acc.frames = [] then frame.rtpTimestamp else acc.windowStartTimestamp
    lastSequenceNumber := frame.sequenceNumber
    frames := acc.frames ++ [frame] }

/-- `TrackAccumulator::accepts`. -/
def accepts (acc : TrackAccumulator) (frame : LiveAudioFrame) : Bool :=
  acc.clockRate = frame.clockRate &&
    match acc.lastSequenceNumber, frame.sequenceNumber with
    | some previous, some next => previous + 1 = next
    | _, _ => true

/-- Ticks of a clock in milliseconds; the product saturates. -/
def ticksMs (ticks clockRate : UInt32) : Nat := min (ticks.toNat * 1000) u64Max / clockRate.toNat

/-- `TrackAccumulator::duration_ms`. -/
def durationMs (acc : TrackAccumulator) : Nat :=
  match acc.frames.getLast? with
  | none => 0
  | some last =>
    if acc.clockRate = 0 then 0
    else ticksMs (last.rtpTimestamp - acc.windowStartTimestamp) acc.clockRate

/-- `TrackAccumulator::source_start_ms`. -/
def sourceStartMs (acc : TrackAccumulator) : Nat :=
  if acc.clockRate = 0 then 0
  else ticksMs (acc.windowStartTimestamp - acc.anchorTimestamp) acc.clockRate

/-- The window that `TrackAccumulator::take_window` answers. -/
def window (acc : TrackAccumulator) : LiveAudioWindow where
  trackId := (acc.frames.head?.map (·.trackId)).getD 0
  sourceStartMs := acc.sourceStartMs
  frames := acc.frames

/-- What `TrackAccumulator::take_window` leaves. -/
def taken (acc : TrackAccumulator) : TrackAccumulator := { acc with frames := [] }

end TrackAccumulator

open TrackAccumulator

/-- State of the aggregation task, with the windows that the work queue took. -/
structure Aggregation where
  tracks : Table UInt64 TrackAccumulator
  queued : List LiveAudioWindow
  dropped : Nat

namespace Aggregation

/-- The task begins. -/
def start : Aggregation := ⟨∅, [], 0⟩

/-- `work_tx.try_send`, with room in the queue or without. -/
def trySend (s : Aggregation) (window : LiveAudioWindow) (room : Bool) : Aggregation :=
  if room then { s with queued := s.queued ++ [window] } else { s with dropped := s.dropped + 1 }

/-- The accumulator of a track is replaced. -/
def insert (s : Aggregation) (trackId : UInt64) (acc : TrackAccumulator) : Aggregation :=
  { s with tracks := s.tracks.insert trackId acc }

/-- The task receives a frame while the queue has room or has none; `live_audio.rs:129`. -/
def receive (windowMs : Nat) (s : Aggregation) (frame : LiveAudioFrame) (room : Bool) :
    Aggregation :=
  if frame.clockRate = 0 ∨ frame.data = [] then { s with dropped := s.dropped + 1 }
  else
    match s.tracks[frame.trackId]? with
    | none => s.insert frame.trackId (.new frame)
    | some acc =>
      if ¬ acc.accepts frame then
        let s := if 1 < acc.frames.length then s.trySend acc.window room else s
        s.insert frame.trackId (.new frame)
      else
        let acc := acc.push frame
        if windowMs ≤ acc.durationMs then
          (s.trySend acc.window room).insert frame.trackId acc.taken
        else s.insert frame.trackId acc

/-- The last window of a track, when the frames have ended; `live_audio.rs:155`. -/
def flush (s : Aggregation) (trackId : UInt64) (room : Bool) : Aggregation :=
  match s.tracks[trackId]? with
  | none => s
  | some acc =>
    if MIN_LIVE_AUDIO_WINDOW_MS ≤ acc.durationMs then
      (s.trySend acc.window room).insert trackId acc.taken
    else s

/-- What the task receives, and the tracks that it flushes, with the room in the queue each time. -/
inductive Input where
  | frame (frame : LiveAudioFrame) (room : Bool)
  | ended (trackId : UInt64) (room : Bool)

/-- One round of the task. -/
def step (windowMs : Nat) (s : Aggregation) : Input → Aggregation
  | .frame frame room => s.receive windowMs frame room
  | .ended trackId room => s.flush trackId room

/-- The task runs. -/
def run (windowMs : Nat) (inputs : List Input) : Aggregation :=
  inputs.foldl (step windowMs) start

/-- The windows of a track in the queue. -/
def windowsOf (s : Aggregation) (trackId : UInt64) : List LiveAudioWindow :=
  s.queued.filter (·.trackId = trackId)

end Aggregation

/-- The frames of a track that the task collects. -/
def framesOf (trackId : UInt64) (inputs : List Aggregation.Input) : List LiveAudioFrame :=
  inputs.filterMap fun
    | .frame frame _ =>
      if frame.trackId = trackId ∧ frame.clockRate ≠ 0 ∧ frame.data ≠ [] then some frame else none
    | .ended _ _ => none

end Vidarax.Audio
