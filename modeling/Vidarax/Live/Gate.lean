import Vidarax.Live.Clip
import Vidarax.Trigger.Machine

/-!
# The gate of a live session

Package `vidarax-core`, `crates/vidarax-core/src/loop_detector.rs`, `zone.rs:132–222` and
`webrtc/workers.rs:374–659,1047–1125`. For each decoded frame the gate detects loops, analyses the
frame, watches a zone and runs a trigger program, and hands the frame to one of three bounded
queues. The two-pass analysis is a parameter. What names the run and the place of the frame in it
goes into every item alike and is left out.
-/

namespace Vidarax.Live

open Vidarax.Base Vidarax.Trigger

/-! ### Loops -/

/-- `LoopDetector`; `loop_detector.rs:3`. -/
structure LoopDetector where
  recentHashes : List UInt64
  cursor : UInt64
  threshold : Nat
  repeatTrigger : Nat

namespace LoopDetector

/-- `LoopDetector::new`. -/
def new (threshold repeatTrigger : Nat) : LoopDetector :=
  ⟨List.replicate 8 (UInt64.ofNat u64Max), 0, threshold, repeatTrigger⟩

/-- `LoopDetector::check`. -/
def check (d : LoopDetector) (hash : UInt64) : Bool × LoopDetector :=
  let found := d.recentHashes.countP fun h ↦ countOnes (h ^^^ hash) < d.threshold
  (d.repeatTrigger ≤ found, { d with
    recentHashes := d.recentHashes.set (d.cursor.toNat % 8) hash
    cursor := d.cursor + 1 })

end LoopDetector

/-! ### Zones -/

/-- What a zone policy decides by; `zone.rs:32`. -/
structure RestrictedZonePolicy where
  enterMotionScore : F32
  exitMotionScore : F32
  enterAfterFrames : UInt16
  exitAfterFrames : UInt16

/-- `ZoneActivityTransition`; `zone.rs:132`. -/
inductive ZoneActivityTransition where
  | entered
  | exited
  deriving DecidableEq

/-- `ZoneActivityObservation`; `zone.rs:138`. -/
structure ZoneActivityObservation where
  transition : ZoneActivityTransition
  motionScore : F32
  threshold : F32
  consecutiveFrames : UInt16

/-- `RestrictedZoneState`; `zone.rs:152`. -/
structure RestrictedZoneState where
  policy : RestrictedZonePolicy
  active : Bool
  enterStreak : UInt16
  exitStreak : UInt16

namespace RestrictedZoneState

/-- A zone before its first frame. -/
def new (policy : RestrictedZonePolicy) : RestrictedZoneState := ⟨policy, false, 0, 0⟩

/-- `u16::saturating_add` of one. -/
def grow (streak : UInt16) : UInt16 := UInt16.ofNat (min (streak.toNat + 1) 65535)

/-- `RestrictedZoneState::observe`; `zone.rs:178`. -/
def observe (z : RestrictedZoneState) (motionScore : F32) :
    Option ZoneActivityObservation × RestrictedZoneState :=
  if z.active then
    if motionScore.le z.policy.exitMotionScore then
      let exitStreak := grow z.exitStreak
      if z.policy.exitAfterFrames ≤ exitStreak then
        (some ⟨.exited, motionScore, z.policy.exitMotionScore, exitStreak⟩,
          { z with active := false, enterStreak := 0, exitStreak := 0 })
      else (none, { z with enterStreak := 0, exitStreak := exitStreak })
    else (none, { z with enterStreak := 0, exitStreak := 0 })
  else if z.policy.enterMotionScore.le motionScore then
    let enterStreak := grow z.enterStreak
    if z.policy.enterAfterFrames ≤ enterStreak then
      (some ⟨.entered, motionScore, z.policy.enterMotionScore, enterStreak⟩,
        { z with active := true, enterStreak := 0, exitStreak := 0 })
    else (none, { z with enterStreak := enterStreak, exitStreak := 0 })
  else (none, { z with enterStreak := 0, exitStreak := 0 })

end RestrictedZoneState

/-! ### The gate -/

/-- Frame statistics that the gate reads itself; the analysis sees the rest of them too. -/
structure FrameSignal where
  frameIndex : UInt64
  perceptualHash : UInt64
  statistics : List F32

/-- `GateEventType`; `gate.rs`. -/
inductive GateEventType where
  | keepKeyframe
  | suspectArtifact
  | skip
  deriving DecidableEq

/-- What the gate uses of the metadata of a frame; `pipeline.rs:29`. -/
structure FrameMetadata where
  gateEvent : GateEventType
  sceneCut : Bool
  noveltyScore : F32
  motionScore : F32
  confidence : F32

/-- `TwoPassPipeline`: analysis of one frame without the commit of a keyframe, and the commit. -/
structure TwoPassPipeline (σ : Type) where
  analyze : σ → FrameSignal → FrameMetadata × σ
  commitGateKeyframe : σ → FrameSignal → σ

/-- Counters that the gate and the dispatch increment. -/
structure PipelineMetrics where
  loopDetected : Nat
  gateFrameAnalyzed : Nat
  gateKeyframeSelected : Nat
  triggerMissingSignal : Nat
  restrictedZoneQueueDropped : Nat
  triggerQueueDropped : Nat
  keyframes : Nat
  keyframesDropped : Nat

/-- `LoopDetectedEvent`; `workers.rs:383`. -/
structure LoopDetectedEvent where
  frameIndex : UInt64
  ptsMs : UInt64

/-- `KeyframeWork`. -/
structure KeyframeWork where
  frameIndex : UInt64
  ptsMs : UInt64
  eventType : String
  confidence : F32
  noveltyScore : F32
  motionScore : F32
  jpegBytes : Bytes
  loopActive : Bool

/-- `TriggerFire`; `workers.rs:412`. -/
structure TriggerFire where
  program : TriggerProgram
  eventType : String
  notifyWebhook : Bool
  notifyLocalOutput : Bool

/-- `GateFrameOutcome`; `workers.rs:394`. -/
structure GateFrameOutcome where
  work : Option KeyframeWork
  zoneEntered : Option ZoneActivityObservation
  triggerFired : Option TriggerFire

/-- A frame that is dropped. -/
def GateFrameOutcome.none : GateFrameOutcome := ⟨.none, .none, .none⟩

/-- `GateStreamState`; `workers.rs:428`. -/
structure GateStreamState (σ : Type) where
  pipeline : σ
  loopDet : LoopDetector
  zone : Option RestrictedZoneState
  trigger : Option TriggerVm
  loopActive : Bool

namespace GateStreamState

variable {σ : Type}

/-- `observe_loop`; `workers.rs:472`. -/
def observeLoop (gate : GateStreamState σ) (m : PipelineMetrics) (signal : FrameSignal)
    (ptsMs : UInt64) : Option LoopDetectedEvent × GateStreamState σ × PipelineMetrics :=
  let (looping, loopDet) := gate.loopDet.check signal.perceptualHash
  if looping ∧ ¬ gate.loopActive then
    (some ⟨signal.frameIndex, ptsMs⟩, { gate with loopDet := loopDet, loopActive := true },
      { m with loopDetected := m.loopDetected + 1 })
  else (none, { gate with loopDet := loopDet, loopActive := looping }, m)

/-- Watch the zone, if there is one: what entered, and the zone after it. -/
def watchZone (zone : Option RestrictedZoneState) (motionScore : F32) :
    Option ZoneActivityObservation × Option RestrictedZoneState :=
  match zone with
  | none => (none, none)
  | some zone =>
    let (observation, zone) := zone.observe motionScore
    (observation.filter (·.transition = .entered), some zone)

/-- The sample of a frame. -/
def sampleOf (ptsMs : UInt64) (metadata : FrameMetadata) : TriggerSample :=
  ⟨ptsMs, some metadata.motionScore, some metadata.noveltyScore, some metadata.confidence, none, none, []⟩

/-- Name of the last event that actions emit. -/
def eventTypeOf (actions : List TriggerInstruction) : Option String :=
  actions.foldl (fun eventType action ↦
    match action with
    | .emit value => some value
    | _ => eventType) none

/-- What a firing of a program is. Actions are looked up in the program. -/
def fireOf (program : TriggerProgram) (evaluation : TriggerEvaluation) : Option TriggerFire :=
  if ¬ evaluation.fired then none
  else
    let actions := (evaluation.actions program).getD []
    (eventTypeOf actions).map fun eventType ↦
      ⟨program, eventType, actions.any (· = .notify .webhook),
        actions.any (· = .notify .localOutput)⟩

/-- Run the trigger program, if there is one: what fired, the machine after it, and whether a
signal was missing. -/
def runTrigger (trigger : Option TriggerVm) (sample : TriggerSample) :
    Option TriggerFire × Option TriggerVm × Bool :=
  match trigger with
  | none => (none, none, false)
  | some vm =>
    let run := vm.evaluate sample
    (fireOf vm.program run.evaluation, some run.vm, run.evaluation.missingSignal)

/-- Name of the event of a kept frame. -/
def eventTypeFor (metadata : FrameMetadata) (zoneEntered : Option ZoneActivityObservation) : String :=
  if metadata.sceneCut then "scene_cut"
  else if zoneEntered.isSome ∧ metadata.gateEvent ≠ .keepKeyframe then "restricted_zone_activity"
  else "periodic_keepalive"

/-- `on_frame`, where `encode` is what the encoder would yield; `workers.rs:506`. -/
def onFrame (pipeline : TwoPassPipeline σ) (gate : GateStreamState σ) (m : PipelineMetrics)
    (signal : FrameSignal) (ptsMs : UInt64) (encode : Option Bytes) :
    GateFrameOutcome × GateStreamState σ × PipelineMetrics :=
  let (_, gate, m) := gate.observeLoop m signal ptsMs
  let (metadata, state) := pipeline.analyze gate.pipeline signal
  let m := { m with gateFrameAnalyzed := m.gateFrameAnalyzed + 1 }
  let (zoneEntered, zone) := watchZone gate.zone metadata.motionScore
  let (triggerFired, trigger, missing) := runTrigger gate.trigger (sampleOf ptsMs metadata)
  let m := if missing then { m with triggerMissingSignal := m.triggerMissingSignal + 1 } else m
  let gate := { gate with pipeline := state, zone := zone, trigger := trigger }
  if metadata.gateEvent ≠ .keepKeyframe ∧ zoneEntered.isNone ∧ triggerFired.isNone then
    (.none, gate, m)
  else
    let m := if metadata.gateEvent = .keepKeyframe then
      { m with gateKeyframeSelected := m.gateKeyframeSelected + 1 } else m
    match usable encode with
    | none => (.none, gate, m)
    | some jpegBytes =>
      let gate := { gate with pipeline := pipeline.commitGateKeyframe gate.pipeline signal }
      (⟨some ⟨signal.frameIndex, ptsMs, eventTypeFor metadata zoneEntered, metadata.confidence,
        metadata.noveltyScore, metadata.motionScore, jpegBytes, gate.loopActive⟩, zoneEntered,
        triggerFired⟩, gate, m)

end GateStreamState

/-! ### Dispatch -/

/-- `ZoneEvidenceWork`. -/
structure ZoneEvidenceWork where
  work : KeyframeWork
  policy : RestrictedZonePolicy
  observation : ZoneActivityObservation

/-- `TriggerAssertionWork`. -/
structure TriggerAssertionWork where
  work : KeyframeWork
  fire : TriggerFire

/-- Keyframe mode of a decode worker; `workers.rs:672`. Zone and trigger queues may be missing. -/
structure KeyframeSink (σ : Type) where
  gate : GateStreamState σ
  zoneTx : Bool
  triggerTx : Bool
  metrics : PipelineMetrics

/-- Items that the queues took. -/
structure Accepted where
  zone : Option ZoneEvidenceWork
  trigger : Option TriggerAssertionWork
  vlm : Option KeyframeWork

/-- A well-formed decoded frame, with what the encoder would yield for it and which queues have
room for it. -/
structure DecodedFrame where
  signal : FrameSignal
  ptsMs : UInt64
  encode : Option Bytes
  zoneRoom : Bool
  triggerRoom : Bool
  vlmRoom : Bool

namespace KeyframeSink

variable {σ : Type}

/-- Hand over what the gate returned; `workers.rs:1077`. -/
def dispatch (sink : KeyframeSink σ) (frame : DecodedFrame) (outcome : GateFrameOutcome) :
    Accepted × PipelineMetrics :=
  let m := sink.metrics
  match outcome.work with
  | none => (⟨none, none, none⟩, m)
  | some work =>
    match outcome.zoneEntered with
    | some observation =>
      match sink.gate.zone with
      | none => (⟨none, none, none⟩, m)
      | some zone =>
        if sink.zoneTx ∧ frame.zoneRoom then
          (⟨some ⟨work, zone.policy, observation⟩, none, none⟩, m)
        else (⟨none, none, none⟩, { m with
          restrictedZoneQueueDropped := m.restrictedZoneQueueDropped + 1
          keyframesDropped := m.keyframesDropped + 1 })
    | none =>
      match outcome.triggerFired with
      | some fire =>
        if sink.triggerTx ∧ frame.triggerRoom then (⟨none, some ⟨work, fire⟩, none⟩, m)
        else (⟨none, none, none⟩, { m with
          triggerQueueDropped := m.triggerQueueDropped + 1
          keyframesDropped := m.keyframesDropped + 1 })
      | none =>
        if frame.vlmRoom then (⟨none, none, some work⟩, { m with keyframes := m.keyframes + 1 })
        else (⟨none, none, none⟩, { m with keyframesDropped := m.keyframesDropped + 1 })

/-- A decoded frame in keyframe mode; `workers.rs:1047`. -/
def onDecoded (pipeline : TwoPassPipeline σ) (sink : KeyframeSink σ) (frame : DecodedFrame) :
    Accepted × KeyframeSink σ :=
  let (outcome, gate, m) :=
    sink.gate.onFrame pipeline sink.metrics frame.signal frame.ptsMs frame.encode
  let sink := { sink with gate := gate, metrics := m }
  let (accepted, m) := sink.dispatch frame outcome
  (accepted, { sink with metrics := m })

end KeyframeSink

end Vidarax.Live
