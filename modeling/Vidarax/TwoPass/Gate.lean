import Vidarax.Base.FloatArith
import Vidarax.Live.Gate

/-!
# The gate of the two-pass filter

Package `vidarax-core`, `crates/vidarax-core/src/gate.rs:8–192`. The conditions of a frame are packed
into the bits of a byte, the lower bit the higher priority, and the lowest bit that is set selects the
decision. It is the decision of a chain of conditions about the last kept keyframe.
-/

namespace Vidarax.TwoPass

open Vidarax.Base
open Live (GateEventType)

/-- `GateConfig`; `gate.rs:9`. -/
structure GateConfig where
  keepaliveEveryFrames : UInt64
  sceneCutHammingThreshold : Nat
  lumaShiftThreshold : F32
  flickerThreshold : F32
  ghostingThreshold : F32
  noiseVarianceThreshold : F32

/-- `FrameSignal`; `gate.rs:32`. -/
structure FrameSignal where
  frameIndex : UInt64
  ptsMs : UInt64
  perceptualHash : UInt64
  lumaMean : F32
  flickerScore : F32
  ghostingScore : F32
  noiseVarianceScore : F32

/-- `GateReasonCode`; `gate.rs:56`. -/
inductive GateReasonCode where
  | initialFrame
  | sceneCut
  | periodicKeepalive
  | exposureShift
  | flickerSuspected
  | ghostingSuspected
  | noiseVarianceSpike
  | noTrigger
  deriving DecidableEq

/-- `GateEvent`; `gate.rs:90`. -/
structure GateEvent where
  eventType : GateEventType
  frameIndex : UInt64
  ptsMs : UInt64
  confidence : F32
  reasonCode : GateReasonCode

/-! ### Lowest bits -/

/-- `u8::trailing_zeros`. -/
def trailingZeros (bits : UInt8) : Nat := ((List.range 8).find? bits.toNat.testBit).getD 8

/-- A condition as a bit. -/
def bit (b : Bool) : UInt8 := if b then 1 else 0

/-- Conditions in the order of their priority, and the bit that is always set. -/
def packed (b0 b1 b2 b3 b4 b5 b6 : Bool) : UInt8 :=
  bit b0 ||| bit b1 <<< 1 ||| bit b2 <<< 2 ||| bit b3 <<< 3 ||| bit b4 <<< 4 ||| bit b5 <<< 5 |||
    bit b6 <<< 6 ||| 0x80

/-- The bit that is always set is found. -/
theorem trailingZeros_packed_lt (b0 b1 b2 b3 b4 b5 b6 : Bool) :
    trailingZeros (packed b0 b1 b2 b3 b4 b5 b6) < 8 := by
  revert b0 b1 b2 b3 b4 b5 b6
  decide +kernel

/-- Place of the lowest bit. -/
def selected (b0 b1 b2 b3 b4 b5 b6 : Bool) : Fin 8 :=
  ⟨trailingZeros (packed b0 b1 b2 b3 b4 b5 b6), trailingZeros_packed_lt _ _ _ _ _ _ _⟩

/-- The lowest bit is that of the first condition that holds. -/
theorem selected_eq (b0 b1 b2 b3 b4 b5 b6 : Bool) : selected b0 b1 b2 b3 b4 b5 b6 =
    if b0 then 0 else if b1 then 1 else if b2 then 2 else if b3 then 3 else if b4 then 4
    else if b5 then 5 else if b6 then 6 else 7 := by
  revert b0 b1 b2 b3 b4 b5 b6
  decide +kernel

/-! ### The engine -/

/-- `GateEngine`; `gate.rs:98`. -/
structure GateEngine where
  config : GateConfig
  initialized : Bool
  lastKeptFrameIndex : UInt64
  lastKeptHash : UInt64
  lastKeptLuma : F32

/-- `EVENT_TYPES`. -/
def eventTypes : Vector GateEventType 8 := #v[.keepKeyframe, .keepKeyframe, .keepKeyframe,
  .suspectArtifact, .suspectArtifact, .suspectArtifact, .suspectArtifact, .skip]

/-- `REASONS`. -/
def reasons : Vector GateReasonCode 8 := #v[.initialFrame, .sceneCut, .periodicKeepalive,
  .exposureShift, .flickerSuspected, .ghostingSuspected, .noiseVarianceSpike, .noTrigger]

/-- `0.0..=1.0`. -/
def unit (x : F32) : F32 := x.clamp .zero .one

namespace GateEngine

/-- `GateEngine::new`. -/
def new (config : GateConfig) : GateEngine := ⟨config, false, 0, 0, .zero⟩

/-- `GateEngine::process`; `gate.rs:126`. -/
def process (gate : GateEngine) (s : FrameSignal) : GateEvent :=
  let hashDistance := countOnes (gate.lastKeptHash ^^^ s.perceptualHash)
  let framesSinceKeep := satSub s.frameIndex gate.lastKeptFrameIndex
  let lumaShift := (gate.lastKeptLuma.sub s.lumaMean).abs
  let idx := selected (!gate.initialized)
    (gate.config.sceneCutHammingThreshold ≤ hashDistance)
    (gate.config.keepaliveEveryFrames ≤ framesSinceKeep)
    (gate.config.lumaShiftThreshold.le lumaShift)
    (gate.config.flickerThreshold.le s.flickerScore)
    (gate.config.ghostingThreshold.le s.ghostingScore)
    (gate.config.noiseVarianceThreshold.le s.noiseVarianceScore)
  let confidences : Vector F32 8 := #v[.one, unit ((F32.ofInt hashDistance).div (.ofInt 64)), .one,
    unit lumaShift, unit s.flickerScore, unit s.ghostingScore, unit s.noiseVarianceScore, .zero]
  ⟨eventTypes[idx], s.frameIndex, s.ptsMs, confidences[idx], reasons[idx]⟩

/-- `GateEngine::commit_keyframe`. -/
def commitKeyframe (gate : GateEngine) (s : FrameSignal) : GateEngine :=
  { gate with
    initialized := true
    lastKeptFrameIndex := s.frameIndex
    lastKeptHash := s.perceptualHash
    lastKeptLuma := s.lumaMean }

end GateEngine

/-! ### The chain of conditions -/

/-- What is compared of a keyframe that was kept. -/
structure Keyframe where
  frameIndex : UInt64
  perceptualHash : UInt64
  lumaMean : F32

/-- A frame as a keyframe. -/
def FrameSignal.keyframe (s : FrameSignal) : Keyframe := ⟨s.frameIndex, s.perceptualHash, s.lumaMean⟩

/-- The keyframe that an engine kept last. -/
def GateEngine.lastKept (gate : GateEngine) : Option Keyframe :=
  if gate.initialized then some ⟨gate.lastKeptFrameIndex, gate.lastKeptHash, gate.lastKeptLuma⟩
  else none

/-- The decision about a frame, by the documented priorities: `process_reference` of the tests,
without its commits; `gate.rs:219`. -/
def processReference (config : GateConfig) (lastKept : Option Keyframe) (s : FrameSignal) :
    GateEvent :=
  match lastKept with
  | none => ⟨.keepKeyframe, s.frameIndex, s.ptsMs, .one, .initialFrame⟩
  | some kept =>
    let hashDistance := countOnes (kept.perceptualHash ^^^ s.perceptualHash)
    let lumaShift := (kept.lumaMean.sub s.lumaMean).abs
    if config.sceneCutHammingThreshold ≤ hashDistance then
      ⟨.keepKeyframe, s.frameIndex, s.ptsMs, unit ((F32.ofInt hashDistance).div (.ofInt 64)),
        .sceneCut⟩
    else if config.keepaliveEveryFrames ≤ satSub s.frameIndex kept.frameIndex then
      ⟨.keepKeyframe, s.frameIndex, s.ptsMs, .one, .periodicKeepalive⟩
    else if config.lumaShiftThreshold.le lumaShift then
      ⟨.suspectArtifact, s.frameIndex, s.ptsMs, unit lumaShift, .exposureShift⟩
    else if config.flickerThreshold.le s.flickerScore then
      ⟨.suspectArtifact, s.frameIndex, s.ptsMs, unit s.flickerScore, .flickerSuspected⟩
    else if config.ghostingThreshold.le s.ghostingScore then
      ⟨.suspectArtifact, s.frameIndex, s.ptsMs, unit s.ghostingScore, .ghostingSuspected⟩
    else if config.noiseVarianceThreshold.le s.noiseVarianceScore then
      ⟨.suspectArtifact, s.frameIndex, s.ptsMs, unit s.noiseVarianceScore, .noiseVarianceSpike⟩
    else ⟨.skip, s.frameIndex, s.ptsMs, .zero, .noTrigger⟩

/-- What the tables hold at the place of the first condition that holds. -/
private theorem at_selected (scores : Vector F32 8) (frameIndex ptsMs : UInt64)
    (b0 b1 b2 b3 b4 b5 b6 : Bool) :
    let idx := selected b0 b1 b2 b3 b4 b5 b6
    (⟨eventTypes[idx], frameIndex, ptsMs, scores[idx], reasons[idx]⟩ : GateEvent) =
      if b0 then ⟨.keepKeyframe, frameIndex, ptsMs, scores[0], .initialFrame⟩
      else if b1 then ⟨.keepKeyframe, frameIndex, ptsMs, scores[1], .sceneCut⟩
      else if b2 then ⟨.keepKeyframe, frameIndex, ptsMs, scores[2], .periodicKeepalive⟩
      else if b3 then ⟨.suspectArtifact, frameIndex, ptsMs, scores[3], .exposureShift⟩
      else if b4 then ⟨.suspectArtifact, frameIndex, ptsMs, scores[4], .flickerSuspected⟩
      else if b5 then ⟨.suspectArtifact, frameIndex, ptsMs, scores[5], .ghostingSuspected⟩
      else if b6 then ⟨.suspectArtifact, frameIndex, ptsMs, scores[6], .noiseVarianceSpike⟩
      else ⟨.skip, frameIndex, ptsMs, scores[7], .noTrigger⟩ := by
  have hplace := congrArg (fun idx : Fin 8 ↦
    (⟨eventTypes[idx], frameIndex, ptsMs, scores[idx], reasons[idx]⟩ : GateEvent))
    (selected_eq b0 b1 b2 b3 b4 b5 b6)
  refine hplace.trans ?_
  cases b0 with
  | true => rfl
  | false =>
  cases b1 with
  | true => rfl
  | false =>
  cases b2 with
  | true => rfl
  | false =>
  cases b3 with
  | true => rfl
  | false =>
  cases b4 with
  | true => rfl
  | false =>
  cases b5 with
  | true => rfl
  | false => cases b6 <;> rfl

/-- The lowest bit selects the decision of the chain. -/
theorem process_eq (gate : GateEngine) (s : FrameSignal) :
    gate.process s = processReference gate.config gate.lastKept s := by
  refine (at_selected _ _ _ _ _ _ _ _ _ _).trans ?_
  unfold processReference GateEngine.lastKept
  cases gate.initialized with
  | false => rfl
  | true =>
    simp only [Bool.not_true, Bool.false_eq_true, if_false, if_true, decide_eq_true_eq]
    rfl

end Vidarax.TwoPass
