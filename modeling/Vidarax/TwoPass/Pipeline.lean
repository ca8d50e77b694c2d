import Vidarax.Base.Transducer
import Vidarax.TwoPass.Gate

/-!
# The two-pass filter

Package `vidarax-core`, `crates/vidarax-core/src/pipeline.rs:13–194`. A batch of frames goes through
the gate first, and then each frame is compared with the last ones in a window. Both passes carry
their state from batch to batch, so it does not matter how the frames are cut into batches. The two
buffers that are cleared at the start of a batch are its intermediate and final result here.
-/

namespace Vidarax.TwoPass

open Vidarax.Base
open Live (GateEventType)

/-- `TwoPassConfig`; `pipeline.rs:14`. -/
structure TwoPassConfig where
  windowSize : Nat
  segmentMs : UInt64
  confidenceWeights : F32 × F32 × F32

/-- `FrameMetadata`; `pipeline.rs:31`. -/
structure FrameMetadata where
  frameIndex : UInt64
  ptsMs : UInt64
  gateEvent : GateEventType
  sceneCut : Bool
  suspectArtifact : Bool
  noveltyScore : F32
  temporalStability : F32
  motionScore : F32
  confidence : F32
  segmentStartMs : UInt64
  segmentEndMs : UInt64

/-- `WindowSample`; `pipeline.rs:184`. -/
structure WindowSample where
  perceptualHash : UInt64
  lumaMean : F32

/-- `hamming_similarity`; `pipeline.rs:191`. -/
def hammingSimilarity (a b : UInt64) : F32 := (F32.ofInt (countOnes (a ^^^ b))).div (.ofInt 64)

/-! ### The window -/

/-- What the second pass keeps of `TwoPassPipeline`. Segments are not empty, and the cursor is a
place of the window; `pipeline.rs:45`. -/
structure SlidingWindow where
  segmentMs : UInt64
  confidenceWeights : F32 × F32 × F32
  window : List WindowSample
  windowLen : Nat
  cursor : Nat
  previousHash : Option UInt64
  segmentMs_ne_zero : segmentMs ≠ 0
  windowLen_le : windowLen ≤ window.length
  cursor_lt : cursor < window.length

namespace SlidingWindow

/-- `window_metrics`; `pipeline.rs:147`. -/
def windowMetrics (w : SlidingWindow) (hash : UInt64) (lumaMean : F32) : F32 × F32 :=
  if w.windowLen = 0 then (.one, .one)
  else
    let (distance, drift) := (w.window.take w.windowLen).foldl (fun (distance, drift) sample ↦
      (distance.add (hammingSimilarity hash sample.perceptualHash),
        drift.add (sample.lumaMean.sub lumaMean).abs)) (F32.zero, F32.zero)
    let inv := F32.one.div (.ofInt w.windowLen)
    (unit (distance.mul inv), unit (F32.one.sub (drift.mul inv)))

/-- `motion_score`; `pipeline.rs:166`. -/
def motionScore (w : SlidingWindow) (hash : UInt64) : F32 :=
  (w.previousHash.map fun prev ↦ hammingSimilarity prev hash).getD .zero

/-- `push_window`, and the hash that the next frame is compared with; `pipeline.rs:172`. -/
def pushWindow (w : SlidingWindow) (perceptualHash : UInt64) (lumaMean : F32) : SlidingWindow :=
  { w with
    window := w.window.set w.cursor ⟨perceptualHash, lumaMean⟩
    windowLen := if w.windowLen < w.window.length then w.windowLen + 1 else w.windowLen
    cursor := (w.cursor + 1) % w.window.length
    previousHash := some perceptualHash
    windowLen_le := by
      have := w.windowLen_le
      rw [List.length_set]
      split <;> omega
    cursor_lt := by
      rw [List.length_set]
      exact Nat.mod_lt _ (Nat.zero_lt_of_lt w.cursor_lt) }

/-- The second pass over one frame; `pipeline.rs:106`. -/
def pass2 (w : SlidingWindow) (frame : FrameSignal) (eventType : GateEventType)
    (reasonCode : GateReasonCode) : SlidingWindow × FrameMetadata :=
  let (novelty, stability) := w.windowMetrics frame.perceptualHash frame.lumaMean
  let motion := w.motionScore frame.perceptualHash
  let (noveltyWeight, instabilityWeight, motionWeight) := w.confidenceWeights
  let confidence := unit (((noveltyWeight.mul novelty).add
    (instabilityWeight.mul (F32.one.sub stability))).add (motionWeight.mul motion))
  let segmentStartMs := frame.ptsMs / w.segmentMs * w.segmentMs
  (w.pushWindow frame.perceptualHash frame.lumaMean,
    { frameIndex := frame.frameIndex
      ptsMs := frame.ptsMs
      gateEvent := eventType
      sceneCut := reasonCode = .sceneCut
      suspectArtifact := eventType = .suspectArtifact
      noveltyScore := novelty
      temporalStability := stability
      motionScore := motion
      confidence := confidence
      segmentStartMs := segmentStartMs
      segmentEndMs := segmentStartMs + w.segmentMs })

/-- Over a frame and what the first pass says about it. -/
def step (w : SlidingWindow) (frame : FrameSignal × GateEvent) : SlidingWindow × FrameMetadata :=
  w.pass2 frame.1 frame.2.eventType frame.2.reasonCode

end SlidingWindow

/-- The first pass over one frame; `pipeline.rs:93`. -/
def pass1 (commitKeptKeyframes : Bool) (gate : GateEngine) (frame : FrameSignal) :
    GateEngine × GateEvent :=
  let event := gate.process frame
  (if commitKeptKeyframes ∧ event.eventType = .keepKeyframe then gate.commitKeyframe frame else gate,
    event)

/-! ### The pipeline -/

/-- `TwoPassPipeline`; `pipeline.rs:45`. -/
structure TwoPassPipeline where
  gate : GateEngine
  window : SlidingWindow

private theorem max_one_ne_zero (n : UInt64) : max n 1 ≠ 0 := by
  change (if n ≤ 1 then 1 else n) ≠ 0
  split
  · decide
  · next h =>
    rintro rfl
    exact h (by decide)

namespace TwoPassPipeline

/-- `TwoPassPipeline::new`; `pipeline.rs:57`. -/
def new (config : TwoPassConfig) (gateConfig : GateConfig) : TwoPassPipeline where
  gate := .new gateConfig
  window :=
    { segmentMs := max config.segmentMs 1
      confidenceWeights := config.confidenceWeights
      window := List.replicate (max config.windowSize 2) ⟨0, .zero⟩
      windowLen := 0
      cursor := 0
      previousHash := none
      segmentMs_ne_zero := max_one_ne_zero _
      windowLen_le := Nat.zero_le _
      cursor_lt := by
        rw [List.length_replicate]
        omega }

/-- Events of the first pass over a batch. -/
def events (pipeline : TwoPassPipeline) (commitKeptKeyframes : Bool) (frames : List FrameSignal) :
    List GateEvent :=
  outputs (pass1 commitKeptKeyframes) pipeline.gate frames

/-- `analyze_batch_inner`: what is returned, and the next state; `pipeline.rs:86`. -/
def analyzeBatchInner (pipeline : TwoPassPipeline) (frames : List FrameSignal)
    (commitKeptKeyframes : Bool) : List FrameMetadata × TwoPassPipeline :=
  let pass1Buf := pipeline.events commitKeptKeyframes frames
  (outputs SlidingWindow.step pipeline.window (frames.zip pass1Buf),
    ⟨stateAfter (pass1 commitKeptKeyframes) pipeline.gate frames,
      stateAfter SlidingWindow.step pipeline.window (frames.zip pass1Buf)⟩)

/-- `analyze_batch`. -/
def analyzeBatch (pipeline : TwoPassPipeline) (frames : List FrameSignal) :
    List FrameMetadata × TwoPassPipeline :=
  pipeline.analyzeBatchInner frames true

/-- Some batches, one after the other. -/
def analyzeBatches (pipeline : TwoPassPipeline) :
    List (List FrameSignal) → List FrameMetadata × TwoPassPipeline
  | [] => ([], pipeline)
  | frames :: batches =>
    let (out, pipeline) := pipeline.analyzeBatch frames
    let (rest, pipeline) := pipeline.analyzeBatches batches
    (out ++ rest, pipeline)

/-- A batch in two parts. -/
theorem analyzeBatch_append (pipeline : TwoPassPipeline) (first last : List FrameSignal) :
    pipeline.analyzeBatch (first ++ last) =
      ((pipeline.analyzeBatch first).1 ++ ((pipeline.analyzeBatch first).2.analyzeBatch last).1,
        ((pipeline.analyzeBatch first).2.analyzeBatch last).2) := by
  have hzip : (first ++ last).zip (pipeline.events true (first ++ last)) =
      first.zip (pipeline.events true first) ++
        last.zip ((pipeline.analyzeBatch first).2.events true last) := by
    rw [events, outputs_append, List.zip_append (by rw [length_outputs])]
    rfl
  simp only [analyzeBatch, analyzeBatchInner, hzip, outputs_append, stateAfter_append]

/-- It does not matter how frames are cut into batches. -/
theorem analyzeBatches_eq (pipeline : TwoPassPipeline) (batches : List (List FrameSignal)) :
    pipeline.analyzeBatches batches = pipeline.analyzeBatch batches.flatten := by
  induction batches generalizing pipeline with
  | nil => rfl
  | cons frames batches ih =>
    rw [List.flatten_cons, analyzeBatch_append, ← ih]
    rfl

end TwoPassPipeline

/-! ### Decisions -/

/-- The keyframe that was kept last by some decisions. -/
def keptBy (first : Option Keyframe) (decided : List (FrameSignal × GateEvent)) : Option Keyframe :=
  ((decided.filter fun d ↦ d.2.eventType = .keepKeyframe).getLast?.map (·.1.keyframe)).or first

theorem keptBy_concat (first : Option Keyframe) (decided : List (FrameSignal × GateEvent))
    (frame : FrameSignal) (event : GateEvent) : keptBy first (decided ++ [(frame, event)]) =
      if event.eventType = .keepKeyframe then some frame.keyframe else keptBy first decided := by
  rw [keptBy, List.filter_append, List.filter_singleton]
  split
  · next h => simp_all
  · next h => simp_all [keptBy]

/-- The gate compares with the keyframe that its decisions kept last. -/
theorem lastKept_stateAfter (gate : GateEngine) (frames : List FrameSignal) :
    (stateAfter (pass1 true) gate frames).config = gate.config ∧
      (stateAfter (pass1 true) gate frames).lastKept =
        keptBy gate.lastKept (frames.zip (outputs (pass1 true) gate frames)) := by
  induction frames using List.reverseRecOn with
  | nil => exact ⟨rfl, rfl⟩
  | append_singleton frames frame ih =>
    obtain ⟨hconfig, hkept⟩ := ih
    rw [stateAfter_append, outputs_append, List.zip_append (by rw [length_outputs])]
    generalize stateAfter (pass1 true) gate frames = gate' at hconfig hkept ⊢
    have hnext : stateAfter (pass1 true) gate' [frame] =
        if (gate'.process frame).eventType = .keepKeyframe then gate'.commitKeyframe frame
        else gate' := if_congr (and_iff_right rfl) rfl rfl
    rw [hnext]
    refine ⟨?_, ?_⟩
    · split
      · exact hconfig
      · exact hconfig
    · refine Eq.trans ?_ (keptBy_concat _ _ frame (gate'.process frame)).symm
      split
      · rfl
      · exact hkept

/-- What the metadata of a frame say about the decision of the gate. -/
def FrameMetadata.Decided (metadata : FrameMetadata) (event : GateEvent) : Prop :=
  metadata.gateEvent = event.eventType ∧
    (metadata.sceneCut = true ↔ event.reasonCode = .sceneCut) ∧
    (metadata.suspectArtifact = true ↔ event.eventType = .suspectArtifact)

/-- Frames that are cut into batches in any way have the results and lead to the state of a single
batch, and the gate decides about each frame as a chain of conditions does in the documented order,
that compares the frame with the keyframe kept last. -/
theorem analyzeBatch_spec (pipeline : TwoPassPipeline) (frames : List FrameSignal) :
    (∀ batches : List (List FrameSignal), batches.flatten = frames →
        pipeline.analyzeBatches batches = pipeline.analyzeBatch frames) ∧
      ∀ (i : Nat) (frame : FrameSignal), frames[i]? = some frame →
        ∃ event metadata, (pipeline.events true frames)[i]? = some event ∧
          event = processReference pipeline.gate.config (keptBy pipeline.gate.lastKept
            ((frames.zip (pipeline.events true frames)).take i)) frame ∧
          (pipeline.analyzeBatch frames).1[i]? = some metadata ∧ metadata.Decided event := by
  refine ⟨?_, ?_⟩
  · rintro batches rfl
    exact pipeline.analyzeBatches_eq batches
  · intro i frame hi
    obtain ⟨hconfig, hkept⟩ := lastKept_stateAfter pipeline.gate (frames.take i)
    have hevent : (pipeline.events true frames)[i]? = some
        ((stateAfter (pass1 true) pipeline.gate (frames.take i)).process frame) := by
      rw [TwoPassPipeline.events, getElem?_outputs, hi]
      rfl
    have hzip : (frames.zip (pipeline.events true frames))[i]? = some
        (frame, (stateAfter (pass1 true) pipeline.gate (frames.take i)).process frame) := by
      rw [List.getElem?_zip_eq_some]
      exact ⟨hi, hevent⟩
    have hmetadata := getElem?_outputs SlidingWindow.step pipeline.window
      (frames.zip (pipeline.events true frames)) i
    rw [hzip] at hmetadata
    refine ⟨_, _, hevent, ?_, hmetadata, rfl, decide_eq_true_iff, decide_eq_true_iff⟩
    rw [process_eq, hconfig, hkept, ← take_outputs, List.zip, ← List.take_zipWith]
    rfl

/-- A still screen, frame by frame. -/
def still (frameIndex : UInt64) : FrameSignal :=
  ⟨frameIndex, 33 * frameIndex, 0x55, .one, .zero, .zero, .zero⟩

/-- A pipeline for screens that keeps every thirtieth frame. -/
def screens : TwoPassPipeline :=
  .new ⟨16, 250, .one, .one, .one⟩ ⟨30, 18, .one, .one, .one, .one⟩

/-- Two frames in three batches, of which one is empty. -/
theorem analyzeBatch_spec_sample :
    screens.analyzeBatches [[still 0], [], [still 1]] = screens.analyzeBatch [still 0, still 1] :=
  (analyzeBatch_spec screens [still 0, still 1]).1 _ rfl

end Vidarax.TwoPass
