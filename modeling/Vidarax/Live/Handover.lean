import Vidarax.Live.Gate
import Vidarax.Trigger.Soundness

/-!
# Firings are handed over

The state of a zone and of a trigger machine is advanced before the frame is encoded and before it
is handed to a queue. What fired is handed over or counted exactly when the encoder yields an image.
-/

namespace Vidarax.Live

open Vidarax.Base Vidarax.Trigger

variable {σ : Type}

/-- What a session attaches to its gate: one of both, never two. -/
inductive Attachment where
  | zone (policy : RestrictedZonePolicy)
  | trigger (program : TriggerProgram)

/-- An attached program was accepted when its machine was made. -/
def Attachment.Valid : Attachment → Prop
  | .zone _ => True
  | .trigger program => TriggerVm.tryNew program = .ok (.fresh program)

namespace KeyframeSink

/-- A decode worker before its first frame. -/
def start (state : σ) (loopThreshold repeatTrigger : Nat) : Attachment → KeyframeSink σ
  | .zone policy =>
    ⟨⟨state, .new loopThreshold repeatTrigger, some (.new policy), none, false⟩, true, false,
      ⟨0, 0, 0, 0, 0, 0, 0, 0⟩⟩
  | .trigger program =>
    ⟨⟨state, .new loopThreshold repeatTrigger, none, some (.fresh program), false⟩, false, true,
      ⟨0, 0, 0, 0, 0, 0, 0, 0⟩⟩

/-- The worker after some frames. -/
def run (pipeline : TwoPassPipeline σ) (sink : KeyframeSink σ) (frames : List DecodedFrame) :
    KeyframeSink σ :=
  frames.foldl (fun sink frame ↦ (sink.onDecoded pipeline frame).2) sink

variable (pipeline : TwoPassPipeline σ) (sink : KeyframeSink σ) (frame : DecodedFrame)

/-- Metadata of the next frame. -/
def metadata : FrameMetadata := (pipeline.analyze sink.gate.pipeline frame.signal).1

/-- The trigger program fires at the next frame. -/
def Fires : Prop :=
  ∃ vm, sink.gate.trigger = some vm ∧
    (vm.evaluate (GateStreamState.sampleOf frame.ptsMs
      (sink.metadata pipeline frame))).evaluation.fired = true

/-- The zone reports an entry at the next frame. -/
def Enters : Prop :=
  ∃ zone observation, sink.gate.zone = some zone ∧
    (zone.observe (sink.metadata pipeline frame).motionScore).1 = some observation ∧
    observation.transition = .entered

/-- What fired at the next frame is taken by the trigger queue, or counted as dropped. -/
def TriggerAccounted : Prop :=
  (∃ item, (sink.onDecoded pipeline frame).1.trigger = some item ∧
      item.work.frameIndex = frame.signal.frameIndex) ∨
    (sink.onDecoded pipeline frame).2.metrics.triggerQueueDropped =
      sink.metrics.triggerQueueDropped + 1

/-- What entered at the next frame is taken by the zone queue, or counted as dropped. -/
def ZoneAccounted : Prop :=
  (∃ item, (sink.onDecoded pipeline frame).1.zone = some item ∧
      item.work.frameIndex = frame.signal.frameIndex) ∨
    (sink.onDecoded pipeline frame).2.metrics.restrictedZoneQueueDropped =
      sink.metrics.restrictedZoneQueueDropped + 1

end KeyframeSink

/-! ### What a firing program reports -/

theorem evaluation_push {f f' : Frame} {value : F32} (h : f.push value = .ok f') :
    f'.evaluation = f.evaluation := by
  obtain ⟨-, h⟩ := guard_eq_ok h
  obtain ⟨-, h⟩ := guard_eq_ok h
  cases h
  rfl

theorem evaluation_binary {f f' : Frame} {operation : F32 → F32 → Bool}
    (h : f.binary operation = .ok f') : f'.evaluation = f.evaluation := by
  obtain ⟨-, h⟩ := guard_eq_ok h
  split at h
  · cases h
    rfl
  · cases h

theorem length_pushAction (e : TriggerEvaluation) (instruction : Nat) :
    (e.pushAction instruction).actionIndices.length = e.actionIndices.length := by
  unfold TriggerEvaluation.pushAction
  split
  · rfl
  · exact List.length_set

/-- The array of the report keeps its length. -/
theorem length_actionIndices_exec {vm vm' : TriggerVm} {sample : TriggerSample} {f f' : Frame}
    {instruction : TriggerInstruction} (h : vm.exec sample f instruction = .ok (vm', f')) :
    f'.evaluation.actionIndices.length = f.evaluation.actionIndices.length := by
  cases instruction with
  | load | constant =>
    obtain ⟨f₁, hpush, h⟩ := bind_eq_ok h
    cases h
    exact congrArg (·.actionIndices.length) (evaluation_push hpush)
  | greaterThan | greaterOrEqual | lessThan | lessOrEqual | equal | and | or =>
    obtain ⟨f₁, hbinary, h⟩ := bind_eq_ok h
    cases h
    exact congrArg (·.actionIndices.length) (evaluation_binary hbinary)
  | not =>
    obtain ⟨_, -, h⟩ := bind_eq_ok h
    cases h
    rfl
  | sustainFrames | risingEdge | cooldownMs =>
    obtain ⟨_, -, h⟩ := bind_eq_ok h
    split at h
    · cases h
    · cases h
      rfl
  | jumpIfFalse =>
    obtain ⟨_, -, h⟩ := bind_eq_ok h
    dsimp only at h
    split at h
    · cases h
      rfl
    · cases h
      rfl
  | emit | capture | notify =>
    cases h
    exact length_pushAction _ _
  | halt => cases h

theorem length_actionIndices_loop (sample : TriggerSample) (fuel steps : Nat) (vm : TriggerVm)
    (f : Frame) : (TriggerVm.loop sample fuel steps vm f).evaluation.actionIndices.length =
      f.evaluation.actionIndices.length := by
  induction fuel generalizing steps vm f with
  | zero => rfl
  | succ fuel ih =>
    rw [TriggerVm.loop]
    split
    · rfl
    · split
      · rfl
      · next hexec => rw [ih, length_actionIndices_exec hexec]

/-- Actions with an emit have a name. -/
theorem eventTypeOf_isSome {actions : List TriggerInstruction}
    (h : ∃ action ∈ actions, action.isEmit = true) :
    (GateStreamState.eventTypeOf actions).isSome = true := by
  have hkeep (f : Option String → TriggerInstruction → Option String)
      (hf : ∀ name action, (f (some name) action).isSome = true)
      (actions : List TriggerInstruction) (name : String) :
      (actions.foldl f (some name)).isSome = true := by
    induction actions generalizing name with
    | nil => rfl
    | cons action actions ih =>
      obtain ⟨next, hnext⟩ := Option.isSome_iff_exists.mp (hf name action)
      rw [List.foldl_cons, hnext]
      exact ih next
  unfold GateStreamState.eventTypeOf
  induction actions with
  | nil =>
    obtain ⟨action, hmem, -⟩ := h
    cases hmem
  | cons action actions ih =>
    cases action with
    | emit value => exact hkeep _ (fun name action ↦ by cases action <;> rfl) actions value
    | _ =>
      obtain ⟨other, hmem, hemit⟩ := h
      rcases List.mem_cons.mp hmem with rfl | hmem
      · cases hemit
      · exact ih ⟨other, hmem, hemit⟩

/-- A machine of an accepted program stays one. -/
theorem loaded_evaluate {program : TriggerProgram} {vm : TriggerVm} (hvm : Loaded program vm)
    (hvalid : program.validate = .ok ()) (sample : TriggerSample) :
    Loaded program (vm.evaluate sample).vm ∧
      ((vm.evaluate sample).evaluation.actions program = some [] ∨
        (vm.evaluate sample).evaluation.actions program =
          some (actionBlock program.instructions)) := by
  have hverified := verified_of_validate hvalid
  obtain ⟨depths, hdepths⟩ := hverified.depths
  obtain ⟨first, hblock⟩ := hverified.block
  obtain ⟨hloaded, -, -, hactions⟩ := hvm.evaluate ⟨hverified, hdepths, hblock⟩ sample
  exact ⟨hloaded, hactions⟩

/-- A firing of an accepted program emits an event. -/
theorem fireOf_isSome {program : TriggerProgram} {vm : TriggerVm} (hvm : Loaded program vm)
    (hvalid : program.validate = .ok ()) (sample : TriggerSample) :
    (GateStreamState.fireOf program (vm.evaluate sample).evaluation).isSome =
      (vm.evaluate sample).evaluation.fired := by
  unfold GateStreamState.fireOf
  cases hfired : (vm.evaluate sample).evaluation.fired with
  | false => rfl
  | true =>
    rw [if_neg (by decide), Option.isSome_map]
    apply eventTypeOf_isSome
    rcases (loaded_evaluate hvm hvalid sample).2 with hnone | hblock
    · -- a report that counts an action looks one up
      exfalso
      have hlength : (vm.evaluate sample).evaluation.actionIndices.length =
          MAX_TRIGGER_ACTIONS := length_actionIndices_loop sample _ 0 vm .initial
      have hcount : 0 < (vm.evaluate sample).evaluation.actionCount := of_decide_eq_true hfired
      unfold TriggerEvaluation.actions at hnone
      match hindices : (vm.evaluate sample).evaluation.actionIndices,
        hn : (vm.evaluate sample).evaluation.actionCount with
      | [], _ =>
        rw [hindices] at hlength
        cases hlength
      | index :: indices, 0 => omega
      | index :: indices, n + 1 =>
        rw [hindices, hn, List.take_succ_cons, List.mapM_cons] at hnone
        simp [Option.bind_eq_some_iff] at hnone
    · have hemits := (verified_of_validate hvalid).emits
      obtain ⟨action, hmem, hemit⟩ := List.countP_pos_iff.mp (by rw [hemits]; exact Nat.one_pos)
      rw [hblock]
      refine ⟨action, List.mem_filter.mpr ⟨hmem, ?_⟩, hemit⟩
      cases action with
      | emit => rfl
      | _ => cases hemit

/-! ### One frame -/

namespace GateStreamState

/-- Detecting loops touches nothing else. -/
theorem observeLoop_keeps (gate : GateStreamState σ) (m : PipelineMetrics) (signal : FrameSignal)
    (ptsMs : UInt64) :
    let r := gate.observeLoop m signal ptsMs
    r.2.1.pipeline = gate.pipeline ∧ r.2.1.zone = gate.zone ∧ r.2.1.trigger = gate.trigger ∧
      r.2.2.triggerQueueDropped = m.triggerQueueDropped ∧
      r.2.2.restrictedZoneQueueDropped = m.restrictedZoneQueueDropped := by
  unfold observeLoop
  dsimp only
  split
  · exact ⟨rfl, rfl, rfl, rfl, rfl⟩
  · exact ⟨rfl, rfl, rfl, rfl, rfl⟩

/-- What the gate returns for a frame on which something fired, and what it keeps of it. -/
structure FrameSpec (gate : GateStreamState σ) (m : PipelineMetrics) (metadata : FrameMetadata)
    (signal : FrameSignal) (ptsMs : UInt64) (encode : Option Bytes)
    (r : GateFrameOutcome × GateStreamState σ × PipelineMetrics) : Prop where
  zone : r.2.1.zone = (watchZone gate.zone metadata.motionScore).2
  trigger : r.2.1.trigger = (runTrigger gate.trigger (sampleOf ptsMs metadata)).2.1
  triggerQueueDropped : r.2.2.triggerQueueDropped = m.triggerQueueDropped
  restrictedZoneQueueDropped : r.2.2.restrictedZoneQueueDropped = m.restrictedZoneQueueDropped
  dropped : usable encode = none → r.1 = .none
  kept : (watchZone gate.zone metadata.motionScore).1.isSome = true ∨
      (runTrigger gate.trigger (sampleOf ptsMs metadata)).1.isSome = true →
    (usable encode).isSome = true → ∃ work, work.frameIndex = signal.frameIndex ∧
      r.1 = ⟨some work, (watchZone gate.zone metadata.motionScore).1,
        (runTrigger gate.trigger (sampleOf ptsMs metadata)).1⟩

theorem onFrame_spec (pipeline : TwoPassPipeline σ) (gate : GateStreamState σ)
    (m : PipelineMetrics) (signal : FrameSignal) (ptsMs : UInt64) (encode : Option Bytes) :
    FrameSpec gate m (pipeline.analyze gate.pipeline signal).1 signal ptsMs encode
      (gate.onFrame pipeline m signal ptsMs encode) := by
  obtain ⟨hpipeline, hzone, htrigger, hdropped, hzoneDropped⟩ :=
    gate.observeLoop_keeps m signal ptsMs
  unfold onFrame
  generalize gate.observeLoop m signal ptsMs = observed at *
  obtain ⟨notice, gate', m'⟩ := observed
  dsimp only at *
  rw [hpipeline, hzone, htrigger]
  split
  · next hskip =>
    refine ⟨rfl, rfl, ?_, ?_, fun _ ↦ rfl, ?_⟩
    · dsimp only
      split <;> exact hdropped
    · dsimp only
      split <;> exact hzoneDropped
    · rintro (hentered | hfired)
      · rw [Option.isNone_iff_eq_none.mp hskip.2.1] at hentered
        cases hentered
      · rw [Option.isNone_iff_eq_none.mp hskip.2.2] at hfired
        cases hfired
  · split
    · next hnone =>
      refine ⟨rfl, rfl, ?_, ?_, fun _ ↦ rfl, ?_⟩
      · dsimp only
        split <;> split <;> exact hdropped
      · dsimp only
        split <;> split <;> exact hzoneDropped
      · intro _ hsome
        rw [hnone] at hsome
        cases hsome
    · next jpegBytes hjpeg =>
      refine ⟨rfl, rfl, ?_, ?_, ?_, ?_⟩
      · dsimp only
        split <;> split <;> exact hdropped
      · dsimp only
        split <;> split <;> exact hzoneDropped
      · intro hnone
        rw [hjpeg] at hnone
        cases hnone
      · exact fun _ _ ↦ ⟨_, rfl, rfl⟩

end GateStreamState

namespace KeyframeSink

variable {pipeline : TwoPassPipeline σ} {sink : KeyframeSink σ} {frame : DecodedFrame}

/-- Nothing that the gate dropped is accounted for. -/
theorem dispatch_none (sink : KeyframeSink σ) (frame : DecodedFrame) :
    sink.dispatch frame .none = (⟨none, none, none⟩, sink.metrics) := rfl

/-- A firing without an entry goes to the trigger queue, or is counted. -/
theorem dispatch_trigger (sink : KeyframeSink σ) (frame : DecodedFrame) (work : KeyframeWork)
    (fire : TriggerFire) :
    let r := sink.dispatch frame ⟨some work, none, some fire⟩
    r.1.trigger = some ⟨work, fire⟩ ∨
      r.2.triggerQueueDropped = sink.metrics.triggerQueueDropped + 1 := by
  dsimp only [dispatch]
  split
  · exact .inl rfl
  · exact .inr rfl

/-- An entry goes to the zone queue, or is counted. -/
theorem dispatch_zone (sink : KeyframeSink σ) (frame : DecodedFrame) (work : KeyframeWork)
    (observation : ZoneActivityObservation) (fire : Option TriggerFire) {zone : RestrictedZoneState}
    (hzone : sink.gate.zone = some zone) :
    let r := sink.dispatch frame ⟨some work, some observation, fire⟩
    r.1.zone = some ⟨work, zone.policy, observation⟩ ∨
      r.2.restrictedZoneQueueDropped = sink.metrics.restrictedZoneQueueDropped + 1 := by
  simp only [dispatch, hzone]
  split
  · exact .inl rfl
  · exact .inr rfl

/-- A firing on a session with a program is accounted for exactly when there is an image. -/
theorem triggerAccounted_iff {program : TriggerProgram} {vm : TriggerVm}
    (hzone : sink.gate.zone = none) (htrigger : sink.gate.trigger = some vm)
    (hvm : Loaded program vm) (hvalid : program.validate = .ok ())
    (hfires : sink.Fires pipeline frame) :
    sink.TriggerAccounted pipeline frame ↔ (usable frame.encode).isSome = true := by
  have hspec := sink.gate.onFrame_spec pipeline sink.metrics frame.signal frame.ptsMs frame.encode
  obtain ⟨vm', hvm', hfired⟩ := hfires
  rw [htrigger] at hvm'
  cases hvm'
  have hrun : (GateStreamState.runTrigger sink.gate.trigger (GateStreamState.sampleOf frame.ptsMs
      (pipeline.analyze sink.gate.pipeline frame.signal).1)).1.isSome = true := by
    rw [htrigger, ← hfired, metadata, ← fireOf_isSome hvm hvalid, ← hvm.program]
    rfl
  unfold TriggerAccounted onDecoded
  generalize sink.gate.onFrame pipeline sink.metrics frame.signal frame.ptsMs frame.encode = r at *
  obtain ⟨outcome, gate, m⟩ := r
  have hcount : m.triggerQueueDropped = sink.metrics.triggerQueueDropped := hspec.triggerQueueDropped
  cases hjpeg : usable frame.encode with
  | none =>
    have hnone : outcome = .none := hspec.dropped hjpeg
    subst hnone
    simp [dispatch_none, hcount]
  | some jpegBytes =>
    obtain ⟨work, hindex, hkept⟩ := hspec.kept (.inr hrun) (by rw [hjpeg]; rfl)
    obtain ⟨fire, hfire⟩ := Option.isSome_iff_exists.mp hrun
    have houtcome : outcome = ⟨some work, none, some fire⟩ := by
      rw [← hfire]
      exact hkept.trans (by rw [hzone]; rfl)
    subst houtcome
    refine ⟨fun _ ↦ rfl, fun _ ↦ ?_⟩
    rcases dispatch_trigger { sink with gate := gate, metrics := m } frame work fire with
      hitem | hdropped
    · exact .inl ⟨_, hitem, hindex⟩
    · exact .inr (hdropped.trans (congrArg (· + 1) hcount))

/-- An entry on a session with a zone is accounted for exactly when there is an image. -/
theorem zoneAccounted_iff (henters : sink.Enters pipeline frame) :
    sink.ZoneAccounted pipeline frame ↔ (usable frame.encode).isSome = true := by
  have hspec := sink.gate.onFrame_spec pipeline sink.metrics frame.signal frame.ptsMs frame.encode
  obtain ⟨zone, observation, hzone, hobserve, hentered⟩ := henters
  have hwatch : (GateStreamState.watchZone sink.gate.zone
      (pipeline.analyze sink.gate.pipeline frame.signal).1.motionScore).1 = some observation := by
    rw [hzone]
    exact (congrArg (Option.filter _) hobserve).trans (by simp [hentered])
  unfold ZoneAccounted onDecoded
  generalize sink.gate.onFrame pipeline sink.metrics frame.signal frame.ptsMs frame.encode = r at *
  obtain ⟨outcome, gate, m⟩ := r
  have hcount : m.restrictedZoneQueueDropped = sink.metrics.restrictedZoneQueueDropped :=
    hspec.restrictedZoneQueueDropped
  cases hjpeg : usable frame.encode with
  | none =>
    have hnone : outcome = .none := hspec.dropped hjpeg
    subst hnone
    simp [dispatch_none, hcount]
  | some jpegBytes =>
    obtain ⟨work, hindex, hkept⟩ := hspec.kept (.inl (by rw [hwatch]; rfl)) (by rw [hjpeg]; rfl)
    have hkept : outcome = _ := hkept
    rw [hwatch] at hkept
    subst hkept
    have hgate : ∃ zone', gate.zone = some zone' := by
      have := hspec.zone
      rw [hzone] at this
      exact ⟨_, this⟩
    obtain ⟨zone', hzone'⟩ := hgate
    refine ⟨fun _ ↦ rfl, fun _ ↦ ?_⟩
    rcases dispatch_zone { sink with gate := gate, metrics := m } frame work observation _ hzone'
      with hitem | hdropped
    · exact .inl ⟨_, hitem, hindex⟩
    · exact .inr (hdropped.trans (congrArg (· + 1) hcount))

end KeyframeSink

/-! ### Runs -/

/-- What a session keeps of what is attached to it. -/
def Keeps (sink : KeyframeSink σ) : Attachment → Prop
  | .zone _ => sink.gate.trigger = none
  | .trigger program =>
    sink.gate.zone = none ∧ ∃ vm, sink.gate.trigger = some vm ∧ Loaded program vm

theorem keeps_start (state : σ) (loopThreshold repeatTrigger : Nat) {attachment : Attachment}
    (hvalid : attachment.Valid) :
    Keeps (KeyframeSink.start state loopThreshold repeatTrigger attachment) attachment := by
  cases attachment with
  | zone policy => rfl
  | trigger program => exact ⟨rfl, _, rfl, (loaded_of_tryNew hvalid).1⟩

/-- One frame keeps what is attached. -/
theorem Keeps.onDecoded {sink : KeyframeSink σ} {attachment : Attachment} (h : Keeps sink attachment)
    (hvalid : attachment.Valid) (pipeline : TwoPassPipeline σ) (frame : DecodedFrame) :
    Keeps (sink.onDecoded pipeline frame).2 attachment := by
  have hspec := sink.gate.onFrame_spec pipeline sink.metrics frame.signal frame.ptsMs frame.encode
  cases attachment with
  | zone policy =>
    have h : sink.gate.trigger = none := h
    have htrigger := hspec.trigger
    rw [h] at htrigger
    exact htrigger
  | trigger program =>
    obtain ⟨hzone, vm, htrigger, hvm⟩ := h
    have hzone' := hspec.zone
    have htrigger' := hspec.trigger
    rw [hzone] at hzone'
    rw [htrigger] at htrigger'
    exact ⟨hzone', _, htrigger', (loaded_evaluate hvm (loaded_of_tryNew hvalid).2 _).1⟩

theorem Keeps.run {sink : KeyframeSink σ} {attachment : Attachment} (h : Keeps sink attachment)
    (hvalid : attachment.Valid) (pipeline : TwoPassPipeline σ) (frames : List DecodedFrame) :
    Keeps (sink.run pipeline frames) attachment := by
  induction frames generalizing sink with
  | nil => exact h
  | cons frame frames ih => exact ih (h.onDecoded hvalid pipeline frame)

/-- After any frames, what fires or enters at the next one is accounted for exactly when there is
an image. -/
theorem Keeps.accounted_iff {sink : KeyframeSink σ} {attachment : Attachment}
    (h : Keeps sink attachment) (hvalid : attachment.Valid) (pipeline : TwoPassPipeline σ)
    (frame : DecodedFrame) :
    ((sink.Fires pipeline frame → sink.TriggerAccounted pipeline frame) ∧
      (sink.Enters pipeline frame → sink.ZoneAccounted pipeline frame)) ↔
    (sink.Fires pipeline frame ∨ sink.Enters pipeline frame →
      (usable frame.encode).isSome = true) := by
  have hfires : sink.Fires pipeline frame →
      (sink.TriggerAccounted pipeline frame ↔ (usable frame.encode).isSome = true) := by
    intro hfires
    cases attachment with
    | zone policy =>
      obtain ⟨vm, hvm, -⟩ := hfires
      have hnone : sink.gate.trigger = none := h
      rw [hnone] at hvm
      cases hvm
    | trigger program =>
      obtain ⟨hzone, vm, htrigger, hvm⟩ := h
      exact KeyframeSink.triggerAccounted_iff hzone htrigger hvm (loaded_of_tryNew hvalid).2 hfires
  constructor
  · rintro ⟨htrigger, hzone⟩ (hfire | henter)
    · exact (hfires hfire).mp (htrigger hfire)
    · exact (KeyframeSink.zoneAccounted_iff henter).mp (hzone henter)
  · intro himage
    exact ⟨fun hfire ↦ (hfires hfire).mpr (himage (.inl hfire)),
      fun henter ↦ (KeyframeSink.zoneAccounted_iff henter).mpr (himage (.inr henter))⟩

/-- In a run of a session with a zone or a program every firing and every entry is taken by its
queue or counted, exactly when the encoder yields an image for each frame on which one happens. -/
theorem firings_accounted_iff (pipeline : TwoPassPipeline σ) (state : σ)
    (loopThreshold repeatTrigger : Nat) (attachment : Attachment) (hvalid : attachment.Valid)
    (frames : List DecodedFrame) :
    let sinkAfter := (KeyframeSink.start state loopThreshold repeatTrigger attachment).run pipeline
    (∀ before frame, before ++ [frame] <+: frames →
      ((sinkAfter before).Fires pipeline frame →
        (sinkAfter before).TriggerAccounted pipeline frame) ∧
      ((sinkAfter before).Enters pipeline frame →
        (sinkAfter before).ZoneAccounted pipeline frame)) ↔
    (∀ before frame, before ++ [frame] <+: frames →
      (sinkAfter before).Fires pipeline frame ∨ (sinkAfter before).Enters pipeline frame →
        (usable frame.encode).isSome = true) := by
  intro sinkAfter
  have hkeeps (before : List DecodedFrame) : Keeps (sinkAfter before) attachment :=
    (keeps_start state loopThreshold repeatTrigger hvalid).run hvalid pipeline before
  constructor
  · intro h before frame hbefore
    exact ((hkeeps before).accounted_iff hvalid pipeline frame).mp (h before frame hbefore)
  · intro h before frame hbefore
    exact ((hkeeps before).accounted_iff hvalid pipeline frame).mpr (h before frame hbefore)

/-- What the analysis says of the first frame of a session. -/
def firstFrame : TwoPassPipeline Unit where
  analyze _ _ := (⟨.keepKeyframe, false, .one, .zero, ⟨0x3EE66666⟩⟩, ())
  commitGateKeyframe _ _ := ()

/-- A program that fires when a new picture comes. -/
def noveltyProgram : TriggerProgram :=
  ⟨1, "novelty", 1, [.load .noveltyScore, .constant .one, .greaterOrEqual, .risingEdge 0,
    .jumpIfFalse 7, .emit "appeared", .capture .keyframe 0 0, .halt]⟩

/-- The program on a frame that the encoder refuses. -/
theorem firings_accounted_iff_refused :
    let frames : List DecodedFrame := [⟨⟨0, 0, []⟩, 0, none, true, true, true⟩]
    let sinkAfter := (KeyframeSink.start () 6 3 (.trigger noveltyProgram)).run firstFrame
    (∀ before frame, before ++ [frame] <+: frames →
      ((sinkAfter before).Fires firstFrame frame →
        (sinkAfter before).TriggerAccounted firstFrame frame) ∧
      ((sinkAfter before).Enters firstFrame frame →
        (sinkAfter before).ZoneAccounted firstFrame frame)) ↔
    (∀ before frame, before ++ [frame] <+: frames →
      (sinkAfter before).Fires firstFrame frame ∨ (sinkAfter before).Enters firstFrame frame →
        (usable frame.encode).isSome = true) := by
  intro frames
  have hvalid : noveltyProgram.validate = .ok () := by decide +kernel
  exact firings_accounted_iff firstFrame () 6 3 (.trigger noveltyProgram)
    (by rw [Attachment.Valid, TriggerVm.tryNew, hvalid]; rfl) frames

/-- The program fires on the frame, its edge is used up, and nothing is handed over or counted. -/
theorem firing_lost :
    let frame : DecodedFrame := ⟨⟨0, 0, []⟩, 0, none, true, true, true⟩
    let sink := KeyframeSink.start () 6 3 (.trigger noveltyProgram)
    sink.Fires firstFrame frame ∧ ¬ sink.TriggerAccounted firstFrame frame ∧
      ¬ (sink.onDecoded firstFrame frame).2.Fires firstFrame frame := by
  intro frame sink
  refine ⟨⟨_, rfl, by decide⟩, ?_, ?_⟩
  · rintro (⟨item, hitem, -⟩ | hdropped)
    · cases hitem
    · exact absurd hdropped (by decide)
  · rintro ⟨vm, hvm, hfired⟩
    have htrigger := (sink.gate.onFrame_spec firstFrame sink.metrics frame.signal frame.ptsMs
      frame.encode).trigger
    have heq := hvm.symm.trans htrigger
    cases heq
    exact absurd hfired (by decide)

end Vidarax.Live
