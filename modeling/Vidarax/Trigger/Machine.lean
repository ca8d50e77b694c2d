import Vidarax.Trigger.Verifier

/-!
# The trigger machine

Package `vidarax-core`, `crates/vidarax-core/src/trigger.rs:11–259`. The fixed arrays of the
machine are lists that keep their length; an access outside an array is a panic. A run
reports the instructions it executed and why it stopped.
-/

namespace Vidarax.Trigger

open Vidarax.Base

/-- Reported actions of one evaluation; `trigger.rs:11`. -/
structure TriggerEvaluation where
  actionIndices : List UInt8
  actionCount : Nat
  missingSignal : Bool
  deriving DecidableEq

namespace TriggerEvaluation

/-- `TriggerEvaluation::empty`. -/
def empty : TriggerEvaluation := ⟨List.replicate MAX_TRIGGER_ACTIONS 0, 0, false⟩

/-- `TriggerEvaluation::fired`. -/
def fired (e : TriggerEvaluation) : Bool := e.actionCount > 0

/-- The reported instructions, unless an index is out of bounds; `trigger.rs:31`. -/
def actions (e : TriggerEvaluation) (p : TriggerProgram) : Option (List TriggerInstruction) :=
  (e.actionIndices.take e.actionCount).mapM fun index ↦ p.instructions[index.toNat]?

/-- `push_action`; a full array ignores the action. -/
def pushAction (e : TriggerEvaluation) (instruction : Nat) : TriggerEvaluation :=
  if e.actionCount ≥ MAX_TRIGGER_ACTIONS then e
  else
    { e with
      actionIndices := e.actionIndices.set e.actionCount (UInt8.ofNat instruction)
      actionCount := e.actionCount + 1 }

end TriggerEvaluation

/-- State of the machine between samples; `trigger.rs:54`. -/
structure TriggerVm where
  program : TriggerProgram
  sustainStreaks : List UInt16
  edgeValues : List Bool
  cooldownLastMs : List UInt64
  cooldownInitialized : UInt16

/-- A machine before its first sample. -/
def TriggerVm.fresh (program : TriggerProgram) : TriggerVm :=
  ⟨program, List.replicate MAX_TRIGGER_STATE_SLOTS 0,
    List.replicate MAX_TRIGGER_STATE_SLOTS false, List.replicate MAX_TRIGGER_STATE_SLOTS 0, 0⟩

/-- `TriggerVm::try_new`; `trigger.rs:62`. -/
def TriggerVm.tryNew (program : TriggerProgram) : Except Failure TriggerVm := do
  program.validate
  .ok (.fresh program)

/-- `truthy`; `trigger.rs:222`. -/
def truthy (value : F32) : Bool := value.isFinite && !value.eq .zero

/-- `bool_value`; `trigger.rs:227`. -/
def boolValue (value : Bool) : F32 := if value then .one else .zero

/-- The scalar field of a sample for a signal. -/
def scalar (sample : TriggerSample) : TriggerSignal → Option F32
  | .motionScore => sample.motionScore
  | .noveltyScore => sample.noveltyScore
  | .confidence => sample.confidence
  | .modelUncertainty => sample.modelUncertainty
  | .teacherDisagreement => sample.teacherDisagreement
  | _ => none

/-- `read_signal`; `trigger.rs:235`. -/
def readSignal (sample : TriggerSample) (signal : TriggerSignal) : Option F32 :=
  (scalar sample signal).or
    ((sample.observations.find? (·.signal = signal)).map TriggerObservation.value)

/-- Why an evaluation stopped. `running` is out of steps. -/
inductive Stop where
  | halt
  | overflow
  | underflow
  | endOfProgram
  | panic
  | running
  deriving DecidableEq

/-- The local variables of `evaluate`. -/
structure Frame where
  stack : List F32
  stackLen : Nat
  evaluation : TriggerEvaluation
  pc : Nat

namespace Frame

/-- The variables at the start of an evaluation. -/
def initial : Frame := ⟨List.replicate MAX_TRIGGER_STACK .zero, 0, .empty, 0⟩

/-- Push a value. -/
def push (f : Frame) (value : F32) : Except Stop Frame :=
  if f.stackLen ≥ MAX_TRIGGER_STACK then .error .overflow
  else if f.stackLen ≥ f.stack.length then .error .panic
  else .ok { f with stack := f.stack.set f.stackLen value, stackLen := f.stackLen + 1 }

/-- The top of the stack. -/
def top (f : Frame) : Except Stop F32 :=
  if f.stackLen = 0 then .error .underflow
  else
    match f.stack[f.stackLen - 1]? with
    | none => .error .panic
    | some value => .ok value

/-- Replace the top of a stack that has one. -/
def setTop (f : Frame) (value : F32) : Frame :=
  { f with stack := f.stack.set (f.stackLen - 1) value }

/-- `binary`; `trigger.rs:206`. -/
def binary (f : Frame) (operation : F32 → F32 → Bool) : Except Stop Frame :=
  if f.stackLen < 2 then .error .underflow
  else
    match f.stack[f.stackLen - 1]?, f.stack[f.stackLen - 2]? with
    | some right, some left =>
      .ok { f with
        stack := f.stack.set (f.stackLen - 2) (boolValue (operation left right))
        stackLen := f.stackLen - 1 }
    | _, _ => .error .panic

/-- Go on with the next instruction. -/
def next (f : Frame) : Frame := { f with pc := f.pc + 1 }

end Frame

namespace TriggerVm

/-- Execute one instruction; `trigger.rs:89`. -/
def exec (vm : TriggerVm) (sample : TriggerSample) (f : Frame) :
    TriggerInstruction → Except Stop (TriggerVm × Frame)
  | .load signal => do
    let value := readSignal sample signal
    let f' ← f.push (value.getD .nan)
    .ok (vm, { f' with evaluation := { f'.evaluation with
      missingSignal := f'.evaluation.missingSignal || value.isNone } }.next)
  | .constant value => do
    let f ← f.push value
    .ok (vm, f.next)
  | .greaterThan => do
    let f ← f.binary fun a b ↦ b.lt a
    .ok (vm, f.next)
  | .greaterOrEqual => do
    let f ← f.binary fun a b ↦ b.le a
    .ok (vm, f.next)
  | .lessThan => do
    let f ← f.binary F32.lt
    .ok (vm, f.next)
  | .lessOrEqual => do
    let f ← f.binary F32.le
    .ok (vm, f.next)
  | .equal => do
    let f ← f.binary F32.eq
    .ok (vm, f.next)
  | .and => do
    let f ← f.binary fun a b ↦ truthy a && truthy b
    .ok (vm, f.next)
  | .or => do
    let f ← f.binary fun a b ↦ truthy a || truthy b
    .ok (vm, f.next)
  | .not => do
    let value ← f.top
    .ok (vm, (f.setTop (boolValue (!truthy value))).next)
  | .sustainFrames slot frames => do
    let value ← f.top
    match vm.sustainStreaks[slot.toNat]? with
    | none => .error .panic
    | some streak =>
      let streak := if truthy value then UInt16.ofNat (min (streak.toNat + 1) 65535) else 0
      .ok ({ vm with sustainStreaks := vm.sustainStreaks.set slot.toNat streak },
        (f.setTop (boolValue (frames ≤ streak))).next)
  | .risingEdge slot => do
    let value ← f.top
    match vm.edgeValues[slot.toNat]? with
    | none => .error .panic
    | some last =>
      let current := truthy value
      .ok ({ vm with edgeValues := vm.edgeValues.set slot.toNat current },
        (f.setTop (boolValue (current && !last))).next)
  | .cooldownMs slot durationMs => do
    let value ← f.top
    match vm.cooldownLastMs[slot.toNat]? with
    | none => .error .panic
    | some last =>
      let bit : UInt16 := UInt16.ofNat (2 ^ slot.toNat)
      let initialized : Bool := vm.cooldownInitialized &&& bit ≠ 0
      let elapsed := satSub sample.ptsMs last
      let allowed : Bool := truthy value && (!initialized || durationMs ≤ elapsed)
      let vm := if allowed then
          { vm with
            cooldownInitialized := vm.cooldownInitialized ||| bit
            cooldownLastMs := vm.cooldownLastMs.set slot.toNat sample.ptsMs }
        else vm
      .ok (vm, (f.setTop (boolValue allowed)).next)
  | .jumpIfFalse target => do
    let value ← f.top
    let f := { f with stackLen := f.stackLen - 1 }
    if !truthy value then .ok (vm, { f with pc := target.toNat })
    else .ok (vm, f.next)
  | .emit _ => .ok (vm, { f with evaluation := f.evaluation.pushAction f.pc }.next)
  | .capture .. => .ok (vm, { f with evaluation := f.evaluation.pushAction f.pc }.next)
  | .notify _ => .ok (vm, { f with evaluation := f.evaluation.pushAction f.pc }.next)
  | .halt => .error .halt

/-- Outcome of an evaluation, with the number of instructions fetched. -/
structure Run where
  vm : TriggerVm
  evaluation : TriggerEvaluation
  stop : Stop
  steps : Nat

/-- The loop of `evaluate`, for at most `fuel` instructions after `steps` others. -/
def loop (sample : TriggerSample) : Nat → Nat → TriggerVm → Frame → Run
  | 0, steps, vm, f => ⟨vm, f.evaluation, .running, steps⟩
  | fuel + 1, steps, vm, f =>
    match vm.program.instructions[f.pc]? with
    | none => ⟨vm, f.evaluation, .endOfProgram, steps⟩
    | some instruction =>
      match vm.exec sample f instruction with
      | .error stop => ⟨vm, f.evaluation, stop, steps + 1⟩
      | .ok (vm, f) => loop sample fuel (steps + 1) vm f

/-- `TriggerVm::evaluate`; `trigger.rs:82`. A checked program needs no more steps than it has
instructions. -/
def evaluate (vm : TriggerVm) (sample : TriggerSample) : Run :=
  loop sample vm.program.instructions.length 0 vm .initial

/-- The machine after a sequence of samples. -/
def feed (vm : TriggerVm) (samples : List TriggerSample) : TriggerVm :=
  samples.foldl (fun vm sample ↦ (vm.evaluate sample).vm) vm

end TriggerVm

end Vidarax.Trigger
