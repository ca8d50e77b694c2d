import Vidarax.Base.Float32

/-!
# Trigger programs

Package `vidarax-contracts`, `crates/vidarax-contracts/src/triggers.rs:9–176,328–338`.
Instructions of the trigger machine, the samples it reads and the errors of the checker
and the compiler.
-/

namespace Vidarax.Trigger

open Vidarax.Base

def TRIGGER_ISA_VERSION : Nat := 1
def MAX_TRIGGER_INSTRUCTIONS : Nat := 64
def MAX_TRIGGER_STACK : Nat := 16
def MAX_TRIGGER_STATE_SLOTS : Nat := 16
def MAX_TRIGGER_ACTIONS : Nat := 8
def MAX_TRIGGER_ID_BYTES : Nat := 128
def MAX_CAPTURE_WINDOW_MS : UInt64 := 60000

/-- Signals of a sample; `triggers.rs:29`. -/
inductive TriggerSignal where
  | motionScore
  | noveltyScore
  | confidence
  | objectCount (label : String) (zone : Option String)
  | minimumDistanceMm (left right : String)
  | timeToCollisionMs (left right : String)
  | dwellMs (label zone : String)
  | modelUncertainty
  | teacherDisagreement
  | audioEventConfidence (label : String)
  | speechConfidence
  | audioNoveltyScore
  | cognitionGateScore
  deriving DecidableEq

/-- What a capture records; `triggers.rs:47`. -/
inductive CaptureKind where
  | keyframe
  | clip
  deriving DecidableEq

/-- Where a notification goes; `triggers.rs:54`. -/
inductive ActionChannel where
  | webhook
  | localOutput
  deriving DecidableEq

/-- Instructions of the stack machine; `triggers.rs:63`. -/
inductive TriggerInstruction where
  | load (signal : TriggerSignal)
  | constant (value : F32)
  | greaterThan
  | greaterOrEqual
  | lessThan
  | lessOrEqual
  | equal
  | and
  | or
  | not
  | sustainFrames (slot : UInt8) (frames : UInt16)
  | risingEdge (slot : UInt8)
  | cooldownMs (slot : UInt8) (durationMs : UInt64)
  | jumpIfFalse (target : UInt8)
  | emit (eventType : String)
  | capture (kind : CaptureKind) (beforeMs afterMs : UInt64)
  | notify (channel : ActionChannel)
  | halt
  deriving DecidableEq

/-- Actions are what a firing program reports; `triggers.rs:356`. -/
def TriggerInstruction.isAction : TriggerInstruction → Bool
  | .emit _ => true
  | .capture .. => true
  | .notify _ => true
  | _ => false

/-- The one action that creates the event. -/
def TriggerInstruction.isEmit : TriggerInstruction → Bool
  | .emit _ => true
  | _ => false

/-- The state slot of an instruction. -/
def TriggerInstruction.slot? : TriggerInstruction → Option UInt8
  | .sustainFrames slot _ => some slot
  | .risingEdge slot => some slot
  | .cooldownMs slot _ => some slot
  | _ => none

/-- A program; `triggers.rs:19`. -/
structure TriggerProgram where
  isaVersion : UInt16
  programId : String
  version : UInt64
  instructions : List TriggerInstruction
  deriving DecidableEq

/-- State slots a program uses; `triggers.rs:311`. -/
def TriggerProgram.stateSlots (p : TriggerProgram) : Nat :=
  ((p.instructions.filterMap TriggerInstruction.slot?).map fun slot ↦ slot.toNat + 1).max?.getD 0

/-- One observed value; `triggers.rs:137`. -/
structure TriggerObservation where
  signal : TriggerSignal
  value : F32

/-- One sample; `triggers.rs:119`. -/
structure TriggerSample where
  ptsMs : UInt64
  motionScore : Option F32
  noveltyScore : Option F32
  confidence : Option F32
  modelUncertainty : Option F32
  teacherDisagreement : Option F32
  observations : List TriggerObservation

/-- Errors with their source line; `triggers.rs:150`. -/
structure TriggerError where
  line : Option Nat
  message : String
  deriving DecidableEq

namespace TriggerError

/-- An error in a line of source. -/
def atLine (line : Nat) (message : String) : TriggerError := ⟨some line, message⟩

/-- An error of a whole program. -/
def program (message : String) : TriggerError := ⟨none, message⟩

/-- Text of an error; `triggers.rs:171`. -/
def display (e : TriggerError) : String :=
  match e.line with
  | some line => s!"line {line}: {e.message}"
  | none => e.message

end TriggerError

/-- How a check or a compilation fails: with an error, or by a panic. -/
inductive Failure where
  | rejected (error : TriggerError)
  | panicked
  deriving DecidableEq

/-- Fail with a program error. -/
def reject {α : Type} (message : String) : Except Failure α :=
  .error (.rejected (.program message))

/-- Fail with an error in a line. -/
def rejectAt {α : Type} (line : Nat) (message : String) : Except Failure α :=
  .error (.rejected (.atLine line message))

end Vidarax.Trigger
