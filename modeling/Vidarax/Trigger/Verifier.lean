import Vidarax.Base.Machine
import Vidarax.Base.Utf8
import Vidarax.Base.Worklist
import Vidarax.Trigger.Program

/-!
# The program checker

Package `vidarax-contracts`, `crates/vidarax-contracts/src/triggers.rs:185–309,326–500`.
`validate` passes over the instructions once, labels every reachable instruction with its
stack depth and checks that the actions form one block before the halt.
-/

namespace Vidarax.Trigger

open Vidarax.Base

/-! ### Names and signals -/

/-- Bytes of an identifier. -/
def isIdentifierByte (b : UInt8) : Bool :=
  0x30 ≤ b ∧ b ≤ 0x39 ∨ 0x41 ≤ b ∧ b ≤ 0x5A ∨ 0x61 ≤ b ∧ b ≤ 0x7A ∨ b = 0x2D ∨ b = 0x5F ∨
    b = 0x2E ∨ b = 0x3A

/-- `validate_identifier`; `triggers.rs:451`. -/
def validateIdentifier (value field : String) : Except Failure Unit :=
  if utf8 value = [] ∨ (utf8 value).length > MAX_TRIGGER_ID_BYTES ∨
      ¬ (utf8 value).all isIdentifierByte then
    reject s!"{field} must be 1..={MAX_TRIGGER_ID_BYTES} bytes using letters, digits, '-', '_', '.', or ':'"
  else .ok ()

/-- `validate_signal`; `triggers.rs:465`. -/
def validateSignal : TriggerSignal → Except Failure Unit
  | .objectCount label zone => do
    validateIdentifier label "object label"
    match zone with
    | some zone => validateIdentifier zone "zone"
    | none => .ok ()
  | .minimumDistanceMm left right => do
    validateIdentifier left "left object label"
    validateIdentifier right "right object label"
  | .timeToCollisionMs left right => do
    validateIdentifier left "left object label"
    validateIdentifier right "right object label"
  | .dwellMs label zone => do
    validateIdentifier label "object label"
    validateIdentifier zone "zone"
  | .audioEventConfidence label => validateIdentifier label "audio event label"
  | _ => .ok ()

/-! ### The pass over the instructions -/

/-- Counters of the pass. -/
structure Pass where
  stackDepth : Nat
  emitCount : Nat
  actionCount : Nat
  halted : Bool
  deriving DecidableEq

/-- `require_stack`; `triggers.rs:433`. -/
def requireStack (index available needed : Nat) : Except Failure Unit :=
  if available < needed then
    reject s!"instruction {index} needs {needed} stack values, found {available}"
  else .ok ()

/-- `validate_slot`; `triggers.rs:442`. -/
def validateSlot (index : Nat) (slot : UInt8) : Except Failure Unit :=
  if slot.toNat ≥ MAX_TRIGGER_STATE_SLOTS then
    reject s!"instruction {index} state slot must be below {MAX_TRIGGER_STATE_SLOTS}"
  else .ok ()

/-- An instruction that combines two stack values. -/
def checkBinary (index : Nat) (pass : Pass) : Except Failure Pass := do
  requireStack index pass.stackDepth 2
  .ok { pass with stackDepth := pass.stackDepth - 1 }

/-- The checks of one instruction; `triggers.rs:219`. -/
def checkInstruction (count index : Nat) (pass : Pass) :
    TriggerInstruction → Except Failure Pass
  | .load signal => do
    validateSignal signal
    .ok { pass with stackDepth := pass.stackDepth + 1 }
  | .constant value =>
    if ¬ value.isFinite then reject s!"instruction {index} has a non-finite constant"
    else .ok { pass with stackDepth := pass.stackDepth + 1 }
  | .greaterThan => checkBinary index pass
  | .greaterOrEqual => checkBinary index pass
  | .lessThan => checkBinary index pass
  | .lessOrEqual => checkBinary index pass
  | .equal => checkBinary index pass
  | .and => checkBinary index pass
  | .or => checkBinary index pass
  | .not => do
    requireStack index pass.stackDepth 1
    .ok pass
  | .sustainFrames slot frames => do
    requireStack index pass.stackDepth 1
    validateSlot index slot
    if frames = 0 ∨ frames > 10000 then
      reject s!"instruction {index} sustain frames must be in [1, 10000]"
    else .ok pass
  | .risingEdge slot => do
    requireStack index pass.stackDepth 1
    validateSlot index slot
    .ok pass
  | .cooldownMs slot durationMs => do
    requireStack index pass.stackDepth 1
    validateSlot index slot
    if durationMs > 86400000 then reject s!"instruction {index} cooldown exceeds 24 hours"
    else .ok pass
  | .jumpIfFalse target => do
    requireStack index pass.stackDepth 1
    if target.toNat ≤ index ∨ target.toNat ≥ count then
      reject s!"instruction {index} jump target must be forward and in bounds"
    else .ok { pass with stackDepth := pass.stackDepth - 1 }
  | .emit eventType => do
    validateIdentifier eventType "event_type"
    .ok { pass with emitCount := pass.emitCount + 1, actionCount := pass.actionCount + 1 }
  | .capture _ beforeMs afterMs =>
    if satAdd beforeMs afterMs > MAX_CAPTURE_WINDOW_MS then
      reject s!"instruction {index} capture window exceeds {MAX_CAPTURE_WINDOW_MS}ms"
    else .ok { pass with actionCount := pass.actionCount + 1 }
  | .notify _ => .ok { pass with actionCount := pass.actionCount + 1 }
  | .halt => .ok { pass with halted := true }

/-- The limits after one instruction; `triggers.rs:287`. -/
def checkLimits (index : Nat) (pass : Pass) : Except Failure Pass :=
  if pass.stackDepth > MAX_TRIGGER_STACK then
    reject s!"instruction {index} exceeds stack depth {MAX_TRIGGER_STACK}"
  else if pass.actionCount > MAX_TRIGGER_ACTIONS then
    reject s!"program exceeds {MAX_TRIGGER_ACTIONS} actions"
  else .ok pass

/-- The pass from an index on. -/
def checkInstructions (count : Nat) : Nat → Pass → List TriggerInstruction → Except Failure Pass
  | _, pass, [] => .ok pass
  | index, pass, instruction :: rest =>
    if pass.halted then reject s!"instruction {index} is unreachable after halt"
    else do
      let pass ← checkInstruction count index pass instruction
      let pass ← checkLimits index pass
      checkInstructions count (index + 1) pass rest

/-! ### Stack depths -/

namespace TriggerInstruction

/-- Stack values an instruction needs. -/
def required : TriggerInstruction → Nat
  | .load _ | .constant _ => 0
  | .greaterThan | .greaterOrEqual | .lessThan | .lessOrEqual | .equal | .and | .or => 2
  | .not | .sustainFrames .. | .risingEdge _ | .cooldownMs .. => 1
  | .jumpIfFalse _ => 1
  | .emit _ | .capture .. | .notify _ | .halt => 0

/-- Stack values an instruction leaves in place of those it needs. -/
def produced : TriggerInstruction → Nat
  | .load _ | .constant _ => 1
  | .greaterThan | .greaterOrEqual | .lessThan | .lessOrEqual | .equal | .and | .or => 1
  | .not | .sustainFrames .. | .risingEdge _ | .cooldownMs .. => 1
  | .jumpIfFalse _ => 0
  | .emit _ | .capture .. | .notify _ | .halt => 0

/-- Instructions that may run after this one. -/
def successors (count index : Nat) : TriggerInstruction → List Nat
  | .halt => []
  | .jumpIfFalse target =>
    (if index + 1 < count then [index + 1] else []) ++ [target.toNat]
  | _ => if index + 1 < count then [index + 1] else []

end TriggerInstruction

/-- The visit of one instruction; `triggers.rs:371`. -/
def visitInstruction (instructions : List TriggerInstruction) (index depth : Nat) :
    Except Failure (Nat × List Nat) :=
  match instructions[index]? with
  | none => .error .panicked
  | some instruction =>
    if depth < instruction.required then
      reject s!"instruction {index} can be reached with stack depth {depth}, but needs {instruction.required}"
    else
      let nextDepth := depth - instruction.required + instruction.produced
      if nextDepth > MAX_TRIGGER_STACK then
        reject s!"instruction {index} exceeds stack depth {MAX_TRIGGER_STACK}"
      else .ok (nextDepth, instruction.successors instructions.length index)

/-- Labels of the instructions are stack depths. -/
def stackFlow (instructions : List TriggerInstruction) : Flow Nat Failure where
  visit := visitInstruction instructions
  conflict successor existing nextDepth := .rejected (.program
    s!"instruction {successor} has inconsistent incoming stack depths {existing} and {nextDepth}")
  fault := .panicked

/-- The depths before any visit. -/
def initialDepths (instructions : List TriggerInstruction) : List (Option Nat) :=
  (List.replicate instructions.length none).set 0 (some 0)

/-- `validate_stack_control_flow`; `triggers.rs:364`. Every instruction is pushed once. -/
def validateStackControlFlow (instructions : List TriggerInstruction) : Except Failure Unit :=
  match (stackFlow instructions).label instructions.length (initialDepths instructions) [0] with
  | .error e => .error e
  | .ok _ => .ok ()

/-! ### The action block -/

/-- An instruction before the block jumps into it. -/
def jumpsInto (firstAction halt : Nat) : TriggerInstruction → Bool
  | .jumpIfFalse target => target.toNat > firstAction ∧ target.toNat ≠ halt
  | _ => false

/-- `validate_atomic_action_block`; `triggers.rs:326`. -/
def validateAtomicActionBlock (instructions : List TriggerInstruction) : Except Failure Unit :=
  let halt := instructions.length - 1
  match instructions.findIdx? TriggerInstruction.isAction with
  | none => .error .panicked
  | some firstAction =>
    if halt < firstAction then .error .panicked
    else if ¬ ((instructions.take halt).drop firstAction).all TriggerInstruction.isAction then
      reject "emit, capture, and notify instructions must form one contiguous block before halt"
    else
      match (instructions.take firstAction).findIdx? (jumpsInto firstAction halt) with
      | some index => reject
          s!"instruction {index} jumps into the action block; actions must execute atomically"
      | none => .ok ()

/-! ### The checker -/

/-- `TriggerProgram::validate`; `triggers.rs:185`. -/
def TriggerProgram.validate (p : TriggerProgram) : Except Failure Unit :=
  if p.isaVersion.toNat ≠ TRIGGER_ISA_VERSION then
    reject s!"unsupported trigger ISA version {p.isaVersion}; expected {TRIGGER_ISA_VERSION}"
  else do
    validateIdentifier p.programId "program_id"
    if p.version = 0 then reject "program version must be greater than zero"
    else if p.instructions = [] ∨ p.instructions.length > MAX_TRIGGER_INSTRUCTIONS then
      reject s!"instruction count must be in [1, {MAX_TRIGGER_INSTRUCTIONS}]"
    else do
      let pass ← checkInstructions p.instructions.length 0 ⟨0, 0, 0, false⟩ p.instructions
      if ¬ pass.halted then reject "program must end with halt"
      else if pass.emitCount ≠ 1 then reject "program must contain exactly one emit action"
      else do
        validateStackControlFlow p.instructions
        validateAtomicActionBlock p.instructions

end Vidarax.Trigger
