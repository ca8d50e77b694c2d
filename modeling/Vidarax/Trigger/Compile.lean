import Vidarax.Base.Number
import Vidarax.Base.Str
import Vidarax.Base.Text
import Vidarax.Trigger.Verifier

/-!
# The trigger compiler

Package `vidarax-contracts`, `crates/vidarax-contracts/src/triggers.rs:502–784`. A trigger
source is read line by line into a draft, which is then laid out as stack code. Parsing of
an `f32` is a parameter.
-/

namespace Vidarax.Trigger

open Vidarax.Base

/-! ### Words of a line -/

/-- A line without its comment and surrounding white space. -/
def statementText (raw : List Char) : List Char := trim (raw.takeWhile (· ≠ '#'))

/-- The fields of a statement. -/
def fieldsOf (line : List Char) : List String := (splitWhitespace line).map String.ofList

/-- An unsigned integer of at most `bound`. -/
def parseInteger (bound : Nat) (s : String) : Option Nat := parseUnsigned 10 bound (utf8 s)

/-! ### Conditions -/

/-- Comparisons of a condition, each an instruction. -/
inductive Comparison where
  | greaterThan
  | greaterOrEqual
  | lessThan
  | lessOrEqual
  | equal
  deriving DecidableEq

/-- The instruction of a comparison. -/
def Comparison.instruction : Comparison → TriggerInstruction
  | .greaterThan => .greaterThan
  | .greaterOrEqual => .greaterOrEqual
  | .lessThan => .lessThan
  | .lessOrEqual => .lessOrEqual
  | .equal => .equal

/-- A condition line; `triggers.rs:503`. -/
structure Condition where
  signal : TriggerSignal
  comparison : Comparison
  value : F32
  sustainFrames : Option UInt16
  deriving DecidableEq

/-- `str::split_once` at an ASCII character. -/
def splitAt (sep : UInt8) (hs : sep < 0x80) (s : String) : Option (String × String) :=
  match splitOnce sep hs s with
  | (_, none) => none
  | (front, some rest) => some (front, rest)

/-- Signals without arguments. -/
def plainSignal (raw : String) : Option TriggerSignal :=
  if raw = "motion_score" then some .motionScore
  else if raw = "novelty_score" then some .noveltyScore
  else if raw = "confidence" then some .confidence
  else if raw = "model_uncertainty" then some .modelUncertainty
  else if raw = "teacher_disagreement" then some .teacherDisagreement
  else if raw = "speech_confidence" then some .speechConfidence
  else if raw = "audio_novelty_score" then some .audioNoveltyScore
  else if raw = "cognition_gate_score" then some .cognitionGateScore
  else none

/-- Signals with arguments after a colon. -/
def signalOfKind (kind args : String) (line : Nat) : Except Failure TriggerSignal :=
  if kind = "object_count" then
    match splitAt 0x40 (by decide) args with
    | none => .ok (.objectCount args none)
    | some (label, zone) => .ok (.objectCount label (some zone))
  else if kind = "minimum_distance_mm" ∨ kind = "time_to_collision_ms" then
    match splitAt 0x2C (by decide) args with
    | none => rejectAt line "geometry signal requires two comma-separated labels"
    | some (left, right) =>
      if kind = "minimum_distance_mm" then .ok (.minimumDistanceMm left right)
      else .ok (.timeToCollisionMs left right)
  else if kind = "dwell_ms" then
    match splitAt 0x40 (by decide) args with
    | none => rejectAt line "dwell_ms requires label@zone"
    | some (label, zone) => .ok (.dwellMs label zone)
  else if kind = "audio_event" then .ok (.audioEventConfidence args)
  else rejectAt line "unknown trigger signal"

/-- `parse_signal`; `triggers.rs:718`. -/
def parseSignal (raw : String) (line : Nat) : Except Failure TriggerSignal :=
  match plainSignal raw with
  | some signal => .ok signal
  | none =>
    match splitAt 0x3A (by decide) raw with
    | none => rejectAt line "unknown trigger signal"
    | some (kind, args) => signalOfKind kind args line

/-- The comparison a symbol stands for. -/
def comparisonOf (symbol : String) : Option Comparison :=
  if symbol = ">" then some .greaterThan
  else if symbol = ">=" then some .greaterOrEqual
  else if symbol = "<" then some .lessThan
  else if symbol = "<=" then some .lessOrEqual
  else if symbol = "==" then some .equal
  else none

/-- A field that must parse. -/
def parsed {α : Type} (value : Option α) (line : Nat) (message : String) : Except Failure α :=
  match value with
  | some a => .ok a
  | none => rejectAt line message

variable (parseF32 : String → Option F32)

/-- The fields of a condition after its keyword, with the frame count if there is one. -/
def conditionFields (signal comparison value : String) (frames : Option String) (line : Nat) :
    Except Failure Condition := do
  let signal ← parseSignal signal line
  let comparison ← parsed (comparisonOf comparison) line "comparison must be >, >=, <, <=, or =="
  let value ← parsed (parseF32 value) line "condition value must be a number"
  match frames with
  | none => .ok ⟨signal, comparison, value, none⟩
  | some frames =>
    let frames ← parsed (parseInteger 65535 frames) line "frame count must be an integer"
    .ok ⟨signal, comparison, value, some (UInt16.ofNat frames)⟩

/-- `parse_condition`; `triggers.rs:680`. -/
def parseCondition (fields : List String) (line : Nat) : Except Failure Condition :=
  match fields with
  | [_, signal, comparison, value] => conditionFields parseF32 signal comparison value none line
  | [_, signal, comparison, value, preposition, frames, unit] =>
    if preposition ≠ "for" ∨ unit ≠ "frames" then rejectAt line "expected 'for <n> frames'"
    else conditionFields parseF32 signal comparison value (some frames) line
  | _ => rejectAt line "expected: when <signal> <comparison> <value> [for <n> frames]"

/-- `parse_duration_ms`; `triggers.rs:779`. -/
def parseDurationMs (raw : String) (line : Nat) : Except Failure UInt64 := do
  let digits := (stripSuffix "ms".toList raw.toList).elim raw String.ofList
  let n ← parsed (parseInteger u64Max digits) line
    "duration must be milliseconds, for example 5000ms"
  .ok (UInt64.ofNat n)

/-! ### Statements -/

/-- What the lines read so far say. -/
structure Draft where
  header : Option (String × UInt64)
  conditions : List Condition
  edge : Bool
  cooldownMs : Option UInt64
  actions : List TriggerInstruction
  sawEnd : Bool

/-- Before the first line. -/
def Draft.empty : Draft := ⟨none, [], false, none, [], false⟩

/-- The header statement. -/
def headerStatement (draft : Draft) (args : List String) (line : Nat) : Except Failure Draft :=
  match draft.header, args with
  | none, [programId, keyword, version] =>
    if keyword ≠ "version" then
      rejectAt line "expected: trigger <program-id> version <positive-integer>"
    else do
      let version ← parsed (parseInteger u64Max version) line "invalid program version"
      .ok { draft with header := some (programId, UInt64.ofNat version) }
  | _, _ => rejectAt line "expected: trigger <program-id> version <positive-integer>"

/-- The capture statement. -/
def captureStatement (args : List String) (line : Nat) : Except Failure TriggerInstruction :=
  match args with
  | [kind] =>
    if kind = "keyframe" then .ok (.capture .keyframe 0 0)
    else rejectAt line "expected: capture keyframe | capture clip <before-ms> <after-ms>"
  | [kind, before, after] =>
    if kind = "clip" then do
      let before ← parseDurationMs before line
      let after ← parseDurationMs after line
      .ok (.capture .clip before after)
    else rejectAt line "expected: capture keyframe | capture clip <before-ms> <after-ms>"
  | _ => rejectAt line "expected: capture keyframe | capture clip <before-ms> <after-ms>"

/-- The channel of a notify statement. -/
def channelOf (channel : String) (line : Nat) : Except Failure ActionChannel :=
  if channel = "webhook" then .ok .webhook
  else if channel = "local_output" then .ok .localOutput
  else rejectAt line
    "notify channel must be webhook or local_output; emit already creates the durable event"

/-- One statement; `triggers.rs:543`. -/
def compileStatement (draft : Draft) (fields : List String) (line : Nat) :
    Except Failure Draft :=
  match fields with
  | [] => rejectAt line "unrecognized trigger statement"
  | keyword :: args =>
    if keyword = "trigger" then headerStatement draft args line
    else if keyword = "when" ∨ keyword = "and" then
      if draft.header.isNone then rejectAt line "condition precedes trigger header"
      else do
        let condition ← parseCondition parseF32 fields line
        .ok { draft with conditions := draft.conditions ++ [condition] }
    else if keyword = "edge" ∧ args = ["rising"] then .ok { draft with edge := true }
    else if keyword = "cooldown" ∧ args.length = 1 then do
      let duration ← parseDurationMs (args.headD "") line
      .ok { draft with cooldownMs := some duration }
    else if keyword = "emit" ∧ args.length = 1 then
      .ok { draft with actions := draft.actions ++ [.emit (args.headD "")] }
    else if keyword = "capture" ∧ args.length ≥ 1 then do
      let action ← captureStatement args line
      .ok { draft with actions := draft.actions ++ [action] }
    else if keyword = "notify" ∧ args.length = 1 then do
      let channel ← channelOf (args.headD "") line
      .ok { draft with actions := draft.actions ++ [.notify channel] }
    else if keyword = "end" ∧ args = [] then .ok { draft with sawEnd := true }
    else rejectAt line "unrecognized trigger statement"

/-- The lines of a source from a line number on; `triggers.rs:534`. -/
def compileLines (draft : Draft) : Nat → List (List Char) → Except Failure Draft
  | _, [] => .ok draft
  | line, raw :: rest =>
    let text := statementText raw
    if text = [] then compileLines draft (line + 1) rest
    else if draft.sawEnd then rejectAt line "content after end"
    else do
      let draft ← compileStatement parseF32 draft (fieldsOf text) line
      compileLines draft (line + 1) rest

/-! ### Code -/

/-- `next_slot.saturating_add(1)`. -/
def nextSlot (slot : UInt8) : UInt8 := UInt8.ofNat (min (slot.toNat + 1) 255)

/-- Code of one condition; it leaves its truth value on the stack. -/
def conditionCode (slot : UInt8) (c : Condition) : List TriggerInstruction :=
  [.load c.signal, .constant c.value, c.comparison.instruction] ++
    match c.sustainFrames with
    | none => []
    | some frames => [.sustainFrames slot frames]

/-- The slot after a condition. -/
def slotAfter (slot : UInt8) (c : Condition) : UInt8 :=
  if c.sustainFrames.isSome then nextSlot slot else slot

/-- Code of the conditions from an index on, with the first free slot after it. -/
def conditionsCode : Nat → UInt8 → List Condition → List TriggerInstruction × UInt8
  | _, slot, [] => ([], slot)
  | index, slot, c :: rest =>
    let (code, last) := conditionsCode (index + 1) (slotAfter slot c) rest
    (conditionCode slot c ++ (if index > 0 then [.and] else []) ++ code, last)

/-- Code of the edge. -/
def edgeCode (edge : Bool) (slot : UInt8) : List TriggerInstruction :=
  if edge then [.risingEdge slot] else []

/-- Code of the cooldown. -/
def cooldownCode (cooldownMs : Option UInt64) (slot : UInt8) : List TriggerInstruction :=
  match cooldownMs with
  | none => []
  | some durationMs => [.cooldownMs slot durationMs]

/-- Code that decides whether a draft fires; `triggers.rs:628`. -/
def Draft.decision (draft : Draft) : List TriggerInstruction :=
  let (code, slot) := conditionsCode 0 0 draft.conditions
  code ++ edgeCode draft.edge slot ++
    cooldownCode draft.cooldownMs (if draft.edge then nextSlot slot else slot)

/-- The program of a draft; `triggers.rs:618`. -/
def Draft.assemble (draft : Draft) : Except Failure TriggerProgram :=
  match draft.header with
  | none => reject "missing trigger header"
  | some (programId, version) =>
    if draft.conditions = [] then reject "trigger needs at least one condition"
    else if ¬ draft.sawEnd then reject "trigger source must end with end"
    else
      let halt := draft.decision.length + 1 + draft.actions.length
      if halt > 255 then reject "compiled program exceeds jump address space"
      else do
        let program : TriggerProgram := ⟨UInt16.ofNat TRIGGER_ISA_VERSION, programId, version,
          draft.decision ++ [.jumpIfFalse (UInt8.ofNat halt)] ++ draft.actions ++ [.halt]⟩
        program.validate
        .ok program

/-- `compile_trigger`; `triggers.rs:522`. -/
def compileTrigger (source : String) : Except Failure TriggerProgram := do
  let draft ← compileLines parseF32 .empty 1 (lines source.toList)
  draft.assemble

end Vidarax.Trigger
