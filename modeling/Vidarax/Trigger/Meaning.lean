import Vidarax.Trigger.Compile
import Vidarax.Trigger.Machine

/-!
# The meaning of a trigger source

A trigger source says on which samples it fires. This module states that meaning without
the compiler: a rule is read off the statements, and whether it fires depends on the
samples so far, newest first.
-/

namespace Vidarax.Trigger

open Vidarax.Base

/-! ### Rules -/

/-- What the statements of a source ask for. -/
structure Rule where
  conditions : List Condition
  edge : Bool
  cooldown : Option UInt64
  actions : List TriggerInstruction

/-- Whether a comparison holds of two numbers. -/
def Comparison.holds : Comparison → F32 → F32 → Bool
  | .greaterThan, a, b => b.lt a
  | .greaterOrEqual, a, b => b.le a
  | .lessThan, a, b => a.lt b
  | .lessOrEqual, a, b => a.le b
  | .equal, a, b => a.eq b

/-- The comparison of a condition holds at a sample; not without its signal. -/
def Condition.holdsAt (c : Condition) (sample : TriggerSample) : Bool :=
  match readSignal sample c.signal with
  | none => false
  | some value => c.comparison.holds value c.value

/-- The comparison held at each of the last `n` samples. -/
def Condition.heldFor (c : Condition) (n : Nat) (history : List TriggerSample) : Bool :=
  n ≤ history.length ∧ ∀ sample ∈ history.take n, c.holdsAt sample

/-- A condition holds now, and has held for its number of frames. -/
def Condition.met (c : Condition) (history : List TriggerSample) : Bool :=
  match history with
  | [] => false
  | now :: _ => c.holdsAt now && c.sustainFrames.all fun n ↦ c.heldFor n.toNat history

namespace Rule

variable (rule : Rule)

/-- All conditions are met; before the first sample none is. -/
def met (history : List TriggerSample) : Bool :=
  history ≠ [] && rule.conditions.all (·.met history)

/-- The conditions are met, with an edge for the first time in a row. -/
def triggered (history : List TriggerSample) : Bool :=
  rule.met history && !(rule.edge && rule.met history.tail)

/-- Enough time has passed since the last firing. -/
def rested (lastFiring : Option UInt64) (now : UInt64) : Bool :=
  rule.cooldown.all fun duration ↦ lastFiring.all fun last ↦ duration ≤ satSub now last

/-- Time stamp of the last firing. -/
def lastFiring : List TriggerSample → Option UInt64
  | [] => none
  | now :: earlier =>
    if rule.triggered (now :: earlier) && rule.rested (lastFiring earlier) now.ptsMs then
      some now.ptsMs
    else lastFiring earlier

/-- The rule fires at the newest sample. -/
def fires (history : List TriggerSample) : Bool :=
  match history with
  | [] => false
  | now :: earlier => rule.triggered history && rule.rested (rule.lastFiring earlier) now.ptsMs

end Rule

/-! ### Reading a source -/

/-- The statements of a source, each as its fields. -/
def statements (source : String) : List (List String) :=
  (((lines source.toList).map statementText).filter (· ≠ [])).map fieldsOf

/-- A reading without its error. -/
def accepted {α : Type} (x : Except Failure α) : Option α :=
  match x with
  | .ok a => some a
  | .error _ => none

/-- The signal a field names. -/
def signalOf (field : String) : Option TriggerSignal := accepted (parseSignal field 0)

/-- Milliseconds, with or without their unit. -/
def durationOf (field : String) : Option UInt64 := accepted (parseDurationMs field 0)

/-- The condition of a statement. -/
def conditionOf (parseF32 : String → Option F32) : List String → Option Condition
  | [keyword, signal, comparison, value] =>
    if keyword = "when" ∨ keyword = "and" then do
      let signal ← signalOf signal
      let comparison ← comparisonOf comparison
      let value ← parseF32 value
      some ⟨signal, comparison, value, none⟩
    else none
  | [keyword, signal, comparison, value, preposition, frames, unit] =>
    if (keyword = "when" ∨ keyword = "and") ∧ preposition = "for" ∧ unit = "frames" then do
      let signal ← signalOf signal
      let comparison ← comparisonOf comparison
      let value ← parseF32 value
      let frames ← parseInteger 65535 frames
      some ⟨signal, comparison, value, some (UInt16.ofNat frames)⟩
    else none
  | _ => none

/-- The cooldown of a statement. -/
def cooldownOf : List String → Option UInt64
  | [keyword, duration] => if keyword = "cooldown" then durationOf duration else none
  | _ => none

/-- The channel a field names. -/
def namedChannel (field : String) : Option ActionChannel := accepted (channelOf field 0)

/-- The action of a statement. -/
def actionOf : List String → Option TriggerInstruction
  | [keyword, argument] =>
    if keyword = "emit" then some (.emit argument)
    else if keyword = "capture" ∧ argument = "keyframe" then some (.capture .keyframe 0 0)
    else if keyword = "notify" then (namedChannel argument).map .notify
    else none
  | [keyword, kind, before, after] =>
    if keyword = "capture" ∧ kind = "clip" then do
      let before ← durationOf before
      let after ← durationOf after
      some (.capture .clip before after)
    else none
  | _ => none

/-- The rule of a source. Of several cooldowns the last one counts. -/
def ruleOf (parseF32 : String → Option F32) (source : String) : Rule where
  conditions := (statements source).filterMap (conditionOf parseF32)
  edge := ["edge", "rising"] ∈ statements source
  cooldown := ((statements source).filterMap cooldownOf).getLast?
  actions := (statements source).filterMap actionOf

end Vidarax.Trigger
