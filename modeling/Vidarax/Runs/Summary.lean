import Vidarax.Base.Json
import Vidarax.Timeline.Event

/-!
# Run states

Packages `vidarax-api` and `vidarax-contracts`, `crates/vidarax-api/src/state.rs:2341–2547` and
`crates/vidarax-contracts/src/lifecycle.rs`. What a run is after some of its events, once as a
summary that events are folded into and once as the atomics of a running server.
-/

namespace Vidarax.Runs

open Vidarax.Base Vidarax.Timeline

/-- States of a stream; `lifecycle.rs:2`. -/
inductive StreamState where
  | pending
  | processing
  | completed
  | failed
  | cancelled
  | expired
  deriving DecidableEq

/-- A state that ends a stream; `lifecycle.rs:12`. -/
def StreamState.isTerminal : StreamState → Bool
  | completed | failed | cancelled | expired => true
  | pending | processing => false

/-- The state that an event of some kind leads to, if any; `state.rs:2513`. -/
def transitionState (eventKind : String) : Option StreamState :=
  if eventKind = "run_created" then some .pending
  else if eventKind = "ingest_received" ∨ eventKind = "analysis_generated" ∨
      eventKind = "inference_completed" ∨ eventKind = "keepalive_refreshed" then some .processing
  else if eventKind = "run_completed" then some .completed
  else if eventKind = "run_failed" then some .failed
  else if eventKind = "stop_requested" then some .cancelled
  else none

/-- States as bytes; `state.rs:2527`. -/
def encodeStreamState : StreamState → UInt8
  | .pending => 0
  | .processing => 1
  | .completed => 2
  | .failed => 3
  | .cancelled => 4
  | .expired => 5

/-- Bytes as states; `state.rs:2538`. -/
def decodeStreamState (raw : UInt8) : StreamState :=
  if raw = 1 then .processing
  else if raw = 2 then .completed
  else if raw = 3 then .failed
  else if raw = 4 then .cancelled
  else if raw = 5 then .expired
  else .pending

@[simp] theorem decodeStreamState_encode (state : StreamState) :
    decodeStreamState (encodeStreamState state) = state := by
  cases state <;> rfl

/-- Principal that a payload names; `state.rs:2504`. How texts are parsed is `fromStr`. -/
def principalKeyFromPayload (fromStr : String → Option Json) (raw : String) : Option String := do
  let payload ← fromStr raw
  let value ← payload.get "principal_key"
  value.asStr

/-! ### Summaries -/

/-- What is known of a run; `state.rs:2436`. -/
structure RunSummary where
  created : Bool
  deleted : Bool
  principalKey : String
  state : StreamState
  lastActivityMs : UInt64
  deriving DecidableEq

namespace RunSummary

/-- A run without events; `state.rs:2445`. -/
def defaultPublic : RunSummary := ⟨false, false, "public", .pending, 0⟩

/-- `apply_event`; `state.rs:2455`. -/
def applyEvent (fromStr : String → Option Json) (summary : RunSummary) (event : TimelineEvent) :
    RunSummary where
  created := summary.created || event.kind = "run_created"
  deleted := summary.deleted || event.kind = "run_deleted"
  principalKey :=
    if event.kind = "run_created" then
      (principalKeyFromPayload fromStr event.payload).getD summary.principalKey
    else summary.principalKey
  state := (transitionState event.kind).getD summary.state
  lastActivityMs := max summary.lastActivityMs event.ptsMs

end RunSummary

/-! ### Atomics -/

/-- Values of the deletion flag; `state.rs:67`. -/
inductive RunDelete where
  | live
  | appendInFlight
  | deleted
  deriving DecidableEq

/-- State of a run in a running server; `state.rs:2341`. -/
structure RunState where
  created : Bool
  deleteState : RunDelete
  principalKey : String
  state : UInt8
  lastActivityMs : UInt64
  deriving DecidableEq

namespace RunState

/-- `from_summary`; `state.rs:2351`. -/
def fromSummary (summary : RunSummary) : RunState where
  created := summary.created
  deleteState := if summary.deleted then .deleted else .live
  principalKey := summary.principalKey
  state := encodeStreamState summary.state
  lastActivityMs := summary.lastActivityMs

/-- `snapshot`; `state.rs:2424`. -/
def snapshot (run : RunState) : RunSummary where
  created := run.created
  deleted := run.deleteState = .deleted
  principalKey := run.principalKey
  state := decodeStreamState run.state
  lastActivityMs := run.lastActivityMs

/-- `commit_delete_append` without its notification; `state.rs:2392`. -/
def commitDeleteAppend (run : RunState) : RunState := { run with deleteState := .deleted }

/-- `rollback_delete_append` without its notification; `state.rs:2398`. -/
def rollbackDeleteAppend (run : RunState) : RunState :=
  if run.deleteState = .appendInFlight then { run with deleteState := .live } else run

/-- What `begin_delete_append` does when the exchange succeeds; `state.rs:2378`. -/
def beginDeleteAppend (run : RunState) : RunState :=
  if run.deleteState = .live then { run with deleteState := .appendInFlight } else run

/-- `apply_event`; `state.rs:2366`. -/
def applyEvent (run : RunState) (event : TimelineEvent) : RunState :=
  let run := if event.kind = "run_deleted" then run.commitDeleteAppend else run
  { run with
    state := ((transitionState event.kind).map encodeStreamState).getD run.state
    lastActivityMs := max run.lastActivityMs event.ptsMs }

@[simp] theorem snapshot_fromSummary (summary : RunSummary) :
    (fromSummary summary).snapshot = summary := by
  obtain ⟨created, deleted, principalKey, state, lastActivityMs⟩ := summary
  cases deleted <;> simp [fromSummary, snapshot]

/-- A claim on the deletion of a run does not show in its summary. -/
@[simp] theorem snapshot_beginDeleteAppend (run : RunState) :
    run.beginDeleteAppend.snapshot = run.snapshot := by
  rw [beginDeleteAppend]
  split
  · next hlive => simp [snapshot, hlive]
  · rfl

/-- Neither does its withdrawal. -/
@[simp] theorem snapshot_rollbackDeleteAppend (run : RunState) :
    run.rollbackDeleteAppend.snapshot = run.snapshot := by
  rw [rollbackDeleteAppend]
  split
  · next hclaimed => simp [snapshot, hclaimed]
  · rfl

/-- The atomics of a run follow its summary, but for its creation. -/
theorem snapshot_applyEvent (fromStr : String → Option Json) (run : RunState)
    {event : TimelineEvent} (h : event.kind ≠ "run_created") :
    (run.applyEvent event).snapshot = run.snapshot.applyEvent fromStr event := by
  have hstate : decodeStreamState
      (((transitionState event.kind).map encodeStreamState).getD run.state) =
        (transitionState event.kind).getD (decodeStreamState run.state) := by
    cases transitionState event.kind <;> simp
  rw [applyEvent, RunSummary.applyEvent]
  by_cases hdeleted : event.kind = "run_deleted"
  · rw [hdeleted] at hstate
    simp [snapshot, commitDeleteAppend, hdeleted, hstate]
  · simp [snapshot, h, hdeleted, hstate]

end RunState

end Vidarax.Runs
