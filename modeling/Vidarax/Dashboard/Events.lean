import Mathlib.Data.Prod.Lex
import Mathlib.Logic.Function.Basic
import Vidarax.Base.FloatDiff
import Vidarax.Base.SortedInsert

/-!
# The events of the dashboard

Package `ui`, `ui/src/stores/events.ts:70–128,172–213,264–290`. Events are stored in their order, by
run and by identity, and the latest ones are kept apart. An event is an object that is told from
others of the same content; reading it gives the content. A number is a finite double.
-/

namespace Vidarax.Dashboard

open Vidarax.Base

/-! ### Events -/

/-- `EventType`; `events.ts:4`. -/
inductive EventType where
  | sceneCut
  | loopDetected
  | vlmDescription
  | artifactSuspected
  | exposureShift
  | flicker
  | keyframe
  | audioObservation
  | restrictedZoneActivity
  | triggerAssertion
  deriving DecidableEq

/-- A number that is neither infinite nor `NaN`. -/
abbrev FiniteNumber : Type := { x : F64 // x.isFinite = true }

/-- `AgentEvent`; `events.ts:16`. -/
structure AgentEvent where
  runId : String
  sessionId : String
  frameIndex : FiniteNumber
  ptsMs : FiniteNumber
  eventType : EventType
  confidence : FiniteNumber
  description : String
  timestampMs : FiniteNumber

/-- `MAX_EVENTS`. -/
def MAX_EVENTS : Nat := 500

/-- How many of the latest events are kept apart; `events.ts:198`. -/
def maxLatest : Nat := 20

/-- `a || b`: the second number if the first is zero or `NaN`. -/
def orElse (a b : F64) : F64 := if a.isNan ∨ a.magnitude = 0 then b else a

/-- `eventOrder`; `events.ts:70`. -/
def eventOrder (a b : AgentEvent) : F64 :=
  orElse (orElse (a.timestampMs.val.sub b.timestampMs.val) (a.ptsMs.val.sub b.ptsMs.val))
    (a.frameIndex.val.sub b.frameIndex.val)

/-- `latestOrder`; `events.ts:76`. -/
def latestOrder (a b : AgentEvent) : F64 := (eventOrder a b).neg

/-- `binaryInsert`; `events.ts:87`. -/
def binaryInsert {α : Type} (arr : List α) (item : α) (compare : α → α → F64) : List α :=
  if arr.getLast?.all fun last ↦ (compare last item).le .zero then arr ++ [item]
  else
    let lo := upperBound (fun a ↦ (compare a item).le .zero) arr arr.length 0 arr.length
    arr.take lo ++ item :: arr.drop lo

/-- The parts of `eventIdentityKey`. `JSON.stringify` writes different strings differently, and
numbers alike exactly if they are equal; `events.ts:118`. -/
structure IdentityKey where
  runId : String
  sessionId : String
  frameIndex : Int
  ptsMs : Int
  eventType : EventType
  timestampMs : Int
  deriving DecidableEq

/-- `eventIdentityKey`; `events.ts:118`. -/
def eventIdentityKey (event : AgentEvent) : IdentityKey :=
  ⟨event.runId, event.sessionId, event.frameIndex.val.position, event.ptsMs.val.position,
    event.eventType, event.timestampMs.val.position⟩

/-- `eventIdentityMatches`; `events.ts:109`. -/
def eventIdentityMatches (a b : AgentEvent) : Bool :=
  a.runId = b.runId ∧ a.sessionId = b.sessionId ∧ a.frameIndex.val.eq b.frameIndex.val ∧
    a.ptsMs.val.eq b.ptsMs.val ∧ a.eventType = b.eventType ∧ a.timestampMs.val.eq b.timestampMs.val

/-- `eventContentMatches`; `events.ts:130`. -/
def eventContentMatches (a b : AgentEvent) : Bool :=
  eventIdentityMatches a b ∧ a.confidence.val.eq b.confidence.val ∧ a.description = b.description

/-! ### The store -/

/-- The events of a store, with what finds them. -/
structure EventStore (Obj : Type) where
  events : List Obj
  eventsByRunId : String → Option (List Obj)
  latestEventsIndex : List Obj
  eventIdentityIndex : IdentityKey → Option Obj

namespace EventStore

variable {Obj : Type}

/-- A store without events. -/
def empty : EventStore Obj := ⟨[], fun _ ↦ none, [], fun _ ↦ none⟩

variable [DecidableEq Obj] (read : Obj → AgentEvent) (s : EventStore Obj)

/-- An event goes from all that finds it; `events.ts:178,203`. -/
def forget (identityKey : IdentityKey) (event : Obj) : EventStore Obj :=
  { s with
    eventsByRunId :=
      match s.eventsByRunId (read event).runId with
      | none => s.eventsByRunId
      | some indexed =>
        let indexed := indexed.erase event
        Function.update s.eventsByRunId (read event).runId (if indexed = [] then none else some indexed)
    latestEventsIndex := s.latestEventsIndex.erase event
    eventIdentityIndex := Function.update s.eventIdentityIndex identityKey none }

/-- An event goes that is replaced; `events.ts:177`. -/
def removeExisting (identityKey : IdentityKey) (existing : Obj) : EventStore Obj :=
  { s with events := s.events.erase existing }.forget read identityKey existing

/-- An event comes in everywhere; `events.ts:187`. -/
def store (event : Obj) : EventStore Obj where
  events := binaryInsert s.events event fun a b ↦ eventOrder (read a) (read b)
  eventsByRunId := Function.update s.eventsByRunId (read event).runId
    (some (binaryInsert ((s.eventsByRunId (read event).runId).getD []) event fun a b ↦
      eventOrder (read a) (read b)))
  latestEventsIndex := (binaryInsert s.latestEventsIndex event fun a b ↦
    latestOrder (read a) (read b)).take maxLatest
  eventIdentityIndex :=
    Function.update s.eventIdentityIndex (eventIdentityKey (read event)) (some event)

/-- The oldest events go when there are too many; `events.ts:200`. -/
def dropOldest : EventStore Obj :=
  let dropped := s.events.take (s.events.length - MAX_EVENTS)
  dropped.foldl (fun s event ↦ s.forget read (eventIdentityKey (read event)) event)
    { s with events := s.events.drop (s.events.length - MAX_EVENTS) }

/-- `addEvent`; `events.ts:172`. -/
def addEvent (event : Obj) : EventStore Obj :=
  let identityKey := eventIdentityKey (read event)
  match s.eventIdentityIndex identityKey with
  | some existing =>
    if eventContentMatches (read existing) (read event) then s
    else (((s.removeExisting read identityKey existing).store read event).dropOldest read)
  | none => (s.store read event).dropOldest read

/-- `clearEventsForRun`; `events.ts:264`. -/
def clearEventsForRun (runId : String) : EventStore Obj where
  eventIdentityIndex := s.events.foldl (fun index event ↦
    if (read event).runId = runId then
      Function.update index (eventIdentityKey (read event)) none
    else index) s.eventIdentityIndex
  events := s.events.filter fun event ↦ (read event).runId ≠ runId
  latestEventsIndex := s.latestEventsIndex.filter fun event ↦ (read event).runId ≠ runId
  eventsByRunId := Function.update s.eventsByRunId runId none

end EventStore

/-- What a store is asked to do. -/
inductive Call (Obj : Type) where
  | addEvent (event : Obj)
  | clearEventsForRun (runId : String)
  | clearAll

variable {Obj : Type} [DecidableEq Obj] (read : Obj → AgentEvent)

/-- One call. -/
def step (s : EventStore Obj) : Call Obj → EventStore Obj
  | .addEvent event => s.addEvent read event
  | .clearEventsForRun runId => s.clearEventsForRun read runId
  | .clearAll => .empty

/-- The store after some calls. -/
def after (calls : List (Call Obj)) : EventStore Obj := calls.foldl (step read) .empty

end Vidarax.Dashboard
