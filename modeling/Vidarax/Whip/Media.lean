import Mathlib.Logic.Relation
import Vidarax.Base.Machine

/-!
# Media capacity and sessions

Package `vidarax-api`, `crates/vidarax-api/src/state.rs:186–282,747–886` and
`crates/vidarax-api/src/whip.rs:344–699`. Starts of sessions, the supervisors of their pipelines and
the removals of sessions take their atomic operations in any order. Maps are lists of their
entries. What a start does between two operations on the shared state is not a step.
-/

namespace Vidarax.Whip

open Vidarax.Base

/-- `MAX_WEBRTC_SESSIONS`; `state.rs:47`. -/
def MAX_WEBRTC_SESSIONS : UInt64 := 100

/-- What a session needs: `MediaSessionResources`. -/
structure MediaSessionResources where
  reservedBytes : UInt64
  workerThreads : UInt64
  deriving DecidableEq

/-- Limits of `MediaResourceBudget`; `state.rs:178`. -/
structure MediaLimits where
  memoryLimitBytes : UInt64
  workerThreadLimit : UInt64

/-- `MediaResourcePermit`, with the generation of the pipeline that it is for; `state.rs:268`. -/
structure MediaResourcePermit where
  generation : Nat
  resources : MediaSessionResources
  deriving DecidableEq

/-- A session that is started. -/
structure Attempt where
  sessId : String
  runId : String
  permit : MediaResourcePermit
  deriving DecidableEq

/-- The generation of its pipeline. -/
abbrev Attempt.generation (a : Attempt) : Nat := a.permit.generation

/-- How far a start has come. -/
inductive StartPhase where
  /-- To reserve bytes; `state.rs:201`. -/
  | reserving
  /-- To reserve threads; `state.rs:216`. -/
  | bytesReserved
  /-- To give the bytes back; `state.rs:226`. -/
  | rollingBack
  /-- Holds its permit, and appends `run_created`; `whip.rs:411`. -/
  | holding
  /-- Holds a session slot, and claims its id; `state.rs:756`. -/
  | slotted
  /-- Found its id taken, to give the slot back; `state.rs:780`. -/
  | colliding
  /-- Its session is inserted, and its permit is not yet in the map; `state.rs:788`. -/
  | inserted
  /-- Its permit is in the map, and it spawns the supervisor. -/
  | published
  deriving DecidableEq

namespace StartPhase

/-- The start has reserved its bytes. -/
def bytes : StartPhase → Bool
  | .reserving | .published => false
  | _ => true

/-- The start holds its permit. -/
def permit : StartPhase → Bool
  | .holding | .slotted | .colliding | .inserted => true
  | _ => false

/-- The start holds a session slot that has no session. -/
def slot : StartPhase → Bool
  | .slotted | .colliding => true
  | _ => false

end StartPhase

/-- A start. -/
structure Start where
  attempt : Attempt
  phase : StartPhase
  deriving DecidableEq

/-- How far a supervisor has come. -/
inductive SupervisorPhase where
  | starting
  | running
  | finished
  deriving DecidableEq

/-- The supervisor task of a pipeline and how many of its threads are running. -/
structure Supervisor where
  attempt : Attempt
  attached : Nat
  phase : SupervisorPhase
  deriving DecidableEq

/-- Who drops a permit. -/
inductive Releaser where
  | start (generation : Nat)
  | supervisor (generation : Nat)
  deriving DecidableEq

/-- A permit that was dropped, by whom, and with how many threads of its generation attached. -/
structure Release where
  permit : MediaResourcePermit
  releaser : Releaser
  attached : Nat
  deriving DecidableEq

/-- The shared state and the tasks. What was inserted and released is kept for statements only. -/
structure Media where
  reservedBytes : UInt64
  reservedWorkerThreads : UInt64
  sessionSlots : UInt64
  sessions : List (String × String)
  mediaReservations : List (String × MediaResourcePermit)
  starts : List Start
  supervisors : List Supervisor
  /-- Permits whose drop has to subtract their bytes. -/
  dropping : List MediaResourcePermit
  /-- Permits whose drop has to subtract their threads. -/
  halves : List MediaResourcePermit
  /-- Removals of sessions that have to subtract their slot. -/
  removals : Nat
  nextGeneration : Nat
  inserted : List Nat
  released : List Release

/-- `fetch_update` with `checked_add` and a limit; `state.rs:201–213`. -/
def checkedReserve (reserved amount limit : UInt64) : Option UInt64 :=
  if reserved.toNat + amount.toNat ≤ u64Max ∧ reserved + amount ≤ limit then some (reserved + amount)
  else none

namespace Media

/-- A server without sessions. -/
def initial : Media := ⟨0, 0, 0, [], [], [], [], [], [], 0, 0, [], []⟩

/-- Threads of a generation that are attached. -/
def attached (s : Media) (generation : Nat) : Nat :=
  ((s.supervisors.filter fun v ↦ v.attempt.generation = generation).map Supervisor.attached).sum

/-- Permits that are filed under a session. -/
def filed (s : Media) (sessId : String) : List MediaResourcePermit :=
  (s.mediaReservations.filter fun x ↦ x.1 = sessId).map Prod.snd

/-- The map without a session. -/
def unfiled (s : Media) (sessId : String) : List (String × MediaResourcePermit) :=
  s.mediaReservations.filter fun x ↦ ¬ x.1 = sessId

/-- Permits begin to be dropped. -/
def drop (s : Media) (releaser : Releaser) (permits : List MediaResourcePermit) : Media :=
  { s with
    dropping := s.dropping ++ permits
    released := s.released ++ permits.map fun p ↦ ⟨p, releaser, s.attached p.generation⟩ }

variable (limits : MediaLimits)

/-- One atomic operation of a task. The label is the session under which a permit is filed. -/
inductive Step (s : Media) : Option String → Media → Prop where
  /-- A start, under some id. -/
  | begin (sessId runId : String) (resources : MediaSessionResources) :
      Step s none { s with
        starts := s.starts ++ [⟨⟨sessId, runId, ⟨s.nextGeneration, resources⟩⟩, .reserving⟩]
        nextGeneration := s.nextGeneration + 1 }
  | reserveBytes {l r : List Start} {a : Attempt} {next : UInt64}
      (hat : s.starts = l ++ ⟨a, .reserving⟩ :: r)
      (hroom : checkedReserve s.reservedBytes a.permit.resources.reservedBytes
        limits.memoryLimitBytes = some next) :
      Step s none { s with reservedBytes := next, starts := l ++ ⟨a, .bytesReserved⟩ :: r }
  | refuseBytes {l r : List Start} {a : Attempt} (hat : s.starts = l ++ ⟨a, .reserving⟩ :: r)
      (hfull : checkedReserve s.reservedBytes a.permit.resources.reservedBytes
        limits.memoryLimitBytes = none) :
      Step s none { s with starts := l ++ r }
  | reserveThreads {l r : List Start} {a : Attempt} {next : UInt64}
      (hat : s.starts = l ++ ⟨a, .bytesReserved⟩ :: r)
      (hroom : checkedReserve s.reservedWorkerThreads a.permit.resources.workerThreads
        limits.workerThreadLimit = some next) :
      Step s none { s with reservedWorkerThreads := next, starts := l ++ ⟨a, .holding⟩ :: r }
  | refuseThreads {l r : List Start} {a : Attempt}
      (hat : s.starts = l ++ ⟨a, .bytesReserved⟩ :: r)
      (hfull : checkedReserve s.reservedWorkerThreads a.permit.resources.workerThreads
        limits.workerThreadLimit = none) :
      Step s none { s with starts := l ++ ⟨a, .rollingBack⟩ :: r }
  | rollBack {l r : List Start} {a : Attempt} (hat : s.starts = l ++ ⟨a, .rollingBack⟩ :: r) :
      Step s none { s with
        reservedBytes := s.reservedBytes - a.permit.resources.reservedBytes
        starts := l ++ r }
  /-- `run_created` could not be appended; `whip.rs:424`. -/
  | appendFailed {l r : List Start} {a : Attempt} (hat : s.starts = l ++ ⟨a, .holding⟩ :: r) :
      Step s none (drop { s with starts := l ++ r } (.start a.generation) [a.permit])
  | takeSlot {l r : List Start} {a : Attempt} (hat : s.starts = l ++ ⟨a, .holding⟩ :: r)
      (hroom : s.sessionSlots < MAX_WEBRTC_SESSIONS) :
      Step s none { s with
        sessionSlots := s.sessionSlots + 1
        starts := l ++ ⟨a, .slotted⟩ :: r }
  | refuseSlot {l r : List Start} {a : Attempt} (hat : s.starts = l ++ ⟨a, .holding⟩ :: r)
      (hfull : ¬ s.sessionSlots < MAX_WEBRTC_SESSIONS) :
      Step s none (drop { s with starts := l ++ r } (.start a.generation) [a.permit])
  | insert {l r : List Start} {a : Attempt} (hat : s.starts = l ++ ⟨a, .slotted⟩ :: r)
      (hvacant : ∀ x ∈ s.sessions, x.1 ≠ a.sessId) :
      Step s none { s with
        sessions := (a.sessId, a.runId) :: s.sessions
        starts := l ++ ⟨a, .inserted⟩ :: r
        inserted := a.generation :: s.inserted }
  | collide {l r : List Start} {a : Attempt} (hat : s.starts = l ++ ⟨a, .slotted⟩ :: r)
      (hoccupied : ∃ x ∈ s.sessions, x.1 = a.sessId) :
      Step s none { s with starts := l ++ ⟨a, .colliding⟩ :: r }
  | giveSlotBack {l r : List Start} {a : Attempt} (hat : s.starts = l ++ ⟨a, .colliding⟩ :: r) :
      Step s none (drop { s with sessionSlots := s.sessionSlots - 1, starts := l ++ r }
        (.start a.generation) [a.permit])
  /-- `media_reservations.insert`, which drops what was filed under the id; `state.rs:788`. -/
  | publish {l r : List Start} {a : Attempt} (hat : s.starts = l ++ ⟨a, .inserted⟩ :: r) :
      Step s (some a.sessId) (drop { s with
        mediaReservations := (a.sessId, a.permit) :: s.unfiled a.sessId
        starts := l ++ ⟨a, .published⟩ :: r } (.start a.generation) (s.filed a.sessId))
  /-- `spawn_blocking`; `whip.rs:577`. -/
  | supervise {l r : List Start} {a : Attempt} (hat : s.starts = l ++ ⟨a, .published⟩ :: r) :
      Step s none { s with
        starts := l ++ r
        supervisors := s.supervisors ++ [⟨a, 0, .starting⟩] }
  | spawn {l r : List Supervisor} {a : Attempt} {n : Nat}
      (hat : s.supervisors = l ++ ⟨a, n, .starting⟩ :: r) :
      Step s none { s with supervisors := l ++ ⟨a, n + 1, .starting⟩ :: r }
  | started {l r : List Supervisor} {a : Attempt} {n : Nat}
      (hat : s.supervisors = l ++ ⟨a, n, .starting⟩ :: r) :
      Step s none { s with supervisors := l ++ ⟨a, n, .running⟩ :: r }
  | exit {l r : List Supervisor} {a : Attempt} {n : Nat} {phase : SupervisorPhase}
      (hat : s.supervisors = l ++ ⟨a, n + 1, phase⟩ :: r) :
      Step s none { s with supervisors := l ++ ⟨a, n, phase⟩ :: r }
  /-- All threads are joined, also after a failed start-up: `release_media_generation`;
  `whip.rs:656,684` and `state.rs:801`. -/
  | stop {l r : List Supervisor} {a : Attempt} {phase : SupervisorPhase}
      (hat : s.supervisors = l ++ ⟨a, 0, phase⟩ :: r) (hactive : phase ≠ .finished) :
      Step s none (drop { s with
        mediaReservations := s.unfiled a.sessId
        supervisors := l ++ ⟨a, 0, .finished⟩ :: r } (.supervisor a.generation) (s.filed a.sessId))
  /-- Threads are left detached, and the permit is kept; `whip.rs:644,688`. -/
  | abandon {l r : List Supervisor} {a : Attempt} {n : Nat} {phase : SupervisorPhase}
      (hat : s.supervisors = l ++ ⟨a, n, phase⟩ :: r) (hactive : phase ≠ .finished) :
      Step s none { s with supervisors := l ++ ⟨a, n, .finished⟩ :: r }
  /-- `remove_if` of `remove_session_for_run`; `state.rs:864`. -/
  | remove {l r : List (String × String)} {x : String × String} (hat : s.sessions = l ++ x :: r) :
      Step s none { s with sessions := l ++ r, removals := s.removals + 1 }
  | removed {n : Nat} (hremovals : s.removals = n + 1) :
      Step s none { s with sessionSlots := s.sessionSlots - 1, removals := n }
  /-- The first subtraction of a drop; `state.rs:275`. -/
  | dropBytes {l r : List MediaResourcePermit} {p : MediaResourcePermit}
      (hat : s.dropping = l ++ p :: r) :
      Step s none { s with
        reservedBytes := s.reservedBytes - p.resources.reservedBytes
        dropping := l ++ r
        halves := p :: s.halves }
  /-- The second one; `state.rs:278`. -/
  | dropThreads {l r : List MediaResourcePermit} {p : MediaResourcePermit}
      (hat : s.halves = l ++ p :: r) :
      Step s none { s with
        reservedWorkerThreads := s.reservedWorkerThreads - p.resources.workerThreads
        halves := l ++ r }

/-- States of any run. -/
def Reachable (s : Media) : Prop :=
  Relation.ReflTransGen (fun s s' ↦ ∃ label, Step limits s label s') initial s

/-- No permit is filed under a session that has one. -/
def Fresh (s : Media) (label : Option String) : Prop :=
  ∀ sessId ∈ label, ∀ x ∈ s.mediaReservations, x.1 ≠ sessId

/-- States of runs in which every permit is filed under a session without one. -/
def ReachableFresh (s : Media) : Prop :=
  Relation.ReflTransGen (fun s s' ↦ ∃ label, Step limits s label s' ∧ Fresh s label) initial s

/-! ### Amounts -/

/-- Permits that are alive: held by starts, in the map, or about to be dropped. -/
def live (s : Media) : List MediaResourcePermit :=
  (s.starts.filter fun t ↦ t.phase.permit).map (·.attempt.permit) ++
    s.mediaReservations.map Prod.snd ++ s.dropping

/-- Starts between their two reservations, or to give the first one back. -/
def between (s : Media) : List MediaResourcePermit :=
  (s.starts.filter fun t ↦ t.phase = .bytesReserved ∨ t.phase = .rollingBack).map (·.attempt.permit)

/-- Bytes of some permits. -/
def bytes (permits : List MediaResourcePermit) : Nat :=
  (permits.map (·.resources.reservedBytes.toNat)).sum

/-- Threads of some permits. -/
def threads (permits : List MediaResourcePermit) : Nat :=
  (permits.map (·.resources.workerThreads.toNat)).sum

end Media

end Vidarax.Whip
