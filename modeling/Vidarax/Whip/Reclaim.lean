import Vidarax.Runs.Slots

/-!
# Reclaiming sessions

Packages `vidarax-api` and `vidarax-core`, `crates/vidarax-api/src/whip.rs:937–1261`,
`crates/vidarax-api/src/state.rs:809–886,1000–1180`, `crates/vidarax-api/src/handlers.rs:394–457,3638`
and `crates/vidarax-core/src/webrtc/session.rs:257–285,925–965`. One session and its run: watchers
of its peer, WHIP terminations, stops and deletions of the run, and the worker of the timeline take
their atomic operations in any order, and appends may fail.
-/

namespace Vidarax.Whip

open Vidarax.Base Vidarax.Timeline Vidarax.Runs

/-- Durable outcomes of a live session; `session.rs:264`. -/
inductive SessionCloseDisposition where
  | fault
  | complete
  | stop
  | delete
  deriving DecidableEq

namespace SessionCloseDisposition

/-- `as u8`. -/
def code : SessionCloseDisposition → UInt8
  | fault => 0
  | complete => 1
  | stop => 2
  | delete => 3

/-- `close_disposition`; `session.rs:945`. -/
def ofCode (raw : UInt8) : SessionCloseDisposition :=
  if raw = 1 then complete else if raw = 2 then stop else if raw = 3 then delete else fault

end SessionCloseDisposition

/-- Whom a task works for. -/
inductive Role where
  /-- A watcher of the peer; `whip.rs:1017`. -/
  | watcher
  /-- `DELETE` of the WHIP resource; `whip.rs:937`. -/
  | terminate
  /-- `stop_run`; `handlers.rs:394`. -/
  | stop
  /-- `delete_run`; `handlers.rs:3638`. -/
  | delete
  deriving DecidableEq

/-- The role reclaims the session. -/
def Role.reclaims : Role → Bool
  | watcher | terminate => true
  | stop | delete => false

/-- How far a task has come. -/
inductive Phase where
  | begun
  /-- No live session was found, to look for a reclaimed one; `whip.rs:948,1203`. -/
  | tracing
  /-- To look for the session that is to be marked; `whip.rs:999` and `state.rs:818`. -/
  | marking
  /-- Has the session, to mark it; `whip.rs:1003`. -/
  | stamping
  /-- To look for the session that is to be reclaimed; `whip.rs:1082`. -/
  | looking
  /-- To claim the reclaim; `whip.rs:1088`. -/
  | claiming
  /-- Waits for the owner, with some turns left; `whip.rs:1096`. -/
  | waiting (left : Nat)
  /-- Found the session in a turn, to claim again; `whip.rs:1101`. -/
  | retrying (left : Nat)
  /-- Owns the claim, to read the disposition; `whip.rs:1111`. -/
  | reading
  /-- To append an event unless the run is terminal; `whip.rs:1220`. -/
  | checking (kind : String)
  /-- To begin the deletion of the run; `state.rs:1145`. -/
  | deleting
  /-- An append was sent to the writer, perhaps with a claim on the deletion of a run. -/
  | sent (kind : String) (guard : Option Nat)
  /-- The event is committed at some place of the log, and not yet answered. -/
  | awaiting (kind : String) (place : Nat)
  /-- The append failed, to release the claim; `whip.rs:1125`. -/
  | failed
  /-- To remove the session; `whip.rs:1130`. -/
  | removing
  /-- Removed the session, to record that; `state.rs:876`. -/
  | recording
  /-- The reclaim has returned `Ok` or `Err`. -/
  | returned (ok : Bool)
  /-- The watcher found no session after an error; `whip.rs:1193`. -/
  | probing
  /-- The request was answered with `OK` or with an error. -/
  | answered (ok : Bool)
  | done
  deriving DecidableEq

/-- A task, and the marks that were set when it read the disposition. The marks are kept for
statements only. -/
structure Task where
  role : Role
  phase : Phase
  seen : List SessionCloseDisposition
  deriving DecidableEq

/-- An event of the run in the log, and whose it is. -/
structure Logged where
  event : TimelineEvent
  author : Option Role
  deriving DecidableEq

/-- What there was when the session was removed. -/
structure Removal where
  seen : List SessionCloseDisposition
  log : List Logged
  summary : RunSummary
  times : List UInt64
  deriving DecidableEq

/-- The session, its run and the tasks. What was marked and removed and which times were read is
kept for statements only. -/
structure Reclaim where
  /-- The session is in the map. -/
  live : Bool
  disposition : UInt8
  claimed : Bool
  /-- `reclaimed_sessions` has the session. -/
  reclaimed : Bool
  log : List Logged
  /-- How many events of the log are applied to the registry. -/
  applied : Nat
  /-- The run in the registry; each `Arc` has a number of its own. -/
  entry : Option (Nat × RunState)
  nextArc : Nat
  tasks : List Task
  marks : List SessionCloseDisposition
  removals : List Removal
  times : List UInt64

namespace Reclaim

variable (fromStr : String → Option Json) (ttlMs : UInt64)

/-- What the registry knows of the run. -/
def summary (s : Reclaim) : RunSummary :=
  (s.entry.map fun run ↦ run.2.snapshot).getD RunSummary.defaultPublic

/-- `run_runtime_snapshot`; `state.rs:1448`. -/
def runtimeState (s : Reclaim) (nowMs : UInt64) : Option StreamState :=
  match s.entry with
  | none => none
  | some (_, run) =>
    let summary := run.snapshot
    if !summary.created || summary.deleted then none
    else some (applyExpiry summary.state summary.lastActivityMs nowMs ttlMs)

/-- `whip_run_is_terminal`; `whip.rs:1207`. -/
def whipRunIsTerminal (s : Reclaim) (nowMs : UInt64) : Bool :=
  (s.runtimeState ttlMs nowMs).all StreamState.isTerminal

/-- `apply_appended_event` for the run; `state.rs:2158,2224`. -/
def applyAppendedEvent (s : Reclaim) (event : TimelineEvent) : Reclaim :=
  let structural : Reclaim :=
    { s with
      entry := some (s.nextArc, RunState.fromSummary (s.summary.applyEvent fromStr event))
      nextArc := s.nextArc + 1 }
  if event.kind = "run_created" then structural
  else if event.kind = "run_deleted" then structural
  else
    match s.entry with
    | some (arc, run) => { s with entry := some (arc, run.applyEvent event) }
    | none => structural

/-- The entry after the drop of a `RunDeleteAppendGuard`; `state.rs:2398`. -/
def rolledBack (s : Reclaim) (guard : Option Nat) : Option (Nat × RunState) :=
  s.entry.map fun run ↦ (run.1, if guard = some run.1 then run.2.rollbackDeleteAppend else run.2)

/-- Where a task goes on when its event is appended. -/
def appended : Role → Phase
  | .watcher | .terminate => .removing
  | .stop | .delete => .marking

/-- Where it goes on when the append failed. -/
def unappended : Role → Phase
  | .watcher | .terminate => .failed
  | .stop | .delete => .done

/-- Operations of a task that write nothing. -/
inductive Move (s : Reclaim) : Task → Task → Prop where
  | owned {seen} (hlive : s.live = true) :
      Move s ⟨.terminate, .begun, seen⟩ ⟨.terminate, .marking, seen⟩
  | unknown {seen} (hgone : s.live = false) :
      Move s ⟨.terminate, .begun, seen⟩ ⟨.terminate, .tracing, seen⟩
  | traced {seen} (hreclaimed : s.reclaimed = true) :
      Move s ⟨.terminate, .tracing, seen⟩ ⟨.terminate, .marking, seen⟩
  | notFound {seen} (hnone : s.reclaimed = false) :
      Move s ⟨.terminate, .tracing, seen⟩ ⟨.terminate, .answered false, seen⟩
  /-- The peer is disconnected, failed or closed, or its channel is closed; `whip.rs:1026`. -/
  | peer {seen} : Move s ⟨.watcher, .begun, seen⟩ ⟨.watcher, .looking, seen⟩
  | find {seen} (hlive : s.live = true) :
      Move s ⟨.terminate, .marking, seen⟩ ⟨.terminate, .stamping, seen⟩
  | unmarked {seen} (hgone : s.live = false) :
      Move s ⟨.terminate, .marking, seen⟩ ⟨.terminate, .looking, seen⟩
  | unclosed {role : Role} {seen} (hrole : role.reclaims = false) (hgone : s.live = false) :
      Move s ⟨role, .marking, seen⟩ ⟨role, .done, seen⟩
  | look {role : Role} {seen} (hlive : s.live = true) :
      Move s ⟨role, .looking, seen⟩ ⟨role, .claiming, seen⟩
  | absent {role : Role} {seen} (hgone : s.live = false) :
      Move s ⟨role, .looking, seen⟩ ⟨role, .returned true, seen⟩
  | await {role : Role} {seen} (hclaimed : s.claimed = true) :
      Move s ⟨role, .claiming, seen⟩ ⟨role, .waiting 40, seen⟩
  | turn {role : Role} {left : Nat} {seen} (hlive : s.live = true) :
      Move s ⟨role, .waiting (left + 1), seen⟩ ⟨role, .retrying left, seen⟩
  | vanished {role : Role} {left : Nat} {seen} (hgone : s.live = false) :
      Move s ⟨role, .waiting (left + 1), seen⟩ ⟨role, .returned true, seen⟩
  | again {role : Role} {left : Nat} {seen} (hclaimed : s.claimed = true) :
      Move s ⟨role, .retrying left, seen⟩ ⟨role, .waiting left, seen⟩
  | tired {role : Role} {seen} : Move s ⟨role, .waiting 0, seen⟩ ⟨role, .returned false, seen⟩
  | readDelete {role : Role} {seen} (h : SessionCloseDisposition.ofCode s.disposition = .delete) :
      Move s ⟨role, .reading, seen⟩ ⟨role, .deleting, s.marks⟩
  | readStop {role : Role} {seen} (h : SessionCloseDisposition.ofCode s.disposition = .stop) :
      Move s ⟨role, .reading, seen⟩ ⟨role, .removing, s.marks⟩
  | readComplete {role : Role} {seen}
      (h : SessionCloseDisposition.ofCode s.disposition = .complete) :
      Move s ⟨role, .reading, seen⟩ ⟨role, .checking "run_completed", s.marks⟩
  | readFault {role : Role} {seen} (h : SessionCloseDisposition.ofCode s.disposition = .fault) :
      Move s ⟨role, .reading, seen⟩ ⟨role, .checking "run_failed", s.marks⟩
  /-- `RunDeleteClaim::Missing`. -/
  | missing {role : Role} {seen} (hnone : s.entry = none) :
      Move s ⟨role, .deleting, seen⟩ ⟨role, .sent "run_deleted" none, seen⟩
  /-- `RunDeleteClaim::AlreadyDeleted`. -/
  | alreadyDeleted {role : Role} {arc : Nat} {run : RunState} {seen}
      (hentry : s.entry = some (arc, run)) (hdeleted : run.deleteState = .deleted) :
      Move s ⟨role, .deleting, seen⟩ ⟨role, appended role, seen⟩
  | answer {role : Role} {kind : String} {place : Nat} {seen} (happlied : place < s.applied) :
      Move s ⟨role, .awaiting kind place, seen⟩ ⟨role, appended role, seen⟩
  | stay {role : Role} {seen} (hgone : s.live = false) :
      Move s ⟨role, .removing, seen⟩ ⟨role, .returned true, seen⟩
  | succeed {seen} : Move s ⟨.terminate, .returned true, seen⟩ ⟨.terminate, .answered true, seen⟩
  | finish {seen} : Move s ⟨.watcher, .returned true, seen⟩ ⟨.watcher, .done, seen⟩
  | retry {seen} (hlive : s.live = true) :
      Move s ⟨.watcher, .returned false, seen⟩ ⟨.watcher, .looking, seen⟩
  | probe {seen} (hgone : s.live = false) :
      Move s ⟨.watcher, .returned false, seen⟩ ⟨.watcher, .probing, seen⟩
  | recorded {seen} (hreclaimed : s.reclaimed = true) :
      Move s ⟨.watcher, .tracing, seen⟩ ⟨.watcher, .done, seen⟩
  | unrecorded {seen} (hnone : s.reclaimed = false) :
      Move s ⟨.watcher, .tracing, seen⟩ ⟨.watcher, .looking, seen⟩

/-- Operations of a task that look at the run at some time. -/
inductive Look (s : Reclaim) (nowMs : UInt64) : Task → Task → Prop where
  | stop {state : StreamState} {seen} (hstate : s.runtimeState ttlMs nowMs = some state)
      (hgoing : state.isTerminal = false) :
      Look s nowMs ⟨.stop, .begun, seen⟩ ⟨.stop, .sent "stop_requested" none, seen⟩
  | conflict {seen} (hterminal : s.whipRunIsTerminal ttlMs nowMs = true) :
      Look s nowMs ⟨.stop, .begun, seen⟩ ⟨.stop, .done, seen⟩
  | delete {state : StreamState} {seen} (hstate : s.runtimeState ttlMs nowMs = some state) :
      Look s nowMs ⟨.delete, .begun, seen⟩ ⟨.delete, .deleting, seen⟩
  | notFound {seen} (hnone : s.runtimeState ttlMs nowMs = none) :
      Look s nowMs ⟨.delete, .begun, seen⟩ ⟨.delete, .done, seen⟩
  | skip {role : Role} {kind : String} {seen}
      (hterminal : s.whipRunIsTerminal ttlMs nowMs = true) :
      Look s nowMs ⟨role, .checking kind, seen⟩ ⟨role, .removing, seen⟩
  | append {role : Role} {kind : String} {seen}
      (hgoing : s.whipRunIsTerminal ttlMs nowMs = false) :
      Look s nowMs ⟨role, .checking kind, seen⟩ ⟨role, .sent kind none, seen⟩
  /-- A failed reclaim of a terminal run is answered with `OK`; `whip.rs:968`. -/
  | answer {seen} : Look s nowMs ⟨.terminate, .returned false, seen⟩
      ⟨.terminate, .answered (s.whipRunIsTerminal ttlMs nowMs), seen⟩
  | quit {seen} (hterminal : s.whipRunIsTerminal ttlMs nowMs = true) :
      Look s nowMs ⟨.watcher, .probing, seen⟩ ⟨.watcher, .done, seen⟩
  | goesOn {seen} (hgoing : s.whipRunIsTerminal ttlMs nowMs = false) :
      Look s nowMs ⟨.watcher, .probing, seen⟩ ⟨.watcher, .tracing, seen⟩

/-- One atomic operation. -/
inductive Step (s : Reclaim) : Reclaim → Prop where
  | arrive (role : Role) : Step s { s with tasks := s.tasks ++ [⟨role, .begun, []⟩] }
  | move {l r : List Task} {t t' : Task} (hat : s.tasks = l ++ t :: r) (h : Move s t t') :
      Step s { s with tasks := l ++ t' :: r }
  | look {l r : List Task} {t t' : Task} (hat : s.tasks = l ++ t :: r) (nowMs : UInt64)
      (h : Look ttlMs s nowMs t t') :
      Step s { s with times := nowMs :: s.times, tasks := l ++ t' :: r }
  /-- `mark_close_disposition_complete`; `session.rs:926`. -/
  | complete {l r : List Task} {role : Role} {seen}
      (hat : s.tasks = l ++ ⟨role, .stamping, seen⟩ :: r) :
      Step s { s with
        disposition := max s.disposition SessionCloseDisposition.complete.code
        marks := .complete :: s.marks
        tasks := l ++ ⟨role, .looking, seen⟩ :: r }
  /-- `close_live_session_for_run`, which marks the session under its lock; `state.rs:817`. -/
  | close {l r : List Task} {role : Role} {seen} {mark : SessionCloseDisposition}
      (hat : s.tasks = l ++ ⟨role, .marking, seen⟩ :: r) (hlive : s.live = true)
      (hmark : role = .stop ∧ mark = .stop ∨ role = .delete ∧ mark = .delete) :
      Step s { s with
        disposition := max s.disposition mark.code
        marks := mark :: s.marks
        tasks := l ++ ⟨role, .done, seen⟩ :: r }
  /-- `try_claim_reclaim`; `session.rs:957`. -/
  | claim {l r : List Task} {role : Role} {phase : Phase} {seen}
      (hat : s.tasks = l ++ ⟨role, phase, seen⟩ :: r)
      (hphase : phase = .claiming ∨ ∃ left, phase = .retrying left) (hfree : s.claimed = false) :
      Step s { s with claimed := true, tasks := l ++ ⟨role, .reading, seen⟩ :: r }
  /-- `RunDeleteClaim::Claimed`. -/
  | beginDelete {l r : List Task} {role : Role} {arc : Nat} {run : RunState} {seen}
      (hat : s.tasks = l ++ ⟨role, .deleting, seen⟩ :: r) (hentry : s.entry = some (arc, run))
      (hlive : run.deleteState = .live) :
      Step s { s with
        entry := some (arc, run.beginDeleteAppend)
        tasks := l ++ ⟨role, .sent "run_deleted" (some arc), seen⟩ :: r }
  /-- The writer answers with an error, or the append is not sent. -/
  | fail {l r : List Task} {role : Role} {kind : String} {guard : Option Nat} {seen}
      (hat : s.tasks = l ++ ⟨role, .sent kind guard, seen⟩ :: r) :
      Step s { s with
        entry := s.rolledBack guard
        tasks := l ++ ⟨role, unappended role, seen⟩ :: r }
  /-- The writer commits the event; it rejects those of deleted runs. -/
  | commit {l r : List Task} {role : Role} {kind : String} {guard : Option Nat} {seen}
      (hat : s.tasks = l ++ ⟨role, .sent kind guard, seen⟩ :: r) (event : TimelineEvent)
      (hkind : event.kind = kind) (hlive : kind ≠ "run_deleted" → s.summary.deleted = false) :
      Step s { s with
        log := s.log ++ [⟨event, some role⟩]
        tasks := l ++ ⟨role, .awaiting kind s.log.length, seen⟩ :: r }
  /-- The writer applies the next committed event. -/
  | apply {x : Logged} (hnext : s.log[s.applied]? = some x) :
      Step s { s.applyAppendedEvent fromStr x.event with applied := s.applied + 1 }
  /-- A deleted run is forgotten; `state.rs:2194`. -/
  | forget {arc : Nat} {run : RunState} (hentry : s.entry = some (arc, run))
      (hdeleted : run.deleteState = .deleted) : Step s { s with entry := none }
  /-- `release_reclaim_claim`; `session.rs:963`. -/
  | release {l r : List Task} {role : Role} {seen}
      (hat : s.tasks = l ++ ⟨role, .failed, seen⟩ :: r) :
      Step s { s with claimed := false, tasks := l ++ ⟨role, .returned false, seen⟩ :: r }
  /-- `remove_if`; `state.rs:864`. -/
  | remove {l r : List Task} {role : Role} {seen}
      (hat : s.tasks = l ++ ⟨role, .removing, seen⟩ :: r) (hlive : s.live = true) :
      Step s { s with
        live := false
        removals := ⟨seen, s.log, s.summary, s.times⟩ :: s.removals
        tasks := l ++ ⟨role, .recording, seen⟩ :: r }
  | record {l r : List Task} {role : Role} {seen}
      (hat : s.tasks = l ++ ⟨role, .recording, seen⟩ :: r) :
      Step s { s with reclaimed := true, tasks := l ++ ⟨role, .returned true, seen⟩ :: r }
  /-- A reclaimed session is forgotten. -/
  | forgetReclaimed : Step s { s with reclaimed := false }

/-- The session is live, and its run has some events, which are applied. -/
def initial (events : List TimelineEvent) : Reclaim where
  live := true
  disposition := SessionCloseDisposition.fault.code
  claimed := false
  reclaimed := false
  log := events.map (⟨·, none⟩)
  applied := events.length
  entry := some (0, RunState.fromSummary
    (events.foldl (RunSummary.applyEvent fromStr) RunSummary.defaultPublic))
  nextArc := 1
  tasks := []
  marks := []
  removals := []
  times := []

/-- States of any run of the tasks. -/
def Reachable (events : List TimelineEvent) (s : Reclaim) : Prop :=
  Relation.ReflTransGen (Step fromStr ttlMs) (initial fromStr events) s

end Reclaim

end Vidarax.Whip
