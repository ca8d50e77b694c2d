import Vidarax.Commit.Protocol

/-!
# Appends and deletions that run together

Package `vidarax-api`, `crates/vidarax-api/src/state.rs:935–1237,1885–2081,2146–2246,2302–2422`.
Callers append ordinary events and delete runs while the writer thread takes their commands from
the queue. A step is one operation of a caller or of the writer on what they share: a look-up, a
compare-exchange, a send, a store, a wake-up. The state of a run is behind a pointer that callers
keep when the registry gets another state for the run.
-/

namespace Vidarax.Commit

open Vidarax.Base Vidarax.Timeline Vidarax.Runs

/-- The error of a byte budget that is used up; `state.rs:94`. -/
def TIMELINE_BYTE_BUDGET_FULL : String := "timeline writer byte budget full; retry"

/-- A pointer to the state of a run. The states that a run has had are numbered. -/
structure Ref where
  run : String
  generation : Nat
  deriving DecidableEq

/-! ### Callers -/

/-- How a caller appends. -/
inductive Mode where
  | blocking
  | async
  | detached
  deriving DecidableEq

/-- Where a call stands. A guard is that of a claimed deletion. -/
inductive CallState where
  /-- `begin_run_deleted_append` is next. -/
  | looking
  /-- The run was found, and its flag is exchanged next. -/
  | claiming (run : Ref)
  /-- A deletion is in flight, and a blocking call reads the flag next. -/
  | spinning (run : Ref)
  /-- An async call creates its `Notified` next. -/
  | listening (run : Ref)
  /-- An async call reads the flag next. -/
  | loading (run : Ref) (woken : Bool)
  | awaiting (run : Ref) (woken : Bool)
  /-- `TimelineAppendRequest::try_new` is next. -/
  | building (guard : Option Ref)
  /-- `run_is_deleted` is next. -/
  | checking (guard : Option Ref)
  /-- `try_send` is next. -/
  | sending (guard : Option Ref)
  /-- The guard of a request that failed is dropped next. -/
  | dropping (run : Ref) (err : String)
  /-- `notify_waiters` is next. -/
  | waking (run : Ref) (err : String)
  | waiting
  | returned (result : Except String (Option TimelineEvent))
  | cancelled

/-- A call of an append function. -/
structure Call where
  mode : Mode
  runId : String
  streamId : String
  kind : String
  payload : String
  state : CallState

namespace Call

/-- The request that is sent. -/
def request (call : Call) (guard : Option Ref) : TimelineAppendRequest Ref where
  runId := call.runId
  streamId := call.streamId
  kind := call.kind
  payload := call.payload
  deleteGuard := guard

/-- The command that is sent. -/
def command (call : Call) (id : Nat) (guard : Option Ref) : TimelineCommand Nat Ref :=
  if call.mode = .detached then .appendDetached (call.request guard)
  else .append (call.request guard) id

/-- A call is entered; `state.rs:948,971,1010`. -/
def enter (mode : Mode) (runId streamId kind payload : String) : Call where
  mode := mode
  runId := runId
  streamId := streamId
  kind := kind
  payload := payload
  state :=
    if kind = "run_deleted" then
      if mode = .detached then .returned (.error "run_deleted requires confirmed append")
      else .looking
    else .building none

/-- A call that fails, with a guard to drop or without. -/
def failed (guard : Option Ref) (err : String) : CallState :=
  match guard with
  | some run => .dropping run err
  | none => .returned (.error err)

/-- The call is woken if it listens. -/
def wake (run : Ref) (call : Call) : Call :=
  match call.state with
  | .loading other woken => { call with state := .loading other (woken || other = run) }
  | .awaiting other woken => { call with state := .awaiting other (woken || other = run) }
  | _ => call

end Call

/-! ### The system -/

/-- Where the writer stands. -/
inductive Phase where
  /-- A command is taken next; `more` may follow it in its batch. -/
  | gathering (staged : List (StagedTimelineAppend Nat Ref)) (bytes more : Nat)
  | syncing (staged : List (StagedTimelineAppend Nat Ref))
  /-- The first of `rest` is applied next, or the batch is published. -/
  | applying (rest all : List (StagedTimelineAppend Nat Ref))
  /-- The deletion of a run was recorded, and the queue of deleted runs may be too long. -/
  | trimming (first : StagedTimelineAppend Nat Ref) (rest all : List (StagedTimelineAppend Nat Ref))

/-- The writer is between two batches. -/
def Phase.fresh : Phase := .gathering [] 0 (TIMELINE_BATCH_MAX_COMMANDS - 1)

/-- The writer and its callers. Effects of the writer are performed one by one, `performed` of
them so far. A state that the registry has given up is in `retired`, and `committed` has the events
whose sync has succeeded. -/
structure System where
  w : TimelineWriter Nat Ref
  performed : Nat
  wake : Option Ref
  phase : Phase
  queue : List (TimelineCommand Nat Ref)
  calls : List Call
  generation : String → Nat
  retired : Ref → Option RunState
  committed : List TimelineEvent

namespace System

/-- A writer without callers. -/
def start (w : TimelineWriter Nat Ref) : System where
  w := w
  performed := w.effects.length
  wake := none
  phase := .fresh
  queue := []
  calls := []
  generation := fun _ ↦ 0
  retired := fun _ ↦ none
  committed := []

/-- Pointer in the registry. -/
def entry (s : System) (run : String) : Option Ref :=
  if s.w.registry.runs.contains run then some ⟨run, s.generation run⟩ else none

/-- State behind a pointer. -/
def object (s : System) (run : Ref) : Option RunState :=
  if run.generation = s.generation run.run then s.w.registry.runs[run.run]? else s.retired run

/-- Deletion flag behind a pointer. -/
def flag (s : System) (run : Ref) : Option RunDelete := (s.object run).map RunState.deleteState

/-- Change the state behind a pointer. -/
def modify (s : System) (run : Ref) (f : RunState → RunState) : System :=
  if run.generation = s.generation run.run then
    { s with w := { s.w with registry := s.w.registry.modifyRun run.run f } }
  else { s with retired := fun other ↦ if other = run then (s.retired run).map f else s.retired other }

/-- The registry gives up its state of a run and has another one, or none. -/
def replace (s : System) (run : String) (registry : RunRegistry) : System :=
  { s with
    w := { s.w with registry := registry }
    generation := fun other ↦ if other = run then s.generation run + 1 else s.generation other
    retired := fun other ↦
      if other = ⟨run, s.generation run⟩ then s.w.registry.runs[run]? else s.retired other }

/-- Set where a call stands. -/
def setCall (s : System) (id : Nat) (state : CallState) : System :=
  { s with calls := s.calls.modify id fun call ↦ { call with state := state } }

/-- `notify_waiters`. -/
def notify (s : System) (run : Ref) : System := { s with calls := s.calls.map (Call.wake run) }

/-- A step of a call. Whether a request is refused, because it is too large, the byte budget is used
up or the queue is full, is an input. -/
def callStep (s : System) (id : Nat) (refused : Option String) : System :=
  match s.calls[id]? with
  | none => s
  | some call =>
    match call.state with
    | .looking =>
      match s.entry call.runId with
      | none => s.setCall id (.building none)
      | some run => s.setCall id (.claiming run)
    | .claiming run =>
      if s.flag run = some .live then
        (s.modify run RunState.beginDeleteAppend).setCall id (.building (some run))
      else if s.flag run = some .deleted then s.setCall id (.returned (.ok none))
      else s.setCall id (if call.mode = .async then .listening run else .spinning run)
    | .spinning run =>
      if s.flag run = some .appendInFlight then s else s.setCall id .looking
    | .listening run => s.setCall id (.loading run false)
    | .loading run woken =>
      s.setCall id (if s.flag run = some .appendInFlight then .awaiting run woken else .looking)
    | .awaiting run woken => if woken then s.setCall id (.listening run) else s
    | .building guard =>
      match refused with
      | some err =>
        if call.mode = .detached ∧ err = TIMELINE_BYTE_BUDGET_FULL then
          s.setCall id (.returned (.ok none))
        else s.setCall id (Call.failed guard err)
      | none =>
        s.setCall id (if call.mode = .blocking then .checking guard else .sending guard)
    | .checking guard =>
      if s.w.isDeleted call.runId then
        s.setCall id (Call.failed guard s!"run {call.runId} is deleted")
      else s.setCall id (.sending guard)
    | .sending guard =>
      match refused with
      | some _ =>
        s.setCall id (if call.mode = Mode.detached then .returned (.ok none)
          else Call.failed guard "timeline writer queue full; retry")
      | none =>
        { s with queue := s.queue ++ [call.command id guard] }.setCall id
          (if call.mode = Mode.detached then .returned (.ok none) else .waiting)
    | .dropping run err =>
      (s.modify run RunState.rollbackDeleteAppend).setCall id (.waking run err)
    | .waking run err => (s.notify run).setCall id (.returned (.error err))
    | .waiting | .returned _ | .cancelled => s

/-- The caller of an async call gives up while it is suspended. -/
def cancel (s : System) (id : Nat) : System :=
  match s.calls[id]? with
  | some ⟨.async, _, _, _, _, .awaiting _ _⟩ => s.setCall id .cancelled
  | some ⟨.async, _, _, _, _, .waiting⟩ => s.setCall id .cancelled
  | _ => s

/-! ### The writer -/

/-- What the clock, the file system and the live sessions do while the writer makes a step. -/
structure WriterInput where
  nowMs : UInt64
  write : WriteOutcome
  sync : Option String
  isProtected : Protection

/-- Answer a call that still waits. -/
def deliver (s : System) (id : Nat) (result : Except String TimelineEvent) : System :=
  match s.calls[id]? with
  | some ⟨_, _, _, _, _, .waiting⟩ => s.setCall id (.returned (result.map some))
  | _ => s

/-- Perform an effect of the writer. -/
def perform (s : System) : Effect Nat Ref → System
  | .replied id result => s.deliver id result
  | .guardCommitted run => { s.modify run RunState.commitDeleteAppend with wake := some run }
  | .guardDropped run => { s.modify run RunState.rollbackDeleteAppend with wake := some run }
  | .failed | .published .. | .notified _ => s

variable (crc : Bytes → UInt32) (fromStr : String → Option Json)

/-- Take the next command, or close the batch. -/
def gather (s : System) (staged : List (StagedTimelineAppend Nat Ref)) (bytes more : Nat)
    (i : WriterInput) : System :=
  match s.queue with
  | [] => { s with phase := if staged = [] then .fresh else .syncing staged }
  | command :: rest =>
    if command.isDelete ∧ staged ≠ [] then { s with phase := .syncing staged }
    else
      let next := s.w.stageCommand crc ⟨command, true, i.nowMs, i.write⟩ staged bytes
      { s with
        w := next.1
        queue := rest
        phase :=
          if command.isDelete ∨ TIMELINE_BATCH_TARGET_BYTES ≤ next.2.2 ∨ more = 0 then
            .syncing next.2.1
          else .gathering next.2.1 next.2.2 (more - 1) }

/-- Sync a batch. -/
def sync (s : System) (staged : List (StagedTimelineAppend Nat Ref)) (i : WriterInput) : System :=
  if staged = [] then { s with phase := .fresh }
  else
    match s.w.wal.syncPending i.sync with
    | (.error err, wal) =>
      { s with
        w := staged.foldl (TimelineWriter.failStaged err.display) (s.w.withWal wal s.w.file)
        phase := .fresh }
    | (.ok (), wal) =>
      { s with
        w := { s.w with wal := wal, committedEnd := wal.committedEnd }
        committed := s.committed ++ events staged
        phase := .applying staged staged }

/-- The event was applied, and the guard of its request is committed. -/
def finish (s : System) (first : StagedTimelineAppend Nat Ref)
    (rest all : List (StagedTimelineAppend Nat Ref)) : System :=
  { s with
    w := { s.w with
      nextSeq := first.event.seq
      warm := s.w.warm.applyCommittedEvent first.event }.emit
        (first.deleteGuard.toList.map .guardCommitted)
    phase := .applying rest all }

/-- The event does not change the state of its run in place. -/
def Structural (s : System) (event : TimelineEvent) : Prop :=
  event.kind = "run_created" ∨ event.kind = "run_deleted" ∨
    ¬ s.w.registry.runs.contains event.runId = true

instance (s : System) (event : TimelineEvent) : Decidable (s.Structural event) :=
  inferInstanceAs (Decidable (_ ∨ _ ∨ _))

/-- Apply the first event of a batch. -/
def applyFirst (s : System) (first : StagedTimelineAppend Nat Ref)
    (rest all : List (StagedTimelineAppend Nat Ref)) : System :=
  let before := s.w.registry.summary first.event.runId
  if s.Structural first.event then
    let s := s.replace first.event.runId (s.w.registry.record fromStr first.event)
    if !before.deleted && (before.applyEvent fromStr first.event).deleted then
      { s with phase := .trimming first rest all }
    else s.finish first rest all
  else
    (s.modify ⟨first.event.runId, s.generation first.event.runId⟩
      (·.applyEvent first.event)).finish first rest all

/-- Forget a deleted run if there are too many. -/
def trimOne (s : System) (first : StagedTimelineAppend Nat Ref)
    (rest all : List (StagedTimelineAppend Nat Ref)) (i : WriterInput) : System :=
  let registry := s.w.registry
  if registry.deletedRunOrder.length ≤ DELETED_RUN_RETENTION_CAP then s.finish first rest all
  else
    match RunRegistry.evictPass i.isProtected 0 registry.deletedRunOrder [] with
    | (none, order, _) =>
      { s with w := { s.w with registry := { registry with deletedRunOrder := order } } }.finish
        first rest all
    | (some oldest, order, _) =>
      let runs := RunRegistry.removeDeleted registry.runs oldest
      let registry := { registry with deletedRunOrder := order, runs := runs }
      if s.w.isDeleted oldest then s.replace oldest registry
      else { s with w := { s.w with registry := registry } }

/-- A step of the writer; `state.rs:1885`. -/
def writerStep (s : System) (i : WriterInput) : System :=
  match s.wake with
  | some run => { s.notify run with wake := none }
  | none =>
    match s.w.effects[s.performed]? with
    | some effect => { s.perform effect with performed := s.performed + 1 }
    | none =>
      match s.phase with
      | .gathering staged bytes more => s.gather crc staged bytes more i
      | .syncing staged => s.sync staged i
      | .applying [] all =>
        { s with w := all.foldl TimelineWriter.announce s.w.publish, phase := .fresh }
      | .applying (first :: rest) all => s.applyFirst fromStr first rest all
      | .trimming first rest all => s.trimOne first rest all i

/-- What happens next. -/
inductive Action where
  | enter (mode : Mode) (runId streamId kind payload : String)
  | call (id : Nat) (refused : Option String)
  | cancel (id : Nat)
  | writer (input : WriterInput)

/-- A step of anyone. -/
def step (s : System) : Action → System
  | .enter mode runId streamId kind payload =>
    { s with calls := s.calls ++ [Call.enter mode runId streamId kind payload] }
  | .call id refused => s.callStep id refused
  | .cancel id => s.cancel id
  | .writer input => s.writerStep crc fromStr input

/-- State after `n` steps. -/
def after (s : System) (actions : Nat → Action) : Nat → System
  | 0 => s
  | n + 1 => (after s actions n).step crc fromStr (actions n)

end System

end Vidarax.Commit
