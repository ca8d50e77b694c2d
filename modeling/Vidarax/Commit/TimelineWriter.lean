import Vidarax.Runs.Restart

/-!
# The timeline writer

Package `vidarax-api`, `crates/vidarax-api/src/state.rs:90–99,1608–1616,1766–1787,1863–2081`. One
thread takes append commands from a queue, stages a batch of them, syncs it and publishes what it
committed. When commands arrive, what the clock shows, how writes and syncs end and which runs are
protected are inputs. Replies, notifications and publications are recorded as effects.
-/

namespace Vidarax.Commit

open Vidarax.Base Vidarax.Timeline Vidarax.Runs

/-- How many commands a batch has at most; `state.rs:98`. -/
def TIMELINE_BATCH_MAX_COMMANDS : Nat := 32

/-- How many bytes end a batch; `state.rs:99`. -/
def TIMELINE_BATCH_TARGET_BYTES : Nat := 256 * 1024

/-- An append request with the guard of a claimed deletion, if it has one; `state.rs:1608`. -/
structure TimelineAppendRequest (Guard : Type) where
  runId : String
  streamId : String
  kind : String
  payload : String
  deleteGuard : Option Guard

/-- Commands; `state.rs:1766`. -/
inductive TimelineCommand (Reply Guard : Type) where
  | append (request : TimelineAppendRequest Guard) (reply : Reply)
  | appendDetached (request : TimelineAppendRequest Guard)

variable {Reply Guard : Type}

namespace TimelineCommand

/-- Request of a command. -/
def request : TimelineCommand Reply Guard → TimelineAppendRequest Guard
  | append request _ => request
  | appendDetached request => request

/-- Where a command is answered. -/
def reply : TimelineCommand Reply Guard → Option Reply
  | append _ reply => some reply
  | appendDetached _ => none

/-- `is_delete`; `state.rs:1777`. -/
def isDelete (command : TimelineCommand Reply Guard) : Bool := command.request.kind = "run_deleted"

end TimelineCommand

/-- A command, whether it waits in the queue when the writer looks there without blocking, and what
the clock and the file system do when it is staged. -/
structure Arrival (Reply Guard : Type) where
  command : TimelineCommand Reply Guard
  waiting : Bool
  nowMs : UInt64
  write : WriteOutcome

/-- A staged append; `state.rs:1877`. -/
structure StagedTimelineAppend (Reply Guard : Type) where
  event : TimelineEvent
  reply : Option Reply
  deleteGuard : Option Guard

/-- What others see of the writer, in order. The first is the writer's own: a write or sync has
failed. -/
inductive Effect (Reply Guard : Type) where
  | failed
  | published (maxSeq : UInt64) (committedEnd : Nat)
  | notified (event : TimelineEvent)
  | replied (reply : Reply) (result : Except String TimelineEvent)
  | guardCommitted (guard : Guard)
  | guardDropped (guard : Guard)

/-- A published snapshot; `state.rs:1580`. -/
structure RingSnapshot where
  tails : Tails
  maxSeq : UInt64

/-- The writer with the file it writes, what it shares with readers, and its effects so far;
`state.rs:1863`. -/
structure TimelineWriter (Reply Guard : Type) where
  wal : WalWriter
  file : Bytes
  registry : RunRegistry
  snapshot : RingSnapshot
  committedEnd : Nat
  nextSeq : UInt64
  warm : WarmTails
  effects : List (Effect Reply Guard)

/-- Effects of an error: an answer, and the request is dropped with its guard. -/
def errorEffects (reply : Option Reply) (guard : Option Guard) (err : String) :
    List (Effect Reply Guard) :=
  reply.toList.map (.replied · (.error err)) ++ guard.toList.map .guardDropped

/-- Effects of a committed append: a notification and an answer. -/
def announceEffects (s : StagedTimelineAppend Reply Guard) : List (Effect Reply Guard) :=
  .notified s.event :: s.reply.toList.map (.replied · (.ok s.event))

namespace TimelineWriter

/-- Record effects. -/
def emit (w : TimelineWriter Reply Guard) (effects : List (Effect Reply Guard)) :
    TimelineWriter Reply Guard :=
  { w with effects := w.effects ++ effects }

/-- `send_stage_error`; `state.rs:2000`. -/
def sendStageError (w : TimelineWriter Reply Guard) (reply : Option Reply) (guard : Option Guard)
    (err : String) : TimelineWriter Reply Guard :=
  w.emit (errorEffects reply guard err)

/-- The log writer after an operation, which may have poisoned it. -/
def withWal (w : TimelineWriter Reply Guard) (wal : WalWriter) (file : Bytes) :
    TimelineWriter Reply Guard :=
  let w' := { w with wal := wal, file := file }
  if wal.poisoned ∧ ¬ w.wal.poisoned then w'.emit [.failed] else w'

/-- The registry has the run as deleted. -/
def isDeleted (w : TimelineWriter Reply Guard) (run : String) : Bool :=
  w.registry.runs[run]?.any (·.snapshot.deleted)

/-- Event of a request that is staged behind some others. -/
def eventFor (w : TimelineWriter Reply Guard) (a : Arrival Reply Guard) (staged : Nat) :
    TimelineEvent where
  seq := w.nextSeq + UInt64.ofNat (staged + 1)
  runId := a.command.request.runId
  streamId := a.command.request.streamId
  ptsMs := a.nowMs
  kind := a.command.request.kind
  payload := a.command.request.payload

/-- `stage_command`; `state.rs:1941`. -/
def stageCommand (crc : Bytes → UInt32) (w : TimelineWriter Reply Guard) (a : Arrival Reply Guard)
    (staged : List (StagedTimelineAppend Reply Guard)) (bytes : Nat) :
    TimelineWriter Reply Guard × List (StagedTimelineAppend Reply Guard) × Nat :=
  let request := a.command.request
  if request.kind ≠ "run_deleted" ∧ w.isDeleted request.runId then
    (w.sendStageError a.command.reply request.deleteGuard s!"run {request.runId} is deleted",
      staged, bytes)
  else if w.nextSeq.toNat + (staged.length + 1) > u64Max then
    (w.sendStageError a.command.reply request.deleteGuard "timeline sequence exhausted",
      staged, bytes)
  else
    let event := w.eventFor a staged.length
    match w.wal.stage crc w.file event a.write with
    | (.ok written, wal, file) =>
      (w.withWal wal file, staged ++ [⟨event, a.command.reply, request.deleteGuard⟩],
        min (bytes + written) u64Max)
    | (.error err, wal, file) =>
      ((w.withWal wal file).sendStageError a.command.reply request.deleteGuard err.display,
        staged, bytes)

variable (fromStr : String → Option Json) (protection : UInt64 → Protection)

/-- `apply_committed_event` and the commit of the guard; `state.rs:2028`. What is protected while
an event is applied is given by its sequence number. -/
def commitStaged (w : TimelineWriter Reply Guard) (s : StagedTimelineAppend Reply Guard) :
    TimelineWriter Reply Guard :=
  { w with
    nextSeq := s.event.seq
    registry := w.registry.applyAppendedEvent fromStr (protection s.event.seq) s.event
    warm := w.warm.applyCommittedEvent s.event }.emit (s.deleteGuard.toList.map .guardCommitted)

/-- `publish`; `state.rs:2075`. -/
def publish (w : TimelineWriter Reply Guard) : TimelineWriter Reply Guard :=
  { w with snapshot := ⟨w.warm.maps.tails, w.nextSeq⟩ }.emit [.published w.nextSeq w.committedEnd]

/-- Notify the subscribers of a committed event and answer its command; `state.rs:2035`. -/
def announce (w : TimelineWriter Reply Guard) (s : StagedTimelineAppend Reply Guard) :
    TimelineWriter Reply Guard :=
  w.emit (announceEffects s)

/-- Answer a staged command whose batch was not synced; `state.rs:2016`. -/
def failStaged (err : String) (w : TimelineWriter Reply Guard)
    (s : StagedTimelineAppend Reply Guard) : TimelineWriter Reply Guard :=
  w.sendStageError s.reply s.deleteGuard err

/-- `sync_and_publish`, where a sync that is tried may fail; `state.rs:2008`. -/
def syncAndPublish (w : TimelineWriter Reply Guard)
    (staged : List (StagedTimelineAppend Reply Guard)) (sync : Option String) :
    TimelineWriter Reply Guard :=
  if staged = [] then w
  else
    match w.wal.syncPending sync with
    | (.error err, wal) => staged.foldl (failStaged err.display) (w.withWal wal w.file)
    | (.ok (), wal) =>
      let w := { w with wal := wal, committedEnd := wal.committedEnd }
      let w := staged.foldl (commitStaged fromStr protection) w
      staged.foldl announce w.publish

/-- A batch: the writer after staging, what it staged, and the rest of the queue, where a deferred
command comes first. -/
structure Batch (Reply Guard : Type) where
  writer : TimelineWriter Reply Guard
  staged : List (StagedTimelineAppend Reply Guard)
  queue : List (Arrival Reply Guard)

/-- Stage a command and those behind it up to the end of the batch, where at most `more` follow;
`state.rs:1898`. -/
def batchLoop (crc : Bytes → UInt32) (w : TimelineWriter Reply Guard)
    (staged : List (StagedTimelineAppend Reply Guard)) (bytes more : Nat) (a : Arrival Reply Guard)
    (rx : List (Arrival Reply Guard)) : Batch Reply Guard :=
  if a.command.isDelete ∧ staged ≠ [] then ⟨w, staged, a :: rx⟩
  else
    let next := w.stageCommand crc a staged bytes
    if a.command.isDelete ∨ TIMELINE_BATCH_TARGET_BYTES ≤ next.2.2 ∨ more = 0 then
      ⟨next.1, next.2.1, rx⟩
    else
      match rx with
      | [] => ⟨next.1, next.2.1, []⟩
      | b :: rest =>
        if b.waiting then batchLoop crc next.1 next.2.1 next.2.2 (more - 1) b rest
        else ⟨next.1, next.2.1, b :: rest⟩

/-- The queue gets shorter by the first command of a batch. -/
theorem length_batchLoop_le (crc : Bytes → UInt32) (w : TimelineWriter Reply Guard)
    (staged : List (StagedTimelineAppend Reply Guard)) (bytes more : Nat)
    (a : Arrival Reply Guard) (rx : List (Arrival Reply Guard)) :
    (batchLoop crc w staged bytes more a rx).queue.length ≤
      rx.length + (if staged = [] then 0 else 1) := by
  induction rx generalizing w staged bytes more a with
  | nil =>
    rw [batchLoop]
    split
    · next hdelete => simp [hdelete.2]
    · dsimp only
      split <;> exact Nat.zero_le _
  | cons b rest ih =>
    rw [batchLoop]
    split
    · next hdelete => simp [hdelete.2]
    · dsimp only
      split
      · exact Nat.le_add_right _ _
      · split
        · refine Nat.le_trans (ih _ _ _ _ b) ?_
          rw [List.length_cons]
          split <;> split <;> omega
        · exact Nat.le_add_right _ _

/-- The batch that a command begins. -/
def batch (crc : Bytes → UInt32) (w : TimelineWriter Reply Guard) (a : Arrival Reply Guard)
    (rx : List (Arrival Reply Guard)) : Batch Reply Guard :=
  batchLoop crc w [] 0 (TIMELINE_BATCH_MAX_COMMANDS - 1) a rx

/-- `run` over the commands that arrive, with how each sync ends; `state.rs:1885`. -/
def run (crc : Bytes → UInt32) (w : TimelineWriter Reply Guard) (queue : List (Arrival Reply Guard))
    (syncs : List (Option String)) : TimelineWriter Reply Guard :=
  match queue with
  | [] => w
  | a :: rx =>
    run crc (syncAndPublish fromStr protection (w.batch crc a rx).writer (w.batch crc a rx).staged
      (syncs.headD none)) (w.batch crc a rx).queue syncs.tail
termination_by queue.length
decreasing_by
  exact Nat.lt_succ_of_le (length_batchLoop_le crc w [] 0 (TIMELINE_BATCH_MAX_COMMANDS - 1) a rx)

end TimelineWriter

/-- The writer of a server that has restored some events; `spawn_timeline_writer`,
`state.rs:2085`. -/
def TimelineWriter.spawn (wal : WalWriter) (file : Bytes) (restored : Restored) :
    TimelineWriter Reply Guard where
  wal := wal
  file := file
  registry := restored.registry
  snapshot := ⟨restored.tails, UInt64.ofNat restored.maxSeq⟩
  committedEnd := wal.committedEnd
  nextSeq := UInt64.ofNat restored.maxSeq
  warm := WarmTails.spawn restored.tails (UInt64.ofNat restored.maxSeq)
  effects := []

end Vidarax.Commit
