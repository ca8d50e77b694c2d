import Mathlib.Logic.Relation
import Vidarax.Base.Machine
import Vidarax.Runs.Invariant

/-!
# Stream slots

Package `vidarax-api`, `crates/vidarax-api/src/state.rs:348–369,1469–1526,2158–2246`. The creators
of runs reserve slots of their principal, the worker of the timeline commits and applies events one
at a time, and all of them take steps in any order. A creator holds the entry of its principal in
the map of reservations from its first look to its decision, and the bucket of its principal from
when it opens it.
-/

namespace Vidarax.Runs

open Vidarax.Base Vidarax.Timeline

/-- Settings that bound the runs of a principal. -/
structure SlotConfig where
  activeStreamLimit : UInt64
  streamTtlSecs : UInt64

/-- `stream_ttl_secs.saturating_mul(1000)`. -/
def SlotConfig.ttlMs (config : SlotConfig) : UInt64 :=
  UInt64.ofNat (min (config.streamTtlSecs.toNat * 1000) u64Max)

/-- `apply_expiry`; `state.rs:2549`. -/
def applyExpiry (state : StreamState) (lastActivityMs nowMs ttlMs : UInt64) : StreamState :=
  if state.isTerminal ∨ ttlMs = 0 ∨ lastActivityMs = 0 then state
  else if ttlMs < satSub nowMs lastActivityMs then .expired else state

/-- The filter of `count_active_runs_for_principal`; `state.rs:1469`. -/
def SlotConfig.counts (config : SlotConfig) (principalKey : String) (nowMs : UInt64)
    (run : RunState) : Bool :=
  let summary := run.snapshot
  summary.principalKey = principalKey && !summary.deleted &&
    !(applyExpiry summary.state summary.lastActivityMs nowMs config.ttlMs).isTerminal

/-! ### Creators -/

/-- How far one creation of a run has come. -/
inductive Creation where
  /-- `try_reserve_stream_slot` holds the entry of the principal, and has read its count. -/
  | entered (principal : String) (nowMs : UInt64) (reserved : Nat)
  /-- It holds the bucket of the principal too, and counts the runs in it. -/
  | counting (principal : String) (nowMs : UInt64) (reserved : Nat) (rest : List String)
      (committed : Nat)
  /-- The creator holds a `StreamSlotGuard`. -/
  | holding (principal : String)
  /-- Its event is committed, and waits to be applied. -/
  | durable (principal : String) (event : TimelineEvent)
  /-- Its event is applied, and the append returns. -/
  | applied (principal : String) (event : TimelineEvent)
  /-- The guard was dropped after the commit. -/
  | released (principal : String) (event : TimelineEvent)
  deriving DecidableEq

namespace Creation

/-- Holds the entry of a principal in the map of reservations. -/
def locks (p : String) : Creation → Bool
  | entered q _ _ | counting q _ _ _ _ => q = p
  | _ => false

/-- Holds the bucket of a principal. -/
def reads (p : String) : Creation → Bool
  | counting q _ _ _ _ => q = p
  | _ => false

/-- Holds a guard of a principal. -/
def guards (p : String) : Creation → Bool
  | holding q | durable q _ | applied q _ => q = p
  | _ => false

/-- Holds a guard of a principal, and its run is not committed. -/
def pends (p : String) : Creation → Bool
  | holding q => q = p
  | _ => false

/-- The principal and the event of a run that was committed. -/
def created : Creation → Option (String × TimelineEvent)
  | durable q e | applied q e | released q e => some (q, e)
  | _ => none

/-- What the worker does to the creators when it acknowledges an event. -/
def acknowledge (event : TimelineEvent) : Creation → Creation
  | durable q e => if e = event then applied q e else durable q e
  | creation => creation

end Creation

/-! ### Events -/

/-- An event that ends its run: a deletion, or one with a terminal state. -/
def Ends (kind : String) : Bool :=
  kind = "run_deleted" || (transitionState kind).any StreamState.isTerminal

/-- Structural events write the index first and the entry after it; `state.rs:2158`. -/
def RunRegistry.finishStructural (isProtected : Protection) (r : RunRegistry) (run : String)
    (before after : RunSummary) : RunRegistry :=
  let r := { r with runs := r.runs.insert run (RunState.fromSummary after) }
  if !before.deleted && after.deleted then
    trim isProtected 0 { r with deletedRunOrder := r.deletedRunOrder ++ [run] }
  else r

/-- `apply_structural_event` is its two parts. -/
theorem RunRegistry.applyStructuralEvent_eq_finish (fromStr : String → Option Json)
    (isProtected : Protection) (r : RunRegistry) (event : TimelineEvent) :
    r.applyStructuralEvent fromStr isProtected event =
      let before := r.summary event.runId
      let after := before.applyEvent fromStr event
      (r.reindex event.runId before after).finishStructural isProtected event.runId before after :=
  rfl

/-! ### The system -/

/-- The timeline and its worker: the registry, the committed events, those of them that are yet to be
applied, and what was computed for the first of these when it was indexed. -/
structure SlotWorker where
  registry : RunRegistry
  log : List TimelineEvent
  queue : List TimelineEvent
  indexed : Option (RunSummary × RunSummary)

namespace SlotWorker

variable (w : SlotWorker)

/-- An event is committed. -/
def commit (event : TimelineEvent) : SlotWorker :=
  { w with log := w.log ++ [event], queue := w.queue ++ [event] }

/-- The first event is indexed. -/
def index (event : TimelineEvent) (before after : RunSummary) : SlotWorker :=
  { w with
    registry := w.registry.reindex event.runId before after
    indexed := some (before, after) }

/-- Its entry is written. -/
def finish (isProtected : Protection) (event : TimelineEvent) (queue : List TimelineEvent)
    (before after : RunSummary) : SlotWorker :=
  { w with
    registry := w.registry.finishStructural isProtected event.runId before after
    queue := queue
    indexed := none }

/-- The first event changes an entry. -/
def nudge (event : TimelineEvent) (queue : List TimelineEvent) (run : RunState) : SlotWorker :=
  { w with registry := w.registry.nudge event run, queue := queue }

end SlotWorker

/-- The worker, the reservations and the creations. The times that were passed to
`try_reserve_stream_slot` are kept for statements only. -/
structure Slots where
  worker : SlotWorker
  reservations : Table String Nat
  creations : List Creation
  times : List UInt64

namespace Slots

/-- A server that starts on a stored timeline. -/
def initial (fromStr : String → Option Json) (stored : List TimelineEvent) : Slots :=
  ⟨⟨.build fromStr stored, stored, [], none⟩, ∅, [], []⟩

/-- No creator holds the entry of the principal. -/
def Unlocked (s : Slots) (p : String) : Prop := ∀ c ∈ s.creations, c.locks p = false

/-- No creator holds the bucket of the principal. -/
def Unread (s : Slots) (p : String) : Prop := ∀ c ∈ s.creations, c.reads p = false

/-- One more reservation of a principal. -/
def reserve (reservations : Table String Nat) (p : String) : Table String Nat :=
  match reservations[p]? with
  | some n => reservations.insert p (n + 1)
  | none => reservations.insert p 1

/-- `StreamSlotGuard::drop`; `state.rs:354`. -/
def release (reservations : Table String Nat) (p : String) : Table String Nat :=
  match reservations[p]? with
  | some n => if n ≤ 1 then reservations.erase p else reservations.insert p (n - 1)
  | none => reservations

variable (config : SlotConfig) (fromStr : String → Option Json)

/-- One step of a creator or of the worker. -/
inductive Step (s : Slots) : Slots → Prop where
  /-- `reservations.entry(principal)`; `state.rs:1506`. -/
  | enter (p : String) (nowMs : UInt64) (hfree : s.Unlocked p) :
      Step s { s with
        creations := s.creations ++ [.entered p nowMs (s.reservations[p]?.getD 0)]
        times := nowMs :: s.times }
  /-- `by_principal.get(principal)`, to be iterated in some order; `state.rs:1470`. -/
  | opens {l r : List Creation} {p : String} {nowMs : UInt64} {reserved : Nat} (ids : List String)
      (hat : s.creations = l ++ .entered p nowMs reserved :: r) (hnodup : ids.Nodup)
      (hids : ∀ run, run ∈ ids ↔ run ∈ s.worker.registry.members p) :
      Step s { s with creations := l ++ .counting p nowMs reserved ids 0 :: r }
  /-- One more run of the bucket. -/
  | look {l r : List Creation} {p : String} {nowMs : UInt64} {reserved committed : Nat}
      {run : String} {rest : List String}
      (hat : s.creations = l ++ .counting p nowMs reserved (run :: rest) committed :: r) :
      Step s { s with
        creations := l ++ .counting p nowMs reserved rest
          (if s.worker.registry.runs[run]?.any (config.counts p nowMs) then committed + 1
            else committed) :: r }
  /-- The limit is reached; `state.rs:1512`. -/
  | refuse {l r : List Creation} {p : String} {nowMs : UInt64} {reserved committed : Nat}
      (hat : s.creations = l ++ .counting p nowMs reserved [] committed :: r)
      (hfull : config.activeStreamLimit.toNat ≤ min (committed + reserved) u64Max) :
      Step s { s with creations := l ++ r }
  /-- The slot is reserved; `state.rs:1516`. -/
  | grant {l r : List Creation} {p : String} {nowMs : UInt64} {reserved committed : Nat}
      (hat : s.creations = l ++ .counting p nowMs reserved [] committed :: r)
      (hroom : min (committed + reserved) u64Max < config.activeStreamLimit.toNat) :
      Step s { s with
        reservations := reserve s.reservations p
        creations := l ++ .holding p :: r }
  /-- The `run_created` event of a guard is committed, under a new id. -/
  | commit {l r : List Creation} {p : String} (event : TimelineEvent)
      (hat : s.creations = l ++ .holding p :: r) (hkind : event.kind = "run_created")
      (hprincipal : principalKeyFromPayload fromStr event.payload = some p)
      (hnew : ∀ e ∈ s.worker.log, e.runId ≠ event.runId) :
      Step s { s with
        creations := l ++ .durable p event :: r
        worker := s.worker.commit event }
  /-- A deletion or a terminal event is committed. -/
  | commitEnd (event : TimelineEvent) (hends : Ends event.kind = true) :
      Step s { s with worker := s.worker.commit event }
  /-- The worker indexes the first event; `state.rs:2159–2184`. -/
  | index {event : TimelineEvent} {queue : List TimelineEvent} (before after : RunSummary)
      (hqueue : s.worker.queue = event :: queue) (hindexed : s.worker.indexed = none)
      (hstructural : event.kind = "run_created" ∨ event.kind = "run_deleted" ∨
        s.worker.registry.runs[event.runId]? = none)
      (hbefore : before = s.worker.registry.summary event.runId)
      (hafter : after = before.applyEvent fromStr event)
      (hfree : ∀ p : String, s.Unread p ∨
        (s.worker.registry.reindex event.runId before after).byPrincipal[p]? =
          s.worker.registry.byPrincipal[p]?) :
      Step s { s with worker := s.worker.index event before after }
  /-- It writes the entry of the run; `state.rs:2186`. -/
  | finish {event : TimelineEvent} {queue : List TimelineEvent} {before after : RunSummary}
      (isProtected : Protection) (hqueue : s.worker.queue = event :: queue)
      (hindexed : s.worker.indexed = some (before, after)) :
      Step s { s with
        worker := s.worker.finish isProtected event queue before after
        creations := s.creations.map (Creation.acknowledge event) }
  /-- It changes the state of a run that it knows; `state.rs:2236`. -/
  | nudge {event : TimelineEvent} {queue : List TimelineEvent} {run : RunState}
      (hqueue : s.worker.queue = event :: queue) (hindexed : s.worker.indexed = none)
      (hcreated : event.kind ≠ "run_created") (hdeleted : event.kind ≠ "run_deleted")
      (hrun : s.worker.registry.runs[event.runId]? = some run) :
      Step s { s with worker := s.worker.nudge event queue run }
  /-- The guard is dropped after its run was committed. -/
  | release {l r : List Creation} {p : String} {event : TimelineEvent}
      (hat : s.creations = l ++ .applied p event :: r) (hfree : s.Unlocked p) :
      Step s { s with
        reservations := release s.reservations p
        creations := l ++ .released p event :: r }
  /-- The guard is dropped since the creation failed. -/
  | fail {l r : List Creation} {p : String} (hat : s.creations = l ++ .holding p :: r)
      (hfree : s.Unlocked p) :
      Step s { s with reservations := release s.reservations p, creations := l ++ r }

/-- States of a server that started on a stored timeline. -/
def Reachable (s : Slots) : Prop :=
  ∃ stored, Relation.ReflTransGen (Step config fromStr) (initial fromStr stored) s

/-! ### What is counted -/

/-- The run was neither deleted nor ended by a committed event. -/
def Ongoing (log : List TimelineEvent) (run : String) : Prop :=
  ∀ e ∈ log, e.runId = run → Ends e.kind = false

instance (log : List TimelineEvent) (run : String) : Decidable (Ongoing log run) :=
  inferInstanceAs (Decidable (∀ e ∈ log, _))

/-- Active runs of a principal that were created through guards: created, not deleted and not
terminal. -/
def active (s : Slots) (p : String) : Nat :=
  s.creations.countP fun c ↦ c.created.any fun (q, e) ↦ q = p ∧ Ongoing s.worker.log e.runId

/-- A run without activity since its creation is not expired. -/
def Unexpired (config : SlotConfig) (nowMs : UInt64) (e : TimelineEvent) : Prop :=
  applyExpiry .pending e.ptsMs nowMs config.ttlMs = .pending

instance (config : SlotConfig) (nowMs : UInt64) (e : TimelineEvent) :
    Decidable (Unexpired config nowMs e) :=
  inferInstanceAs (Decidable (_ = _))

/-- Active runs that are not expired at some time. -/
def activeAt (config : SlotConfig) (s : Slots) (nowMs : UInt64) (p : String) : Nat :=
  s.creations.countP fun c ↦ c.created.any fun (q, e) ↦
    q = p ∧ Ongoing s.worker.log e.runId ∧ Unexpired config nowMs e

/-- Guards of a principal whose run is not committed. -/
def pending (s : Slots) (p : String) : Nat := s.creations.countP (Creation.pends p)

/-- Guards of a principal. -/
def guards (s : Slots) (p : String) : Nat := s.creations.countP (Creation.guards p)

/-- The time is not before one that was passed to `try_reserve_stream_slot`, or runs do not
expire. -/
def Covers (config : SlotConfig) (s : Slots) (nowMs : UInt64) : Prop :=
  config.ttlMs = 0 ∨ ∀ passed ∈ s.times, passed ≤ nowMs

end Slots

end Vidarax.Runs
