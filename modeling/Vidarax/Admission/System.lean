import Vidarax.Admission.State

/-!
# Admission as a system

Package `vidarax-core`, `crates/vidarax-core/src/admission.rs:209–383,599–617`.
Threads that wait for admission sleep on a condition variable of their own. Each step is
one critical section of the mutex: the arrival of a call up to its first sleep, one turn
of a wait loop, or the drop of a permit. Wake-ups may be spurious and come in any order.
-/

namespace Vidarax.Admission

open Vidarax.Base

/-- A live permit; `admission.rs:600`. -/
structure AdmissionPermit where
  principal : String
  tokens : UInt64
  bytes : UInt64
  deriving DecidableEq

/-- A thread in the wait loop. `notified` holds a notification it has not acted on. -/
structure Call where
  request : AdmissionRequest
  ticket : UInt64
  wake : Nat
  started : Nat
  latestStart : Nat
  waitDeadline : Nat
  notified : Bool
  deriving DecidableEq

/-- The queue entry of a call. -/
def Call.waiter (c : Call) : Waiter :=
  ⟨c.ticket, c.request.principal, c.request.stream, c.request.latencyClass, c.started,
    c.latestStart, c.request.tokens, c.request.bytes, c.wake⟩

/-- The permit of a granted call. -/
def AdmissionRequest.permit (request : AdmissionRequest) : AdmissionPermit :=
  ⟨request.principal, request.tokens, request.bytes⟩

/-- The request of `acquire_with_timeout`; `admission.rs:216`. -/
def directRequest (principal : String) (timeout : Nat) : AdmissionRequest :=
  ⟨principal, "direct", .live, min (timeout + 86400 * 1000000000) DURATION_MAX, 0, 0, 0⟩

/-! ### Critical sections -/

/-- What an arriving call does before it waits. -/
inductive Arrival where
  | rejected (error : AdmissionError)
  | granted
  | queued (latestStart waitDeadline : Nat)
  deriving DecidableEq

/-- The part of `acquire_scheduled_with_wait` before the queue; `admission.rs:247`. -/
def AdmissionState.arrive (limits : AdmissionLimits) (state : AdmissionState)
    (request : AdmissionRequest) (waitTimeout started : Nat) : Arrival :=
  if request.tokens > limits.maxInFlightTokens ∨ request.bytes > limits.maxInFlightBytes then
    .rejected .requestBudget
  else
    match durationSub request.deadline request.estimatedService with
    | none => .rejected .deadlineMissed
    | some queueDeadline =>
      if queueDeadline = 0 then .rejected .deadlineMissed
      else
        let latestStart := (instantAdd started queueDeadline).getD started
        let waitDeadline := min ((instantAdd started waitTimeout).getD started) latestStart
        if state.canAcquire limits request.principal request.tokens request.bytes none started then
          .granted
        else if state.waiters.length ≥ limits.globalWaiters then .rejected .waiterLimit
        else .queued latestStart waitDeadline

/-- How one turn of the wait loop ends. -/
inductive Outcome where
  | granted
  | failed (error : AdmissionError)
  | asleep
  deriving DecidableEq

/-- The decision of one turn; `admission.rs:329`. -/
def AdmissionState.outcome (limits : AdmissionLimits) (state : AdmissionState) (c : Call)
    (now : Nat) : Outcome :=
  if state.canAcquire limits c.request.principal c.request.tokens c.request.bytes (some c.ticket)
      now then .granted
  else if now ≥ c.waitDeadline then
    if now ≥ c.latestStart then .failed .deadlineMissed
    else .failed (.timeout (state.blockedBy limits c.request.principal))
  else .asleep

/-- The state after one turn. -/
def AdmissionState.afterTurn (limits : AdmissionLimits) (state : AdmissionState) (c : Call)
    (now : Nat) : AdmissionState :=
  match state.outcome limits c now with
  | .granted =>
    (state.removeWaiter c.ticket c.request.principal).markAcquired c.request.principal
      c.request.stream c.request.tokens c.request.bytes
  | .failed _ => state.removeWaiter c.ticket c.request.principal
  | .asleep => state

/-- The metrics after one turn, which took until `now + spent`. -/
def AdmissionMetrics.afterTurn (m : AdmissionMetrics) (c : Call) (now spent : Nat) :
    Outcome → AdmissionMetrics
  | .granted => m.recordAcquired c.request.latencyClass (now + spent - c.started)
  | .failed (.timeout blockedBy) => m.recordTimeout blockedBy (now + spent - c.started)
  | .failed _ => m.recordDeadlineMissed.recordWait (now + spent - c.started)
  | .asleep => m

/-- The metrics after a rejection on arrival. -/
def AdmissionMetrics.afterRejection (m : AdmissionMetrics) : AdmissionError → AdmissionMetrics
  | .requestBudget => m.recordBudgetRejected
  | .waiterLimit => m.recordWaiterRejected
  | _ => m.recordDeadlineMissed

/-! ### The system -/

/-- State, permits and waiting threads. `clock` is the last instant at which a queue decision
was made, and `nextWake` the next condition variable. -/
structure System where
  state : AdmissionState
  metrics : AdmissionMetrics
  permits : List AdmissionPermit
  calls : List Call
  nextWake : Nat
  clock : Nat

/-- One critical section. Time advances by `elapsed` before it; an arriving call read its
clock `lag` before that. -/
inductive Op where
  | acquire (request : AdmissionRequest) (waitTimeout elapsed lag spent : Nat)
  | wake (index elapsed spent : Nat)
  | drop (index elapsed : Nat)

namespace System

/-- A new admission. -/
def initial : System := ⟨.initial, .initial, [], [], 0, 0⟩

/-- Calls after a signal to one condition variable. -/
def signal (calls : List Call) (wake : Option Nat) : List Call :=
  calls.map fun c ↦ if wake = some c.wake then { c with notified := true } else c

/-- One turn of the wait loop of a call. -/
def turn (limits : AdmissionLimits) (s : System) (index now spent : Nat) : System :=
  match s.calls[index]? with
  | none => s
  | some c =>
    let outcome := s.state.outcome limits c now
    let state := s.state.afterTurn limits c now
    let s := { s with
      state := state
      metrics := s.metrics.afterTurn c now spent outcome
      clock := now }
    match outcome with
    | .granted =>
      { s with
        permits := s.permits ++ [c.request.permit]
        calls := signal (s.calls.eraseIdx index) (state.notifySelected limits now) }
    | .failed _ =>
      { s with calls := signal (s.calls.eraseIdx index) (state.notifySelected limits now) }
    | .asleep => { s with calls := s.calls.set index { c with notified := false } }

/-- The thread of a queued arrival. -/
def newCall (s : System) (request : AdmissionRequest) (started latestStart waitDeadline : Nat) :
    Call :=
  ⟨request, s.state.nextTicket, s.nextWake, started, latestStart, waitDeadline, false⟩

/-- A queued arrival before its first turn. -/
def join (s : System) (c : Call) : System :=
  { s with
    state := s.state.enqueue c.waiter
    calls := s.calls ++ [c]
    nextWake := s.nextWake + 1 }

/-- One step. -/
def step (limits : AdmissionLimits) (s : System) : Op → System
  | .acquire request waitTimeout elapsed lag spent =>
    let now := s.clock + elapsed
    let started := now - lag
    match s.state.arrive limits request waitTimeout started with
    | .rejected error => { s with metrics := s.metrics.afterRejection error }
    | .granted =>
      { s with
        state := s.state.markAcquired request.principal request.stream request.tokens
          request.bytes
        metrics := s.metrics.recordAcquired request.latencyClass (now + spent - started)
        permits := s.permits ++ [request.permit]
        clock := now }
    | .queued latestStart waitDeadline =>
      (s.join (s.newCall request started latestStart waitDeadline)).turn limits s.calls.length
        now spent
  | .wake index elapsed spent => s.turn limits index (s.clock + elapsed) spent
  | .drop index elapsed =>
    match s.permits[index]? with
    | none => s
    | some p =>
      let now := s.clock + elapsed
      let state := s.state.release p.principal p.tokens p.bytes
      { s with
        state := state
        permits := s.permits.eraseIdx index
        calls := signal s.calls (state.notifySelected limits now)
        clock := now }

/-- A run. -/
def run (limits : AdmissionLimits) (s : System) (ops : List Op) : System :=
  ops.foldl (step limits) s

/-! ### Equations of a turn -/

section Turn

variable {limits : AdmissionLimits} {s : System} {index now spent : Nat} {c : Call}

theorem turn_none (hc : s.calls[index]? = none) : s.turn limits index now spent = s := by
  simp only [turn, hc]

/-- A turn that is granted. -/
theorem turn_granted (hc : s.calls[index]? = some c)
    (ho : s.state.outcome limits c now = .granted) :
    s.turn limits index now spent =
      let state := (s.state.removeWaiter c.ticket c.request.principal).markAcquired
        c.request.principal c.request.stream c.request.tokens c.request.bytes
      ⟨state, s.metrics.afterTurn c now spent .granted, s.permits ++ [c.request.permit],
        signal (s.calls.eraseIdx index) (state.notifySelected limits now), s.nextWake, now⟩ := by
  simp only [turn, hc, AdmissionState.afterTurn, ho]

/-- A turn that gives up. -/
theorem turn_failed {error : AdmissionError} (hc : s.calls[index]? = some c)
    (ho : s.state.outcome limits c now = .failed error) :
    s.turn limits index now spent =
      let state := s.state.removeWaiter c.ticket c.request.principal
      ⟨state, s.metrics.afterTurn c now spent (.failed error), s.permits,
        signal (s.calls.eraseIdx index) (state.notifySelected limits now), s.nextWake, now⟩ := by
  simp only [turn, hc, AdmissionState.afterTurn, ho]

/-- A turn that goes back to sleep. -/
theorem turn_asleep (hc : s.calls[index]? = some c)
    (ho : s.state.outcome limits c now = .asleep) :
    s.turn limits index now spent =
      ⟨s.state, s.metrics, s.permits, s.calls.set index { c with notified := false },
        s.nextWake, now⟩ := by
  simp only [turn, hc, AdmissionState.afterTurn, ho, AdmissionMetrics.afterTurn]

/-- Only a call that may start is granted. -/
theorem canAcquire_of_granted (ho : s.state.outcome limits c now = .granted) :
    s.state.canAcquire limits c.request.principal c.request.tokens c.request.bytes
      (some c.ticket) now := by
  unfold AdmissionState.outcome at ho
  split at ho
  · next h => exact h
  · split at ho
    · split at ho <;> cases ho
    · cases ho

/-- The thread that joined last is the last one. -/
theorem join_getElem? (s : System) (c : Call) : (s.join c).calls[s.calls.length]? = some c := by
  rw [System.join, List.getElem?_append_right (Nat.le_refl _), Nat.sub_self,
    List.getElem?_cons_zero]

/-- Only a call that may start is granted on arrival. -/
theorem canAcquire_of_arrive {state : AdmissionState} {request : AdmissionRequest}
    {waitTimeout started : Nat}
    (h : state.arrive limits request waitTimeout started = .granted) :
    state.canAcquire limits request.principal request.tokens request.bytes none started := by
  unfold AdmissionState.arrive at h
  split at h
  · cases h
  · split at h
    · cases h
    · split at h
      · cases h
      · simp only at h
        split at h
        · next hcan => exact hcan
        · split at h <;> cases h

end Turn

/-! ### Waiters and their threads -/

/-- The queue holds the entries of the waiting threads, under different tickets. -/
structure Linked (s : System) : Prop where
  waiters_eq : s.state.waiters = s.calls.map Call.waiter
  nodup : (s.calls.map Call.ticket).Nodup

theorem linked_initial : Linked initial := ⟨rfl, List.nodup_nil⟩

@[simp] theorem map_waiter_signal (calls : List Call) (wake : Option Nat) :
    (signal calls wake).map Call.waiter = calls.map Call.waiter := by
  rw [signal, List.map_map]
  apply List.map_congr_left
  intro c _
  by_cases h : wake = some c.wake <;> simp [h, Call.waiter]

@[simp] theorem map_ticket_signal (calls : List Call) (wake : Option Nat) :
    (signal calls wake).map Call.ticket = calls.map Call.ticket := by
  rw [signal, List.map_map]
  apply List.map_congr_left
  intro c _
  by_cases h : wake = some c.wake <;> simp [h]

/-- Removal by a key that no two elements share is removal by position. -/
theorem eraseP_key {α β : Type} [DecidableEq β] (key : α → β) (l : List α) (i : Nat)
    (hn : (l.map key).Nodup) (hi : i < l.length) :
    l.eraseP (fun x ↦ key x = key l[i]) = l.eraseIdx i := by
  induction l generalizing i with
  | nil => cases hi
  | cons x l ih =>
    rw [List.map_cons, List.nodup_cons] at hn
    cases i with
    | zero => rw [List.eraseP_cons_of_pos (by simp), List.eraseIdx_cons_zero]
    | succ i =>
      have hi' : i < l.length := by simpa using hi
      have hne : key x ≠ key l[i] := fun h ↦
        hn.1 (h ▸ List.mem_map_of_mem (List.getElem_mem hi'))
      rw [List.eraseP_cons_of_neg (by simpa using hne), List.eraseIdx_cons_succ]
      exact congrArg (x :: ·) (ih i hn.2 hi')

/-- A thread of the wait loop has the queue entry that its ticket names. -/
theorem Linked.eraseP_ticket {s : System} (h : Linked s) {i : Nat} {c : Call}
    (hc : s.calls[i]? = some c) :
    s.state.waiters.eraseP (·.ticket = c.ticket) = (s.calls.eraseIdx i).map Call.waiter := by
  obtain ⟨hi, rfl⟩ := List.getElem?_eq_some_iff.mp hc
  rw [h.waiters_eq, List.eraseP_map]
  exact congrArg (List.map Call.waiter) (eraseP_key Call.ticket s.calls i h.nodup hi)

/-- A thread that leaves the wait loop takes its queue entry with it. -/
theorem Linked.erase {s : System} (h : Linked s) {i : Nat} {c : Call}
    (hc : s.calls[i]? = some c) (state : AdmissionState) (wake : Option Nat) (metrics clock permits)
    (hs : state.waiters = s.state.waiters.eraseP (·.ticket = c.ticket)) :
    Linked ⟨state, metrics, permits, signal (s.calls.eraseIdx i) wake, s.nextWake, clock⟩ where
  waiters_eq := by rw [map_waiter_signal, hs, h.eraseP_ticket hc]
  nodup := by
    rw [map_ticket_signal, ← List.eraseIdx_map]
    exact h.nodup.eraseIdx i

/-- Signals and turns that end asleep change no queue entry. -/
theorem Linked.of_maps {s s' : System} (h : Linked s) (hw : s'.state.waiters = s.state.waiters)
    (hc : s'.calls.map Call.waiter = s.calls.map Call.waiter) : Linked s' where
  waiters_eq := by rw [hw, hc, h.waiters_eq]
  nodup := by
    have ht (l : List Call) : l.map Call.ticket = (l.map Call.waiter).map Waiter.ticket := by
      rw [List.map_map]; rfl
    rw [ht, hc, ← ht]
    exact h.nodup

/-- A newcomer under a fresh ticket joins the queue. -/
theorem Linked.join {s : System} (h : Linked s) {c : Call}
    (hc : ∀ w ∈ s.state.waiters, w.ticket ≠ c.ticket) : Linked (s.join c) where
  waiters_eq := by
    rw [System.join, List.map_append, ← h.waiters_eq]
    rfl
  nodup := by
    rw [System.join, List.map_append, List.nodup_append]
    refine ⟨h.nodup, List.nodup_singleton _, ?_⟩
    intro t ht t' ht' heq
    obtain ⟨d, hd, rfl⟩ := List.mem_map.mp ht
    rw [List.map_singleton, List.mem_singleton] at ht'
    apply hc d.waiter
    · rw [h.waiters_eq]; exact List.mem_map_of_mem hd
    · exact heq.trans ht'

/-- The queue of a waiting thread and the others. -/
theorem Linked.perm {s : System} (h : Linked s) {i : Nat} {c : Call}
    (hc : s.calls[i]? = some c) :
    s.state.waiters.Perm (c.waiter :: (s.calls.eraseIdx i).map Call.waiter) := by
  obtain ⟨hi, rfl⟩ := List.getElem?_eq_some_iff.mp hc
  rw [h.waiters_eq]
  exact ((List.getElem_cons_eraseIdx_perm hi).map Call.waiter).symm

/-- Turns keep queue and threads together. -/
theorem Linked.turn {limits : AdmissionLimits} {s : System} (h : Linked s)
    (index now spent : Nat) : Linked (s.turn limits index now spent) := by
  cases hc : s.calls[index]? with
  | none => rwa [turn_none hc]
  | some c =>
    cases ho : s.state.outcome limits c now with
    | granted =>
      rw [turn_granted hc ho]
      exact h.erase hc _ _ _ _ _ (AdmissionState.removeWaiter_waiters ..)
    | failed error =>
      rw [turn_failed hc ho]
      exact h.erase hc _ _ _ _ _ (AdmissionState.removeWaiter_waiters ..)
    | asleep =>
      rw [turn_asleep hc ho]
      refine h.of_maps rfl ?_
      obtain ⟨hi, rfl⟩ := List.getElem?_eq_some_iff.mp hc
      have hw : Call.waiter { s.calls[index] with notified := false } =
          Call.waiter s.calls[index] := rfl
      rw [List.map_set, hw, ← List.map_set, List.set_getElem_self]

/-- A ticket that is issued while a waiter still holds it would be ambiguous. -/
def FreshTicket (limits : AdmissionLimits) (s : System) : Op → Prop
  | .acquire request waitTimeout elapsed lag _ =>
    ∀ latestStart waitDeadline,
      s.state.arrive limits request waitTimeout (s.clock + elapsed - lag) =
          .queued latestStart waitDeadline →
        ∀ w ∈ s.state.waiters, w.ticket ≠ s.state.nextTicket
  | _ => True

/-- Steps that issue fresh tickets keep queue and threads together. -/
theorem Linked.step {limits : AdmissionLimits} {s : System} (h : Linked s) (op : Op)
    (hfresh : FreshTicket limits s op) : Linked (s.step limits op) := by
  cases op with
  | acquire request waitTimeout elapsed lag spent =>
    simp only [System.step]
    split
    · exact h.of_maps rfl rfl
    · exact h.of_maps rfl rfl
    · next latestStart waitDeadline harrive =>
      exact (h.join (hfresh latestStart waitDeadline harrive)).turn _ _ _
  | wake index elapsed spent => exact h.turn _ _ _
  | drop index elapsed =>
    simp only [System.step]
    split
    · exact h
    · exact h.of_maps (AdmissionState.release_waiters ..) (map_waiter_signal ..)

end System

end Vidarax.Admission
