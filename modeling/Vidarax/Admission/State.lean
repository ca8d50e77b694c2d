import Mathlib.Data.List.AList
import Mathlib.Data.Prod.Lex
import Vidarax.Base.Machine

/-!
# Admission state

Package `vidarax-core`, `crates/vidarax-core/src/admission.rs:14–189,407–581`.
Counters of the calls in flight, the queue of waiting calls and the choice of the next
one. Durations and instants are in nanoseconds.
-/

namespace Vidarax.Admission

open Vidarax.Base

/-- Greatest `Duration`. -/
def DURATION_MAX : Nat := u64Max * 1000000000 + 999999999

/-- Greatest `Instant` of a Unix target, whose seconds are an `i64`. -/
def INSTANT_MAX : Nat := (2 ^ 63 - 1) * 1000000000 + 999999999

/-- `Instant::checked_add`. -/
def instantAdd (instant duration : Nat) : Option Nat :=
  if instant + duration ≤ INSTANT_MAX then some (instant + duration) else none

/-- `Duration::checked_sub`. -/
def durationSub (a b : Nat) : Option Nat := if b ≤ a then some (a - b) else none

/-- Limits of the admission; `admission.rs:14`. -/
structure AdmissionLimits where
  globalInFlight : Nat
  perPrincipalInFlight : Nat
  globalWaiters : Nat
  waitTimeout : Nat
  maxInFlightTokens : UInt64
  maxInFlightBytes : UInt64
  deriving DecidableEq

/-- Limits that an admission can be built from; `admission.rs:26`. -/
def AdmissionLimits.validate (limits : AdmissionLimits) : Except String AdmissionLimits :=
  if limits.globalInFlight = 0 then .error "global inference limit must be greater than zero"
  else if limits.perPrincipalInFlight = 0 then
    .error "per-principal inference limit must be greater than zero"
  else if limits.perPrincipalInFlight > limits.globalInFlight then
    .error "per-principal inference limit cannot exceed the global limit"
  else if limits.globalWaiters = 0 then
    .error "inference waiter limit must be greater than zero"
  else if limits.waitTimeout = 0 then .error "inference wait timeout must be greater than zero"
  else if limits.maxInFlightTokens = 0 ∨ limits.maxInFlightBytes = 0 then
    .error "inference token and byte budgets must be greater than zero"
  else .ok limits

/-- Latency classes; `admission.rs:50`. -/
inductive LatencyClass where
  | urgentLive
  | live
  | offline
  deriving DecidableEq

/-- Rank of a class, most urgent first; `admission.rs:57`. -/
def LatencyClass.rank : LatencyClass → Nat
  | .urgentLive => 0
  | .live => 1
  | .offline => 2

/-- One request; `admission.rs:67`. -/
structure AdmissionRequest where
  principal : String
  stream : String
  latencyClass : LatencyClass
  deadline : Nat
  estimatedService : Nat
  tokens : UInt64
  bytes : UInt64
  deriving DecidableEq

/-- The limit a call waited for; `admission.rs:80`. -/
inductive LimitClass where
  | global
  | principal
  deriving DecidableEq

/-- Rejections; `admission.rs:86`. -/
inductive AdmissionError where
  | waiterLimit
  | timeout (blockedBy : LimitClass)
  | deadlineMissed
  | requestBudget
  deriving DecidableEq

/-- Text of a rejection; `admission.rs:94`. -/
def AdmissionError.display : AdmissionError → String
  | .waiterLimit => "inference admission waiter limit reached"
  | .timeout .global => "timed out waiting for global inference capacity"
  | .timeout .principal => "timed out waiting for principal inference capacity"
  | .deadlineMissed => "inference deadline cannot be met before provider dispatch"
  | .requestBudget => "inference request exceeds the process token or byte budget"

/-- Calls of one principal; `admission.rs:136`. -/
structure PrincipalCounts where
  active : Nat
  waiting : Nat
  deriving DecidableEq

/-- A queued call. `wake` identifies its condition variable; `admission.rs:142`. -/
structure Waiter where
  ticket : UInt64
  principal : String
  stream : String
  latencyClass : LatencyClass
  queuedAt : Nat
  latestStart : Nat
  tokens : UInt64
  bytes : UInt64
  wake : Nat
  deriving DecidableEq

/-- The state behind the mutex; `admission.rs:155`. -/
structure AdmissionState where
  active : Nat
  activeTokens : UInt64
  activeBytes : UInt64
  principals : AList fun _ : String ↦ PrincipalCounts
  waiters : List Waiter
  nextTicket : UInt64
  lastGrantedPrincipal : Option String
  lastGrantedStream : Option String

namespace AdmissionState

/-- The state of a new admission. -/
def initial : AdmissionState := ⟨0, 0, 0, ∅, [], 0, none, none⟩

/-- Calls of a principal in flight, zero without a map entry. -/
def activeOf (state : AdmissionState) (principal : String) : Nat :=
  (state.principals.lookup principal).elim 0 PrincipalCounts.active

/-- Capacity is free for a request of this size; `admission.rs:432`. -/
def hasCapacity (limits : AdmissionLimits) (state : AdmissionState) (principal : String)
    (tokens bytes : UInt64) : Bool :=
  state.active < limits.globalInFlight ∧
    satAdd state.activeTokens tokens ≤ limits.maxInFlightTokens ∧
    satAdd state.activeBytes bytes ≤ limits.maxInFlightBytes ∧
    state.activeOf principal < limits.perPrincipalInFlight

/-- Time after which a waiting call is promoted by one class; `admission.rs:450`. -/
def AGING_MILLIS : Nat := 250

/-- Rank of a waiter after its promotions. -/
def effectiveClass (w : Waiter) (now : Nat) : Nat :=
  w.latencyClass.rank - min ((now - w.queuedAt) / 1000000 / AGING_MILLIS) 255

/-- Order of the waiters: class, fairness to principals and streams, urgency, arrival. -/
def selectionKey (state : AdmissionState) (now : Nat) (w : Waiter) :
    Nat ×ₗ Bool ×ₗ Bool ×ₗ Nat ×ₗ Nat :=
  toLex (effectiveClass w now, toLex (decide (state.lastGrantedPrincipal = some w.principal),
    toLex (decide (state.lastGrantedStream = some w.stream),
      toLex (w.latestStart, w.ticket.toNat))))

/-- A waiter that could start now. -/
def eligible (limits : AdmissionLimits) (state : AdmissionState) (now : Nat) (w : Waiter) : Bool :=
  now < w.latestStart ∧ state.hasCapacity limits w.principal w.tokens w.bytes

/-- Ticket of the waiter to start next; `admission.rs:449`. -/
def selectWaiter (limits : AdmissionLimits) (state : AdmissionState) (now : Nat) : Option UInt64 :=
  ((state.waiters.filter (state.eligible limits now)).minOn? (state.selectionKey now)).map
    Waiter.ticket

/-- A call may start: a newcomer when no waiter could, a waiter when it is selected;
`admission.rs:413`. -/
def canAcquire (limits : AdmissionLimits) (state : AdmissionState) (principal : String)
    (tokens bytes : UInt64) (ownTicket : Option UInt64) (now : Nat) : Bool :=
  if ¬ state.hasCapacity limits principal tokens bytes then false
  else if state.waiters = [] then ownTicket.isNone
  else state.selectWaiter limits now = ownTicket

/-- The condition variable that `notify_selected` signals; `admission.rs:484`. -/
def notifySelected (limits : AdmissionLimits) (state : AdmissionState) (now : Nat) : Option Nat :=
  match state.selectWaiter limits now with
  | none => none
  | some ticket => (state.waiters.find? (·.ticket = ticket)).map Waiter.wake

/-- The limit that keeps a principal waiting; `admission.rs:493`. -/
def blockedBy (limits : AdmissionLimits) (state : AdmissionState) (principal : String) :
    LimitClass :=
  if state.activeOf principal ≥ limits.perPrincipalInFlight then .principal else .global

/-- The entry of a principal, created if missing. -/
def entry (state : AdmissionState) (principal : String) : PrincipalCounts :=
  (state.principals.lookup principal).getD ⟨0, 0⟩

/-- Count a granted call; `admission.rs:506`. -/
def markAcquired (state : AdmissionState) (principal stream : String) (tokens bytes : UInt64) :
    AdmissionState :=
  let counts := state.entry principal
  { state with
    active := state.active + 1
    activeTokens := satAdd state.activeTokens tokens
    activeBytes := satAdd state.activeBytes bytes
    lastGrantedPrincipal := some principal
    lastGrantedStream := some stream
    principals := state.principals.insert principal { counts with active := counts.active + 1 } }

/-- Append a waiter under the next ticket and count it; `admission.rs:311`. -/
def enqueue (state : AdmissionState) (w : Waiter) : AdmissionState :=
  let counts := state.entry w.principal
  { state with
    nextTicket := state.nextTicket + 1
    waiters := state.waiters ++ [w]
    principals := state.principals.insert w.principal
      { counts with waiting := counts.waiting + 1 } }

/-- Replace the counts of a principal, dropping an entry without calls. -/
def setCounts (state : AdmissionState) (principal : String) (counts : PrincipalCounts) :
    AdmissionState :=
  { state with
    principals :=
      if counts.waiting = 0 ∧ counts.active = 0 then state.principals.erase principal
      else state.principals.insert principal counts }

/-- Remove the first waiter with a ticket and discount one of the principal;
`admission.rs:532`. -/
def removeWaiter (state : AdmissionState) (ticket : UInt64) (principal : String) :
    AdmissionState :=
  let state := { state with waiters := state.waiters.eraseP (·.ticket = ticket) }
  match state.principals.lookup principal with
  | none => state
  | some counts => state.setCounts principal { counts with waiting := counts.waiting - 1 }

/-- Take a finished call out of the counters; `admission.rs:567`. -/
def release (state : AdmissionState) (principal : String) (tokens bytes : UInt64) :
    AdmissionState :=
  let state := { state with
    active := state.active - 1
    activeTokens := satSub state.activeTokens tokens
    activeBytes := satSub state.activeBytes bytes }
  match state.principals.lookup principal with
  | none => state
  | some counts => state.setCounts principal { counts with active := counts.active - 1 }

/-! ### What the operations leave alone -/

section Fields

variable (state : AdmissionState) (principal : String) (ticket : UInt64) (tokens bytes : UInt64)

@[simp] theorem removeWaiter_active :
    (state.removeWaiter ticket principal).active = state.active := by
  simp only [removeWaiter]
  split <;> rfl

@[simp] theorem removeWaiter_activeTokens :
    (state.removeWaiter ticket principal).activeTokens = state.activeTokens := by
  simp only [removeWaiter]
  split <;> rfl

@[simp] theorem removeWaiter_activeBytes :
    (state.removeWaiter ticket principal).activeBytes = state.activeBytes := by
  simp only [removeWaiter]
  split <;> rfl

@[simp] theorem removeWaiter_waiters :
    (state.removeWaiter ticket principal).waiters =
      state.waiters.eraseP (·.ticket = ticket) := by
  simp only [removeWaiter]
  split <;> rfl

@[simp] theorem release_active :
    (state.release principal tokens bytes).active = state.active - 1 := by
  simp only [release]
  split <;> rfl

@[simp] theorem release_activeTokens :
    (state.release principal tokens bytes).activeTokens = satSub state.activeTokens tokens := by
  simp only [release]
  split <;> rfl

@[simp] theorem release_activeBytes :
    (state.release principal tokens bytes).activeBytes = satSub state.activeBytes bytes := by
  simp only [release]
  split <;> rfl

@[simp] theorem release_waiters :
    (state.release principal tokens bytes).waiters = state.waiters := by
  simp only [release]
  split <;> rfl

/-- Joining the queue is no activity. -/
@[simp] theorem activeOf_enqueue (w : Waiter) :
    (state.enqueue w).activeOf principal = state.activeOf principal := by
  by_cases hq : principal = w.principal
  · subst hq
    simp only [activeOf, enqueue, AList.lookup_insert, entry]
    cases state.principals.lookup w.principal <;> rfl
  · simp only [activeOf, enqueue, AList.lookup_insert_ne hq]

/-- Replaced counts with the same active calls. -/
theorem activeOf_setCounts {counts : PrincipalCounts} (q : String)
    (h : counts.active = state.activeOf principal) :
    (state.setCounts principal counts).activeOf q = state.activeOf q := by
  unfold setCounts
  by_cases hq : q = principal
  · subst hq
    split
    · next hz =>
      rw [← h, hz.2]
      simp only [activeOf, AList.lookup_erase, Option.elim_none]
    · simp only [activeOf, AList.lookup_insert, Option.elim_some]
      exact h
  · split
    · simp only [activeOf, AList.lookup_erase_ne hq]
    · simp only [activeOf, AList.lookup_insert_ne hq]

/-- Leaving the queue is no activity. -/
@[simp] theorem activeOf_removeWaiter (q : String) :
    (state.removeWaiter ticket principal).activeOf q = state.activeOf q := by
  simp only [removeWaiter]
  split
  · rfl
  · next counts hcounts =>
    refine (activeOf_setCounts _ _ q ?_).trans rfl
    simp only [activeOf] at hcounts ⊢
    rw [hcounts, Option.elim_some]

/-- Joining the queue frees no capacity. -/
theorem hasCapacity_enqueue (limits : AdmissionLimits) (w : Waiter) :
    (state.enqueue w).hasCapacity limits principal tokens bytes =
      state.hasCapacity limits principal tokens bytes := by
  rw [hasCapacity, activeOf_enqueue]
  rfl

/-- Leaving the queue frees no capacity. -/
theorem hasCapacity_removeWaiter (limits : AdmissionLimits) (q : String) :
    (state.removeWaiter ticket principal).hasCapacity limits q tokens bytes =
      state.hasCapacity limits q tokens bytes := by
  simp only [hasCapacity, activeOf_removeWaiter, removeWaiter_active, removeWaiter_activeTokens,
    removeWaiter_activeBytes]

end Fields

/-- A call that may start has capacity. -/
theorem hasCapacity_of_canAcquire {limits : AdmissionLimits} {state : AdmissionState}
    {principal : String} {tokens bytes : UInt64} {ownTicket : Option UInt64} {now : Nat}
    (h : state.canAcquire limits principal tokens bytes ownTicket now) :
    state.hasCapacity limits principal tokens bytes := by
  unfold canAcquire at h
  split at h
  · cases h
  · next hc => simpa using hc

/-- Capacity, read as the four limits. -/
theorem hasCapacity_iff {limits : AdmissionLimits} {state : AdmissionState} {principal : String}
    {tokens bytes : UInt64} :
    state.hasCapacity limits principal tokens bytes ↔
      state.active < limits.globalInFlight ∧
        satAdd state.activeTokens tokens ≤ limits.maxInFlightTokens ∧
        satAdd state.activeBytes bytes ≤ limits.maxInFlightBytes ∧
        state.activeOf principal < limits.perPrincipalInFlight := by
  simp [hasCapacity]

end AdmissionState

/-! ### Metrics -/

/-- Counters that only grow, modulo their width; `admission.rs:167`. -/
structure AdmissionMetrics where
  acquiredTotal : UInt64
  timeoutGlobalTotal : UInt64
  timeoutPrincipalTotal : UInt64
  waiterRejectedTotal : UInt64
  waitDurationUs : UInt64
  waitDurationCount : UInt64
  deadlineMissedTotal : UInt64
  budgetRejectedTotal : UInt64
  urgentAcquiredTotal : UInt64
  liveAcquiredTotal : UInt64
  offlineAcquiredTotal : UInt64
  deriving DecidableEq

namespace AdmissionMetrics

/-- All counters at zero. -/
def initial : AdmissionMetrics := ⟨0, 0, 0, 0, 0, 0, 0, 0, 0, 0, 0⟩

/-- Count one wait; `admission.rs:557`. -/
def recordWait (m : AdmissionMetrics) (waited : Nat) : AdmissionMetrics :=
  { m with
    waitDurationUs := m.waitDurationUs + UInt64.ofNat (min (waited / 1000) u64Max)
    waitDurationCount := m.waitDurationCount + 1 }

/-- Count a granted call; `admission.rs:522`. -/
def recordAcquired (m : AdmissionMetrics) (latencyClass : LatencyClass) (waited : Nat) :
    AdmissionMetrics :=
  let m := { m with acquiredTotal := m.acquiredTotal + 1 }
  let m := match latencyClass with
    | .urgentLive => { m with urgentAcquiredTotal := m.urgentAcquiredTotal + 1 }
    | .live => { m with liveAcquiredTotal := m.liveAcquiredTotal + 1 }
    | .offline => { m with offlineAcquiredTotal := m.offlineAcquiredTotal + 1 }
  m.recordWait waited

/-- Count a call that timed out; `admission.rs:548`. -/
def recordTimeout (m : AdmissionMetrics) (blockedBy : LimitClass) (waited : Nat) :
    AdmissionMetrics :=
  let m := match blockedBy with
    | .global => { m with timeoutGlobalTotal := m.timeoutGlobalTotal + 1 }
    | .principal => { m with timeoutPrincipalTotal := m.timeoutPrincipalTotal + 1 }
  m.recordWait waited

/-- Count a call that missed its deadline. -/
def recordDeadlineMissed (m : AdmissionMetrics) : AdmissionMetrics :=
  { m with deadlineMissedTotal := m.deadlineMissedTotal + 1 }

/-- Count a call above the budgets. -/
def recordBudgetRejected (m : AdmissionMetrics) : AdmissionMetrics :=
  { m with budgetRejectedTotal := m.budgetRejectedTotal + 1 }

/-- Count a call that found the queue full. -/
def recordWaiterRejected (m : AdmissionMetrics) : AdmissionMetrics :=
  { m with waiterRejectedTotal := m.waiterRejectedTotal + 1 }

end AdmissionMetrics

end Vidarax.Admission
