import Vidarax.Admission.System
import Vidarax.Base.Run

/-!
# Exact accounting of admission

Package `vidarax-core`, `crates/vidarax-core/src/admission.rs:242–383,413–447,505–581`.
The counters of the state are the exact sizes and sums of the live permits and the queued
waiters, and they stay within the limits, in every state a run can reach.
-/

namespace Vidarax.Admission

open Vidarax.Base

/-! ### Principal counts -/

/-- The map entry of a principal with these numbers of calls. -/
def tally (active waiting : Nat) : Option PrincipalCounts :=
  if active = 0 ∧ waiting = 0 then none else some ⟨active, waiting⟩

/-- The map holds exactly the given numbers of active and waiting calls. -/
def AdmissionState.Counted (state : AdmissionState) (a w : String → Nat) : Prop :=
  ∀ principal, state.principals.lookup principal = tally (a principal) (w principal)

namespace AdmissionState

variable {state : AdmissionState} {a w : String → Nat}

/-- The active calls of a principal are read off the map. -/
theorem Counted.activeOf (h : state.Counted a w) (principal : String) :
    state.activeOf principal = a principal := by
  rw [AdmissionState.activeOf, h principal, tally]
  split
  · next h0 => exact h0.1.symm
  · rfl

/-- The entry of a principal has both numbers. -/
theorem Counted.entry (h : state.Counted a w) (principal : String) :
    state.entry principal = ⟨a principal, w principal⟩ := by
  rw [AdmissionState.entry, h principal, tally]
  split
  · next h0 => rw [h0.1, h0.2]; rfl
  · rfl

/-- A map with one entry inserted. -/
theorem counted_insert (h : state.Counted a w) (a' w' : String → Nat) (principal : String)
    (hp : ¬ (a' principal = 0 ∧ w' principal = 0))
    (ha : ∀ q, q ≠ principal → a' q = a q) (hw : ∀ q, q ≠ principal → w' q = w q) (q : String) :
    (state.principals.insert principal ⟨a' principal, w' principal⟩).lookup q =
      tally (a' q) (w' q) := by
  by_cases hq : q = principal
  · rw [hq, AList.lookup_insert, tally, if_neg hp]
  · rw [AList.lookup_insert_ne hq, h q, ha q hq, hw q hq]

/-- A map with one entry replaced, or dropped when its numbers are zero. -/
theorem Counted.setCounts (h : state.Counted a w) (a' w' : String → Nat) (principal : String)
    (ha : ∀ q, q ≠ principal → a' q = a q) (hw : ∀ q, q ≠ principal → w' q = w q) :
    (state.setCounts principal ⟨a' principal, w' principal⟩).Counted a' w' := by
  intro q
  unfold AdmissionState.setCounts
  by_cases hz : w' principal = 0 ∧ a' principal = 0
  · rw [if_pos hz]
    by_cases hq : q = principal
    · rw [hq, AList.lookup_erase, tally, if_pos hz.symm]
    · rw [AList.lookup_erase_ne hq, h q, ha q hq, hw q hq]
  · rw [if_neg hz]
    exact counted_insert h a' w' principal (fun hn ↦ hz hn.symm) ha hw q

/-- A granted call adds one to the active calls of its principal. -/
theorem Counted.markAcquired {a' : String → Nat} (h : state.Counted a w) (principal : String)
    (ha : ∀ q, a' q = a q + if q = principal then 1 else 0) (stream : String)
    (tokens bytes : UInt64) :
    (state.markAcquired principal stream tokens bytes).Counted a' w := by
  intro q
  have hp : a' principal = a principal + 1 := by rw [ha, if_pos rfl]
  have hinsert := counted_insert h a' w principal (by omega)
    (fun q hq ↦ by rw [ha, if_neg hq, Nat.add_zero]) (fun _ _ ↦ rfl) q
  rw [hp] at hinsert
  simpa only [AdmissionState.markAcquired, h.entry principal] using hinsert

/-- A queued call adds one to the waiting calls of its principal. -/
theorem Counted.enqueue {w' : String → Nat} (h : state.Counted a w) (waiter : Waiter)
    (hw : ∀ q, w' q = w q + if q = waiter.principal then 1 else 0) :
    (state.enqueue waiter).Counted a w' := by
  intro q
  have hp : w' waiter.principal = w waiter.principal + 1 := by rw [hw, if_pos rfl]
  have hinsert := counted_insert h a w' waiter.principal (by omega)
    (fun _ _ ↦ rfl) (fun q hq ↦ by rw [hw, if_neg hq, Nat.add_zero]) q
  rw [hp] at hinsert
  simpa only [AdmissionState.enqueue, h.entry waiter.principal] using hinsert

/-- A dequeued call takes one from the waiting calls of its principal. -/
theorem Counted.removeWaiter {w' : String → Nat} (h : state.Counted a w) (principal : String)
    (hw : ∀ q, w q = w' q + if q = principal then 1 else 0) (ticket : UInt64) :
    (state.removeWaiter ticket principal).Counted a w' := by
  have hp : w principal = w' principal + 1 := by rw [hw, if_pos rfl]
  have hentry : state.principals.lookup principal = some ⟨a principal, w principal⟩ := by
    rw [h principal, tally, if_neg (by omega)]
  have hset := h.setCounts a w' principal (fun _ _ ↦ rfl)
    (fun q hq ↦ by rw [hw q, if_neg hq, Nat.add_zero])
  intro q
  simp only [AdmissionState.removeWaiter, hentry, hp, Nat.add_sub_cancel]
  exact hset q

/-- A released call takes one from the active calls of its principal. -/
theorem Counted.release {a' : String → Nat} (h : state.Counted a w) (principal : String)
    (ha : ∀ q, a q = a' q + if q = principal then 1 else 0) (tokens bytes : UInt64) :
    (state.release principal tokens bytes).Counted a' w := by
  have hp : a principal = a' principal + 1 := by rw [ha, if_pos rfl]
  have hentry : state.principals.lookup principal = some ⟨a principal, w principal⟩ := by
    rw [h principal, tally, if_neg (by omega)]
  have hset := h.setCounts a' w principal
    (fun q hq ↦ by rw [ha q, if_neg hq, Nat.add_zero]) (fun _ _ ↦ rfl)
  intro q
  simp only [AdmissionState.release, hentry, hp, Nat.add_sub_cancel]
  exact hset q

end AdmissionState

/-! ### The books of the state -/

/-- Sum of one amount over the permits. -/
def total (amount : AdmissionPermit → UInt64) (permits : List AdmissionPermit) : Nat :=
  (permits.map fun p ↦ (amount p).toNat).sum

/-- Permits of one principal. -/
def permitsOf (permits : List AdmissionPermit) (principal : String) : Nat :=
  permits.countP (·.principal = principal)

/-- Waiters of one principal. -/
def waitersOf (waiters : List Waiter) (principal : String) : Nat :=
  waiters.countP (·.principal = principal)

/-- The counters agree with the permits and the queue, and keep the limits. -/
structure Books (limits : AdmissionLimits) (state : AdmissionState)
    (permits : List AdmissionPermit) : Prop where
  active_eq : state.active = permits.length
  tokens_eq : state.activeTokens.toNat = total AdmissionPermit.tokens permits
  bytes_eq : state.activeBytes.toNat = total AdmissionPermit.bytes permits
  counted : state.Counted (permitsOf permits) (waitersOf state.waiters)
  global_le : state.active ≤ limits.globalInFlight
  principal_le : ∀ principal, state.activeOf principal ≤ limits.perPrincipalInFlight
  tokens_le : state.activeTokens ≤ limits.maxInFlightTokens
  bytes_le : state.activeBytes ≤ limits.maxInFlightBytes
  waiters_le : state.waiters.length ≤ limits.globalWaiters

/-- The exact sums with one more request fit their counters. Below the greatest limit the
capacity check sees to that. -/
structure Fits (limits : AdmissionLimits) (state : AdmissionState) (tokens bytes : UInt64) :
    Prop where
  tokens : limits.maxInFlightTokens.toNat = u64Max →
    state.activeTokens.toNat + tokens.toNat ≤ u64Max
  bytes : limits.maxInFlightBytes.toNat = u64Max →
    state.activeBytes.toNat + bytes.toNat ≤ u64Max

/-- A sum that is within a limit is exact, unless the limit is the greatest one. -/
theorem satAdd_exact {x y limit : UInt64} (h : satAdd x y ≤ limit)
    (hfit : limit.toNat = u64Max → x.toNat + y.toNat ≤ u64Max) :
    (satAdd x y).toNat = x.toNat + y.toNat := by
  rw [UInt64.le_iff_toNat_le, toNat_satAdd] at h
  rw [toNat_satAdd]
  have := toNat_le_u64Max limit
  by_cases hl : limit.toNat = u64Max
  · exact min_eq_left (hfit hl)
  · omega

theorem books_initial (limits : AdmissionLimits) : Books limits .initial [] where
  active_eq := rfl
  tokens_eq := rfl
  bytes_eq := rfl
  counted _ := rfl
  global_le := Nat.zero_le _
  principal_le _ := Nat.zero_le _
  tokens_le := UInt64.zero_le
  bytes_le := UInt64.zero_le
  waiters_le := Nat.zero_le _

section Steps

variable {limits : AdmissionLimits} {state : AdmissionState} {permits : List AdmissionPermit}

theorem total_append (amount : AdmissionPermit → UInt64) (permits : List AdmissionPermit)
    (p : AdmissionPermit) :
    total amount (permits ++ [p]) = total amount permits + (amount p).toNat := by
  simp [total]

theorem permitsOf_append (permits : List AdmissionPermit) (p : AdmissionPermit)
    (principal : String) :
    permitsOf (permits ++ [p]) principal =
      permitsOf permits principal + if principal = p.principal then 1 else 0 := by
  simp [permitsOf, List.countP_append, List.countP_singleton, eq_comm]

/-- Permits without the one at a position. -/
theorem perm_eraseIdx {i : Nat} {p : AdmissionPermit} (hp : permits[i]? = some p) :
    permits.Perm (p :: permits.eraseIdx i) := by
  obtain ⟨hi, rfl⟩ := List.getElem?_eq_some_iff.mp hp
  exact (List.getElem_cons_eraseIdx_perm hi).symm

theorem total_eraseIdx (amount : AdmissionPermit → UInt64) {i : Nat} {p : AdmissionPermit}
    (hp : permits[i]? = some p) :
    total amount permits = total amount (permits.eraseIdx i) + (amount p).toNat := by
  have hsum := ((perm_eraseIdx hp).map fun p ↦ (amount p).toNat).sum_nat
  rw [List.map_cons, List.sum_cons, Nat.add_comm] at hsum
  exact hsum

theorem permitsOf_eraseIdx {i : Nat} {p : AdmissionPermit} (hp : permits[i]? = some p)
    (principal : String) :
    permitsOf permits principal =
      permitsOf (permits.eraseIdx i) principal + if principal = p.principal then 1 else 0 := by
  rw [permitsOf, (perm_eraseIdx hp).countP_eq, List.countP_cons]
  simp [permitsOf, eq_comm]

/-- A grant keeps the books. -/
theorem Books.markAcquired (h : Books limits state permits) (r : AdmissionRequest)
    (hcap : state.hasCapacity limits r.principal r.tokens r.bytes)
    (hfit : Fits limits state r.tokens r.bytes) :
    Books limits (state.markAcquired r.principal r.stream r.tokens r.bytes)
      (permits ++ [r.permit]) := by
  obtain ⟨hglobal, htokens, hbytes, hprincipal⟩ := AdmissionState.hasCapacity_iff.mp hcap
  have hcounted := h.counted.markAcquired r.principal
    (fun q ↦ permitsOf_append permits r.permit q) r.stream r.tokens r.bytes
  refine ⟨?_, ?_, ?_, hcounted, hglobal, ?_, htokens, hbytes, h.waiters_le⟩
  · simp [AdmissionState.markAcquired, h.active_eq]
  · rw [total_append, ← h.tokens_eq]
    exact satAdd_exact htokens hfit.tokens
  · rw [total_append, ← h.bytes_eq]
    exact satAdd_exact hbytes hfit.bytes
  · intro q
    rw [hcounted.activeOf, permitsOf_append]
    have hq := h.principal_le q
    rw [h.counted.activeOf] at hq hprincipal
    split
    · next heq =>
      rw [heq]
      exact hprincipal
    · exact hq

/-- A queued arrival keeps the books. -/
theorem Books.enqueue (h : Books limits state permits) (w : Waiter)
    (hroom : state.waiters.length < limits.globalWaiters) :
    Books limits (state.enqueue w) permits := by
  have hcounted : (state.enqueue w).Counted (permitsOf permits)
      (waitersOf (state.waiters ++ [w])) := by
    apply h.counted.enqueue
    intro q
    simp [waitersOf, List.countP_append, List.countP_singleton, eq_comm]
  refine ⟨h.active_eq, h.tokens_eq, h.bytes_eq, hcounted, h.global_le, ?_, h.tokens_le,
    h.bytes_le, ?_⟩
  · intro q
    rw [hcounted.activeOf, ← h.counted.activeOf]
    exact h.principal_le q
  · simp only [AdmissionState.enqueue, List.length_append, List.length_singleton]
    exact hroom

/-- Removing the entry of a queued waiter keeps the books. -/
theorem Books.removeWaiter (h : Books limits state permits) {ticket : UInt64}
    {principal : String} {rest : List Waiter} {w : Waiter}
    (hrest : state.waiters.eraseP (·.ticket = ticket) = rest)
    (hperm : state.waiters.Perm (w :: rest)) (hw : w.principal = principal) :
    Books limits (state.removeWaiter ticket principal) permits := by
  have hcounted : (state.removeWaiter ticket principal).Counted (permitsOf permits)
      (waitersOf rest) := by
    apply h.counted.removeWaiter
    intro q
    rw [waitersOf, hperm.countP_eq, List.countP_cons]
    simp [waitersOf, hw, eq_comm]
  refine ⟨?_, ?_, ?_, ?_, ?_, ?_, ?_, ?_, ?_⟩
  · rw [AdmissionState.removeWaiter_active, h.active_eq]
  · rw [AdmissionState.removeWaiter_activeTokens, h.tokens_eq]
  · rw [AdmissionState.removeWaiter_activeBytes, h.bytes_eq]
  · rw [AdmissionState.removeWaiter_waiters, hrest]
    exact hcounted
  · rw [AdmissionState.removeWaiter_active]
    exact h.global_le
  · intro q
    rw [hcounted.activeOf, ← h.counted.activeOf]
    exact h.principal_le q
  · rw [AdmissionState.removeWaiter_activeTokens]
    exact h.tokens_le
  · rw [AdmissionState.removeWaiter_activeBytes]
    exact h.bytes_le
  · rw [AdmissionState.removeWaiter_waiters]
    exact List.length_eraseP_le.trans h.waiters_le

/-- The drop of a permit keeps the books. -/
theorem Books.release (h : Books limits state permits) {i : Nat} {p : AdmissionPermit}
    (hp : permits[i]? = some p) :
    Books limits (state.release p.principal p.tokens p.bytes) (permits.eraseIdx i) := by
  have hcounted := h.counted.release p.principal
    (fun q ↦ permitsOf_eraseIdx hp q) p.tokens p.bytes
  have htokens := total_eraseIdx AdmissionPermit.tokens hp
  have hbytes := total_eraseIdx AdmissionPermit.bytes hp
  have hlength : permits.length = (permits.eraseIdx i).length + 1 := (perm_eraseIdx hp).length_eq
  rw [← h.tokens_eq] at htokens
  rw [← h.bytes_eq] at hbytes
  refine ⟨?_, ?_, ?_, ?_, ?_, ?_, ?_, ?_, ?_⟩
  · rw [AdmissionState.release_active, h.active_eq]
    omega
  · rw [AdmissionState.release_activeTokens, toNat_satSub]
    omega
  · rw [AdmissionState.release_activeBytes, toNat_satSub]
    omega
  · rw [AdmissionState.release_waiters]
    exact hcounted
  · rw [AdmissionState.release_active]
    exact (Nat.sub_le _ _).trans h.global_le
  · intro q
    have hq := h.principal_le q
    rw [h.counted.activeOf, permitsOf_eraseIdx hp] at hq
    rw [hcounted.activeOf]
    omega
  · rw [AdmissionState.release_activeTokens, UInt64.le_iff_toNat_le, toNat_satSub]
    have := UInt64.le_iff_toNat_le.mp h.tokens_le
    omega
  · rw [AdmissionState.release_activeBytes, UInt64.le_iff_toNat_le, toNat_satSub]
    have := UInt64.le_iff_toNat_le.mp h.bytes_le
    omega
  · rw [AdmissionState.release_waiters]
    exact h.waiters_le

end Steps

/-! ### Turns and steps -/

namespace System

/-- Books of a state and its threads. -/
structure Accounted (limits : AdmissionLimits) (s : System) : Prop where
  books : Books limits s.state s.permits
  linked : Linked s

theorem accounted_initial (limits : AdmissionLimits) : Accounted limits initial :=
  ⟨books_initial limits, linked_initial⟩

variable {limits : AdmissionLimits} {s : System}

/-- The state without the entry of a thread keeps the books. -/
theorem Accounted.removeWaiter (h : Accounted limits s) {index : Nat} {c : Call}
    (hc : s.calls[index]? = some c) :
    Books limits (s.state.removeWaiter c.ticket c.request.principal) s.permits :=
  h.books.removeWaiter (h.linked.eraseP_ticket hc) (h.linked.perm hc) rfl

/-- A turn keeps the books. -/
theorem Accounted.turn (h : Accounted limits s) {index : Nat} (now spent : Nat)
    (hfit : ∀ c, s.calls[index]? = some c →
      s.state.hasCapacity limits c.request.principal c.request.tokens c.request.bytes →
        Fits limits s.state c.request.tokens c.request.bytes) :
    Accounted limits (s.turn limits index now spent) := by
  refine ⟨?_, h.linked.turn index now spent⟩
  cases hc : s.calls[index]? with
  | none =>
    rw [turn_none hc]
    exact h.books
  | some c =>
    cases ho : s.state.outcome limits c now with
    | granted =>
      rw [turn_granted hc ho]
      have hcap := AdmissionState.hasCapacity_of_canAcquire (canAcquire_of_granted ho)
      have hfit := hfit c hc hcap
      apply (h.removeWaiter hc).markAcquired c.request
      · rwa [AdmissionState.hasCapacity_removeWaiter]
      · constructor
        · rw [AdmissionState.removeWaiter_activeTokens]
          exact hfit.tokens
        · rw [AdmissionState.removeWaiter_activeBytes]
          exact hfit.bytes
    | failed error =>
      rw [turn_failed hc ho]
      exact h.removeWaiter hc
    | asleep =>
      rw [turn_asleep hc ho]
      exact h.books

/-- The request a step tries to start. -/
def request? (s : System) : Op → Option AdmissionRequest
  | .acquire request .. => some request
  | .wake index .. => s.calls[index]?.map Call.request
  | .drop .. => none

/-- The step issues no ticket still in use, and what it grants fits the counters. -/
structure Admissible (limits : AdmissionLimits) (s : System) (op : Op) : Prop where
  fresh : FreshTicket limits s op
  fits : ∀ r, s.request? op = some r →
    s.state.hasCapacity limits r.principal r.tokens r.bytes → Fits limits s.state r.tokens r.bytes

/-- Without the greatest budgets everything that is granted fits. -/
theorem fits_of_budgets (htokens : limits.maxInFlightTokens.toNat < u64Max)
    (hbytes : limits.maxInFlightBytes.toNat < u64Max) (state : AdmissionState)
    (tokens bytes : UInt64) : Fits limits state tokens bytes :=
  ⟨fun h ↦ by omega, fun h ↦ by omega⟩

/-- A queued arrival found room in the queue. -/
theorem length_lt_of_queued {state : AdmissionState} {request : AdmissionRequest}
    {waitTimeout started latestStart waitDeadline : Nat}
    (h : state.arrive limits request waitTimeout started = .queued latestStart waitDeadline) :
    state.waiters.length < limits.globalWaiters := by
  unfold AdmissionState.arrive at h
  split at h
  · cases h
  · split at h
    · cases h
    · split at h
      · cases h
      · simp only at h
        split at h
        · cases h
        · split at h
          · cases h
          · next hroom => exact Nat.lt_of_not_le hroom

section Join

variable {request : AdmissionRequest} {waitTimeout elapsed lag spent latestStart waitDeadline : Nat}

/-- An admissible arrival that is queued keeps the books. -/
theorem Accounted.join (h : Accounted limits s)
    (hop : Admissible limits s (.acquire request waitTimeout elapsed lag spent))
    (harrive : s.state.arrive limits request waitTimeout (s.clock + elapsed - lag) =
      .queued latestStart waitDeadline) :
    Accounted limits
      (s.join (s.newCall request (s.clock + elapsed - lag) latestStart waitDeadline)) :=
  ⟨h.books.enqueue _ (length_lt_of_queued harrive), h.linked.join (hop.fresh _ _ harrive)⟩

/-- What its first turn grants fits the counters. -/
theorem Admissible.fits_join
    (hop : Admissible limits s (.acquire request waitTimeout elapsed lag spent)) (c : Call)
    (hc : (s.join (s.newCall request (s.clock + elapsed - lag) latestStart
      waitDeadline)).calls[s.calls.length]? = some c)
    (hcap : (s.join (s.newCall request (s.clock + elapsed - lag) latestStart
      waitDeadline)).state.hasCapacity limits c.request.principal c.request.tokens
        c.request.bytes) :
    Fits limits (s.join (s.newCall request (s.clock + elapsed - lag) latestStart
      waitDeadline)).state c.request.tokens c.request.bytes := by
  rw [join_getElem?, Option.some_inj] at hc
  subst hc
  rw [System.join, AdmissionState.hasCapacity_enqueue] at hcap
  have hfits := hop.fits request rfl hcap
  exact ⟨hfits.tokens, hfits.bytes⟩

end Join

/-- What the turn of a woken thread grants fits the counters. -/
theorem Admissible.fits_wake {index elapsed spent : Nat}
    (hop : Admissible limits s (.wake index elapsed spent)) (c : Call)
    (hc : s.calls[index]? = some c)
    (hcap : s.state.hasCapacity limits c.request.principal c.request.tokens c.request.bytes) :
    Fits limits s.state c.request.tokens c.request.bytes := by
  apply hop.fits _ _ hcap
  rw [request?, hc, Option.map_some]

/-- An admissible step keeps the books. -/
theorem Accounted.step (h : Accounted limits s) (op : Op) (hop : Admissible limits s op) :
    Accounted limits (s.step limits op) := by
  refine ⟨?_, h.linked.step op hop.fresh⟩
  cases op with
  | acquire request waitTimeout elapsed lag spent =>
    simp only [System.step]
    split
    · exact h.books
    · next harrive =>
      have hcap := AdmissionState.hasCapacity_of_canAcquire (canAcquire_of_arrive harrive)
      exact h.books.markAcquired request hcap (hop.fits request rfl hcap)
    · next latestStart waitDeadline harrive =>
      exact ((h.join hop harrive).turn _ _ hop.fits_join).books
  | wake index elapsed spent => exact (h.turn _ _ hop.fits_wake).books
  | drop index elapsed =>
    simp only [System.step]
    split
    · exact h.books
    · next p hp => exact h.books.release hp

/-! ### No counter saturates -/

/-- A grant adds its amounts exactly. -/
structure GrantExact (state : AdmissionState) (r : AdmissionRequest) : Prop where
  tokens : (satAdd state.activeTokens r.tokens).toNat = state.activeTokens.toNat + r.tokens.toNat
  bytes : (satAdd state.activeBytes r.bytes).toNat = state.activeBytes.toNat + r.bytes.toNat

/-- A released permit is contained in all four counters. -/
structure ReleaseExact (state : AdmissionState) (p : AdmissionPermit) : Prop where
  active : 0 < state.active
  tokens : p.tokens ≤ state.activeTokens
  bytes : p.bytes ≤ state.activeBytes
  principal : 0 < (state.entry p.principal).active

/-- A turn that leaves the queue is counted in it, and a grant adds exactly. -/
def TurnExact (limits : AdmissionLimits) (s : System) (index now : Nat) : Prop :=
  ∀ c, s.calls[index]? = some c →
    (s.state.outcome limits c now ≠ .asleep → 0 < (s.state.entry c.request.principal).waiting) ∧
      (s.state.outcome limits c now = .granted →
        GrantExact (s.state.removeWaiter c.ticket c.request.principal) c.request)

/-- No saturating update of a counter by the step reaches its bound. -/
def StepExact (limits : AdmissionLimits) (s : System) : Op → Prop
  | .acquire request waitTimeout elapsed lag _ =>
    let started := s.clock + elapsed - lag
    match s.state.arrive limits request waitTimeout started with
    | .rejected _ => True
    | .granted => GrantExact s.state request
    | .queued latestStart waitDeadline =>
      TurnExact limits (s.join (s.newCall request started latestStart waitDeadline))
        s.calls.length (s.clock + elapsed)
  | .wake index elapsed _ => TurnExact limits s index (s.clock + elapsed)
  | .drop index _ => ∀ p, s.permits[index]? = some p → ReleaseExact s.state p

/-- What fits and has capacity is added exactly. -/
theorem grantExact_of_fits {state : AdmissionState} {r : AdmissionRequest}
    (hcap : state.hasCapacity limits r.principal r.tokens r.bytes)
    (hfit : Fits limits state r.tokens r.bytes) : GrantExact state r := by
  obtain ⟨-, htokens, hbytes, -⟩ := AdmissionState.hasCapacity_iff.mp hcap
  exact ⟨satAdd_exact htokens hfit.tokens, satAdd_exact hbytes hfit.bytes⟩

/-- A waiting thread is counted for its principal. -/
theorem Accounted.waiting_pos (h : Accounted limits s) {index : Nat} {c : Call}
    (hc : s.calls[index]? = some c) : 0 < (s.state.entry c.request.principal).waiting := by
  rw [h.books.counted.entry]
  apply List.countP_pos_iff.mpr
  refine ⟨c.waiter, ?_, by simp [Call.waiter]⟩
  rw [h.linked.waiters_eq]
  exact List.mem_map_of_mem (List.mem_of_getElem? hc)

/-- Turns with books update the counters exactly. -/
theorem Accounted.turnExact (h : Accounted limits s) {index : Nat} (now : Nat)
    (hfit : ∀ c, s.calls[index]? = some c →
      s.state.hasCapacity limits c.request.principal c.request.tokens c.request.bytes →
        Fits limits s.state c.request.tokens c.request.bytes) :
    TurnExact limits s index now := by
  intro c hc
  refine ⟨fun _ ↦ h.waiting_pos hc, fun ho ↦ ?_⟩
  have hcap := AdmissionState.hasCapacity_of_canAcquire (canAcquire_of_granted ho)
  have hexact := grantExact_of_fits hcap (hfit c hc hcap)
  constructor
  · rw [AdmissionState.removeWaiter_activeTokens]
    exact hexact.tokens
  · rw [AdmissionState.removeWaiter_activeBytes]
    exact hexact.bytes

/-- A live permit is contained in the counters. -/
theorem Accounted.releaseExact (h : Accounted limits s) {index : Nat} {p : AdmissionPermit}
    (hp : s.permits[index]? = some p) : ReleaseExact s.state p where
  active := by
    rw [h.books.active_eq]
    exact List.length_pos_of_mem (List.mem_of_getElem? hp)
  tokens := by
    rw [UInt64.le_iff_toNat_le, h.books.tokens_eq, total_eraseIdx AdmissionPermit.tokens hp]
    exact Nat.le_add_left _ _
  bytes := by
    rw [UInt64.le_iff_toNat_le, h.books.bytes_eq, total_eraseIdx AdmissionPermit.bytes hp]
    exact Nat.le_add_left _ _
  principal := by
    rw [h.books.counted.entry]
    exact List.countP_pos_iff.mpr ⟨p, List.mem_of_getElem? hp, by simp⟩

/-- An admissible step saturates no counter. -/
theorem Accounted.stepExact (h : Accounted limits s) (op : Op) (hop : Admissible limits s op) :
    StepExact limits s op := by
  cases op with
  | acquire request waitTimeout elapsed lag spent =>
    simp only [StepExact]
    split
    · trivial
    · next harrive =>
      have hcap := AdmissionState.hasCapacity_of_canAcquire (canAcquire_of_arrive harrive)
      exact grantExact_of_fits hcap (hop.fits request rfl hcap)
    · next latestStart waitDeadline harrive =>
      exact (h.join hop harrive).turnExact _ hop.fits_join
  | wake index elapsed spent => exact h.turnExact _ hop.fits_wake
  | drop index elapsed => exact fun p hp ↦ h.releaseExact hp

/-- Exact accounting: in every state a run of admissible steps reaches, the counters are the
sizes and sums over the live permits and the queued waiters, the limits hold, and no
admissible next step saturates a counter. -/
theorem accounting_exact (limits : AdmissionLimits) (ops : List Op)
    (h : Meets (step limits) (Admissible limits) initial ops) :
    Accounted limits (run limits initial ops) ∧
      ∀ op, Admissible limits (run limits initial ops) op →
        StepExact limits (run limits initial ops) op := by
  have hrun : Accounted limits (run limits initial ops) :=
    h.foldl _ (accounted_initial limits) fun s op hs hop ↦ hs.step op hop
  exact ⟨hrun, fun op hop ↦ hrun.stepExact op hop⟩

/-! ### Where the books go wrong -/

/-- A call that joins the queue and leaves it again uses up a ticket. -/
theorem removeWaiter_enqueue {state : AdmissionState} {w : Waiter}
    (hticket : ∀ v ∈ state.waiters, v.ticket ≠ w.ticket)
    (hprincipal : state.principals.lookup w.principal = none) :
    (state.enqueue w).removeWaiter w.ticket w.principal =
      { state with nextTicket := state.nextTicket + 1 } := by
  have hentry : state.entry w.principal = ⟨0, 0⟩ := by
    rw [AdmissionState.entry, hprincipal, Option.getD_none]
  have hwaiters : (state.waiters ++ [w]).eraseP (·.ticket = w.ticket) = state.waiters := by
    rw [List.eraseP_append_right [w] (by simpa using hticket), List.eraseP_cons_of_pos (by simp),
      List.append_nil]
  have herase (counts : PrincipalCounts) :
      (state.principals.insert w.principal counts).erase w.principal = state.principals := by
    apply AList.ext
    rw [AList.insert_of_notMem (AList.lookup_eq_none.mp hprincipal)]
    exact List.kerase_cons_eq rfl
  simp only [AdmissionState.removeWaiter, AdmissionState.enqueue, hentry, AList.lookup_insert,
    AdmissionState.setCounts, hwaiters, Nat.zero_add, Nat.sub_self, and_self, if_true, herase]

/-- One call at a time, two in the queue. -/
def wrapLimits : AdmissionLimits := ⟨1, 1, 2, 1, 1, 1⟩

/-- Principal `p` holds the only permit and `a` waits under ticket zero. -/
def wrapStart : List Op :=
  [.acquire (directRequest "p" 0) 0 0 0 0, .acquire (directRequest "a" 1) 1 0 0 0]

/-- Principal `b` arrives and gives up at once. -/
def timedOut : Op := .acquire (directRequest "b" 0) 0 0 0 0

private def heldQueue (ticket : UInt64) (metrics : AdmissionMetrics) (nextWake : Nat) : System :=
  let s := run wrapLimits initial wrapStart
  { s with
    state := { s.state with nextTicket := ticket }
    metrics := metrics
    nextWake := nextWake }

private def timedOutCall (ticket : UInt64) (nextWake : Nat) : Call :=
  ⟨directRequest "b" 0, ticket, nextWake, 0, 86400000000000, 0, false⟩

private theorem step_timedOut (ticket : UInt64) (metrics : AdmissionMetrics) (nextWake : Nat) :
    step wrapLimits (heldQueue ticket metrics nextWake) timedOut =
      ((heldQueue ticket metrics nextWake).join (timedOutCall ticket nextWake)).turn wrapLimits
        (heldQueue ticket metrics nextWake).calls.length 0 0 := by
  have harrive : (heldQueue ticket metrics nextWake).state.arrive wrapLimits
      (directRequest "b" 0) 0 0 = .queued 86400000000000 0 := rfl
  have hclock : (heldQueue ticket metrics nextWake).clock = 0 := rfl
  have hcall : (heldQueue ticket metrics nextWake).newCall (directRequest "b" 0) 0
      86400000000000 0 = timedOutCall ticket nextWake := rfl
  simp only [step, timedOut, hclock, Nat.zero_add, Nat.sub_zero, harrive, hcall]

private theorem outcome_timedOut (ticket : UInt64) (metrics : AdmissionMetrics) (nextWake : Nat) :
    ((heldQueue ticket metrics nextWake).join (timedOutCall ticket nextWake)).state.outcome
      wrapLimits (timedOutCall ticket nextWake) 0 = .failed (.timeout .global) := rfl

private theorem step_heldQueue {ticket : UInt64} (h : ticket ≠ 0) (metrics : AdmissionMetrics)
    (nextWake : Nat) : ∃ metrics',
      step wrapLimits (heldQueue ticket metrics nextWake) timedOut =
        heldQueue (ticket + 1) metrics' (nextWake + 1) := by
  have hwaiters : (heldQueue ticket metrics nextWake).state.waiters.map Waiter.ticket = [0] := rfl
  have hstate : ((heldQueue ticket metrics nextWake).state.enqueue
      (timedOutCall ticket nextWake).waiter).removeWaiter (timedOutCall ticket nextWake).ticket
        (timedOutCall ticket nextWake).request.principal =
        (heldQueue (ticket + 1) metrics nextWake).state := by
    apply removeWaiter_enqueue _ rfl
    intro v hv
    have hmem := List.mem_map_of_mem (f := Waiter.ticket) hv
    rw [hwaiters, List.mem_singleton] at hmem
    rw [hmem]
    exact h.symm
  rw [step_timedOut, turn_failed (join_getElem? _ _) (outcome_timedOut ..)]
  simp only [join, hstate]
  exact ⟨_, rfl⟩

private theorem foldl_timedOut (n : Nat) (hn : n < 2 ^ 64) (metrics : AdmissionMetrics) :
    ∃ metrics',
      (List.replicate n timedOut).foldl (step wrapLimits) (heldQueue 1 metrics 1) =
        heldQueue (UInt64.ofNat (n + 1)) metrics' (n + 1) := by
  induction n with
  | zero => exact ⟨_, rfl⟩
  | succ n ih =>
    obtain ⟨metrics', hrun⟩ := ih (by omega)
    have hticket : UInt64.ofNat (n + 1) ≠ 0 := by
      intro h
      have h := congrArg UInt64.toNat h
      rw [UInt64.toNat_ofNat_of_lt' hn] at h
      cases h
    obtain ⟨metrics'', hstep⟩ := step_heldQueue hticket metrics' (n + 1)
    rw [List.replicate_succ', List.foldl_append, hrun, List.foldl_cons, List.foldl_nil, hstep,
      UInt64.ofNat_add (n + 1) 1]
    exact ⟨_, rfl⟩

private theorem last_timedOut (metrics : AdmissionMetrics) :
    let s := step wrapLimits (heldQueue 0 metrics (2 ^ 64)) timedOut
    (s.state.entry "b").waiting = 0 ∧ waitersOf s.state.waiters "b" = 1 := by
  rw [step_timedOut, turn_failed (join_getElem? _ _) (outcome_timedOut ..)]
  change (((heldQueue 0 .initial 0).state.enqueue
      (timedOutCall 0 (2 ^ 64)).waiter).removeWaiter 0 "b" |>.entry "b").waiting = 0 ∧
    waitersOf (((heldQueue 0 .initial 0).state.enqueue
      (timedOutCall 0 (2 ^ 64)).waiter).removeWaiter 0 "b").waiters "b" = 1
  decide +kernel

/-- After `2 ^ 64` arrivals of `b` the queue holds a waiter of `b` that its count misses. -/
private theorem wrapped_miscount :
    let s := run wrapLimits initial (wrapStart ++ List.replicate (2 ^ 64) timedOut)
    (s.state.entry "b").waiting = 0 ∧ waitersOf s.state.waiters "b" = 1 := by
  have hstart : run wrapLimits initial wrapStart =
      heldQueue 1 (run wrapLimits initial wrapStart).metrics 1 := rfl
  obtain ⟨metrics, hrun⟩ := foldl_timedOut (2 ^ 64 - 1) (by omega)
    (run wrapLimits initial wrapStart).metrics
  have hsplit : List.replicate (2 ^ 64) timedOut =
      List.replicate (2 ^ 64 - 1) timedOut ++ [timedOut] :=
    List.replicate_succ' (n := 2 ^ 64 - 1)
  have hzero : UInt64.ofNat (2 ^ 64 - 1 + 1) = 0 := rfl
  have hlast : 2 ^ 64 - 1 + 1 = 2 ^ 64 := rfl
  rw [hzero, hlast, ← hstart] at hrun
  have hend : run wrapLimits initial (wrapStart ++ List.replicate (2 ^ 64) timedOut) =
      step wrapLimits (heldQueue 0 metrics (2 ^ 64)) timedOut := by
    unfold run at hrun ⊢
    rw [List.foldl_append, hsplit, List.foldl_append, hrun, List.foldl_cons, List.foldl_nil]
  rw [hend]
  exact last_timedOut metrics

/-- The greatest token budget lets the sum saturate, a check of capacity may saturate below it,
and after `2 ^ 64` arrivals a ticket names two waiters. -/
theorem accounting_inexact :
    (let limits : AdmissionLimits := ⟨2, 1, 1, 1, 2 ^ 64 - 1, 1⟩
      let s := run limits initial
        [.acquire ⟨"a", "s", .live, 1, 0, 2 ^ 64 - 2, 0⟩ 1 0 0 0,
          .acquire ⟨"b", "s", .live, 1, 0, 5, 0⟩ 1 0 0 0]
      limits.validate = .ok limits ∧
        s.state.activeTokens.toNat ≠ total AdmissionPermit.tokens s.permits) ∧
    (let limits : AdmissionLimits := ⟨2, 1, 1, 1, 2 ^ 64 - 2, 1⟩
      let s := run limits initial [.acquire ⟨"a", "s", .live, 1, 0, 2 ^ 64 - 2, 0⟩ 1 0 0 0]
      limits.validate = .ok limits ∧
        (satAdd s.state.activeTokens 5).toNat ≠ s.state.activeTokens.toNat + 5) ∧
    (wrapLimits.validate = .ok wrapLimits ∧
      let s := run wrapLimits initial (wrapStart ++ List.replicate (2 ^ 64) timedOut)
      (s.state.entry "b").waiting ≠ waitersOf s.state.waiters "b") := by
  refine ⟨by decide +kernel, by decide +kernel, by decide +kernel, ?_⟩
  obtain ⟨hcount, hqueue⟩ := wrapped_miscount
  exact fun h ↦ absurd (hcount.symm.trans (h.trans hqueue)) Nat.zero_ne_one

/-- The books of a run that grants, queues, drops and wakes. -/
theorem accounting_exact_sample :
    let limits : AdmissionLimits := ⟨1, 1, 1, 1, 10, 10⟩
    let ops : List Op :=
      [.acquire ⟨"a", "s", .live, 9, 0, 4, 1⟩ 5 0 0 0, .acquire ⟨"b", "t", .offline, 9, 0, 7, 2⟩ 5 1 0 0,
        .drop 0 1, .wake 0 1 0]
    Accounted limits (run limits initial ops) ∧
      ∀ op, Admissible limits (run limits initial ops) op →
        StepExact limits (run limits initial ops) op := by
  apply accounting_exact
  refine ⟨⟨?_, fun r _ _ ↦ fits_of_budgets (by decide) (by decide) _ _ _⟩,
    ⟨?_, fun r _ _ ↦ fits_of_budgets (by decide) (by decide) _ _ _⟩,
    ⟨trivial, fun r _ _ ↦ fits_of_budgets (by decide) (by decide) _ _ _⟩,
    ⟨trivial, fun r _ _ ↦ fits_of_budgets (by decide) (by decide) _ _ _⟩, trivial⟩
  · exact fun _ _ _ ↦ by decide +kernel
  · exact fun _ _ _ ↦ by decide +kernel

end System

end Vidarax.Admission
