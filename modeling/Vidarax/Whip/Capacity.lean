import Mathlib.Algebra.BigOperators.Group.List.Basic
import Vidarax.Whip.Media

/-!
# Accounting of media capacity

Package `vidarax-api`, `crates/vidarax-api/src/state.rs:186–282,747–886`. Every amount that the two
counters of the budget hold is that of a live permit or of an operation in progress, and the slots
are those of sessions, of starts and of removals. Nothing is given back twice.
-/

namespace Vidarax.Whip

open Vidarax.Base

theorem checkedReserve_eq_some {reserved amount limit next : UInt64}
    (h : checkedReserve reserved amount limit = some next) :
    next.toNat = reserved.toNat + amount.toNat ∧ next.toNat ≤ limit.toNat := by
  unfold checkedReserve at h
  split at h
  · next hroom =>
    cases h
    have hsum : (reserved + amount).toNat = reserved.toNat + amount.toNat := by
      rw [UInt64.toNat_add, Nat.mod_eq_of_lt]
      exact Nat.lt_of_le_of_lt hroom.1 (by decide)
    exact ⟨hsum, UInt64.le_iff_toNat_le.mp hroom.2⟩
  · cases h

theorem toNat_sub_of_add {a b : UInt64} {n : Nat} (h : a.toNat = b.toNat + n) :
    (a - b).toNat = n := by
  rw [UInt64.toNat_sub_of_le _ _ (UInt64.le_iff_toNat_le.mpr (by omega))]
  omega

namespace Media

/-- Bytes that a start has reserved and not handed over. -/
def startBytes (t : Start) : Nat :=
  if t.phase.bytes then t.attempt.permit.resources.reservedBytes.toNat else 0

/-- Threads that a start has reserved and not handed over. -/
def startThreads (t : Start) : Nat :=
  if t.phase.permit then t.attempt.permit.resources.workerThreads.toNat else 0

@[simp] theorem bytes_append (p q : List MediaResourcePermit) : bytes (p ++ q) = bytes p + bytes q := by
  simp [bytes]

@[simp] theorem bytes_cons (p : MediaResourcePermit) (q : List MediaResourcePermit) :
    bytes (p :: q) = p.resources.reservedBytes.toNat + bytes q := by
  simp [bytes]

@[simp] theorem bytes_nil : bytes [] = 0 := rfl

@[simp] theorem threads_append (p q : List MediaResourcePermit) :
    threads (p ++ q) = threads p + threads q := by
  simp [threads]

@[simp] theorem threads_cons (p : MediaResourcePermit) (q : List MediaResourcePermit) :
    threads (p :: q) = p.resources.workerThreads.toNat + threads q := by
  simp [threads]

@[simp] theorem threads_nil : threads [] = 0 := rfl

/-- The map in two parts. -/
theorem sum_filed (f : MediaResourcePermit → Nat) (s : Media) (sessId : String) :
    (((s.unfiled sessId).map Prod.snd).map f).sum + ((s.filed sessId).map f).sum =
      ((s.mediaReservations.map Prod.snd).map f).sum := by
  unfold unfiled filed
  induction s.mediaReservations with
  | nil => rfl
  | cons x media ih =>
    by_cases hx : x.1 = sessId
    · simp [hx] at ih ⊢
      omega
    · simp [hx] at ih ⊢
      omega

/-- The counters hold what is alive and in progress, within the limits. -/
structure Accounts (limits : MediaLimits) (s : Media) : Prop where
  bytes : s.reservedBytes.toNat = (s.starts.map startBytes).sum +
    Media.bytes (s.mediaReservations.map Prod.snd) + Media.bytes s.dropping
  threads : s.reservedWorkerThreads.toNat = (s.starts.map startThreads).sum +
    Media.threads (s.mediaReservations.map Prod.snd) + Media.threads s.dropping +
    Media.threads s.halves
  slots : s.sessionSlots.toNat = s.sessions.length +
    s.starts.countP (fun t ↦ t.phase.slot) + s.removals
  bytesLimit : s.reservedBytes.toNat ≤ limits.memoryLimitBytes.toNat
  threadsLimit : s.reservedWorkerThreads.toNat ≤ limits.workerThreadLimit.toNat
  slotsLimit : s.sessionSlots.toNat ≤ MAX_WEBRTC_SESSIONS.toNat

variable {limits : MediaLimits} {s s' : Media} {label : Option String}

theorem accounts_initial : Accounts limits initial where
  bytes := rfl
  threads := rfl
  slots := rfl
  bytesLimit := Nat.zero_le _
  threadsLimit := Nat.zero_le _
  slotsLimit := by decide

/-- The slot that a start holds. -/
def startSlot (t : Start) : Nat := if t.phase.slot then 1 else 0

/-- What one start adds to the sums. -/
private theorem sums_starts (l r : List Start) (t : Start) :
    ((l ++ t :: r).map startBytes).sum = startBytes t + ((l ++ r).map startBytes).sum ∧
      ((l ++ t :: r).map startThreads).sum = startThreads t + ((l ++ r).map startThreads).sum ∧
      (l ++ t :: r).countP (fun t ↦ t.phase.slot) =
        startSlot t + (l ++ r).countP (fun t ↦ t.phase.slot) := by
  simp only [startSlot, List.map_append, List.map_cons, List.sum_append, List.sum_cons,
    List.countP_append, List.countP_cons]
  omega

/-- A start goes on: what it reserves more is what the counters get more. -/
theorem Accounts.advance (h : Accounts limits s) {l r : List Start} {t t' : Start}
    (hat : s.starts = l ++ t :: r) {reservedBytes reservedWorkerThreads sessionSlots : UInt64}
    {sessions : List (String × String)} {inserted : List Nat}
    (hbytes : reservedBytes.toNat + startBytes t = s.reservedBytes.toNat + startBytes t')
    (hthreads : reservedWorkerThreads.toNat + startThreads t =
      s.reservedWorkerThreads.toNat + startThreads t')
    (hslots : sessionSlots.toNat + startSlot t + s.sessions.length =
      s.sessionSlots.toNat + startSlot t' + sessions.length)
    (hbytesLimit : reservedBytes.toNat ≤ limits.memoryLimitBytes.toNat)
    (hthreadsLimit : reservedWorkerThreads.toNat ≤ limits.workerThreadLimit.toNat)
    (hslotsLimit : sessionSlots.toNat ≤ MAX_WEBRTC_SESSIONS.toNat) :
    Accounts limits { s with
      reservedBytes := reservedBytes
      reservedWorkerThreads := reservedWorkerThreads
      sessionSlots := sessionSlots
      sessions := sessions
      inserted := inserted
      starts := l ++ t' :: r } := by
  obtain ⟨hb, ht, hs⟩ := sums_starts l r t
  obtain ⟨hb', ht', hs'⟩ := sums_starts l r t'
  have hbs := h.bytes
  have hts := h.threads
  have hss := h.slots
  rw [hat] at hbs hts hss
  refine ⟨?_, ?_, ?_, hbytesLimit, hthreadsLimit, hslotsLimit⟩
  · dsimp only
    omega
  · dsimp only
    omega
  · dsimp only
    omega

/-- A start without a permit ends. -/
theorem Accounts.quit (h : Accounts limits s) {l r : List Start} {t : Start}
    (hat : s.starts = l ++ t :: r) {reservedBytes : UInt64} {supervisors : List Supervisor}
    (hbytes : reservedBytes.toNat + startBytes t = s.reservedBytes.toNat)
    (hthreads : startThreads t = 0) (hslots : startSlot t = 0) :
    Accounts limits { s with
      reservedBytes := reservedBytes
      starts := l ++ r
      supervisors := supervisors } := by
  obtain ⟨hb, ht, hs⟩ := sums_starts l r t
  have hbs := h.bytes
  have hts := h.threads
  have hss := h.slots
  have hlimit := h.bytesLimit
  rw [hat] at hbs hts hss
  refine ⟨?_, ?_, ?_, ?_, h.threadsLimit, h.slotsLimit⟩
  · dsimp only
    omega
  · dsimp only
    omega
  · dsimp only
    omega
  · dsimp only
    omega

/-- A start with a permit ends and drops it. -/
theorem Accounts.leave (h : Accounts limits s) {l r : List Start} {t : Start}
    (hat : s.starts = l ++ t :: r) (hphase : t.phase.bytes = true ∧ t.phase.permit = true)
    {sessionSlots : UInt64} (releaser : Releaser)
    (hslots : sessionSlots.toNat + startSlot t = s.sessionSlots.toNat) :
    Accounts limits (drop { s with
      sessionSlots := sessionSlots
      starts := l ++ r } releaser [t.attempt.permit]) := by
  obtain ⟨hb, ht, hs⟩ := sums_starts l r t
  have hbs := h.bytes
  have hts := h.threads
  have hss := h.slots
  have hlimit := h.slotsLimit
  rw [hat, hb, startBytes, if_pos hphase.1] at hbs
  rw [hat, ht, startThreads, if_pos hphase.2] at hts
  rw [hat, hs] at hss
  refine ⟨?_, ?_, ?_, h.bytesLimit, h.threadsLimit, ?_⟩
  · simp only [drop, bytes_append, bytes_cons, bytes_nil]
    omega
  · simp only [drop, threads_append, threads_cons, threads_nil]
    omega
  · dsimp only [drop]
    omega
  · dsimp only [drop]
    omega

theorem one_le_slots (h : Accounts limits s) (hone : 1 ≤ s.sessions.length +
    s.starts.countP (fun t ↦ t.phase.slot) + s.removals) :
    (s.sessionSlots - 1).toNat + 1 = s.sessionSlots.toNat := by
  have hslots := h.slots
  rw [@toNat_sub_of_add s.sessionSlots 1 (s.sessionSlots.toNat - 1)]
  · omega
  · have hvalue : (1 : UInt64).toNat = 1 := rfl
    omega

/-- Every operation keeps the accounts. -/
theorem Accounts.step (h : Accounts limits s) (hstep : Step limits s label s') :
    Accounts limits s' := by
  cases hstep with
  | begin sessId runId resources =>
    refine ⟨?_, ?_, ?_, h.bytesLimit, h.threadsLimit, h.slotsLimit⟩
    · simpa [startBytes, StartPhase.bytes] using h.bytes
    · simpa [startThreads, StartPhase.permit] using h.threads
    · simpa [StartPhase.slot] using h.slots
  | reserveBytes hat hroom =>
    obtain ⟨hnext, hlimit⟩ := checkedReserve_eq_some hroom
    exact h.advance hat hnext rfl rfl hlimit h.threadsLimit h.slotsLimit
  | refuseBytes hat hfull => exact h.quit hat rfl rfl rfl
  | reserveThreads hat hroom =>
    obtain ⟨hnext, hlimit⟩ := checkedReserve_eq_some hroom
    exact h.advance hat rfl hnext rfl h.bytesLimit hlimit h.slotsLimit
  | refuseThreads hat hfull =>
    exact h.advance hat rfl rfl rfl h.bytesLimit h.threadsLimit h.slotsLimit
  | @rollBack l r a hat =>
    refine h.quit hat ?_ rfl rfl
    have hbytes := h.bytes
    rw [hat, (sums_starts l r _).1] at hbytes
    have hown : startBytes ⟨a, .rollingBack⟩ = a.permit.resources.reservedBytes.toNat := rfl
    rw [toNat_sub_of_add (by rw [hbytes, hown, Nat.add_assoc, Nat.add_assoc]), hbytes, hown]
    omega
  | appendFailed hat => exact h.leave hat ⟨rfl, rfl⟩ _ rfl
  | @takeSlot l r a hat hroom =>
    have hlt := UInt64.lt_iff_toNat_lt.mp hroom
    have hmax : MAX_WEBRTC_SESSIONS.toNat = 100 := rfl
    have hone : (1 : UInt64).toNat = 1 := rfl
    have hnext : (s.sessionSlots + 1).toNat = s.sessionSlots.toNat + 1 := by
      rw [UInt64.toNat_add, hone, Nat.mod_eq_of_lt (by omega)]
    refine h.advance hat rfl rfl ?_ h.bytesLimit h.threadsLimit (by omega)
    rw [hnext]
    simp only [startSlot, StartPhase.slot, if_true, Bool.false_eq_true, if_false]
  | refuseSlot hat hfull => exact h.leave hat ⟨rfl, rfl⟩ _ rfl
  | insert hat hvacant =>
    refine h.advance hat rfl rfl ?_ h.bytesLimit h.threadsLimit h.slotsLimit
    simp only [startSlot, StartPhase.slot, if_true, Bool.false_eq_true, if_false, List.length_cons]
    omega
  | collide hat hoccupied =>
    exact h.advance hat rfl rfl rfl h.bytesLimit h.threadsLimit h.slotsLimit
  | @giveSlotBack l r a hat =>
    refine h.leave hat ⟨rfl, rfl⟩ _ (one_le_slots h ?_)
    rw [hat, (sums_starts l r _).2.2]
    simp only [startSlot, StartPhase.slot, if_true]
    omega
  | @publish l r a hat =>
    obtain ⟨hb, ht, hs⟩ := sums_starts l r ⟨a, .inserted⟩
    obtain ⟨hb', ht', hs'⟩ := sums_starts l r ⟨a, .published⟩
    have hbs := h.bytes
    have hts := h.threads
    have hss := h.slots
    rw [hat] at hbs hts hss
    have hbytes := sum_filed (fun p ↦ p.resources.reservedBytes.toNat) s a.sessId
    have hthreads := sum_filed (fun p ↦ p.resources.workerThreads.toNat) s a.sessId
    simp only [startBytes, startThreads, StartPhase.bytes, StartPhase.permit, if_true,
      Bool.false_eq_true, if_false] at hb ht hb' ht'
    have hslot : startSlot ⟨a, .inserted⟩ = 0 ∧ startSlot ⟨a, .published⟩ = 0 := ⟨rfl, rfl⟩
    refine ⟨?_, ?_, ?_, h.bytesLimit, h.threadsLimit, h.slotsLimit⟩
    · simp only [drop, List.map_cons, bytes_cons, bytes_append]
      simp only [Media.bytes] at hbs ⊢
      omega
    · simp only [drop, List.map_cons, threads_cons, threads_append]
      simp only [Media.threads] at hts ⊢
      omega
    · dsimp only [drop]
      omega
  | supervise hat => exact h.quit hat rfl rfl rfl
  | spawn hat => exact ⟨h.bytes, h.threads, h.slots, h.bytesLimit, h.threadsLimit, h.slotsLimit⟩
  | started hat => exact ⟨h.bytes, h.threads, h.slots, h.bytesLimit, h.threadsLimit, h.slotsLimit⟩
  | exit hat => exact ⟨h.bytes, h.threads, h.slots, h.bytesLimit, h.threadsLimit, h.slotsLimit⟩
  | abandon hat _ =>
    exact ⟨h.bytes, h.threads, h.slots, h.bytesLimit, h.threadsLimit, h.slotsLimit⟩
  | @stop l r a phase hat hactive =>
    have hbytes := sum_filed (fun p ↦ p.resources.reservedBytes.toNat) s a.sessId
    have hthreads := sum_filed (fun p ↦ p.resources.workerThreads.toNat) s a.sessId
    have hbs := h.bytes
    have hts := h.threads
    refine ⟨?_, ?_, h.slots, h.bytesLimit, h.threadsLimit, h.slotsLimit⟩
    · simp only [drop, bytes_append]
      simp only [Media.bytes] at hbs ⊢
      omega
    · simp only [drop, threads_append]
      simp only [Media.threads] at hts ⊢
      omega
  | @remove l r x hat =>
    have hss := h.slots
    rw [hat, List.length_append, List.length_cons] at hss
    refine ⟨h.bytes, h.threads, ?_, h.bytesLimit, h.threadsLimit, h.slotsLimit⟩
    simp only [List.length_append]
    omega
  | @removed n hremovals =>
    have hnext := one_le_slots h (by omega)
    have hss := h.slots
    have hlimit := h.slotsLimit
    refine ⟨h.bytes, h.threads, ?_, h.bytesLimit, h.threadsLimit, ?_⟩
    · dsimp only
      omega
    · dsimp only
      omega
  | @dropBytes l r p hat =>
    have hbs := h.bytes
    have hts := h.threads
    have hlimit := h.bytesLimit
    rw [hat, bytes_append, bytes_cons] at hbs
    rw [hat, threads_append, threads_cons] at hts
    have hnext : (s.reservedBytes - p.resources.reservedBytes).toNat =
        s.reservedBytes.toNat - p.resources.reservedBytes.toNat := by
      apply UInt64.toNat_sub_of_le
      rw [UInt64.le_iff_toNat_le]
      omega
    refine ⟨?_, ?_, h.slots, ?_, h.threadsLimit, h.slotsLimit⟩
    · simp only [bytes_append]
      omega
    · simp only [threads_append, threads_cons]
      omega
    · dsimp only
      omega
  | @dropThreads l r p hat =>
    have hts := h.threads
    have hlimit := h.threadsLimit
    rw [hat, threads_append, threads_cons] at hts
    have hnext : (s.reservedWorkerThreads - p.resources.workerThreads).toNat =
        s.reservedWorkerThreads.toNat - p.resources.workerThreads.toNat := by
      apply UInt64.toNat_sub_of_le
      rw [UInt64.le_iff_toNat_le]
      omega
    refine ⟨h.bytes, ?_, h.slots, h.bytesLimit, ?_, h.slotsLimit⟩
    · simp only [threads_append]
      omega
    · dsimp only
      omega

end Media

end Vidarax.Whip
