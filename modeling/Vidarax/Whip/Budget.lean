import Vidarax.Whip.Permits

/-!
# The media budget over whole runs

Package `vidarax-api`, `crates/vidarax-api/src/state.rs:186–282,747–886` and
`crates/vidarax-api/src/whip.rs:352–468,579–699`.
-/

namespace Vidarax.Whip

open Vidarax.Base

namespace Media

variable {limits : MediaLimits} {s s' : Media} {label : Option String}

/-- Counters are what they count and keep their limits, and permits are released once. -/
structure Accounted (limits : MediaLimits) (s : Media) : Prop where
  bytes : s.reservedBytes.toNat = Media.bytes s.live + Media.bytes s.between
  threads : s.reservedWorkerThreads.toNat = Media.threads s.live + Media.threads s.halves
  bytesLimit : s.reservedBytes ≤ limits.memoryLimitBytes
  threadsLimit : s.reservedWorkerThreads ≤ limits.workerThreadLimit
  slots : s.sessionSlots.toNat =
    s.sessions.length + s.starts.countP (fun t ↦ t.phase.slot) + s.removals
  slotsLimit : s.sessionSlots ≤ MAX_WEBRTC_SESSIONS
  once : ∀ g, s.released.countP (fun x ↦ x.permit.generation = g) ≤ 1

/-- The permit of an inserted session is released by its supervisor, when no thread of its
generation is attached, and none is attached afterwards. -/
def Guarded (s : Media) : Prop :=
  ∀ x ∈ s.released, x.permit.generation ∈ s.inserted →
    x.releaser = .supervisor x.permit.generation ∧ x.attached = 0 ∧
      s.attached x.permit.generation = 0

/-- Bytes of starts are those of permits and those between two reservations. -/
theorem sum_startBytes (starts : List Start) : (starts.map startBytes).sum =
    bytes ((starts.filter fun t ↦ t.phase.permit).map (·.attempt.permit)) +
      bytes ((starts.filter fun t ↦ t.phase = .bytesReserved ∨ t.phase = .rollingBack).map
        (·.attempt.permit)) := by
  induction starts with
  | nil => rfl
  | cons t starts ih =>
    rw [List.map_cons, List.sum_cons, ih, List.filter_cons, List.filter_cons]
    rcases t with ⟨a, phase⟩
    cases phase <;> simp [startBytes, StartPhase.bytes, StartPhase.permit] <;> omega

theorem sum_startThreads (starts : List Start) : (starts.map startThreads).sum =
    threads ((starts.filter fun t ↦ t.phase.permit).map (·.attempt.permit)) := by
  induction starts with
  | nil => rfl
  | cons t starts ih =>
    rw [List.map_cons, List.sum_cons, ih, List.filter_cons]
    by_cases hpermit : t.phase.permit
    · rw [if_pos hpermit, startThreads, if_pos hpermit, List.map_cons, threads_cons]
    · rw [if_neg hpermit, startThreads, if_neg hpermit, Nat.zero_add]

theorem accounts (h : Reachable limits s) : Accounts limits s ∧ Distinct s := by
  induction h with
  | refl => exact ⟨accounts_initial, distinct_initial⟩
  | tail _ hstep ih =>
    obtain ⟨label, hstep⟩ := hstep
    exact ⟨ih.1.step hstep, ih.2.step hstep⟩

theorem owned (h : ReachableFresh limits s) : Distinct s ∧ Owned s := by
  induction h with
  | refl => exact ⟨distinct_initial, owned_initial⟩
  | tail _ hstep ih =>
    obtain ⟨label, hstep, hfresh⟩ := hstep
    exact ⟨ih.1.step hstep, ih.2.step ih.1 hstep hfresh⟩

/-- The budget over every run, and the owners of permits over runs that file no second permit
under a session. -/
theorem media_accounted (h : Reachable limits s) :
    Accounted limits s ∧ (ReachableFresh limits s → Guarded s) := by
  obtain ⟨haccounts, hdistinct⟩ := accounts h
  constructor
  · have hbytes := haccounts.bytes
    have hthreads := haccounts.threads
    rw [sum_startBytes] at hbytes
    rw [sum_startThreads] at hthreads
    refine ⟨?_, ?_, UInt64.le_iff_toNat_le.mpr haccounts.bytesLimit,
      UInt64.le_iff_toNat_le.mpr haccounts.threadsLimit, haccounts.slots,
      UInt64.le_iff_toNat_le.mpr haccounts.slotsLimit, fun g ↦ ?_⟩
    · rw [live, between, bytes_append, bytes_append]
      omega
    · rw [live, threads_append, threads_append]
      omega
    · exact Nat.le_trans (Nat.le_add_left _ _) (hdistinct.once g)
  · intro hfresh x hx hin
    obtain ⟨-, howned⟩ := owned hfresh
    obtain ⟨hreleaser, hattached⟩ := howned.owner x hx hin
    exact ⟨hreleaser, hattached,
      attached_eq_zero fun v hv hsame ↦ ((howned.idle x hx hin).1 v hv hsame).1⟩

/-! ### One session id for two sessions -/

/-- A budget of ten threads. -/
def tenThreads : MediaLimits := ⟨1000, 10⟩

/-- The first session. -/
def firstAttempt : Attempt := ⟨"x", "run-1", ⟨0, ⟨100, 4⟩⟩⟩

/-- Its session is inserted and its supervisor begins. -/
def supervised (a : Attempt) : Media :=
  ⟨100, 4, 1, [(a.sessId, a.runId)], [(a.sessId, a.permit)], [], [⟨a, 0, .starting⟩], [], [], 0, 1,
    [a.generation], []⟩

theorem ReachableFresh.quiet (h : ReachableFresh limits s) (hstep : Step limits s none s') :
    ReachableFresh limits s' :=
  h.tail ⟨none, hstep, fun _ hid ↦ by cases hid⟩

theorem ReachableFresh.file {sessId : String} (h : ReachableFresh limits s)
    (hstep : Step limits s (some sessId) s') (hnone : ∀ x ∈ s.mediaReservations, x.1 ≠ sessId) :
    ReachableFresh limits s' := by
  apply h.tail
  refine ⟨some sessId, hstep, fun other hid ↦ ?_⟩
  cases hid
  exact hnone

theorem Reachable.next (h : Reachable limits s) (hstep : Step limits s label s') :
    Reachable limits s' :=
  h.tail ⟨label, hstep⟩

theorem ReachableFresh.reachable (h : ReachableFresh limits s) : Reachable limits s := by
  induction h with
  | refl => exact .refl
  | tail _ hstep ih =>
    obtain ⟨label, hstep, -⟩ := hstep
    exact ih.tail ⟨label, hstep⟩

theorem reachable_supervised : ReachableFresh tenThreads (supervised firstAttempt) := by
  have hstart : ReachableFresh tenThreads initial := .refl
  have hreserved := ((hstart.quiet (.begin "x" "run-1" ⟨100, 4⟩)).quiet
    (.reserveBytes (l := []) (r := []) rfl rfl)).quiet
    (.reserveThreads (l := []) (r := []) rfl rfl)
  have hinserted := (hreserved.quiet (.takeSlot (l := []) (r := []) rfl (by decide))).quiet
    (.insert (l := []) (r := []) rfl fun _ hx ↦ by cases hx)
  have hpublished := hinserted.file (.publish (l := []) (r := []) rfl) fun _ hx ↦ by cases hx
  exact hpublished.quiet (.supervise (l := []) (r := []) rfl)

/-- A thread starts and ends, and the supervisor releases the permit. -/
theorem media_accounted_stop : ∃ s : Media,
    s.released = [⟨firstAttempt.permit, .supervisor 0, 0⟩] ∧ s.inserted = [0] ∧
      Accounted tenThreads s ∧ Guarded s := by
  have hspawned := reachable_supervised.quiet (.spawn (l := []) (r := []) rfl)
  have hstopped := (hspawned.quiet (.exit (l := []) (r := []) rfl)).quiet
    (.stop (l := []) (r := []) rfl (by decide))
  obtain ⟨haccounted, hguarded⟩ := media_accounted hstopped.reachable
  exact ⟨_, rfl, rfl, haccounted, hguarded hstopped⟩

/-- The second start, up to the permit, releases the permit of the first session. -/
theorem unguarded_media : ∃ s, Reachable tenThreads s ∧
    s.released = [⟨firstAttempt.permit, .start 1, 1⟩] ∧ s.attached 0 = 1 ∧ s.inserted = [1, 0] ∧
      ¬ Guarded s := by
  have hspawned := reachable_supervised.quiet (.spawn (l := []) (r := []) rfl)
  have hremoved := (hspawned.quiet (.remove (l := []) (r := []) rfl)).quiet
    (.removed (n := 0) rfl)
  have hreserved := ((hremoved.quiet (.begin "x" "run-2" ⟨100, 4⟩)).quiet
    (.reserveBytes (l := []) (r := []) rfl rfl)).quiet
    (.reserveThreads (l := []) (r := []) rfl rfl)
  have hinserted := (hreserved.quiet (.takeSlot (l := []) (r := []) rfl (by decide))).quiet
    (.insert (l := []) (r := []) rfl fun _ hx ↦ by cases hx)
  have hpublished := hinserted.reachable.next (.publish (l := []) (r := []) rfl)
  refine ⟨_, hpublished, rfl, rfl, rfl, fun hguarded ↦ ?_⟩
  have hreleaser := (hguarded ⟨firstAttempt.permit, .start 1, 1⟩ (List.mem_singleton.mpr rfl)
    (by decide)).1
  cases hreleaser

end Media

end Vidarax.Whip
