import Vidarax.Whip.Reclaim

/-!
# One winner for each session

Packages `vidarax-api` and `vidarax-core`, `crates/vidarax-api/src/whip.rs:937–1261`. The claim of a
session is with one reclaimer from its exchange to the removal or to its release, so what reclaimers
commit is what that one appends. A run that has ended stays so.
-/

namespace Vidarax.Whip

open Vidarax.Base Vidarax.Timeline Vidarax.Runs

/-! ### Marks -/

namespace SessionCloseDisposition

/-- The number that some marks leave. -/
def codeOf (marks : List SessionCloseDisposition) : UInt8 :=
  marks.foldr (fun mark code ↦ max code mark.code) fault.code

/-- The highest mark is read. -/
theorem ofCode_codeOf (marks : List SessionCloseDisposition) : ofCode (codeOf marks) =
    if .delete ∈ marks then .delete
    else if .stop ∈ marks then .stop
    else if .complete ∈ marks then .complete
    else .fault := by
  have hvalue : codeOf marks =
      (if .delete ∈ marks then delete
        else if .stop ∈ marks then stop
        else if .complete ∈ marks then complete
        else fault).code := by
    induction marks with
    | nil => rfl
    | cons mark marks ih =>
      rw [codeOf, List.foldr_cons, ← codeOf, ih]
      by_cases hdelete : .delete ∈ marks <;> by_cases hstop : .stop ∈ marks <;>
        by_cases hcomplete : .complete ∈ marks <;> cases mark <;>
        simp [hdelete, hstop, hcomplete, code] <;> rfl
  have hround (mark : SessionCloseDisposition) : ofCode mark.code = mark := by cases mark <;> rfl
  rw [hvalue, hround]

end SessionCloseDisposition

/-! ### Runs that have ended -/

/-- Kinds of events that end a run. -/
def endKinds : List String := ["run_completed", "run_failed", "stop_requested", "run_deleted"]

/-- Some event has a kind. -/
def HasKind (log : List Logged) (kind : String) : Prop := ∃ x ∈ log, x.event.kind = kind

theorem HasKind.mono {log log' : List Logged} {kind : String} (h : HasKind log kind)
    (hgrows : log <+: log') : HasKind log' kind := by
  obtain ⟨x, hx, hkind⟩ := h
  exact ⟨x, hgrows.subset hx, hkind⟩

/-- The run is expired at some of the times that were read. -/
def WasExpired (ttlMs : UInt64) (summary : RunSummary) (times : List UInt64) : Prop :=
  ∃ time ∈ times, applyExpiry summary.state summary.lastActivityMs time ttlMs = .expired

/-- The run is not known, is deleted, has ended, or was found expired. -/
def Settled (ttlMs : UInt64) (summary : RunSummary) (times : List UInt64) : Prop :=
  summary.created = false ∨ summary.deleted = true ∨ summary.state.isTerminal = true ∨
    WasExpired ttlMs summary times

/-- That a run is deleted or has ended comes from its log. -/
structure Recorded (summary : RunSummary) (log : List Logged) : Prop where
  deleted : summary.deleted = true → HasKind log "run_deleted"
  ended : summary.state.isTerminal = true → ∃ kind ∈ endKinds, HasKind log kind

/-- A run that is not known any more was deleted. -/
structure Known (summary : RunSummary) (log : List Logged) : Prop
    extends Recorded summary log where
  created : summary.created = false → HasKind log "run_deleted"

theorem Known.mono {summary : RunSummary} {log log' : List Logged} (h : Known summary log)
    (hgrows : log <+: log') : Known summary log' where
  created hcreated := (h.created hcreated).mono hgrows
  deleted hdeleted := (h.deleted hdeleted).mono hgrows
  ended hended := by
    obtain ⟨kind, hkind, hlog⟩ := h.ended hended
    exact ⟨kind, hkind, hlog.mono hgrows⟩

section Events

variable {fromStr : String → Option Json} {ttlMs : UInt64} {summary : RunSummary}
  {event : TimelineEvent} {times : List UInt64}

/-- A state that an event leads to ends the run only with the kinds that do so. -/
theorem endKinds_of_transitionState {kind : String} {state : StreamState}
    (h : transitionState kind = some state) (hterminal : state.isTerminal = true) :
    kind ∈ endKinds := by
  unfold transitionState at h
  simp only [endKinds, List.mem_cons, List.not_mem_nil, or_false]
  split at h
  · cases h
    cases hterminal
  · split at h
    · cases h
      cases hterminal
    · split at h
      · next hkind => exact .inl hkind
      · split at h
        · next hkind => exact .inr (.inl hkind)
        · split at h
          · next hkind => exact .inr (.inr (.inl hkind))
          · cases h

/-- An event that ends a run settles it. -/
theorem settled_applyEvent (h : event.kind ∈ endKinds) :
    Settled ttlMs (summary.applyEvent fromStr event) times := by
  simp only [endKinds, List.mem_cons, List.not_mem_nil, or_false] at h
  rcases h with hkind | hkind | hkind | hkind
  · exact .inr (.inr (.inl (by rw [RunSummary.applyEvent, hkind]; rfl)))
  · exact .inr (.inr (.inl (by rw [RunSummary.applyEvent, hkind]; rfl)))
  · exact .inr (.inr (.inl (by rw [RunSummary.applyEvent, hkind]; rfl)))
  · exact .inr (.inl (by simp [RunSummary.applyEvent, hkind]))

theorem Settled.mono {times' : List UInt64} (h : Settled ttlMs summary times)
    (htimes : times ⊆ times') : Settled ttlMs summary times' := by
  rcases h with hcreated | hdeleted | hended | ⟨time, htime, hexpired⟩
  · exact .inl hcreated
  · exact .inr (.inl hdeleted)
  · exact .inr (.inr (.inl hended))
  · exact .inr (.inr (.inr ⟨time, htimes htime, hexpired⟩))

/-- A settled run has an event that ends it, or was found expired. -/
theorem Known.cases {log : List Logged} (h : Known summary log)
    (hsettled : Settled ttlMs summary times) :
    (∃ kind ∈ endKinds, HasKind log kind) ∨ WasExpired ttlMs summary times := by
  have hdelete : "run_deleted" ∈ endKinds := by decide
  rcases hsettled with hcreated | hdeleted | hended | hexpired
  · exact .inl ⟨_, hdelete, h.created hcreated⟩
  · exact .inl ⟨_, hdelete, h.deleted hdeleted⟩
  · exact .inl (h.ended hended)
  · exact .inr hexpired

/-- Events of the log keep what is recorded. -/
theorem Recorded.applyEvent {log : List Logged} {x : Logged} (h : Recorded summary log)
    (hx : x ∈ log) : Recorded (summary.applyEvent fromStr x.event) log where
  deleted hdeleted := by
    rw [RunSummary.applyEvent] at hdeleted
    rcases Bool.or_eq_true_iff.mp hdeleted with hold | hkind
    · exact h.deleted hold
    · exact ⟨x, hx, of_decide_eq_true hkind⟩
  ended hended := by
    rw [RunSummary.applyEvent] at hended
    cases htransition : transitionState x.event.kind with
    | none =>
      rw [htransition] at hended
      exact h.ended hended
    | some state =>
      rw [htransition] at hended
      exact ⟨_, endKinds_of_transitionState htransition hended, x, hx, rfl⟩

theorem Known.applyEvent {log : List Logged} {x : Logged} (h : Known summary log) (hx : x ∈ log) :
    Known (summary.applyEvent fromStr x.event) log where
  toRecorded := h.toRecorded.applyEvent hx
  created hcreated := h.created (by
    rw [RunSummary.applyEvent] at hcreated
    exact (Bool.or_eq_false_iff.mp hcreated).1)

/-- Runs with a creation among their events are known from these events. -/
theorem recorded_default (log : List Logged) : Recorded RunSummary.defaultPublic log :=
  ⟨nofun, nofun⟩

theorem known_foldl (fromStr : String → Option Json) {events : List TimelineEvent}
    (hcreated : ∃ e ∈ events, e.kind = "run_created") :
    Known (events.foldl (RunSummary.applyEvent fromStr) RunSummary.defaultPublic)
      (events.map (⟨·, none⟩)) := by
  have hrecorded (log : List Logged) (summary : RunSummary) (h : Recorded summary log)
      (hlog : ∀ e ∈ events, ⟨e, none⟩ ∈ log) :
      Recorded (events.foldl (RunSummary.applyEvent fromStr) summary) log := by
    clear hcreated
    induction events generalizing summary with
    | nil => exact h
    | cons e events ih =>
      exact ih _ (h.applyEvent (x := ⟨e, none⟩) (hlog e List.mem_cons_self))
        fun e' he' ↦ hlog e' (List.mem_cons_of_mem e he')
  have hknown (summary : RunSummary)
      (h : summary.created = true ∨ ∃ e ∈ events, e.kind = "run_created") :
      (events.foldl (RunSummary.applyEvent fromStr) summary).created = true := by
    clear hcreated hrecorded
    induction events generalizing summary with
    | nil => exact h.resolve_right (by simp)
    | cons e events ih =>
      apply ih
      rcases h with hold | ⟨e', he', hkind⟩
      · exact .inl (by simp [RunSummary.applyEvent, hold])
      · rcases List.mem_cons.mp he' with rfl | he'
        · exact .inl (by simp [RunSummary.applyEvent, hkind])
        · exact .inr ⟨e', he', hkind⟩
  refine ⟨hrecorded _ _ (recorded_default _) fun e he ↦ List.mem_map_of_mem he, fun hnone ↦ ?_⟩
  rw [hknown _ (.inr hcreated)] at hnone
  cases hnone

end Events

namespace Reclaim

variable {fromStr : String → Option Json} {ttlMs : UInt64} {s s' : Reclaim}

theorem runtimeState_eq (nowMs : UInt64) : s.runtimeState ttlMs nowMs =
    if !s.summary.created || s.summary.deleted then none
    else some (applyExpiry s.summary.state s.summary.lastActivityMs nowMs ttlMs) := by
  unfold runtimeState summary
  cases s.entry with
  | none => rfl
  | some run => rfl

theorem applyExpiry_cases (state : StreamState) (lastActivityMs nowMs ttlMs : UInt64) :
    applyExpiry state lastActivityMs nowMs ttlMs = state ∨
      applyExpiry state lastActivityMs nowMs ttlMs = .expired := by
  unfold applyExpiry
  split
  · exact .inl rfl
  · split
    · exact .inr rfl
    · exact .inl rfl

/-- What is expired is so later. -/
theorem isTerminal_applyExpiry {state : StreamState} {lastActivityMs time nowMs ttlMs : UInt64}
    (h : applyExpiry state lastActivityMs time ttlMs = .expired) (hle : time ≤ nowMs) :
    (applyExpiry state lastActivityMs nowMs ttlMs).isTerminal = true := by
  unfold applyExpiry at h ⊢
  split at h
  · next hnever =>
    rw [if_pos hnever, h]
    rfl
  · next hnever =>
    rw [if_neg hnever]
    split at h
    · next hlate =>
      have hlater : ttlMs < satSub nowMs lastActivityMs := by
        rw [UInt64.lt_iff_toNat_lt, toNat_satSub] at hlate ⊢
        rw [UInt64.le_iff_toNat_le] at hle
        omega
      rw [if_pos hlater]
      rfl
    · exact absurd (.inl (by rw [h]; rfl)) hnever

/-- A run that is found terminal is settled. -/
theorem settled_of_terminal {nowMs : UInt64} (h : s.whipRunIsTerminal ttlMs nowMs = true) :
    Settled ttlMs s.summary (nowMs :: s.times) := by
  rw [whipRunIsTerminal, runtimeState_eq] at h
  split at h
  · next hgone =>
    rcases Bool.or_eq_true_iff.mp hgone with hcreated | hdeleted
    · exact .inl (by simpa using hcreated)
    · exact .inr (.inl hdeleted)
  · next =>
    rw [Option.all_some] at h
    rcases applyExpiry_cases s.summary.state s.summary.lastActivityMs nowMs ttlMs with
      hsame | hexpired
    · rw [hsame] at h
      exact .inr (.inr (.inl h))
    · exact .inr (.inr (.inr ⟨nowMs, List.mem_cons_self, hexpired⟩))

/-- A settled run is terminal, deleted or forgotten at times that are not before those read. -/
theorem terminal_of_settled (h : Settled ttlMs s.summary s.times) {nowMs : UInt64}
    (hlatest : ∀ time ∈ s.times, time ≤ nowMs) : s.whipRunIsTerminal ttlMs nowMs = true := by
  rw [whipRunIsTerminal, runtimeState_eq]
  split
  · rfl
  · next hknown =>
    rw [Option.all_some]
    simp only [Bool.or_eq_true, Bool.not_eq_true', not_or, Bool.not_eq_true, Bool.not_eq_false]
      at hknown
    rcases h with hcreated | hdeleted | hended | ⟨time, htime, hexpired⟩
    · rw [hknown.1] at hcreated
      cases hcreated
    · rw [hknown.2] at hdeleted
      cases hdeleted
    · rw [applyExpiry, if_pos (.inl hended)]
      exact hended
    · exact isTerminal_applyExpiry hexpired (hlatest time htime)

/-- Applying an event changes the run as its summary, and nothing else. -/
theorem summary_applyAppendedEvent (fromStr : String → Option Json) (s : Reclaim)
    (event : TimelineEvent) :
    (s.applyAppendedEvent fromStr event).summary = s.summary.applyEvent fromStr event := by
  have hstructural (arc : Nat) : ((some (arc, RunState.fromSummary
      (s.summary.applyEvent fromStr event))).map fun run ↦ run.2.snapshot).getD
        RunSummary.defaultPublic = s.summary.applyEvent fromStr event := by
    rw [Option.map_some, Option.getD_some, RunState.snapshot_fromSummary]
  unfold applyAppendedEvent
  dsimp only
  split
  · exact hstructural s.nextArc
  · next hcreated =>
    split
    · exact hstructural s.nextArc
    · split
      · next arc run hentry =>
        rw [summary, summary, hentry, Option.map_some, Option.map_some, Option.getD_some,
          Option.getD_some, RunState.snapshot_applyEvent fromStr run hcreated]
      · exact hstructural s.nextArc

end Reclaim

end Vidarax.Whip
