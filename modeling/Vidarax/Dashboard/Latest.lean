import Vidarax.Dashboard.Indexes

/-!
# The latest events

Package `ui`, `ui/src/stores/events.ts:70–128,172–213,264–290`. The latest events are the latest of all
unless a run is cleared that had some of them, or the oldest event is dropped that was one of them: the
list is not filled up.
-/

namespace Vidarax.Dashboard

open Vidarax.Base

section

variable {Obj : Type} (read : Obj → AgentEvent)

/-- The latest events are so many stored events as there may be, from the latest on, and no other
event is later than one of them. -/
structure LatestFirst (s : EventStore Obj) : Prop where
  sorted : s.latestEventsIndex.Pairwise fun a b ↦ (eventOrder (read b) (read a)).le .zero = true
  length_eq : s.latestEventsIndex.length = min maxLatest s.events.length
  nodup : s.latestEventsIndex.Nodup
  stored : s.latestEventsIndex ⊆ s.events
  latest : ∀ other ∈ s.events, other ∉ s.latestEventsIndex → ∀ event ∈ s.latestEventsIndex,
    (eventOrder (read other) (read event)).le .zero = true

/-- All that is kept together. -/
structure Coherent (s : EventStore Obj) : Prop where
  indexed : Indexed read s
  latestFirst : LatestFirst read s

/-- The latest events stay the latest of all: a run that is cleared has none of them, or all events
of other runs are among them; the oldest event, which is dropped for a later one, is none of them,
or the last of them and older than the new one. -/
def Keeps (s : EventStore Obj) : Call Obj → Prop
  | .addEvent event => s.eventIdentityIndex (identity read event) = none →
      s.events.length = MAX_EVENTS → ∀ oldest ∈ s.events.head?,
      (eventOrder (read oldest) (read event)).le .zero = true → oldest ∈ s.latestEventsIndex →
      s.latestEventsIndex.getLast? = some oldest ∧
        ¬(eventOrder (read event) (read oldest)).le .zero = true
  | .clearEventsForRun runId => (∀ event ∈ s.latestEventsIndex, (read event).runId ≠ runId) ∨
      ∀ event ∈ s.events, (read event).runId ≠ runId → event ∈ s.latestEventsIndex
  | .clearAll => True

end

/-! ### Steps -/

variable {Obj : Type} {read : Obj → AgentEvent} {s : EventStore Obj}

/-- The place of an event among the latest ones. -/
def latestKey (read : Obj → AgentEvent) (event : Obj) : (ℤ ×ₗ ℤ ×ₗ ℤ)ᵒᵈ :=
  OrderDual.toDual (order read event)

theorem latestKey_le {a b : Obj} : latestKey read a ≤ latestKey read b ↔
    (eventOrder (read b) (read a)).le .zero = true := by
  rw [eventOrder_le_zero, decide_eq_true_iff]
  exact Iff.rfl

theorem latestFirst_iff (hnodup : s.events.Nodup) : LatestFirst read s ↔
    Foremost (latestKey read) maxLatest s.events s.latestEventsIndex := by
  rw [Foremost.iff_of_nodup hnodup]
  simp only [Ascending, latestKey_le]
  constructor
  · exact fun h ↦ ⟨h.sorted, h.length_eq, h.nodup, h.stored, h.latest⟩
  · rintro ⟨hsorted, hlength, hlatest, hstored, hle⟩
    exact ⟨hsorted, hlength, hlatest, hstored, hle⟩

theorem Coherent.foremost (h : Coherent read s) :
    Foremost (latestKey read) maxLatest s.events s.latestEventsIndex :=
  (latestFirst_iff h.indexed.indexed.nodup).mp h.latestFirst

/-- A step keeps all together if it keeps the latest events. -/
theorem coherent_iff_foremost (h : Indexed read s) : Coherent read s ↔
    Foremost (latestKey read) maxLatest s.events s.latestEventsIndex :=
  ⟨Coherent.foremost, fun hforemost ↦ ⟨h, (latestFirst_iff h.indexed.nodup).mpr hforemost⟩⟩

theorem latest_store (hsorted : Ascending (latestKey read) s.latestEventsIndex) (event : Obj) :
    (s.store read event).latestEventsIndex =
      (inserted (latestKey read) event s.latestEventsIndex).take maxLatest := by
  unfold EventStore.store
  dsimp only
  rw [binaryInsert_eq (fun a b ↦ latestOrder_le_zero (read a) (read b)) hsorted]

variable [DecidableEq Obj]

theorem dropOldest_of_le (h : s.events.length ≤ MAX_EVENTS) : s.dropOldest read = s := by
  unfold EventStore.dropOldest
  rw [Nat.sub_eq_zero_of_le h]
  rfl

theorem dropOldest_of_one {oldest : Obj} {rest : List Obj} (hevents : s.events = oldest :: rest)
    (h : rest.length = MAX_EVENTS) : (s.dropOldest read).events = rest ∧
      (s.dropOldest read).latestEventsIndex = s.latestEventsIndex.erase oldest := by
  have hone : s.events.length - MAX_EVENTS = 1 := by
    rw [hevents, List.length_cons, h, Nat.add_sub_cancel_left]
  unfold EventStore.dropOldest
  rw [hone, hevents]
  exact ⟨rfl, rfl⟩

/-- An event that replaces another one comes where that was. -/
theorem Coherent.replace (h : Coherent read s) {event existing : Obj}
    (hsome : s.eventIdentityIndex (identity read event) = some existing) :
    Coherent read
      (((s.removeExisting read (identity read event) existing).store read event).dropOldest read) := by
  obtain ⟨hmem, hsame, hsorted, hremoved, hfresh⟩ := h.indexed.removeExisting hsome
  obtain ⟨hevents, hstored⟩ := indexed_store hsorted hremoved hfresh
  have hperm := hsorted.perm_inserted event
  have hlength : ((s.removeExisting read (identity read event) existing).store read event).events.length
      ≤ MAX_EVENTS := by
    have hbounded := h.indexed.bounded
    have herase := List.length_erase_of_mem hmem
    have hpos := List.length_pos_of_mem hmem
    rw [hevents, hperm.length_eq, List.length_cons]
    change (s.events.erase existing).length + 1 ≤ _
    omega
  rw [dropOldest_of_le hlength]
  have hforemost := h.foremost
  have hlatest : Ascending (latestKey read) (s.latestEventsIndex.erase existing) :=
    hforemost.ascending.sublist List.erase_sublist
  refine (coherent_iff_foremost ⟨?_, hlength, hstored⟩).mpr ?_
  · rw [← ascending_iff, hevents]
    exact hsorted.inserted event
  · rw [latest_store (s := s.removeExisting read (identity read event) existing) hlatest, hevents]
    refine Foremost.perm ?_ hperm.symm
    change Foremost _ _ (event :: s.events.erase existing)
      ((inserted (latestKey read) event (s.latestEventsIndex.erase existing)).take maxLatest)
    by_cases hin : existing ∈ s.latestEventsIndex
    · exact hforemost.replace hin (congrArg OrderDual.toDual (orderKey_eq_of_key hsame.symm))
    · rw [List.erase_of_not_mem hin]
      exact (hforemost.erase hmem hin).insert event

/-- A new event is stored, and the oldest one dropped if there are too many. -/
theorem Coherent.store_iff (h : Coherent read s) {event : Obj}
    (hnone : s.eventIdentityIndex (identity read event) = none) :
    Coherent read ((s.store read event).dropOldest read) ↔ Keeps read s (.addEvent event) := by
  have hsorted := h.indexed.ascending
  have hfresh := h.indexed.fresh hnone
  obtain ⟨hevents, hstored⟩ := indexed_store hsorted h.indexed.indexed hfresh
  have hperm := hsorted.perm_inserted event
  have hforemost := h.foremost
  have hlatest := latest_store hforemost.ascending event
  have hinserted : Foremost (latestKey read) maxLatest (s.store read event).events
      (s.store read event).latestEventsIndex := by
    rw [hevents, hlatest]
    exact (hforemost.insert event).perm hperm.symm
  have hindexed : Indexed read ((s.store read event).dropOldest read) := by
    refine indexed_dropOldest ?_ hstored
    rw [hevents]
    exact hsorted.inserted event
  have hin : event ∉ s.events := fun hin ↦ hfresh event hin rfl
  rw [coherent_iff_foremost hindexed]
  rcases Nat.lt_or_ge s.events.length MAX_EVENTS with hfew | hmany
  · rw [dropOldest_of_le (by rw [hevents, hperm.length_eq]; exact hfew)]
    exact iff_of_true hinserted fun _ hlength ↦ absurd hlength (Nat.ne_of_lt hfew)
  · have hfull : s.events.length = MAX_EVENTS := Nat.le_antisymm h.indexed.bounded hmany
    have hchosen : s.latestEventsIndex.length = maxLatest := by
      rw [hforemost.length_eq, hfull]
      rfl
    have hexceeds : maxLatest < (s.store read event).events.length := by
      rw [hevents, hperm.length_eq, List.length_cons, hfull]
      decide
    cases hstore : s.events with
    | nil =>
      rw [hstore] at hfull
      cases hfull
    | cons oldest rest =>
      have hrest : ∀ other ∈ rest, order read oldest ≤ order read other := by
        rw [hstore] at hsorted
        exact (List.pairwise_cons.mp hsorted).1
      have holdest : oldest ∈ s.events := by
        rw [hstore]
        exact List.mem_cons_self
      have hrestLength : rest.length + 1 = MAX_EVENTS := by rw [← hfull, hstore, List.length_cons]
      have hkeeps : Keeps read s (.addEvent event) ↔ (order read oldest ≤ order read event →
          oldest ∈ s.latestEventsIndex → s.latestEventsIndex.getLast? = some oldest ∧
            latestKey read event < latestKey read oldest) := by
        have hle : (eventOrder (read oldest) (read event)).le .zero = true ↔
            order read oldest ≤ order read event := by
          rw [eventOrder_le_zero, decide_eq_true_iff]
          rfl
        have hlt : ¬(eventOrder (read event) (read oldest)).le .zero = true ↔
            latestKey read event < latestKey read oldest := by rw [← latestKey_le, not_le]
        unfold Keeps
        dsimp only
        rw [hstore, List.head?_cons, ← hle, ← hlt]
        constructor
        · intro hkeeps hbefore hlast
          exact hkeeps hnone (by rw [← hstore, hfull]) oldest rfl hbefore hlast
        · rintro hkeeps - - _ ⟨⟩ hbefore hlast
          exact hkeeps hbefore hlast
      rw [hkeeps]
      rcases lt_or_ge (order read event) (order read oldest) with hfirst | hbefore
      · -- the new event is the oldest one, and the one that is dropped
        have hall : ∀ other ∈ s.events, order read event < order read other := fun other hother ↦ by
          rw [hstore] at hother
          rcases List.mem_cons.mp hother with rfl | hother
          · exact hfirst
          · exact hfirst.trans_le (hrest other hother)
        have hcons : (s.store read event).events = event :: s.events := by
          rw [hevents, inserted, List.filter_eq_nil_iff.mpr fun other hother ↦ by
            simpa using hall other hother, List.filter_eq_self.mpr fun other hother ↦
            decide_eq_true (hall other hother), List.nil_append]
        obtain ⟨hdropped, hlast⟩ := dropOldest_of_one hcons hfull
        have hout : event ∉ (s.store read event).latestEventsIndex := by
          rw [hlatest, inserted_eq_concat fun other hother ↦ (hall other (hforemost.subset hother)).le,
            List.take_left' hchosen]
          exact fun hmem ↦ hin (hforemost.subset hmem)
        have herase := hinserted.erase_iff (hcons ▸ List.mem_cons_self) hexceeds
        rw [hcons, List.erase_cons_head] at herase
        rw [hdropped, hlast, herase]
        exact iff_of_true hout fun hle ↦ absurd hle hfirst.not_ge
      · -- the oldest event is dropped for the new one
        have hcons : (s.store read event).events = oldest :: inserted (order read) event rest := by
          have hkept : (oldest :: rest).filter (order read · ≤ order read event) =
              oldest :: rest.filter (order read · ≤ order read event) :=
            List.filter_cons_of_pos (decide_eq_true hbefore)
          have hleft : (oldest :: rest).filter (order read event < order read ·) =
              rest.filter (order read event < order read ·) :=
            List.filter_cons_of_neg (by simpa using hbefore)
          rw [hevents, hstore, inserted, hkept, hleft, List.cons_append, inserted]
        have hlength : (inserted (order read) event rest).length = MAX_EVENTS := by
          have hlength := congrArg List.length hcons
          rw [hevents, hperm.length_eq, List.length_cons, List.length_cons, hfull] at hlength
          omega
        obtain ⟨hdropped, hlast⟩ := dropOldest_of_one hcons hlength
        have herase := hinserted.erase_iff (hcons ▸ List.mem_cons_self) hexceeds
        rw [hcons, List.erase_cons_head] at herase
        have hmem := mem_take_inserted (x := event) hforemost.ascending
          (hforemost.nodup h.indexed.indexed.nodup) (fun heq ↦ hin (heq ▸ holdest) : oldest ≠ event)
        rw [hchosen, ← hlatest] at hmem
        rw [hdropped, hlast, herase, hmem]
        constructor
        · intro hnot _ hmem
          by_contra hlate
          exact hnot ⟨hmem, hlate⟩
        · exact fun himp hmem ↦ hmem.2 (himp hbefore hmem.1)

/-- A step from a coherent store keeps it so exactly if it keeps the latest events. -/
theorem Coherent.step_iff (h : Coherent read s) (call : Call Obj) :
    Coherent read (step read s call) ↔ Keeps read s call := by
  cases call with
  | addEvent event =>
    cases hfound : s.eventIdentityIndex (eventIdentityKey (read event)) with
    | none =>
      have hstep : step read s (.addEvent event) = (s.store read event).dropOldest read := by
        unfold step EventStore.addEvent
        dsimp only
        rw [hfound]
      rw [hstep]
      exact h.store_iff hfound
    | some existing =>
      refine iff_of_true ?_ fun hnone ↦ ?_
      · unfold step EventStore.addEvent
        dsimp only
        rw [hfound]
        dsimp only
        split
        · exact h
        · exact h.replace hfound
      · rw [show s.eventIdentityIndex (identity read event) = some existing from hfound] at hnone
        cases hnone
  | clearEventsForRun runId =>
    rw [coherent_iff_foremost (h.indexed.step _)]
    refine (h.foremost.filter_iff h.indexed.indexed.nodup _).trans ?_
    simp only [decide_eq_true_iff]
    exact Iff.rfl
  | clearAll =>
    exact iff_of_true ((coherent_iff_foremost indexed_empty).mpr (.nil _ _)) trivial

/-- All is kept together throughout a run exactly if every step keeps the latest events. -/
theorem coherent_throughout_iff (read : Obj → AgentEvent) (calls : List (Call Obj)) :
    (∀ front, front <+: calls → Coherent read (after read front)) ↔
      ∀ front call, front ++ [call] <+: calls → Keeps read (after read front) call := by
  have hafter (front : List (Call Obj)) (call : Call Obj) :
      after read (front ++ [call]) = step read (after read front) call := by
    rw [after, List.foldl_append]
    rfl
  constructor
  · intro hcoherent front call hfront
    rw [← (hcoherent front ((List.prefix_append _ _).trans hfront)).step_iff, ← hafter]
    exact hcoherent _ hfront
  · intro hkeeps front
    induction front using List.reverseRecOn with
    | nil => exact fun _ ↦ (coherent_iff_foremost indexed_empty).mpr (.nil _ _)
    | append_singleton front call ih =>
      intro hfront
      rw [hafter, (ih ((List.prefix_append _ _).trans hfront)).step_iff]
      exact hkeeps front call hfront

/-- An event of one run, and later ones of another run. -/
def sampleRead (n : Nat) : AgentEvent where
  runId := if n = 0 then "a" else "b"
  sessionId := "s"
  frameIndex := ⟨.zero, by decide⟩
  ptsMs := ⟨.zero, by decide⟩
  eventType := .sceneCut
  confidence := ⟨.one, by decide⟩
  description := ""
  timestampMs := if h : (F64.ofNat n).isFinite = true then ⟨.ofNat n, h⟩ else ⟨.zero, by decide⟩

/-- Twenty later events are cleared: the one that is left is not among the latest. -/
theorem cleared_run_leaves_gap : ¬Coherent sampleRead
    (after sampleRead ((List.range 21).map .addEvent ++ [.clearEventsForRun "b"])) := by
  intro h
  have hlength := h.latestFirst.length_eq
  have hgap : (after sampleRead
      ((List.range 21).map .addEvent ++ [.clearEventsForRun "b"])).latestEventsIndex.length = 0 ∧
      (after sampleRead
        ((List.range 21).map .addEvent ++ [.clearEventsForRun "b"])).events.length = 1 := by
    decide +kernel
  rw [hgap.1, hgap.2] at hlength
  cases hlength

end Vidarax.Dashboard
