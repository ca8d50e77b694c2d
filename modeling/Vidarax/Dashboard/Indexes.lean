import Vidarax.Dashboard.Events

/-!
# Finding events

Package `ui`, `ui/src/stores/events.ts:70–128,172–213,264–290`. The events of a store are in order, and
what finds them by run and by identity finds exactly them, in every run.
-/

namespace Vidarax.Dashboard

open Vidarax.Base

/-! ### The order of events -/

/-- What events are ordered by. -/
def orderKey (event : AgentEvent) : ℤ ×ₗ ℤ ×ₗ ℤ :=
  toLex (event.timestampMs.val.position,
    toLex (event.ptsMs.val.position, event.frameIndex.val.position))

/-- The sign of a number that is one. -/
structure Signed (d : F64) (x y : Int) : Prop where
  number : d.isNan = false
  neg_iff : d.position < 0 ↔ x < y
  zero_iff : d.position = 0 ↔ x = y

theorem signed_sub (a b : FiniteNumber) : Signed (a.val.sub b.val) a.val.position b.val.position := by
  obtain ⟨hnan, hlt, heq⟩ := F64.position_sub a.property b.property
  exact ⟨hnan, hlt, heq⟩

theorem position_eq_zero_iff (d : F64) : d.position = 0 ↔ d.magnitude = 0 := by
  unfold F64.position
  split <;> omega

theorem orElse_of_zero {d e : F64} (h : d.position = 0) : orElse d e = e :=
  if_pos (.inr ((position_eq_zero_iff d).mp h))

theorem orElse_of_ne_zero {d e : F64} (hnan : d.isNan = false) (h : d.position ≠ 0) :
    orElse d e = d := by
  refine if_neg ?_
  rw [← position_eq_zero_iff, hnan]
  simp [h]

/-- Events are compared by the sign of a number. -/
theorem eventOrder_spec (a b : AgentEvent) : (eventOrder a b).isNan = false ∧
    ((eventOrder a b).position ≤ 0 ↔ orderKey a ≤ orderKey b) ∧
    (0 ≤ (eventOrder a b).position ↔ orderKey b ≤ orderKey a) := by
  have ht := signed_sub a.timestampMs b.timestampMs
  have hp := signed_sub a.ptsMs b.ptsMs
  have hf := signed_sub a.frameIndex b.frameIndex
  unfold eventOrder orderKey
  simp only [Prod.Lex.toLex_le_toLex]
  by_cases htzero : (a.timestampMs.val.sub b.timestampMs.val).position = 0
  · have hteq := ht.zero_iff.mp htzero
    rw [orElse_of_zero htzero]
    by_cases hpzero : (a.ptsMs.val.sub b.ptsMs.val).position = 0
    · have hpeq := hp.zero_iff.mp hpzero
      have hneg := hf.neg_iff
      have hzero := hf.zero_iff
      rw [orElse_of_zero hpzero]
      refine ⟨hf.number, ?_, ?_⟩ <;> omega
    · have hneg := hp.neg_iff
      have hzero := hp.zero_iff
      rw [orElse_of_ne_zero hp.number hpzero]
      refine ⟨hp.number, ?_, ?_⟩ <;> omega
  · have hneg := ht.neg_iff
    have hzero := ht.zero_iff
    rw [orElse_of_ne_zero ht.number htzero, orElse_of_ne_zero ht.number htzero]
    refine ⟨ht.number, ?_, ?_⟩ <;> omega

theorem eventOrder_le_zero (a b : AgentEvent) :
    (eventOrder a b).le .zero = decide (orderKey a ≤ orderKey b) := by
  obtain ⟨hnan, hle, -⟩ := eventOrder_spec a b
  have hzero : F64.zero.isNan = false ∧ F64.zero.position = 0 := by decide
  unfold F64.le
  rw [hnan, hzero.1, hzero.2, decide_eq_decide, ← hle]
  simp

theorem latestOrder_le_zero (a b : AgentEvent) :
    (latestOrder a b).le .zero = decide (orderKey b ≤ orderKey a) := by
  obtain ⟨hnan, -, hge⟩ := eventOrder_spec a b
  have hzero : F64.zero.isNan = false ∧ F64.zero.position = 0 := by decide
  have hneg : (latestOrder a b).position = -(eventOrder a b).position := by
    unfold latestOrder F64.position
    rw [(F64.parts_neg _).1, (F64.parts_neg _).2]
    cases (eventOrder a b).negative <;> simp
  have hnan' : (latestOrder a b).isNan = false := by
    rw [F64.isNan_eq] at hnan ⊢
    rwa [latestOrder, (F64.parts_neg _).1]
  unfold F64.le
  rw [hnan', hzero.1, hzero.2, hneg, decide_eq_decide, ← hge]
  simp

/-- Insertion by any comparison of keys. -/
theorem binaryInsert_eq {α κ : Type} [LinearOrder κ] {key : α → κ} {compare : α → α → F64}
    (hcompare : ∀ a b, (compare a b).le .zero = decide (key a ≤ key b)) {arr : List α}
    (h : Ascending key arr) (item : α) : binaryInsert arr item compare = inserted key item arr := by
  unfold binaryInsert
  split
  · next hlast =>
    refine (inserted_eq_concat fun y hy ↦ ?_).symm
    rcases List.eq_nil_or_concat arr with rfl | ⟨front, last, rfl⟩
    · cases hy
    · rw [List.concat_eq_append] at hy hlast h
      rw [List.getLast?_concat, Option.all_some, hcompare] at hlast
      have hle : key last ≤ key item := of_decide_eq_true hlast
      rcases List.mem_append.mp hy with hy | hy
      · exact ((List.pairwise_append.mp h).2.2 y hy last List.mem_cons_self).trans hle
      · rwa [List.mem_singleton.mp hy]
  · exact h.upperBound_eq item fun y ↦ hcompare y item

/-- Events of the same identity come at the same place. -/
theorem orderKey_eq_of_key {a b : AgentEvent} (h : eventIdentityKey a = eventIdentityKey b) :
    orderKey a = orderKey b := by
  unfold eventIdentityKey at h
  injection h with _ _ hframe hpts _ htimestamp
  unfold orderKey
  rw [hframe, hpts, htimestamp]

/-! ### What is kept together -/

variable {Obj : Type} (read : Obj → AgentEvent)

/-- The identity of an event. -/
def identity (event : Obj) : IdentityKey := eventIdentityKey (read event)

/-- Events of a run. -/
def ofRun (runId : String) (events : List Obj) : List Obj :=
  events.filter fun event ↦ (read event).runId = runId

/-- A list, unless it is empty. -/
def nonEmpty {α : Type} (xs : List α) : Option (List α) := if xs.isEmpty then none else some xs

/-- What finds events by run and by identity finds those of a list. -/
structure IndexedBy (events : List Obj) (s : EventStore Obj) : Prop where
  distinct : (events.map (identity read)).Nodup
  byRunId : ∀ runId, s.eventsByRunId runId = nonEmpty (ofRun read runId events)
  byIdentity : ∀ key event, s.eventIdentityIndex key = some event ↔
    event ∈ events ∧ identity read event = key

/-- Events are in order, not too many, of different identities, and found by run and by
identity. -/
structure Indexed (s : EventStore Obj) : Prop where
  sorted : s.events.Pairwise fun a b ↦ (eventOrder (read a) (read b)).le .zero = true
  bounded : s.events.length ≤ MAX_EVENTS
  indexed : IndexedBy read s.events s

/-! ### Finding events -/

section

variable {read} {s : EventStore Obj} {events : List Obj} {event : Obj}

theorem nonEmpty_nil {α : Type} : nonEmpty ([] : List α) = none := rfl

theorem nonEmpty_of_ne_nil {α : Type} {xs : List α} (h : xs ≠ []) : nonEmpty xs = some xs :=
  if_neg (mt List.isEmpty_iff.mp h)

theorem IndexedBy.nodup (h : IndexedBy read events s) : events.Nodup := h.distinct.of_map

/-- Two events of one identity are one event. -/
theorem IndexedBy.inj (h : IndexedBy read events s) {a b : Obj} (ha : a ∈ events) (hb : b ∈ events)
    (hsame : identity read a = identity read b) : a = b :=
  List.inj_on_of_nodup_map h.distinct ha hb hsame

theorem mem_ofRun {runId : String} : event ∈ ofRun read runId events ↔
    event ∈ events ∧ (read event).runId = runId := by
  rw [ofRun, List.mem_filter, decide_eq_true_iff]

/-- The place of an event in the order. -/
def order (read : Obj → AgentEvent) (event : Obj) : ℤ ×ₗ ℤ ×ₗ ℤ := orderKey (read event)

theorem ascending_iff : Ascending (order read) events ↔
    events.Pairwise fun a b ↦ (eventOrder (read a) (read b)).le .zero = true := by
  simp only [Ascending, order, eventOrder_le_zero, decide_eq_true_iff]

theorem binaryInsert_eventOrder (h : Ascending (order read) events) (event : Obj) :
    binaryInsert events event (fun a b ↦ eventOrder (read a) (read b)) =
      inserted (order read) event events :=
  binaryInsert_eq (fun a b ↦ eventOrder_le_zero (read a) (read b)) h event

/-- An event of a new identity is found. -/
theorem IndexedBy.store (h : IndexedBy read s.events s) (hsorted : Ascending (order read) s.events)
    (hfresh : ∀ other ∈ s.events, identity read other ≠ identity read event) :
    IndexedBy read (inserted (order read) event s.events) (s.store read event) := by
  have hperm := hsorted.perm_inserted event
  refine ⟨(hperm.map _).nodup_iff.mpr ?_, fun runId ↦ ?_, fun key other ↦ ?_⟩
  · refine List.nodup_cons.mpr ⟨fun hmem ↦ ?_, h.distinct⟩
    obtain ⟨other, hother, hsame⟩ := List.mem_map.mp hmem
    exact hfresh other hother hsame
  · unfold EventStore.store
    dsimp only
    by_cases hsame : runId = (read event).runId
    · subst hsame
      have hgetD : (s.eventsByRunId (read event).runId).getD [] =
          ofRun read (read event).runId s.events := by
        rw [h.byRunId]
        cases ofRun read (read event).runId s.events <;> rfl
      have hinserted : ofRun read (read event).runId (inserted (order read) event s.events) =
          inserted (order read) event (ofRun read (read event).runId s.events) :=
        filter_inserted_of_pos (decide_eq_true rfl)
      have hrun : Ascending (order read) (ofRun read (read event).runId s.events) := hsorted.filter _
      rw [Function.update_self, hgetD, binaryInsert_eventOrder hrun, hinserted]
      refine (nonEmpty_of_ne_nil ?_).symm
      exact List.append_ne_nil_of_right_ne_nil _ (List.cons_ne_nil _ _)
    · have hother : ofRun read runId (inserted (order read) event s.events) =
          ofRun read runId s.events :=
        hsorted.filter_inserted_of_neg (by simpa using Ne.symm hsame)
      rw [Function.update_of_ne hsame, h.byRunId, hother]
  · unfold EventStore.store
    dsimp only
    rw [hperm.mem_iff, List.mem_cons]
    change Function.update s.eventIdentityIndex (identity read event) (some event) key = _ ↔ _
    by_cases hsame : key = identity read event
    · rw [hsame, Function.update_self, Option.some.injEq]
      constructor
      · rintro rfl
        exact ⟨.inl rfl, rfl⟩
      · rintro ⟨rfl | hother, hkey⟩
        · rfl
        · exact absurd hkey (hfresh other hother)
    · rw [Function.update_of_ne hsame, h.byIdentity]
      constructor
      · exact fun hother ↦ ⟨.inr hother.1, hother.2⟩
      · rintro ⟨rfl | hother, hkey⟩
        · exact absurd hkey.symm hsame
        · exact ⟨hother, hkey⟩

theorem Indexed.ascending (h : Indexed read s) : Ascending (order read) s.events :=
  ascending_iff.mpr h.sorted

theorem Indexed.fresh (h : Indexed read s) (hnone : s.eventIdentityIndex (identity read event) = none) :
    ∀ other ∈ s.events, identity read other ≠ identity read event := by
  intro other hother hsame
  rw [(h.indexed.byIdentity _ _).mpr ⟨hother, hsame⟩] at hnone
  cases hnone

/-- A new event is stored. -/
theorem indexed_store (hsorted : Ascending (order read) s.events) (h : IndexedBy read s.events s)
    (hfresh : ∀ other ∈ s.events, identity read other ≠ identity read event) :
    (s.store read event).events = inserted (order read) event s.events ∧
      IndexedBy read (s.store read event).events (s.store read event) := by
  have hevents : (s.store read event).events = inserted (order read) event s.events :=
    binaryInsert_eventOrder hsorted event
  refine ⟨hevents, ?_⟩
  rw [hevents]
  exact h.store hsorted hfresh

/-- The identities of a run are deleted. -/
theorem foldl_delete (read : Obj → AgentEvent) (runId : String) (events : List Obj)
    (index : IdentityKey → Option Obj) (key : IdentityKey) :
    (events.foldl (fun index event ↦ if (read event).runId = runId then
      Function.update index (eventIdentityKey (read event)) none else index) index) key =
      if ∃ event ∈ ofRun read runId events, identity read event = key then none else index key := by
  induction events generalizing index with
  | nil => simp [ofRun]
  | cons event events ih =>
    rw [List.foldl_cons, ih]
    by_cases hrun : (read event).runId = runId
    · have hofRun : ofRun read runId (event :: events) = event :: ofRun read runId events :=
        List.filter_cons_of_pos (decide_eq_true hrun)
      rw [if_pos hrun, hofRun]
      by_cases hkey : identity read event = key
      · rw [if_pos (show ∃ other ∈ event :: ofRun read runId events, identity read other = key from
          ⟨event, List.mem_cons_self, hkey⟩)]
        split
        · rfl
        · rw [← hkey]
          exact Function.update_self _ _ _
      · have hdeleted : Function.update index (eventIdentityKey (read event)) none key = index key :=
          Function.update_of_ne (Ne.symm hkey) _ _
        rw [hdeleted]
        simp [hkey]
    · have hofRun : ofRun read runId (event :: events) = ofRun read runId events :=
        List.filter_cons_of_neg (by simpa using hrun)
      rw [if_neg hrun, hofRun]

theorem Indexed.clearEventsForRun (h : Indexed read s) (runId : String) :
    Indexed read (s.clearEventsForRun read runId) := by
  have hsublist : (s.clearEventsForRun read runId).events.Sublist s.events := List.filter_sublist
  refine ⟨h.sorted.sublist hsublist, hsublist.length_le.trans h.bounded,
    h.indexed.distinct.sublist (hsublist.map _), fun other ↦ ?_, fun key event ↦ ?_⟩
  · change Function.update s.eventsByRunId runId none other =
      nonEmpty (ofRun read other (s.events.filter fun event ↦ (read event).runId ≠ runId))
    rw [ofRun, List.filter_filter]
    by_cases hsame : other = runId
    · subst hsame
      rw [Function.update_self, List.filter_eq_nil_iff.mpr, nonEmpty_nil]
      intro event _
      simp
    · rw [Function.update_of_ne hsame, h.indexed.byRunId, ofRun]
      congr 1
      refine List.filter_congr fun event _ ↦ ?_
      by_cases hother : (read event).runId = other
      · simp [hother, hsame]
      · simp [hother]
  · have hevents : event ∈ (s.clearEventsForRun read runId).events ↔
        event ∈ s.events ∧ (read event).runId ≠ runId := by
      change event ∈ s.events.filter _ ↔ _
      rw [List.mem_filter, decide_eq_true_iff]
    have hindex : (s.clearEventsForRun read runId).eventIdentityIndex key =
        if ∃ event ∈ ofRun read runId s.events, identity read event = key then none
        else s.eventIdentityIndex key := foldl_delete read runId s.events _ key
    rw [hevents, hindex]
    split
    · next hcleared =>
      obtain ⟨cleared, hin, hkey⟩ := hcleared
      obtain ⟨hin, hrun⟩ := mem_ofRun.mp hin
      refine ⟨nofun, fun hevent ↦ absurd ?_ hevent.1.2⟩
      rw [h.indexed.inj hevent.1.1 hin (hevent.2.trans hkey.symm), hrun]
    · next hkept =>
      rw [h.indexed.byIdentity]
      constructor
      · rintro ⟨hin, hkey⟩
        exact ⟨⟨hin, fun hrun ↦ hkept ⟨event, mem_ofRun.mpr ⟨hin, hrun⟩, hkey⟩⟩, hkey⟩
      · exact fun hevent ↦ ⟨hevent.1.1, hevent.2⟩

theorem indexed_empty : Indexed read (.empty : EventStore Obj) :=
  ⟨List.Pairwise.nil, Nat.zero_le _, List.nodup_nil, fun _ ↦ rfl, by simp [EventStore.empty]⟩

variable [DecidableEq Obj]

theorem ofRun_erase_of_ne {runId : String} (h : (read event).runId ≠ runId) (hnodup : events.Nodup) :
    ofRun read runId (events.erase event) = ofRun read runId events := by
  rw [hnodup.erase_eq_filter, ofRun, List.filter_filter, ofRun]
  refine List.filter_congr fun other _ ↦ ?_
  by_cases hrun : (read other).runId = runId
  · have hne : other ≠ event := fun heq ↦ h (heq ▸ hrun)
    simp [hrun, hne]
  · simp [hrun]

theorem ofRun_erase (runId : String) (hnodup : events.Nodup) :
    ofRun read runId (events.erase event) = (ofRun read runId events).erase event := by
  rw [hnodup.erase_eq_filter, ofRun, ofRun, (hnodup.filter _).erase_eq_filter, List.filter_filter,
    List.filter_filter]
  simp only [Bool.and_comm]

/-- An event that is forgotten is not found any more. -/
theorem IndexedBy.forget (h : IndexedBy read events s) (hmem : event ∈ events) :
    IndexedBy read (events.erase event) (s.forget read (identity read event) event) := by
  have hnodup := h.nodup
  refine ⟨h.distinct.sublist (List.erase_sublist.map _), fun runId ↦ ?_, fun key other ↦ ?_⟩
  · have hrun : event ∈ ofRun read (read event).runId events := mem_ofRun.mpr ⟨hmem, rfl⟩
    have hfound : s.eventsByRunId (read event).runId = some (ofRun read (read event).runId events) := by
      rw [h.byRunId, nonEmpty_of_ne_nil (List.ne_nil_of_mem hrun)]
    unfold EventStore.forget
    dsimp only
    rw [hfound]
    dsimp only
    by_cases hsame : runId = (read event).runId
    · subst hsame
      rw [Function.update_self, ofRun_erase _ hnodup]
      split
      · next hnil => rw [hnil, nonEmpty_nil]
      · next hne => exact (nonEmpty_of_ne_nil hne).symm
    · rw [Function.update_of_ne hsame, h.byRunId, ofRun_erase_of_ne (Ne.symm hsame) hnodup]
  · unfold EventStore.forget
    dsimp only
    rw [hnodup.mem_erase_iff]
    by_cases hsame : key = identity read event
    · rw [hsame, Function.update_self]
      refine ⟨nofun, fun hother ↦ absurd (h.inj hother.1.2 hmem hother.2) hother.1.1⟩
    · rw [Function.update_of_ne hsame, h.byIdentity]
      constructor
      · rintro ⟨hother, hkey⟩
        exact ⟨⟨fun heq ↦ hsame (by rw [← hkey, heq]), hother⟩, hkey⟩
      · exact fun hother ↦ ⟨hother.1.2, hother.2⟩

/-- The oldest events are not found any more. -/
theorem IndexedBy.forget_all {dropped rest : List Obj} (h : IndexedBy read (dropped ++ rest) s) :
    IndexedBy read rest (dropped.foldl (fun s event ↦ s.forget read (eventIdentityKey (read event)) event)
      s) := by
  induction dropped generalizing s with
  | nil => exact h
  | cons event dropped ih =>
    have hforgot := h.forget (List.mem_cons_self : event ∈ event :: (dropped ++ rest))
    rw [List.cons_append, List.erase_cons_head] at hforgot
    exact ih hforgot

theorem events_forget_all (dropped : List Obj) :
    (dropped.foldl (fun s event ↦ s.forget read (eventIdentityKey (read event)) event) s).events =
      s.events := by
  induction dropped generalizing s with
  | nil => rfl
  | cons event dropped ih => exact ih

/-- With the oldest events dropped there are not too many. -/
theorem indexed_dropOldest (hsorted : Ascending (order read) s.events)
    (h : IndexedBy read s.events s) : Indexed read (s.dropOldest read) := by
  have hevents : (s.dropOldest read).events = s.events.drop (s.events.length - MAX_EVENTS) := by
    unfold EventStore.dropOldest
    dsimp only
    rw [events_forget_all]
  have hdropped : IndexedBy read (s.events.drop (s.events.length - MAX_EVENTS))
      (s.dropOldest read) := by
    have hall : IndexedBy read (s.events.take (s.events.length - MAX_EVENTS) ++
        s.events.drop (s.events.length - MAX_EVENTS))
        { s with events := s.events.drop (s.events.length - MAX_EVENTS) } := by
      rw [List.take_append_drop]
      exact ⟨h.distinct, h.byRunId, h.byIdentity⟩
    have hforgot := hall.forget_all
    unfold EventStore.dropOldest
    exact hforgot
  refine ⟨?_, ?_, ?_⟩
  · rw [hevents, ← ascending_iff]
    exact hsorted.sublist (List.drop_sublist _ _)
  · rw [hevents, List.length_drop]
    omega
  · rw [hevents]
    exact hdropped

/-- The store without the event that is replaced. -/
theorem Indexed.removeExisting (h : Indexed read s) {existing : Obj}
    (hsome : s.eventIdentityIndex (identity read event) = some existing) :
    existing ∈ s.events ∧ identity read existing = identity read event ∧
      Ascending (order read) (s.removeExisting read (identity read event) existing).events ∧
      IndexedBy read (s.removeExisting read (identity read event) existing).events
        (s.removeExisting read (identity read event) existing) ∧
      ∀ other ∈ (s.removeExisting read (identity read event) existing).events,
        identity read other ≠ identity read event := by
  obtain ⟨hmem, hsame⟩ := (h.indexed.byIdentity _ _).mp hsome
  refine ⟨hmem, hsame, h.ascending.sublist List.erase_sublist, ?_, fun other hother heq ↦ ?_⟩
  · rw [← hsame]
    have hforgot := h.indexed.forget hmem
    exact ⟨hforgot.distinct, hforgot.byRunId, hforgot.byIdentity⟩
  · obtain ⟨hne, hin⟩ := h.indexed.nodup.mem_erase_iff.mp hother
    exact hne (h.indexed.inj hin hmem (heq.trans hsame.symm))

theorem Indexed.addEvent (h : Indexed read s) (event : Obj) : Indexed read (s.addEvent read event) := by
  unfold EventStore.addEvent
  dsimp only
  cases hfound : s.eventIdentityIndex (eventIdentityKey (read event)) with
  | none =>
    obtain ⟨hevents, hstored⟩ := indexed_store h.ascending h.indexed (h.fresh hfound)
    refine indexed_dropOldest ?_ hstored
    rw [hevents]
    exact h.ascending.inserted event
  | some existing =>
    dsimp only
    split
    · exact h
    · obtain ⟨-, -, hsorted, hremoved, hfresh⟩ := h.removeExisting hfound
      obtain ⟨hevents, hstored⟩ := indexed_store hsorted hremoved hfresh
      refine indexed_dropOldest ?_ hstored
      change Ascending _ (EventStore.store read (s.removeExisting read (identity read event) existing)
        event).events
      rw [hevents]
      exact hsorted.inserted event

theorem Indexed.step (h : Indexed read s) (call : Call Obj) : Indexed read (step read s call) := by
  cases call with
  | addEvent event => exact h.addEvent event
  | clearEventsForRun runId => exact h.clearEventsForRun runId
  | clearAll => exact indexed_empty

end

end Vidarax.Dashboard
