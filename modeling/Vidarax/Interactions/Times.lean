import Vidarax.Interactions.Reader

/-!
# The times of interactions

Package `vidarax-api`, `handlers.rs:1733,2619–2693`. The journaled event of a chunk does not have
the times that the reader looks for, and the reader falls back on the clock of the writer. An item
then has the times of its chunk exactly when the clock showed them.
-/

namespace Vidarax.Interactions

open Base Json

/-- The chunk index of a payload. -/
def chunkIndexOf (event : TimelineEvent) : Option Nat :=
  (event.payload.get "chunk_index").bind asU64

/-- The last event that closes a chunk with an index, of any request. -/
def lastGenerated (events : List TimelineEvent) (idx : Nat) : Option TimelineEvent :=
  ((events.filter (·.kind = .semanticChunkGenerated)).filter (chunkIndexOf · = some idx)).getLast?

/-- When the last event that closes a chunk with the index was appended, or this event itself. -/
def stamp (events : List TimelineEvent) (event : TimelineEvent) (idx : Nat) : UInt64 :=
  ((lastGenerated events idx).getD event).ptsMs

/-- An item brings its times, or it is an object and the clock showed those of the chunk. -/
def Fits (prep : ChunkPrep) (shown : UInt64) (raw : Json) : Prop :=
  (raw.get "pts_start_ms" = none → raw.IsObject ∧ shown = prep.ptsStartMs) ∧
    (raw.get "pts_end_ms" = none → raw.IsObject ∧ shown = prep.ptsEndMs)

/-! ### Events -/

/-- What holds of every event of a run. -/
def Entry.WellFormed (entry : Entry) : Prop :=
  match entry.event.kind with
  | .semanticChunkInferred =>
    ∃ idx prep, entry.chunk = some (idx, prep) ∧ chunkIndexOf entry.event = some idx
  | .semanticChunkGenerated =>
    (∃ idx, chunkIndexOf entry.event = some idx) ∧
      entry.event.payload.get "pts_start_ms" = none ∧ entry.event.payload.get "pts_end_ms" = none
  | .other => True

theorem asU64_whole_ofNat {n : Nat} (h : n < 2 ^ 64) : asU64 (whole (.ofNat n)) = some n := by
  rw [whole, asU64, UInt64.toNat_ofNat_of_lt' h]

theorem lt_of_chunk {request : Request} {idx : Nat} {prep : ChunkPrep}
    (h : request.chunks[idx]? = some prep) : idx < 2 ^ 64 := by
  have hlt := (List.getElem?_eq_some_iff.mp h).1
  have hfew := request.few
  omega

theorem get_insertSome {details : Json} {key other : String} (h : other ≠ key)
    (value : Option Json) : (insertSome details key value).get other = details.get other := by
  cases value with
  | none => rfl
  | some value => exact get_insert_ne h

theorem get_insertMedia (provider : Option String) (details : Json)
    (media : SemanticMediaEvidence) :
    (insertMedia provider details media).get "chunk_index" = details.get "chunk_index" := by
  unfold insertMedia
  split
  · simp only [get_insert_ne, ne_eq, String.reduceEq, not_false_eq_true]
  · simp only [get_insert_ne, ne_eq, String.reduceEq, not_false_eq_true]

/-- What the request adds to a payload does not change the chunk index. -/
theorem get_inferredPayload {result : ChunkSemanticResult} {idx : Nat} {request : Request}
    {payload : Json} (h : inferredPayload result idx request = some payload) :
    payload.get "chunk_index" = some (whole (.ofNat idx)) := by
  obtain ⟨details, hdetails, rfl⟩ := Option.map_eq_some_iff.mp h
  have hindex : details.get "chunk_index" = some (whole (.ofNat idx)) := by
    unfold eventPayload at hdetails
    split at hdetails
    · rw [← Option.some.inj hdetails]
      rfl
    · exact absurd hdetails.symm (Option.some_ne_none _)
  rw [get_insertSome (by decide), get_insertSome (by decide)]
  split
  · rw [get_insertMedia, hindex]
  · exact hindex

variable {s s' : Run}

theorem Run.Step.wellFormed (hstep : s.Step s') (h : ∀ entry ∈ s.entries, entry.WellFormed) :
    ∀ entry ∈ s'.entries, entry.WellFormed := by
  intro entry hentry
  cases hstep with
  | begin request => exact h entry hentry
  | infer i idx p prep result nowMs hrequest hprep hfirst =>
    rcases List.mem_append.mp hentry with hold | hnew
    · exact h entry hold
    · split at hnew
      · next payload hpayload =>
        rw [List.mem_singleton.mp hnew]
        refine ⟨idx, prep, rfl, ?_⟩
        rw [chunkIndexOf, get_inferredPayload hpayload]
        exact asU64_whole_ofNat (lt_of_chunk hprep)
      · exact absurd hnew List.not_mem_nil
  | generate i p prep processMs nowMs hrequest hdone hprep =>
    rcases List.mem_append.mp hentry with hold | hnew
    · exact h entry hold
    · rw [List.mem_singleton.mp hnew]
      exact ⟨⟨p.generated, asU64_whole_ofNat (lt_of_chunk hprep)⟩, rfl, rfl⟩
  | other nowMs payload =>
    rcases List.mem_append.mp hentry with hold | hnew
    · exact h entry hold
    · rw [List.mem_singleton.mp hnew]
      trivial

theorem wellFormed_of_reachable (h : s.Reachable) : ∀ entry ∈ s.entries, entry.WellFormed := by
  induction h with
  | refl => exact fun _ hentry ↦ absurd hentry List.not_mem_nil
  | tail _ hstep ih => exact hstep.wellFormed ih

/-! ### Timing -/

/-- The times of an index are those of the last event with it. -/
theorem foldl_timingStep {generated : List TimelineEvent}
    (h : ∀ event ∈ generated, (∃ idx, chunkIndexOf event = some idx) ∧
      event.payload.get "pts_start_ms" = none ∧ event.payload.get "pts_end_ms" = none) (idx : Nat) :
    (generated.foldl timingStep ∅)[idx]? =
      (generated.filter (chunkIndexOf · = some idx)).getLast?.map
        fun event ↦ (event.ptsMs.toNat, event.ptsMs.toNat) := by
  induction generated using List.reverseRecOn with
  | nil => exact Std.ExtTreeMap.getElem?_empty
  | append_singleton generated event ih =>
    obtain ⟨⟨k, hk⟩, hstart, hend⟩ := h event (List.mem_append_right _ (List.mem_singleton_self _))
    have ih := ih fun e he ↦ h e (List.mem_append_left _ he)
    have hstep (timing : Timing) : timingStep timing event =
        timing.insert k (event.ptsMs.toNat, event.ptsMs.toNat) := by
      rw [timingStep, ← chunkIndexOf, hk, hstart, hend]
      rfl
    rw [List.foldl_append, List.foldl_cons, List.foldl_nil, hstep, List.filter_append,
      List.filter_cons, List.filter_nil, hk, Std.ExtTreeMap.getElem?_insert]
    by_cases hidx : k = idx
    · rw [if_pos (by rw [hidx, Std.compare_self]), if_pos (by simp [hidx]), List.getLast?_concat]
      rfl
    · rw [if_neg (by rw [Std.compare_eq_iff_eq]; exact hidx), if_neg (by simpa using hidx),
        List.append_nil, ih]

theorem chunkTiming_get (h : ∀ entry ∈ s.entries, entry.WellFormed) (idx : Nat) :
    (chunkTiming s.events)[idx]? = (lastGenerated s.events idx).map
      fun event ↦ (event.ptsMs.toNat, event.ptsMs.toNat) := by
  refine foldl_timingStep (fun event hevent ↦ ?_) idx
  obtain ⟨hmem, hkind⟩ := List.mem_filter.mp hevent
  obtain ⟨entry, hentry, rfl⟩ := List.mem_map.mp hmem
  have hwell := h entry hentry
  rw [Entry.WellFormed, of_decide_eq_true hkind] at hwell
  exact hwell

/-! ### Items -/

theorem whole_inj {a b : UInt64} : whole a = whole b ↔ a = b := by
  rw [whole, whole, number.injEq, JsonNumber.posInt.injEq]

/-- An item gets the time shown where it brings none. -/
theorem timed_enrich_iff (prep : ChunkPrep) (chunkIndex : Option Nat) (shown : UInt64)
    (raw : Json) :
    Timed prep raw (enrich chunkIndex (shown.toNat, shown.toNat) raw) ↔ Fits prep shown raw := by
  have hobject : (raw.orInsert "chunk_index" (nullable (whole <| .ofNat ·) chunkIndex)).IsObject ↔
      raw.IsObject := isObject_orInsert
  have hstart : Carries "pts_start_ms" (whole prep.ptsStartMs) raw
      (enrich chunkIndex (shown.toNat, shown.toNat) raw) ↔
        (raw.get "pts_start_ms" = none → raw.IsObject ∧ shown = prep.ptsStartMs) := by
    refine imp_congr_right fun hnone ↦ ?_
    rw [enrich, get_orInsert_ne (by decide), get_orInsert_iff, hobject, UInt64.ofNat_toNat,
      whole_inj]
    rw [get_orInsert_ne (by decide)]
    exact hnone
  have hend : Carries "pts_end_ms" (whole prep.ptsEndMs) raw
      (enrich chunkIndex (shown.toNat, shown.toNat) raw) ↔
        (raw.get "pts_end_ms" = none → raw.IsObject ∧ shown = prep.ptsEndMs) := by
    refine imp_congr_right fun hnone ↦ ?_
    rw [enrich, get_orInsert_iff, isObject_orInsert, hobject, UInt64.ofNat_toNat, whole_inj]
    rw [get_orInsert_ne (by decide), get_orInsert_ne (by decide)]
    exact hnone
  exact and_congr hstart hend

theorem timed_legacyItem_iff {prep : ChunkPrep} {payload item : Json} {chunkIndex : Option Nat}
    {shown : UInt64}
    (hitem : legacyItem payload chunkIndex (shown.toNat, shown.toNat) = some item) :
    Timed prep (object []) item ↔ Fits prep shown (object []) := by
  rw [legacyItem] at hitem
  split at hitem
  · exact absurd hitem.symm (Option.some_ne_none _)
  have hstart : item.get "pts_start_ms" = some (whole shown) := by
    rw [← Option.some.inj hitem, UInt64.ofNat_toNat]
    rfl
  have hend : item.get "pts_end_ms" = some (whole shown) := by
    rw [← Option.some.inj hitem, UInt64.ofNat_toNat]
    rfl
  rw [Timed, Carries, Carries, hstart, hend, Option.some.injEq, Option.some.injEq, whole_inj,
    whole_inj, Fits, and_iff_right (show (object []).IsObject from trivial),
    and_iff_right (show (object []).IsObject from trivial)]

/-- Whether an event has a legacy item does not depend on its times. -/
theorem legacyItem_eq_none (payload : Json) (chunkIndex chunkIndex' : Option Nat)
    (pts pts' : Nat × Nat) :
    legacyItem payload chunkIndex pts = none ↔ legacyItem payload chunkIndex' pts' = none := by
  rw [legacyItem, legacyItem]
  split
  · exact Iff.rfl
  · exact iff_of_false (Option.some_ne_none _) (Option.some_ne_none _)

/-- The items of an event have the times of the chunk when all items fit. -/
theorem timed_interactionsOf_iff {timing : Timing} {event : TimelineEvent} {idx : Nat}
    (prep : ChunkPrep) {shown : UInt64} (hindex : chunkIndexOf event = some idx)
    (hshown : timing[idx]?.getD (event.ptsMs.toNat, event.ptsMs.toNat) =
      (shown.toNat, shown.toNat)) :
    List.Forall₂ (Timed prep) (rawItems event.payload) (interactionsOf timing event) ↔
      ∀ raw ∈ rawItems event.payload, Fits prep shown raw := by
  have hpts : ((some idx).bind (timing[·]?)).getD (event.ptsMs.toNat, event.ptsMs.toNat) =
      (shown.toNat, shown.toNat) := hshown
  rw [interactionsOf, ← chunkIndexOf, hindex, hpts, rawItems]
  split
  · next items hitems =>
    rw [List.forall₂_map_right_iff, List.forall₂_same]
    exact forall₂_congr fun raw _ ↦ timed_enrich_iff prep _ shown raw
  · next members hmembers =>
    rw [List.forall₂_cons, and_iff_left .nil, timed_enrich_iff, List.forall_mem_singleton]
  · cases hitem : legacyItem event.payload (some idx) (shown.toNat, shown.toNat) with
    | none =>
      rw [(legacyItem_eq_none ..).mp hitem]
      exact iff_of_true .nil fun _ hraw ↦ absurd hraw List.not_mem_nil
    | some item =>
      obtain ⟨item', hitem'⟩ := Option.ne_none_iff_exists'.mp
        (mt (legacyItem_eq_none event.payload none (some idx) (0, 0)
          (shown.toNat, shown.toNat)).mp (hitem ▸ Option.some_ne_none item))
      rw [hitem', Option.toList_some, Option.toList_some, List.map_singleton, List.forall₂_cons,
        and_iff_left .nil, timed_legacyItem_iff hitem, List.forall_mem_singleton]

/-! ### The interactions of a run -/

/-- The items of all events read for a query have the times of their chunks. -/
def AllTimed (s : Run) (index : Option String) : Prop :=
  ∀ entry ∈ s.entries, Selected index entry.event → ∃ idx prep, entry.chunk = some (idx, prep) ∧
    List.Forall₂ (Timed prep) (rawItems entry.event.payload)
      (interactionsOf (chunkTiming s.events) entry.event)

/-- Wherever an item lacks a time, the clock showed that of the chunk. -/
def ClockFits (s : Run) (index : Option String) : Prop :=
  ∀ entry ∈ s.entries, Selected index entry.event → ∀ idx prep, entry.chunk = some (idx, prep) →
    ∀ raw ∈ rawItems entry.event.payload, Fits prep (stamp s.events entry.event idx) raw

/-- The answer has the items of the events read, in their order. -/
theorem getInteractions_eq (s : Run) (index : Option String) :
    getInteractions index s.events = (s.entries.filter (Selected index ·.event)).flatMap
      fun entry ↦ interactionsOf (chunkTiming s.events) entry.event := by
  rw [getInteractions, Run.events, List.filter_map, List.flatMap_map]
  rfl

theorem allTimed_iff (hwell : ∀ entry ∈ s.entries, entry.WellFormed) (index : Option String) :
    AllTimed s index ↔ ClockFits s index := by
  refine forall₂_congr fun entry hentry ↦ forall_congr' fun hselected ↦ ?_
  have hentryWell := hwell entry hentry
  rw [Entry.WellFormed, hselected.1] at hentryWell
  obtain ⟨idx, prep, hchunk, hindex⟩ := hentryWell
  have hshown : (chunkTiming s.events)[idx]?.getD
      (entry.event.ptsMs.toNat, entry.event.ptsMs.toNat) =
        ((stamp s.events entry.event idx).toNat, (stamp s.events entry.event idx).toNat) := by
    rw [chunkTiming_get hwell, stamp]
    cases lastGenerated s.events idx with
    | none => rfl
    | some event => rfl
  have hiff := timed_interactionsOf_iff prep hindex hshown
  constructor
  · rintro ⟨idx', prep', hchunk', htimed⟩ idx'' prep'' hchunk''
    obtain ⟨rfl, rfl⟩ := Prod.mk.inj (Option.some.inj (hchunk.symm.trans hchunk'))
    obtain ⟨rfl, rfl⟩ := Prod.mk.inj (Option.some.inj (hchunk.symm.trans hchunk''))
    exact hiff.mp htimed
  · intro hfits
    exact ⟨idx, prep, hchunk, hiff.mpr (hfits idx prep hchunk)⟩

/-- The answer has the items of the events read, and they have the times of their chunks exactly
when the writer's clock showed them. -/
theorem interactions_timed_iff (s : Run) (h : s.Reachable) (index : Option String) :
    (getInteractions index s.events = (s.entries.filter (Selected index ·.event)).flatMap
      fun entry ↦ interactionsOf (chunkTiming s.events) entry.event) ∧
    (AllTimed s index ↔ ClockFits s index) :=
  ⟨getInteractions_eq s index, allTimed_iff (wellFormed_of_reachable h) index⟩

/-! ### A request of one chunk -/

/-- A chunk of one frame. -/
def samplePrep : ChunkPrep := ⟨5, 5, 1⟩

/-- A request of one chunk. -/
def sampleRequest : Request := ⟨"req-1", "stream-0", none, [samplePrep], by decide⟩

/-- An answer in a schema of the caller. -/
def sampleResult : ChunkSemanticResult :=
  { ChunkSemanticResult.none with
    attempted := true
    rawOutput := some (object [("custom", string "ok")]) }

/-- The request is journaled while the clock shows a time. -/
def sampleRun (nowMs : UInt64) : Run where
  requests := [⟨sampleRequest, [some sampleResult], 1⟩]
  entries := (inferredPayload sampleResult 0 sampleRequest).toList.map
      (fun payload ↦ ⟨⟨.semanticChunkInferred, nowMs, payload⟩, some (0, samplePrep)⟩) ++
    [⟨⟨.semanticChunkGenerated, nowMs, generatedPayload sampleRequest 0 samplePrep sampleResult 0⟩,
      some (0, samplePrep)⟩]

theorem reachable_sampleRun (nowMs : UInt64) : (sampleRun nowMs).Reachable := by
  have hbegin : Run.Reachable ⟨[⟨sampleRequest, [none], 0⟩], []⟩ :=
    .single (.begin sampleRequest)
  have hinfer := hbegin.tail
    (.infer 0 0 ⟨sampleRequest, [none], 0⟩ samplePrep sampleResult nowMs rfl rfl rfl)
  exact hinfer.tail (.generate 0 ⟨sampleRequest, [some sampleResult], 0⟩ samplePrep 0 nowMs rfl
    (by simp) rfl)

theorem exists_entries_sampleRun : ∃ payload,
    rawItems payload = [object [("custom", string "ok")]] ∧
      ∀ nowMs, (sampleRun nowMs).entries =
        [⟨⟨.semanticChunkInferred, nowMs, payload⟩, some (0, samplePrep)⟩,
          ⟨⟨.semanticChunkGenerated, nowMs,
            generatedPayload sampleRequest 0 samplePrep sampleResult 0⟩, some (0, samplePrep)⟩] :=
  ⟨_, rfl, fun _ ↦ rfl⟩

theorem stamp_sampleRun (nowMs : UInt64) (event : TimelineEvent) :
    stamp (sampleRun nowMs).events event 0 = nowMs := rfl

theorem clockFits_sampleRun (nowMs : UInt64) :
    ClockFits (sampleRun nowMs) none ↔ nowMs = 5 := by
  obtain ⟨payload, hraw, hentries⟩ := exists_entries_sampleRun
  rw [ClockFits, hentries, List.forall_mem_cons, List.forall_mem_singleton]
  constructor
  · rintro ⟨hinferred, -⟩
    have hfits := hinferred ⟨rfl, trivial⟩ 0 samplePrep rfl
    rw [hraw, stamp_sampleRun] at hfits
    exact ((hfits _ (List.mem_singleton_self _)).1 rfl).2
  · rintro rfl
    refine ⟨fun _ idx prep hchunk ↦ ?_, fun hselected ↦ absurd hselected.1 (by decide)⟩
    obtain ⟨rfl, rfl⟩ := Prod.mk.inj (Option.some.inj hchunk)
    rw [hraw, stamp_sampleRun]
    exact List.forall_mem_singleton.mpr ⟨fun _ ↦ ⟨trivial, rfl⟩, fun _ ↦ ⟨trivial, rfl⟩⟩

/-- Of a clock that shows the time of the chunk, the item has its time. -/
theorem interactions_timed_iff_sample : AllTimed (sampleRun 5) none :=
  (interactions_timed_iff (sampleRun 5) (reachable_sampleRun 5) none).2.mpr
    ((clockFits_sampleRun 5).mpr rfl)

/-- The item has the time of day instead of the time of its chunk. -/
theorem interactions_have_clock :
    ¬ ∀ s : Run, s.Reachable → ∀ index, AllTimed s index := by
  intro h
  have hreachable := reachable_sampleRun 1700000000000
  have hfits := (allTimed_iff (wellFormed_of_reachable hreachable) none).mp
    (h _ hreachable none)
  exact absurd ((clockFits_sampleRun 1700000000000).mp hfits) (by decide)

end Vidarax.Interactions
