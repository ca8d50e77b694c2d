import Mathlib.Logic.Relation
import Vidarax.Marker.Lifecycle

/-!
# Markers of a run

Package `vidarax-api`, `handlers.rs:993–1015,1759–1778`. Every call on a run builds its markers and
appends them one by one, and the appends of several calls interleave. The identifiers start anew in
each call, so that they are unique in the run exactly when one call at most has frames.
-/

namespace Vidarax.Marker

open Base

/-- A call of `analyze_run` or `reason_realtime_run` with the frames that it has analysed. -/
structure Call where
  streamId : String
  config : MarkerConfig
  inputs : List MarkerInput
  ordered : inputs.Pairwise (·.frameIndex ≤ ·.frameIndex)

/-- What the call builds. -/
def Call.markers (runId : String) (call : Call) : List SemanticMarker :=
  buildMarkerLifecycle runId call.streamId call.config call.inputs

/-- The calls on a run, each with the markers that it has not appended yet, and the `marker_emitted`
events of the run, each with the number of its call. -/
structure Journal where
  calls : List (Call × List SemanticMarker)
  events : List (Nat × SemanticMarker)

namespace Journal

/-- A call builds its markers, or appends the next one. A call whose append fails goes no
further. -/
inductive Step (runId : String) (s : Journal) : Journal → Prop where
  | build (call : Call) :
      Step runId s { s with calls := s.calls ++ [(call, call.markers runId)] }
  | append (i : Nat) (call : Call) (marker : SemanticMarker) (rest : List SemanticMarker)
      (hcall : s.calls[i]? = some (call, marker :: rest)) :
      Step runId s ⟨s.calls.set i (call, rest), s.events ++ [(i, marker)]⟩

/-- Journals of any run. -/
def Reachable (runId : String) (s : Journal) : Prop :=
  Relation.ReflTransGen (Step runId) ⟨[], []⟩ s

/-- The markers in the journal. -/
def markers (s : Journal) : List SemanticMarker := s.events.map (·.2)

/-- The markers of one call in the journal. -/
def emitted (s : Journal) (i : Nat) : List SemanticMarker :=
  (s.events.filter (·.1 = i)).map (·.2)

/-- Every call has appended all its markers. -/
def Done (s : Journal) : Prop :=
  ∀ (i : Nat) (call : Call) (rest : List SemanticMarker),
    s.calls[i]? = some (call, rest) → rest = []

/-- At most one call has frames. -/
def Single (s : Journal) : Prop :=
  ∀ (i j : Nat) (call call' : Call) (rest rest' : List SemanticMarker),
    s.calls[i]? = some (call, rest) → s.calls[j]? = some (call', rest') →
      call.inputs ≠ [] → call'.inputs ≠ [] → i = j

/-- The lifecycle of the markers of a run. -/
structure Lifecycle (s : Journal) : Prop where
  /-- No identifier is used twice. -/
  distinct : (s.markers.map (·.markerId)).Nodup
  /-- A finalized marker names one marker, the provisional one that it supersedes. -/
  supersedes : ∀ m ∈ s.markers, m.status = .finalized → ∃ earlier, Supersedes m earlier ∧
    s.markers.filter (·.markerId = earlier.markerId) = [earlier]
  /-- The other markers of a call cut its frames into maximal blocks. -/
  blocks : ∀ (i : Nat) (call : Call) (rest : List SemanticMarker), s.calls[i]? = some (call, rest) →
    ∃ blocks, MaximalBlocks call.inputs blocks ∧
      List.Forall₂ Spans (unfinalized (s.emitted i ++ rest)) blocks

/-! ### What a call has appended -/

/-- What a call has appended and what it will append is what it built. -/
structure Inv (runId : String) (s : Journal) : Prop where
  built : ∀ (i : Nat) (call : Call) (rest : List SemanticMarker), s.calls[i]? = some (call, rest) →
    s.emitted i ++ rest = call.markers runId
  known : ∀ event ∈ s.events, event.1 < s.calls.length

variable {runId : String} {s s' : Journal}

theorem emitted_append (s : Journal) (calls : List (Call × List SemanticMarker)) (i j : Nat)
    (marker : SemanticMarker) :
    emitted ⟨calls, s.events ++ [(j, marker)]⟩ i =
      s.emitted i ++ if j = i then [marker] else [] := by
  rw [emitted, List.filter_append, List.map_append, ← emitted]
  split
  · next h => rw [List.filter_cons, if_pos (decide_eq_true h), List.filter_nil, List.map_singleton]
  · next h => rw [List.filter_cons, if_neg (by simpa using h), List.filter_nil, List.map_nil]

theorem Inv.emitted_eq_nil (h : Inv runId s) {i : Nat} (hi : s.calls.length ≤ i) :
    s.emitted i = [] := by
  rw [emitted, List.map_eq_nil_iff, List.filter_eq_nil_iff]
  intro event hevent heq
  exact Nat.not_lt_of_le hi (of_decide_eq_true heq ▸ h.known event hevent)

theorem Inv.step (h : Inv runId s) (hstep : Step runId s s') : Inv runId s' := by
  cases hstep with
  | build call =>
    constructor
    · intro i call' rest hcall
      rw [List.getElem?_append] at hcall
      split at hcall
      · exact h.built i call' rest hcall
      · next hi =>
        have hlen : s.calls.length ≤ i := Nat.le_of_not_lt hi
        obtain ⟨hzero, hlast⟩ := List.getElem?_eq_some_iff.mp hcall
        have hindex : i - s.calls.length = 0 := by simpa using hzero
        simp only [hindex, List.getElem_cons_zero, Prod.mk.injEq] at hlast
        obtain ⟨rfl, rfl⟩ := hlast
        exact congrArg (· ++ call.markers runId) (h.emitted_eq_nil hlen)
    · intro event hevent
      rw [List.length_append]
      exact Nat.lt_add_right _ (h.known event hevent)
  | append j call marker rest hcall =>
    have hj : j < s.calls.length := (List.getElem?_eq_some_iff.mp hcall).1
    constructor
    · intro i call' rest' hcall'
      rw [emitted_append]
      rw [List.getElem?_set] at hcall'
      split at hcall'
      · next hij =>
        subst hij
        rw [Option.some.injEq, Prod.mk.injEq] at hcall'
        obtain ⟨rfl, rfl⟩ := hcall'
        rw [if_pos rfl, List.append_assoc]
        exact h.built j call (marker :: rest) hcall
      · next hij =>
        rw [if_neg hij, List.append_nil]
        exact h.built i call' rest' hcall'
    · intro event hevent
      rw [List.length_set]
      rcases List.mem_append.mp hevent with hevent | hevent
      · exact h.known event hevent
      · rw [List.mem_singleton.mp hevent]
        exact hj

theorem inv_of_reachable (h : Reachable runId s) : Inv runId s := by
  induction h with
  | refl => exact ⟨fun _ _ _ hcall ↦ absurd hcall (by simp), fun _ h ↦ absurd h List.not_mem_nil⟩
  | tail _ hstep ih => exact ih.step hstep

/-! ### Markers of a run -/

/-- A member of a list is the only one with its value when all values differ. -/
private theorem filter_eq_singleton {α β : Type} [DecidableEq β] {f : α → β} {xs : List α}
    (h : (xs.map f).Nodup) {x : α} (hx : x ∈ xs) : xs.filter (f · = f x) = [x] := by
  induction xs with
  | nil => exact absurd hx List.not_mem_nil
  | cons y xs ih =>
    rw [List.map_cons, List.nodup_cons] at h
    rcases List.mem_cons.mp hx with rfl | hx
    · rw [List.filter_cons, if_pos (decide_eq_true rfl), List.filter_eq_nil_iff.mpr]
      intro y hy heq
      exact h.1 (List.mem_map.mpr ⟨y, hy, of_decide_eq_true heq⟩)
    · rw [List.filter_cons, if_neg, ih h.2 hx]
      intro heq
      exact h.1 (List.mem_map.mpr ⟨x, hx, (of_decide_eq_true heq).symm⟩)

theorem Inv.exists_call (h : Inv runId s) {event : Nat × SemanticMarker}
    (hevent : event ∈ s.events) :
    ∃ call rest, s.calls[event.1]? = some (call, rest) ∧ call.inputs ≠ [] := by
  have hget := List.getElem?_eq_getElem (h.known event hevent)
  refine ⟨_, _, hget, fun hnil ↦ ?_⟩
  have hbuilt := h.built _ _ _ hget
  rw [Call.markers, hnil, buildMarkerLifecycle_nil, List.append_eq_nil_iff] at hbuilt
  have hmem : event.2 ∈ s.emitted event.1 :=
    List.mem_map.mpr ⟨event, List.mem_filter.mpr ⟨hevent, decide_eq_true rfl⟩, rfl⟩
  rw [hbuilt.1] at hmem
  exact absurd hmem List.not_mem_nil

/-- With at most one call over frames the journal is a first part of what this call built. -/
theorem Inv.markers_of_single (h : Inv runId s) (hsingle : Single s) :
    s.markers = [] ∨ ∃ call rest, s.markers ++ rest = Call.markers runId call := by
  cases hevents : s.events with
  | nil => exact .inl (List.map_eq_nil_iff.mpr hevents)
  | cons event events =>
    obtain ⟨call, rest, hcall, hinputs⟩ := h.exists_call (hevents ▸ List.mem_cons_self)
    have hall : s.emitted event.1 = s.markers := by
      rw [emitted, markers, List.filter_eq_self.mpr]
      intro other hother
      obtain ⟨call', rest', hcall', hinputs'⟩ := h.exists_call hother
      exact decide_eq_true (hsingle _ _ _ _ _ _ hcall' hcall hinputs' hinputs)
    exact .inr ⟨call, rest, hall ▸ h.built _ _ _ hcall⟩

theorem Inv.blocks (h : Inv runId s) {i : Nat} {call : Call} {rest : List SemanticMarker}
    (hcall : s.calls[i]? = some (call, rest)) :
    ∃ blocks, MaximalBlocks call.inputs blocks ∧
      List.Forall₂ Spans (unfinalized (s.emitted i ++ rest)) blocks := by
  rw [h.built i call rest hcall]
  exact unfinalized_blocks runId call.streamId call.config call.ordered

theorem lifecycle_of_single (h : Inv runId s) (hsingle : Single s) : Lifecycle s := by
  rcases h.markers_of_single hsingle with hnil | ⟨call, rest, hbuilt⟩
  · refine ⟨?_, fun m hm ↦ absurd (hnil ▸ hm) List.not_mem_nil, fun _ _ _ ↦ h.blocks⟩
    rw [hnil]
    exact List.nodup_nil
  · have hdistinct : (s.markers.map (·.markerId)).Nodup := by
      refine (nodup_buildMarkerLifecycle runId call.streamId call.config call.inputs).sublist ?_
      rw [← Call.markers, ← hbuilt]
      exact (List.sublist_append_left _ _).map _
    refine ⟨hdistinct, fun m hm hstatus ↦ ?_, fun _ _ _ ↦ h.blocks⟩
    obtain ⟨before, after, hsplit⟩ := List.append_of_mem hm
    rw [hsplit, List.append_assoc, List.cons_append] at hbuilt
    obtain ⟨earlier, hearlier, hsupersedes⟩ := exists_superseded hbuilt.symm hstatus
    have hmem : earlier ∈ s.markers := hsplit ▸ List.mem_append_left _ hearlier
    exact ⟨earlier, hsupersedes, filter_eq_singleton hdistinct hmem⟩

theorem exists_first_of_done (h : Inv runId s) (hdone : Done s) {i : Nat} {call : Call}
    {rest : List SemanticMarker} (hcall : s.calls[i]? = some (call, rest))
    (hinputs : call.inputs ≠ []) : ∃ m, (i, m) ∈ s.events ∧ m.markerId = markerId 0 := by
  obtain ⟨m, hm, hid⟩ :=
    head_buildMarkerLifecycle runId call.streamId call.config hinputs call.ordered
  have hbuilt := h.built i call rest hcall
  rw [hdone i call rest hcall, List.append_nil] at hbuilt
  rw [← Call.markers, ← hbuilt] at hm
  obtain ⟨event, hevent, rfl⟩ := List.mem_map.mp hm
  obtain ⟨hmem, hindex⟩ := List.mem_filter.mp hevent
  obtain rfl := of_decide_eq_true hindex
  exact ⟨event.2, hmem, hid⟩

/-- Two calls over frames use the first identifier twice. -/
theorem single_of_distinct (h : Inv runId s) (hdone : Done s)
    (hdistinct : (s.markers.map (·.markerId)).Nodup) : Single s := by
  intro i j call call' rest rest' hcall hcall' hinputs hinputs'
  obtain ⟨m, hm, hid⟩ := exists_first_of_done h hdone hcall hinputs
  obtain ⟨m', hm', hid'⟩ := exists_first_of_done h hdone hcall' hinputs'
  rw [markers, List.map_map] at hdistinct
  have heq := List.inj_on_of_nodup_map hdistinct hm hm' (hid.trans hid'.symm)
  exact congrArg Prod.fst heq

/-- The lifecycle of markers holds throughout a run in which at most one call has frames. Once all
calls are done it holds of no other run. -/
theorem lifecycle_iff (runId : String) (s : Journal) (h : Reachable runId s) :
    (Single s → Lifecycle s) ∧ (Done s → (Lifecycle s ↔ Single s)) := by
  have hinv := inv_of_reachable h
  exact ⟨lifecycle_of_single hinv, fun hdone ↦
    ⟨fun hlifecycle ↦ single_of_distinct hinv hdone hlifecycle.distinct,
      lifecycle_of_single hinv⟩⟩

/-- A call over one frame. -/
def sampleCall : Call where
  streamId := "stream-0"
  config := .default
  inputs := [⟨0, 0, "scene_cut", F32.one⟩]
  ordered := List.pairwise_singleton _ _

/-- The marker of the call. -/
def sampleMarker : SemanticMarker where
  markerId := markerId 0
  runId := "run-1"
  streamId := "stream-0"
  eventType := "scene_cut"
  status := .exact
  startFrame := 0
  endFrame := 0
  startPtsMs := 0
  endPtsMs := 0
  confidence := F32.one
  supersedesMarkerId := none

theorem markers_sampleCall : sampleCall.markers "run-1" = [sampleMarker] := by decide

/-- One call and its marker. -/
def sampleJournal : Journal := ⟨[(sampleCall, [])], [(0, sampleMarker)]⟩

theorem reachable_sampleJournal : Reachable "run-1" sampleJournal := by
  have hbuild : Reachable "run-1" ⟨[(sampleCall, [sampleMarker])], []⟩ :=
    .single (markers_sampleCall ▸ Step.build sampleCall)
  exact .tail hbuild (.append 0 sampleCall sampleMarker [] rfl)

/-- The same frame is analysed once more. -/
def repeatedJournal : Journal :=
  ⟨[(sampleCall, []), (sampleCall, [])], [(0, sampleMarker), (1, sampleMarker)]⟩

theorem reachable_repeatedJournal : Reachable "run-1" repeatedJournal := by
  have hbuild : Reachable "run-1"
      ⟨[(sampleCall, []), (sampleCall, [sampleMarker])], [(0, sampleMarker)]⟩ :=
    .tail reachable_sampleJournal (markers_sampleCall ▸ Step.build sampleCall)
  exact .tail hbuild (.append 1 sampleCall sampleMarker [] rfl)

theorem lifecycle_iff_sample :
    Lifecycle sampleJournal ∧ (Lifecycle sampleJournal ↔ Single sampleJournal) := by
  obtain ⟨hsound, hiff⟩ := lifecycle_iff "run-1" sampleJournal reachable_sampleJournal
  have hsingle : Single sampleJournal := by
    intro i j call call' rest rest' hcall hcall' _ _
    have hi := (List.getElem?_eq_some_iff.mp hcall).1
    have hj := (List.getElem?_eq_some_iff.mp hcall').1
    exact (Nat.lt_one_iff.mp hi).trans (Nat.lt_one_iff.mp hj).symm
  have hdone : Done sampleJournal := by
    intro i call rest hcall
    obtain rfl := Nat.lt_one_iff.mp (List.getElem?_eq_some_iff.mp hcall).1
    exact (Prod.mk.inj (Option.some.inj hcall)).2.symm
  exact ⟨hsound hsingle, hiff hdone⟩

/-- Two calls over the same frame use one identifier for two markers. -/
theorem repeated_call_repeats_id :
    ¬ ∀ (runId : String) (s : Journal), Reachable runId s → Lifecycle s := by
  intro h
  have hdistinct := (h "run-1" repeatedJournal reachable_repeatedJournal).distinct
  exact (List.nodup_cons.mp hdistinct).1 List.mem_cons_self

end Journal

end Vidarax.Marker
