import Vidarax.Runs.Invariant

/-!
# Ended runs

A run that was completed, failed or stopped has ended. Its state does not stay so when an event
of ordinary work is committed behind it: the state follows the last event. Only where no such event
comes behind the end the run stays ended.
-/

namespace Vidarax.Runs

open Vidarax.Base Vidarax.Timeline

/-- A state that events lead to and that ends a run. -/
def StreamState.Ended (state : StreamState) : Prop :=
  state = .completed ∨ state = .failed ∨ state = .cancelled

/-- Kinds of events of ordinary work. -/
def Ordinary (kind : String) : Prop :=
  kind = "ingest_received" ∨ kind = "analysis_generated" ∨ kind = "inference_completed" ∨
    kind = "keepalive_refreshed"

instance (kind : String) : Decidable (Ordinary kind) := inferInstanceAs (Decidable (_ ∨ _))

/-- Ordinary work sets a run to processing. -/
theorem transitionState_ordinary {kind : String} (h : Ordinary kind) :
    transitionState kind = some .processing := by
  rcases h with rfl | rfl | rfl | rfl <;> rfl

/-- Every other event but a creation ends the run or leaves its state. -/
theorem transitionState_cases {kind : String} (hordinary : ¬ Ordinary kind)
    (hcreated : kind ≠ "run_created") :
    transitionState kind = none ∨ ∃ state, transitionState kind = some state ∧ state.Ended := by
  rw [Ordinary] at hordinary
  rw [transitionState, if_neg hcreated, if_neg hordinary]
  split
  · exact .inr ⟨.completed, rfl, .inl rfl⟩
  · split
    · exact .inr ⟨.failed, rfl, .inr (.inl rfl)⟩
    · split
      · exact .inr ⟨.cancelled, rfl, .inr (.inr rfl)⟩
      · exact .inl rfl

namespace RunRegistry

variable {fromStr : String → Option Json}

/-- The registry has a run, and its state ends it. -/
def HasEnded (r : RunRegistry) (run : String) : Prop :=
  ∃ s : RunState, r.runs[run]? = some s ∧ s.snapshot.state.Ended

/-- A run that is not forgotten by an event follows it if it is its run, and stays otherwise. -/
theorem Inv.entry_apply {r : RunRegistry} (h : r.Inv) (a : Applied) {run : String} {s : RunState}
    (hs : (r.apply fromStr a).runs[run]? = some s) :
    s.snapshot = if run = a.event.runId then (r.summary run).applyEvent fromStr a.event
      else r.summary run := by
  rw [← summary_eq_of_get? hs]
  rcases apply_cases fromStr r a with
    ⟨-, happly⟩ | ⟨-, happly, -⟩ | ⟨state, hstate, hcreated, -, happly⟩
  · rw [happly] at hs ⊢
    rcases ((h.record fromStr a.event).trim a.isProtected 0).forgets run with hsame | ⟨hgone, -⟩
    · rw [summary, hsame]
      exact summary_record r a.event run
    · rw [hgone] at hs
      contradiction
  · rw [happly]
    exact summary_record r a.event run
  · rw [happly]
    exact summary_nudge fromStr hstate hcreated run

/-- Ordinary work on a run that has ended starts it again. -/
theorem Inv.ordinary_apply {r : RunRegistry} (h : r.Inv) {a : Applied}
    (hordinary : Ordinary a.event.kind) :
    ∃ s : RunState, (r.apply fromStr a).runs[a.event.runId]? = some s ∧
      s.snapshot.state = .processing := by
  have hkind : a.event.kind ≠ "run_deleted" := by
    rcases hordinary with hk | hk | hk | hk <;> rw [hk] <;> decide
  have hentry : ∃ s : RunState, (r.apply fromStr a).runs[a.event.runId]? = some s := by
    rcases apply_cases fromStr r a with ⟨hdeletes, -⟩ | ⟨-, happly, -⟩ | ⟨_, -, -, -, happly⟩
    · have hfresh := hdeletes.2
      rw [deleted_applyEvent, hdeletes.1] at hfresh
      exact absurd (by simpa using hfresh) hkind
    · exact ⟨_, by rw [happly]; exact Std.ExtTreeMap.getElem?_insert_self⟩
    · exact ⟨_, by rw [happly]; exact Std.ExtTreeMap.getElem?_insert_self⟩
  obtain ⟨s, hs⟩ := hentry
  refine ⟨s, hs, ?_⟩
  rw [h.entry_apply a hs, if_pos rfl, RunSummary.applyEvent, transitionState_ordinary hordinary]
  rfl

/-- In every state reached, a run that has ended earlier is still ended, unless it was created
again or forgotten in between. -/
def StaysEnded (fromStr : String → Option Json) (applied : List Applied) : Prop :=
  ∀ (front mid rest : List Applied) (run : String), applied = front ++ mid ++ rest →
    (applyAll fromStr front).HasEnded run →
    (∀ a ∈ mid, a.event.runId = run → a.event.kind ≠ "run_created") →
    (∀ part, part <+: mid → (applyAll fromStr (front ++ part)).runs[run]? ≠ none) →
    (applyAll fromStr (front ++ mid)).HasEnded run

theorem applyAll_concat (applied : List Applied) (a : Applied) :
    applyAll fromStr (applied ++ [a]) = (applyAll fromStr applied).apply fromStr a := by
  rw [applyAll, List.foldl_append]
  rfl

/-- Whatever the ways in which events are applied, runs that have ended stay so if and only if no
event of ordinary work is applied to a run that has ended. -/
theorem staysEnded_iff (fromStr : String → Option Json) (applied : List Applied) :
    StaysEnded fromStr applied ↔
      ∀ front a rest, applied = front ++ a :: rest → Ordinary a.event.kind →
        ¬ (applyAll fromStr front).HasEnded a.event.runId := by
  constructor
  · intro hstays front a rest happlied hordinary hended
    obtain ⟨s, hs, hprocessing⟩ :
        ∃ s, ((applyAll fromStr front).apply fromStr a).runs[a.event.runId]? = some s ∧
          s.snapshot.state = .processing := (inv_applyAll fromStr front).ordinary_apply hordinary
    rw [← applyAll_concat] at hs
    have hcreated : a.event.kind ≠ "run_created" := by
      rcases hordinary with hk | hk | hk | hk <;> rw [hk] <;> decide
    obtain ⟨s', hs', hended'⟩ := hstays front [a] rest a.event.runId (by rw [happlied]; simp) hended
      (fun b hb _ ↦ by rw [List.mem_singleton.mp hb]; exact hcreated) (fun part hpart ↦ by
        rcases List.prefix_cons_iff.mp hpart with rfl | ⟨none, rfl, hnone⟩
        · obtain ⟨old, hold, -⟩ := hended
          rw [List.append_nil, hold]
          exact Option.some_ne_none old
        · rw [List.prefix_nil.mp hnone, hs]
          exact Option.some_ne_none s)
    rw [hs, Option.some.injEq] at hs'
    rw [← hs', hprocessing] at hended'
    rcases hended' with h | h | h <;> cases h
  · intro hordinary front mid rest run happlied hended hcreated hkept
    induction mid using List.reverseRecOn generalizing rest with
    | nil => rwa [List.append_nil]
    | append_singleton mid a ih =>
      have hbefore : (applyAll fromStr (front ++ mid)).HasEnded run := by
        apply ih (a :: rest)
        · rw [happlied]
          simp
        · exact fun b hb ↦ hcreated b (List.mem_append_left [a] hb)
        · exact fun part hpart ↦ hkept part (hpart.trans (List.prefix_append mid [a]))
      obtain ⟨s, hs⟩ := Option.ne_none_iff_exists'.mp (hkept (mid ++ [a]) List.prefix_rfl)
      refine ⟨s, hs, ?_⟩
      rw [← List.append_assoc, applyAll_concat] at hs
      rw [(inv_applyAll fromStr (front ++ mid)).entry_apply a hs]
      obtain ⟨old, hold, holdEnded⟩ := hbefore
      have hstate : ((applyAll fromStr (front ++ mid)).summary run).state.Ended := by
        rwa [summary_eq_of_get? hold]
      split
      · next hrun =>
        subst hrun
        have hnot : ¬ Ordinary a.event.kind := fun hkind ↦
          hordinary (front ++ mid) a rest (by rw [happlied]; simp) hkind ⟨old, hold, holdEnded⟩
        have hnew := hcreated a (List.mem_append_right mid (List.mem_singleton_self a)) rfl
        rcases transitionState_cases hnot hnew with hnone | ⟨state, hsome, hends⟩
        · rw [RunSummary.applyEvent, hnone]
          exact hstate
        · rw [RunSummary.applyEvent, hsome]
          exact hends
      · exact hstate

/-- A run is created and stopped, and then the result of an inference comes in. -/
def lateResult (route : Route) : List Applied :=
  [⟨⟨1, "run", "cam", 10, "run_created", ""⟩, route, unprotected⟩,
    ⟨⟨2, "run", "cam", 20, "stop_requested", ""⟩, route, unprotected⟩,
    ⟨⟨3, "run", "cam", 30, "inference_completed", ""⟩, route, unprotected⟩]

/-- State of the run of the late result in a registry. -/
def lateState (r : RunRegistry) : Option StreamState := r.runs["run"]?.map (·.snapshot.state)

/-- The stopped run is processing again, in a running server and after a restart. -/
theorem late_result_restarts :
    lateState (applyAll (fun _ ↦ none) ((lateResult .appended).take 2)) = some .cancelled ∧
      lateState (applyAll (fun _ ↦ none) (lateResult .appended)) = some .processing ∧
      lateState (applyAll (fun _ ↦ none) ((lateResult .structural).take 2)) = some .cancelled ∧
      lateState (applyAll (fun _ ↦ none) (lateResult .structural)) = some .processing := by
  decide +kernel

end RunRegistry

end Vidarax.Runs
