import Mathlib.Data.Finset.Lattice.Basic
import Vidarax.Base.Run
import Vidarax.Runs.Registry

/-!
# The registry invariant

The index, the states and the queue of deleted runs agree after every event. The queue is too
long after a deletion only if each run in it was protected when the deletion looked at it. It is
not shortened by other events, so a run that is no longer protected can stay in a long queue.
-/

namespace Vidarax.Runs

open Vidarax.Base Vidarax.Timeline

/-- A created run that is not deleted, and its principal. -/
def RunSummary.LivesAs (s : RunSummary) (principal : String) : Prop :=
  s.created = true ∧ s.deleted = false ∧ s.principalKey = principal

namespace RunRegistry

/-- Runs in the bucket of a principal. -/
def members (r : RunRegistry) (principal : String) : Finset String :=
  r.byPrincipal[principal]?.getD ∅

/-- The index, the states and the queue agree. -/
structure Inv (r : RunRegistry) : Prop where
  nonempty : ∀ principal : String, r.byPrincipal[principal]? ≠ some ∅
  indexed : ∀ principal run, run ∈ r.members principal ↔ (r.summary run).LivesAs principal
  nodup : r.deletedRunOrder.Nodup
  listed : ∀ run, run ∈ r.deletedRunOrder ↔ (r.summary run).deleted = true

theorem inv_empty : empty.Inv where
  nonempty := by simp [empty]
  indexed := by simp [empty, members, summary, RunSummary.LivesAs, RunSummary.defaultPublic]
  nodup := List.nodup_nil
  listed := by simp [empty, summary, RunSummary.defaultPublic]

/-! ### The index -/

section Index

variable (r : RunRegistry)

theorem members_leaveBucket (principal run q : String) :
    (r.leaveBucket principal run).members q =
      if q = principal then (r.members q).erase run else r.members q := by
  rw [members, leaveBucket]
  by_cases hq : q = principal
  · subst hq
    cases hbucket : r.byPrincipal[q]? with
    | none => simp [members, hbucket]
    | some set =>
      by_cases hempty : set.erase run = ∅ <;> simp [members, hbucket, hempty]
  · rw [if_neg hq]
    cases hbucket : r.byPrincipal[principal]? with
    | none => rfl
    | some set =>
      by_cases hempty : set.erase run = ∅
      · simp [members, hempty, Table.get?_erase_ne _ hq]
      · simp [members, hempty, Table.get?_insert_ne _ _ hq]

theorem members_joinBucket (principal run q : String) :
    (r.joinBucket principal run).members q =
      if q = principal then insert run (r.members q) else r.members q := by
  rw [members, joinBucket]
  by_cases hq : q = principal
  · subst hq
    simp [members]
  · simp [members, hq, Table.get?_insert_ne _ _ hq]

variable {r}

theorem nonempty_leaveBucket (h : ∀ q : String, r.byPrincipal[q]? ≠ some ∅) (principal run q : String) :
    (r.leaveBucket principal run).byPrincipal[q]? ≠ some ∅ := by
  rw [leaveBucket]
  cases hbucket : r.byPrincipal[principal]? with
  | none => exact h q
  | some set =>
    by_cases hq : q = principal
    · subst hq
      by_cases hempty : set.erase run = ∅ <;> simp [hempty]
    · by_cases hempty : set.erase run = ∅
      · simpa [hempty, Table.get?_erase_ne _ hq] using h q
      · simpa [hempty, Table.get?_insert_ne _ _ hq] using h q

theorem nonempty_joinBucket (h : ∀ q : String, r.byPrincipal[q]? ≠ some ∅) (principal run q : String) :
    (r.joinBucket principal run).byPrincipal[q]? ≠ some ∅ := by
  rw [joinBucket]
  by_cases hq : q = principal
  · subst hq
    simp
  · simpa [Table.get?_insert_ne _ _ hq] using h q

/-- Indexing changes neither the states nor the queue. -/
theorem reindex_frame (r : RunRegistry) (run : String) (before after : RunSummary) :
    (r.reindex run before after).runs = r.runs ∧
      (r.reindex run before after).deletedRunOrder = r.deletedRunOrder := by
  have hleave (principal : String) : (r.leaveBucket principal run).runs = r.runs ∧
      (r.leaveBucket principal run).deletedRunOrder = r.deletedRunOrder := by
    rw [leaveBucket]
    split <;> exact ⟨rfl, rfl⟩
  rw [reindex]
  split <;> split <;> first | exact ⟨rfl, rfl⟩ | exact hleave _

theorem nonempty_reindex (h : ∀ q : String, r.byPrincipal[q]? ≠ some ∅) (run : String)
    (before after : RunSummary) (q : String) :
    (r.reindex run before after).byPrincipal[q]? ≠ some ∅ := by
  rw [reindex]
  split <;> split
  · exact nonempty_joinBucket (nonempty_leaveBucket h _ run) _ run q
  · exact nonempty_joinBucket h _ run q
  · exact nonempty_leaveBucket h _ run q
  · exact h q

/-- A run that its summary indexed before is indexed by the new one after; other runs stay. -/
theorem mem_members_reindex {run : String} {before after : RunSummary}
    (h : ∀ q, run ∈ r.members q ↔ before.LivesAs q) (other q : String) :
    other ∈ (r.reindex run before after).members q ↔
      if other = run then after.LivesAs q else other ∈ r.members q := by
  let moved := before.created ∧
    (¬ after.created ∨ after.deleted ∨ before.principalKey ≠ after.principalKey)
  have hleft : other ∈ (if moved then r.leaveBucket before.principalKey run else r).members q ↔
      other ∈ r.members q ∧ ¬ (other = run ∧ moved) := by
    by_cases hmoved : moved
    · rw [if_pos hmoved, members_leaveBucket]
      by_cases hq : q = before.principalKey
      · rw [if_pos hq, Finset.mem_erase]
        tauto
      · rw [if_neg hq]
        have hnone : ¬ (other = run ∧ other ∈ r.members q) := by
          rintro ⟨rfl, hmem⟩
          exact hq ((h q).mp hmem).2.2.symm
        tauto
    · rw [if_neg hmoved]
      tauto
  rw [reindex]
  by_cases hlives : after.created ∧ ¬ after.deleted
  · rw [if_pos hlives, members_joinBucket]
    by_cases hq : q = after.principalKey
    · rw [if_pos hq, Finset.mem_insert, hleft]
      by_cases hother : other = run
      · simp [hother, RunSummary.LivesAs, hlives, hq]
      · simp [hother]
    · rw [if_neg hq, hleft]
      by_cases hother : other = run
      · rw [if_pos hother, hother, h q]
        simp only [RunSummary.LivesAs, true_and, moved]
        have hkey : after.principalKey ≠ q := Ne.symm hq
        grind
      · simp [hother]
  · rw [if_neg hlives, hleft]
    by_cases hother : other = run
    · rw [if_pos hother, hother, h q]
      simp only [RunSummary.LivesAs, true_and, moved]
      grind
    · simp [hother]

end Index

/-! ### The queue -/

/-- The summary of a run whose entry is removed. -/
theorem summary_of_erase (r : RunRegistry) (runs : Table String RunState) (order : List String)
    {run : String} (h : runs = r.runs.erase run) (other : String) :
    (RunRegistry.mk runs r.byPrincipal order).summary other =
      if other = run then RunSummary.defaultPublic else r.summary other := by
  rw [summary, summary, h]
  by_cases hother : other = run
  · rw [if_pos hother, hother]
    simp
  · rw [if_neg hother, Table.get?_erase_ne _ hother]

/-- Forgetting a listed run keeps the invariant. -/
theorem Inv.forget {r : RunRegistry} (h : r.Inv) {skipped rest : List String} {oldest : String}
    (horder : r.deletedRunOrder = skipped ++ oldest :: rest) :
    (RunRegistry.mk (removeDeleted r.runs oldest) r.byPrincipal (rest ++ skipped)).Inv ∧
      removeDeleted r.runs oldest = r.runs.erase oldest := by
  have hlisted : oldest ∈ r.deletedRunOrder := by rw [horder]; simp
  have hdeleted : (r.summary oldest).deleted = true := (h.listed oldest).mp hlisted
  have hremoved : removeDeleted r.runs oldest = r.runs.erase oldest := by
    rw [removeDeleted, if_pos]
    rw [summary] at hdeleted
    cases hentry : r.runs[oldest]? with
    | none =>
      rw [hentry] at hdeleted
      contradiction
    | some s =>
      rw [hentry] at hdeleted
      exact hdeleted
  have hsummary (other : String) := summary_of_erase r _ (rest ++ skipped) hremoved other
  have hperm : r.deletedRunOrder.Perm (oldest :: (rest ++ skipped)) := by
    rw [horder, ← List.cons_append]
    exact List.perm_append_comm
  have hnodup : (oldest :: (rest ++ skipped)).Nodup := hperm.nodup_iff.mp h.nodup
  refine ⟨⟨h.nonempty, ?_, hnodup.of_cons, ?_⟩, hremoved⟩
  · intro principal run
    rw [hsummary]
    by_cases hrun : run = oldest
    · rw [if_pos hrun, hrun]
      have hnot : oldest ∉ r.members principal := fun hmem ↦ by
        have hlive := ((h.indexed principal oldest).mp hmem).2.1
        rw [hdeleted] at hlive
        contradiction
      exact iff_of_false hnot fun hlives ↦ by cases hlives.1
    · rw [if_neg hrun]
      exact h.indexed principal run
  · intro run
    rw [hsummary]
    by_cases hrun : run = oldest
    · rw [if_pos hrun, hrun]
      exact iff_of_false (List.nodup_cons.mp hnodup).1 fun hdefault ↦ by cases hdefault
    · rw [if_neg hrun, ← h.listed run, hperm.mem_iff, List.mem_cons]
      simp [hrun]

/-- What trimming may do: it keeps the invariant and the index, forgets only deleted runs that it
found not protected, and leaves the queue too long only if it found every run in it protected. -/
structure Trims (isProtected : Protection) (r r' : RunRegistry) : Prop where
  inv : r'.Inv
  index : r'.byPrincipal = r.byPrincipal
  bounded : DELETED_RUN_RETENTION_CAP < r'.deletedRunOrder.length →
    ∀ run ∈ r'.deletedRunOrder, ∃ n, isProtected n run = true
  forgets : ∀ run : String, r'.runs[run]? = r.runs[run]? ∨
    r'.runs[run]? = none ∧ (r.summary run).deleted = true ∧ ∃ n, isProtected n run = false

theorem Inv.trim {r : RunRegistry} (h : r.Inv) (isProtected : Protection) (look : Nat) :
    Trims isProtected r (r.trim isProtected look) := by
  fun_induction RunRegistry.trim isProtected look r with
  | case1 look r hlong order next hpass =>
    rcases evictPass_spec isProtected look r.deletedRunOrder [] with
      ⟨-, horder, hall⟩ | ⟨_, _, _, _, -, -, hfound, -⟩
    · rw [hpass] at horder
      -- the pass has turned the queue around once
      have hsame : order = r.deletedRunOrder := horder
      rw [hsame]
      exact ⟨h, rfl, fun _ ↦ hall, fun _ ↦ .inl rfl⟩
    · rw [hpass] at hfound
      contradiction
  | case2 look r hlong oldest order next hpass ih =>
    rcases evictPass_spec isProtected look r.deletedRunOrder [] with
      ⟨hnone, -⟩ | ⟨skipped, found, rest, n, hqueue, hfree, hfound, horder⟩
    · rw [hpass] at hnone
      contradiction
    · rw [hpass] at hfound horder
      have holdest : oldest = found := Option.some.inj hfound
      have hrest : order = rest ++ skipped := horder
      subst holdest hrest
      obtain ⟨hinv, hremoved⟩ := h.forget hqueue
      have hdeleted : (r.summary oldest).deleted = true :=
        (h.listed oldest).mp (by rw [hqueue]; simp)
      obtain ⟨hinv', hindex, hbounded, hforgets⟩ := ih hinv
      refine ⟨hinv', hindex, hbounded, fun run ↦ ?_⟩
      have hsummary := summary_of_erase r _ (rest ++ skipped) hremoved run
      by_cases hrun : run = oldest
      · right
        subst hrun
        refine ⟨?_, hdeleted, n, hfree⟩
        rcases hforgets run with hsame | ⟨hgone, -⟩
        · rw [hsame, hremoved]
          exact Std.ExtTreeMap.getElem?_erase_self
        · exact hgone
      · rw [if_neg hrun] at hsummary
        rw [← hsummary]
        rcases hforgets run with hsame | hgone
        · left
          rw [hsame, hremoved, Table.get?_erase_ne _ hrun]
        · exact .inr hgone
  | case3 look r hshort =>
    exact ⟨h, rfl, fun hlong ↦ absurd hlong hshort, fun _ ↦ .inl rfl⟩

/-! ### Events -/

variable {fromStr : String → Option Json}

/-- Deleted runs stay deleted. -/
theorem deleted_applyEvent (s : RunSummary) (event : TimelineEvent) :
    (s.applyEvent fromStr event).deleted = (s.deleted || decide (event.kind = "run_deleted")) := rfl

/-- The registry before the queue is trimmed. -/
def record (fromStr : String → Option Json) (r : RunRegistry) (event : TimelineEvent) :
    RunRegistry :=
  let before := r.summary event.runId
  let after := before.applyEvent fromStr event
  { r.reindex event.runId before after with
    runs := r.runs.insert event.runId (RunState.fromSummary after)
    deletedRunOrder :=
      if !before.deleted && after.deleted then r.deletedRunOrder ++ [event.runId]
      else r.deletedRunOrder }

/-- The run of the event is deleted by it. -/
def Deletes (fromStr : String → Option Json) (r : RunRegistry) (event : TimelineEvent) : Prop :=
  (r.summary event.runId).deleted = false ∧
    ((r.summary event.runId).applyEvent fromStr event).deleted = true

variable (fromStr) in
theorem applyStructuralEvent_eq (isProtected : Protection) (r : RunRegistry)
    (event : TimelineEvent) :
    (r.Deletes fromStr event ∧ r.applyStructuralEvent fromStr isProtected event =
        (r.record fromStr event).trim isProtected 0) ∨
      (¬ r.Deletes fromStr event ∧
        r.applyStructuralEvent fromStr isProtected event = r.record fromStr event ∧
        (r.record fromStr event).deletedRunOrder = r.deletedRunOrder) := by
  let before := r.summary event.runId
  let after := before.applyEvent fromStr event
  obtain ⟨hruns, horder⟩ := reindex_frame r event.runId before after
  cases hfresh : (!before.deleted && after.deleted) with
  | true =>
    left
    have hboth : before.deleted = false ∧ after.deleted = true := by simpa using hfresh
    refine ⟨hboth, ?_⟩
    rw [applyStructuralEvent, record]
    dsimp only
    rw [if_pos hfresh, if_pos hfresh, hruns, horder]
  | false =>
    right
    have hnot : ¬ (!before.deleted && after.deleted) = true := by rw [hfresh]; simp
    refine ⟨fun hdeletes ↦ hnot (by simp [before, after, hdeletes.1, hdeletes.2]), ?_, ?_⟩
    · rw [applyStructuralEvent, record]
      dsimp only
      rw [if_neg hnot, if_neg hnot, hruns, ← horder]
    · rw [record]
      dsimp only
      rw [if_neg hnot]

theorem summary_record (r : RunRegistry) (event : TimelineEvent) (run : String) :
    (r.record fromStr event).summary run =
      if run = event.runId then (r.summary run).applyEvent fromStr event else r.summary run := by
  rw [summary, record]
  by_cases hrun : run = event.runId
  · subst hrun
    simp
  · rw [if_neg hrun, Table.get?_insert_ne _ _ hrun, summary]

variable (fromStr) in
theorem Inv.record {r : RunRegistry} (h : r.Inv) (event : TimelineEvent) :
    (r.record fromStr event).Inv := by
  let before := r.summary event.runId
  let after := before.applyEvent fromStr event
  have hmembers (principal run : String) :
      run ∈ (r.reindex event.runId before after).members principal ↔
        if run = event.runId then after.LivesAs principal else run ∈ r.members principal :=
    mem_members_reindex (fun q ↦ h.indexed q event.runId) run principal
  refine ⟨fun q ↦ nonempty_reindex h.nonempty event.runId before after q, ?_, ?_, ?_⟩
  · intro principal run
    rw [summary_record]
    refine (hmembers principal run).trans ?_
    by_cases hrun : run = event.runId
    · rw [if_pos hrun, if_pos hrun, hrun]
    · rw [if_neg hrun, if_neg hrun]
      exact h.indexed principal run
  · rw [RunRegistry.record]
    dsimp only
    split
    · next hfresh =>
      have hnew : event.runId ∉ r.deletedRunOrder := fun hold ↦ by
        have hdeleted := (h.listed event.runId).mp hold
        simp [hdeleted] at hfresh
      refine List.nodup_append.mpr ⟨h.nodup, List.nodup_singleton _, fun old hold last hlast ↦ ?_⟩
      rw [List.mem_singleton.mp hlast]
      exact fun hsame ↦ hnew (hsame ▸ hold)
    · exact h.nodup
  · intro run
    rw [summary_record, RunRegistry.record]
    dsimp only
    by_cases hrun : run = event.runId
    · subst hrun
      rw [if_pos rfl]
      have hlisted := h.listed event.runId
      rw [deleted_applyEvent]
      cases hbefore : (r.summary event.runId).deleted with
      | true =>
        rw [hbefore] at hlisted
        simpa using hlisted
      | false =>
        rw [hbefore] at hlisted
        by_cases hkind : event.kind = "run_deleted" <;> simp [hkind, hlisted]
    · rw [if_neg hrun, ← h.listed run]
      split <;> simp [hrun]

/-- A registry whose states change in what neither the index nor the queue is about. -/
theorem Inv.congr {r r' : RunRegistry} (h : r.Inv) (hindex : r'.byPrincipal = r.byPrincipal)
    (horder : r'.deletedRunOrder = r.deletedRunOrder)
    (hlives : ∀ run principal, (r'.summary run).LivesAs principal ↔
      (r.summary run).LivesAs principal)
    (hdeleted : ∀ run, (r'.summary run).deleted = (r.summary run).deleted) : r'.Inv where
  nonempty := by rw [hindex]; exact h.nonempty
  indexed principal run := by
    rw [hlives, members, hindex]
    exact h.indexed principal run
  nodup := by rw [horder]; exact h.nodup
  listed run := by rw [hdeleted, horder]; exact h.listed run

/-- An ordinary event of a known run. -/
def nudge (r : RunRegistry) (event : TimelineEvent) (run : RunState) : RunRegistry :=
  { r with runs := r.runs.insert event.runId (run.applyEvent event) }

variable (fromStr) in
theorem summary_nudge {r : RunRegistry} {event : TimelineEvent} {run : RunState}
    (hrun : r.runs[event.runId]? = some run) (hkind : event.kind ≠ "run_created")
    (other : String) :
    (r.nudge event run).summary other =
      if other = event.runId then (r.summary other).applyEvent fromStr event
      else r.summary other := by
  rw [summary, nudge]
  by_cases hother : other = event.runId
  · subst hother
    rw [if_pos rfl, summary, hrun]
    simp [RunState.snapshot_applyEvent fromStr run hkind]
  · rw [if_neg hother, Table.get?_insert_ne _ _ hother, summary]

theorem Inv.nudge {r : RunRegistry} (h : r.Inv) {event : TimelineEvent} {run : RunState}
    (hrun : r.runs[event.runId]? = some run) (hcreated : event.kind ≠ "run_created")
    (hdeleted : event.kind ≠ "run_deleted") : (r.nudge event run).Inv := by
  -- any way to read payloads will do: that of a creation is not read
  have hsummary := summary_nudge (fun _ ↦ none) hrun hcreated
  refine h.congr (by rfl) (by rfl) ?_ ?_
  · intro other principal
    rw [hsummary]
    split
    · simp [RunSummary.LivesAs, RunSummary.applyEvent, hcreated, hdeleted]
    · rfl
  · intro other
    rw [hsummary]
    split
    · simp [RunSummary.applyEvent, hdeleted]
    · rfl

/-- The two ways to apply an event. -/
inductive Route where
  | structural
  | appended
  deriving DecidableEq

/-- An event as it is applied. -/
structure Applied where
  event : TimelineEvent
  route : Route
  isProtected : Protection

/-- Apply an event. -/
def apply (fromStr : String → Option Json) (r : RunRegistry) (a : Applied) : RunRegistry :=
  match a.route with
  | .structural => r.applyStructuralEvent fromStr a.isProtected a.event
  | .appended => r.applyAppendedEvent fromStr a.isProtected a.event

/-- Apply events to an empty registry. -/
def applyAll (fromStr : String → Option Json) (applied : List Applied) : RunRegistry :=
  applied.foldl (apply fromStr) empty

/-- What an event can do: delete a run and trim the queue, be recorded without a deletion, or
change the atomics of a run. -/
theorem apply_cases (fromStr : String → Option Json) (r : RunRegistry) (a : Applied) :
    (r.Deletes fromStr a.event ∧
        r.apply fromStr a = (r.record fromStr a.event).trim a.isProtected 0) ∨
      (¬ r.Deletes fromStr a.event ∧ r.apply fromStr a = r.record fromStr a.event ∧
        (r.record fromStr a.event).deletedRunOrder = r.deletedRunOrder) ∨
      ∃ run, r.runs[a.event.runId]? = some run ∧ a.event.kind ≠ "run_created" ∧
        a.event.kind ≠ "run_deleted" ∧ r.apply fromStr a = r.nudge a.event run := by
  have hstructural := applyStructuralEvent_eq fromStr a.isProtected r a.event
  rw [apply]
  cases a.route with
  | structural =>
    rcases hstructural with hdeletes | hrecorded
    · exact .inl hdeletes
    · exact .inr (.inl hrecorded)
  | appended =>
    dsimp only
    rw [applyAppendedEvent]
    split
    · rcases hstructural with hdeletes | hrecorded
      · exact .inl hdeletes
      · exact .inr (.inl hrecorded)
    · next hcreated =>
      split
      · rcases hstructural with hdeletes | hrecorded
        · exact .inl hdeletes
        · exact .inr (.inl hrecorded)
      · next hdeleted =>
        cases hrun : r.runs[a.event.runId]? with
        | some run => exact .inr (.inr ⟨run, rfl, hcreated, hdeleted, rfl⟩)
        | none =>
          rcases hstructural with hdeletes | hrecorded
          · exact .inl hdeletes
          · exact .inr (.inl hrecorded)

theorem Inv.apply {r : RunRegistry} (h : r.Inv) (a : Applied) : (r.apply fromStr a).Inv := by
  rcases apply_cases fromStr r a with
    ⟨-, happly⟩ | ⟨-, happly, -⟩ | ⟨run, hrun, hcreated, hdeleted, happly⟩
  · rw [happly]
    exact ((h.record fromStr a.event).trim a.isProtected 0).inv
  · rw [happly]
    exact h.record fromStr a.event
  · rw [happly]
    exact h.nudge hrun hcreated hdeleted

theorem inv_applyAll (fromStr : String → Option Json) (applied : List Applied) :
    (applyAll fromStr applied).Inv := by
  have hrun (r : RunRegistry) (h : r.Inv) : (applied.foldl (RunRegistry.apply fromStr) r).Inv := by
    induction applied generalizing r with
    | nil => exact h
    | cons a applied ih => exact ih _ (h.apply a)
  exact hrun empty inv_empty

theorem summary_eq_of_get? {r : RunRegistry} {run : String} {s : RunState}
    (h : r.runs[run]? = some s) : r.summary run = s.snapshot := by
  rw [summary, h]
  rfl

/-- A property that a run without events lacks holds of the summary of a run just when it holds
of an entry. -/
theorem summary_iff_exists {P : RunSummary → Prop} (hdefault : ¬ P .defaultPublic)
    (r : RunRegistry) (run : String) :
    P (r.summary run) ↔ ∃ s, r.runs[run]? = some s ∧ P s.snapshot := by
  cases hrun : r.runs[run]? with
  | none =>
    rw [summary, hrun]
    simpa using hdefault
  | some s => simp [summary_eq_of_get? hrun]

/-- A run that is listed before an event and protected during it is listed after it. -/
theorem Inv.mem_apply {r : RunRegistry} (h : r.Inv) {a : Applied} {run : String}
    (hlisted : run ∈ r.deletedRunOrder ∨ run = a.event.runId ∧ r.Deletes fromStr a.event)
    (hprotected : ∀ n, a.isProtected n run = true) :
    run ∈ (r.apply fromStr a).deletedRunOrder := by
  have hrecord : run ∈ (r.record fromStr a.event).deletedRunOrder := by
    rw [((h.record fromStr a.event).listed run), summary_record]
    rcases hlisted with hold | ⟨rfl, hdeletes⟩
    · have hdeleted := (h.listed run).mp hold
      split
      · rw [deleted_applyEvent, hdeleted, Bool.true_or]
      · exact hdeleted
    · rw [if_pos rfl]
      exact hdeletes.2
  rcases apply_cases fromStr r a with
    ⟨-, happly⟩ | ⟨-, happly, -⟩ | ⟨state, -, -, hkind, happly⟩
  · obtain ⟨hinv, -, -, hforgets⟩ := (h.record fromStr a.event).trim a.isProtected 0
    rw [happly, hinv.listed run, ← ((h.record fromStr a.event).listed run).mp hrecord]
    rcases hforgets run with hsame | ⟨-, -, n, hfree⟩
    · rw [summary, hsame, summary]
    · rw [hprotected n] at hfree
      contradiction
  · rw [happly]
    exact hrecord
  · rw [happly]
    rcases hlisted with hold | ⟨-, hdeletes⟩
    · exact hold
    · have hfresh := hdeletes.2
      rw [deleted_applyEvent, hdeletes.1] at hfresh
      exact absurd (by simpa using hfresh) hkind

/-- After every sequence of events, applied in either way under any protection, the buckets of the
index are the non-empty sets of created runs that are not deleted by their principals, and the queue
lists each deleted run once. After an event that deletes a run the queue is longer than the cap only
if each run in it was protected when the event looked at it; other events leave the queue as it is.
A listed run that is protected throughout an event stays. -/
theorem registry_invariant (fromStr : String → Option Json) (applied : List Applied) :
    let r := applyAll fromStr applied
    (∀ (principal : String) (set : Finset String), r.byPrincipal[principal]? = some set →
        set.Nonempty) ∧
      (∀ principal run : String, (∃ set : Finset String, r.byPrincipal[principal]? = some set ∧ run ∈ set) ↔
        ∃ s : RunState, r.runs[run]? = some s ∧ s.snapshot.LivesAs principal) ∧
      r.deletedRunOrder.Nodup ∧
      (∀ run : String, run ∈ r.deletedRunOrder ↔
        ∃ s : RunState, r.runs[run]? = some s ∧ s.snapshot.deleted = true) ∧
      ∀ a : Applied, let r' := r.apply fromStr a
        (r.Deletes fromStr a.event → DELETED_RUN_RETENTION_CAP < r'.deletedRunOrder.length →
          ∀ run ∈ r'.deletedRunOrder, ∃ n, a.isProtected n run = true) ∧
        (¬ r.Deletes fromStr a.event → r'.deletedRunOrder = r.deletedRunOrder) ∧
        ∀ run, (∀ n, a.isProtected n run = true) →
          run ∈ r.deletedRunOrder ∨ run = a.event.runId ∧ r.Deletes fromStr a.event →
          run ∈ r'.deletedRunOrder := by
  intro r
  have h : r.Inv := inv_applyAll fromStr applied
  refine ⟨?_, ?_, h.nodup, ?_, ?_⟩
  · intro principal set hset
    rw [Finset.nonempty_iff_ne_empty]
    exact fun hempty ↦ h.nonempty principal (by rw [hset, hempty])
  · intro principal run
    rw [← summary_iff_exists (P := fun s ↦ s.LivesAs principal) (fun hlives ↦ by cases hlives.1),
      ← h.indexed principal run, members]
    cases r.byPrincipal[principal]? <;> simp
  · intro run
    rw [h.listed run]
    exact summary_iff_exists (P := fun s ↦ s.deleted = true) (by simp [RunSummary.defaultPublic])
      r run
  · intro a
    refine ⟨fun hdeletes hlong ↦ ?_, fun hnot ↦ ?_, fun run hprotected hlisted ↦ ?_⟩
    · rcases apply_cases fromStr r a with ⟨-, happly⟩ | ⟨hnot, -⟩ | ⟨_, -, -, hkind, -⟩
      · rw [happly] at hlong ⊢
        exact ((h.record fromStr a.event).trim a.isProtected 0).bounded hlong
      · exact absurd hdeletes hnot
      · have hfresh := hdeletes.2
        rw [deleted_applyEvent, hdeletes.1] at hfresh
        exact absurd (by simpa using hfresh) hkind
    · rcases apply_cases fromStr r a with ⟨hdeletes, -⟩ | ⟨-, happly, horder⟩ | ⟨_, -, -, -, happly⟩
      · exact absurd hdeletes hnot
      · rw [happly]
        exact horder
      · rw [happly]
        rfl
    · exact h.mem_apply hlisted hprotected

/-! ### A long queue -/

/-- Where all runs are protected none is forgotten. -/
theorem trim_protected {isProtected : Protection} (h : ∀ n run, isProtected n run = true)
    (look : Nat) (r : RunRegistry) : r.trim isProtected look = r := by
  fun_induction RunRegistry.trim isProtected look r with
  | case1 look r _ order next hpass =>
    rcases evictPass_spec isProtected look r.deletedRunOrder [] with
      ⟨-, horder, -⟩ | ⟨_, _, _, _, -, -, hfound, -⟩
    · rw [hpass] at horder
      have hsame : order = r.deletedRunOrder := horder
      rw [hsame]
    · rw [hpass] at hfound
      contradiction
  | case2 look r _ oldest order next hpass _ =>
    rcases evictPass_spec isProtected look r.deletedRunOrder [] with
      ⟨hnone, -⟩ | ⟨_, found, _, n, -, hfree, -⟩
    · rw [hpass] at hnone
      contradiction
    · rw [h n found] at hfree
      contradiction
  | case3 => rfl

/-- A run of its own for each number. -/
def numberedRun (i : Nat) : String := String.ofList (List.replicate i 'r')

/-- A deletion under which all runs are protected. -/
def protectedDeletion (i : Nat) : Applied :=
  ⟨⟨UInt64.ofNat (i + 1), numberedRun i, "", 0, "run_deleted", ""⟩, .appended, fun _ _ ↦ true⟩

theorem numberedRun_injective : Function.Injective numberedRun := fun i j h ↦ by
  have hlength := congrArg (fun s ↦ s.toList.length) h
  simpa [numberedRun] using hlength

theorem order_protectedDeletion (n : Nat) :
    (applyAll fromStr ((List.range n).map protectedDeletion)).deletedRunOrder =
      (List.range n).map numberedRun := by
  induction n with
  | zero => rfl
  | succ n ih =>
    let r := applyAll fromStr ((List.range n).map protectedDeletion)
    have h : r.Inv := inv_applyAll fromStr _
    have hnew : numberedRun n ∉ r.deletedRunOrder := by
      rw [ih, List.mem_map]
      rintro ⟨i, hi, hsame⟩
      rw [List.mem_range, numberedRun_injective hsame] at hi
      exact Nat.lt_irrefl n hi
    have hlive : (r.summary (numberedRun n)).deleted = false := by
      rw [← Bool.not_eq_true, ← h.listed]
      exact hnew
    have hdeletes : r.Deletes fromStr (protectedDeletion n).event :=
      ⟨hlive, by rw [deleted_applyEvent]; simp [protectedDeletion]⟩
    have hstep : r.apply fromStr (protectedDeletion n) =
        r.record fromStr (protectedDeletion n).event := by
      rcases apply_cases fromStr r (protectedDeletion n) with
        ⟨-, happly⟩ | ⟨hnot, -⟩ | ⟨_, -, -, hkind, -⟩
      · rw [happly]
        exact trim_protected (fun _ _ ↦ rfl) 0 _
      · exact absurd hdeletes hnot
      · exact absurd rfl hkind
    have hfresh : (!(r.summary (protectedDeletion n).event.runId).deleted &&
        ((r.summary (protectedDeletion n).event.runId).applyEvent fromStr
          (protectedDeletion n).event).deleted) = true := by
      rw [hdeletes.1, hdeletes.2]
      rfl
    rw [List.range_succ, List.map_append, applyAll, List.foldl_append]
    show (r.apply fromStr (protectedDeletion n)).deletedRunOrder = _
    rw [hstep, record, List.map_append]
    dsimp only
    rw [if_pos hfresh, ih]
    rfl

/-- An event of a deleted run that is not protected any more. -/
def lateKeepalive : Applied :=
  ⟨⟨4098, numberedRun 0, "", 0, "keepalive_refreshed", ""⟩, .appended, fun _ _ ↦ false⟩

theorem order_lateKeepalive (n : Nat) :
    (applyAll fromStr ((List.range n).map protectedDeletion ++ [lateKeepalive])).deletedRunOrder =
      (List.range n).map numberedRun := by
  let before := applyAll fromStr ((List.range n).map protectedDeletion)
  have hbefore : before.deletedRunOrder = (List.range n).map numberedRun :=
    order_protectedDeletion n
  have hafter : applyAll fromStr ((List.range n).map protectedDeletion ++ [lateKeepalive]) =
      before.apply fromStr lateKeepalive := by
    simp only [applyAll, List.foldl_append, List.foldl_cons, List.foldl_nil, before]
  rw [hafter, ← hbefore]
  rcases apply_cases fromStr before lateKeepalive with
    ⟨hdeletes, -⟩ | ⟨-, happly, horder⟩ | ⟨_, -, -, -, happly⟩
  · have hfresh := hdeletes.2
    rw [deleted_applyEvent, hdeletes.1] at hfresh
    contradiction
  · rw [happly]
    exact horder
  · rw [happly]
    rfl

/-- After 4097 deletions of protected runs and an event at which no run is protected the queue is
too long. -/
theorem long_queue_unprotected :
    DELETED_RUN_RETENTION_CAP < (applyAll (fun _ ↦ none)
        ((List.range 4097).map protectedDeletion ++ [lateKeepalive])).deletedRunOrder.length ∧
      ∀ run n, lateKeepalive.isProtected n run = false := by
  refine ⟨?_, fun _ _ ↦ rfl⟩
  rw [order_lateKeepalive, List.length_map, List.length_range]
  decide

end RunRegistry

end Vidarax.Runs
