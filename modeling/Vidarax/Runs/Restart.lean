import Vidarax.Runs.Invariant
import Vidarax.Runs.Tails

/-!
# Restart

Package `vidarax-api`, `crates/vidarax-api/src/state.rs:491–545,1549–1566,2048–2073`. A server
that is started again rebuilds the registry and the tails from the log. A running one nudges known
runs in place, replaces entries when runs are created or deleted, and counts appends where the
rebuilt tails go by sequence numbers. Both have the same runs, index, queue and tails.
-/

namespace Vidarax.Runs

open Vidarax.Base Vidarax.Timeline

/-- Loop of `validate_replay_sequence`. -/
def validateReplayLoop : Nat → Nat → List TimelineEvent → Except String Nat
  | _, expected, [] => .ok (expected - 1)
  | index, expected, event :: rest =>
    if event.seq.toNat ≠ expected then
      .error (s!"timeline WAL sequence invalid at record {index + 1}: expected {expected}, found " ++
        s!"{event.seq}; startup will not rewrite this WAL; non-contiguous legacy WALs require " ++
        "offline migration")
    else if expected + 1 > u64Max then .error "timeline WAL sequence exhausted"
    else validateReplayLoop (index + 1) (expected + 1) rest

/-- `validate_replay_sequence`; `state.rs:1552`. -/
def validateReplaySequence (events : List TimelineEvent) : Except String Nat :=
  validateReplayLoop 0 1 events

/-- What a server restores from the log. -/
structure Restored where
  registry : RunRegistry
  tails : Tails
  maxSeq : Nat

/-- Registry and tails of some events. -/
def Restored.ofEvents (fromStr : String → Option Json) (events : List TimelineEvent)
    (maxSeq : Nat) : Restored :=
  ⟨RunRegistry.build fromStr events, buildEventTails events, maxSeq⟩

/-- Read, check and apply the log; `from_wal`, `state.rs:510`. -/
def fromWal (fromStr : String → Option Json) (crc : Bytes → UInt32) (os : Fills) (w : WalWriter)
    (access : FileAccess) : Except String Restored := do
  let events ← (w.readAll crc os access).mapError TimelineError.display
  let maxSeq ← validateReplaySequence events
  return .ofEvents fromStr events maxSeq

/-- What a running server does to its registry and tails. Handlers claim deletions and withdraw
their claims at any time. -/
inductive ServerStep where
  | commit (event : TimelineEvent)
  | claimDelete (run : String)
  | rollbackDelete (run : String)

/-- Registry and tails of a running server. -/
structure Server where
  registry : RunRegistry
  warm : WarmTails

/-- Change the state of a known run. -/
def RunRegistry.modifyRun (r : RunRegistry) (run : String) (f : RunState → RunState) :
    RunRegistry :=
  match r.runs[run]? with
  | some state => { r with runs := r.runs.insert run (f state) }
  | none => r

namespace Server

/-- A server is started. -/
def start (restored : Restored) : Server :=
  ⟨restored.registry, WarmTails.spawn restored.tails (UInt64.ofNat restored.maxSeq)⟩

/-- A step, while no run is protected; `apply_committed_event`, `state.rs:2048`. -/
def step (fromStr : String → Option Json) (server : Server) : ServerStep → Server
  | .commit event =>
    ⟨server.registry.applyAppendedEvent fromStr RunRegistry.unprotected event,
      server.warm.applyCommittedEvent event⟩
  | .claimDelete run => { server with
      registry := server.registry.modifyRun run RunState.beginDeleteAppend }
  | .rollbackDelete run => { server with
      registry := server.registry.modifyRun run RunState.rollbackDeleteAppend }

end Server

/-- Events that some steps commit. -/
def committedEvents (steps : List ServerStep) : List TimelineEvent :=
  steps.filterMap fun
    | .commit event => some event
    | _ => none

/-! ### Registries -/

namespace RunRegistry

variable {fromStr : String → Option Json} {r r' : RunRegistry}

/-- Two registries with the same runs and the same queue. -/
structure SameView (r r' : RunRegistry) : Prop where
  entries : ∀ run : String, r.runs[run]?.map RunState.snapshot = r'.runs[run]?.map RunState.snapshot
  order : r.deletedRunOrder = r'.deletedRunOrder

theorem SameView.summary_eq (h : SameView r r') (run : String) : r.summary run = r'.summary run := by
  rw [summary, summary, h.entries run]

/-- The index follows from the runs. -/
theorem SameView.index_eq (h : SameView r r') (hr : r.Inv) (hr' : r'.Inv) :
    r.byPrincipal = r'.byPrincipal := by
  apply Std.ExtTreeMap.ext_getElem?
  intro principal
  have hmembers : r.members principal = r'.members principal := by
    ext run
    rw [hr.indexed, hr'.indexed, h.summary_eq]
  rw [members, members] at hmembers
  have hnonempty := hr.nonempty principal
  have hnonempty' := hr'.nonempty principal
  cases hget : r.byPrincipal[principal]? with
  | none =>
    cases hget' : r'.byPrincipal[principal]? with
    | none => rfl
    | some set =>
      rw [hget, hget'] at hmembers
      exact absurd (hget'.trans (congrArg some hmembers.symm)) hnonempty'
  | some set =>
    cases hget' : r'.byPrincipal[principal]? with
    | none =>
      rw [hget, hget'] at hmembers
      exact absurd (hget.trans (congrArg some hmembers)) hnonempty
    | some set' =>
      rw [hget, hget'] at hmembers
      exact congrArg some hmembers

/-- Entries with the same summary keep the views equal. -/
theorem SameView.insert (h : SameView r r') {run : String} {s s' : RunState}
    (hs : s.snapshot = s'.snapshot) {order order' : List String} (horder : order = order')
    (index index' : Table String (Finset String)) :
    SameView ⟨r.runs.insert run s, index, order⟩ ⟨r'.runs.insert run s', index', order'⟩ := by
  refine ⟨fun other ↦ ?_, horder⟩
  by_cases hother : other = run
  · rw [hother, Std.ExtTreeMap.getElem?_insert_self, Std.ExtTreeMap.getElem?_insert_self]
    exact congrArg some hs
  · rw [Table.get?_insert_ne _ _ hother, Table.get?_insert_ne _ _ hother]
    exact h.entries other

theorem SameView.removeDeleted (h : SameView r r') (run : String) {order order' : List String}
    (horder : order = order') (index index' : Table String (Finset String)) :
    SameView ⟨removeDeleted r.runs run, index, order⟩ ⟨removeDeleted r'.runs run, index', order'⟩ := by
  have hany (q : RunRegistry) : q.runs[run]?.any (·.snapshot.deleted) =
      (q.runs[run]?.map RunState.snapshot).any (·.deleted) := by
    cases q.runs[run]? <;> rfl
  have hdeleted : r.runs[run]?.any (·.snapshot.deleted) =
      r'.runs[run]?.any (·.snapshot.deleted) := by rw [hany, hany, h.entries run]
  rw [RunRegistry.removeDeleted, RunRegistry.removeDeleted, hdeleted]
  refine ⟨fun other ↦ ?_, horder⟩
  split
  · by_cases hother : other = run
    · rw [hother, Std.ExtTreeMap.getElem?_erase_self, Std.ExtTreeMap.getElem?_erase_self]
    · rw [Table.get?_erase_ne _ hother, Table.get?_erase_ne _ hother]
      exact h.entries other
  · exact h.entries other

theorem trim_of_none {isProtected : Protection} {look next : Nat} {order : List String}
    (hlong : r.deletedRunOrder.length > DELETED_RUN_RETENTION_CAP)
    (hpass : evictPass isProtected look r.deletedRunOrder [] = (none, order, next)) :
    r.trim isProtected look = { r with deletedRunOrder := order } := by
  rw [RunRegistry.trim, if_pos hlong]
  split
  · next heq =>
    rw [hpass] at heq
    cases heq
    rfl
  · next heq =>
    rw [hpass] at heq
    cases heq

theorem trim_of_some {isProtected : Protection} {look next : Nat} {order : List String}
    {oldest : String} (hlong : r.deletedRunOrder.length > DELETED_RUN_RETENTION_CAP)
    (hpass : evictPass isProtected look r.deletedRunOrder [] = (some oldest, order, next)) :
    r.trim isProtected look = RunRegistry.trim isProtected next
      { r with deletedRunOrder := order, runs := RunRegistry.removeDeleted r.runs oldest } := by
  rw [RunRegistry.trim, if_pos hlong]
  split
  · next heq =>
    rw [hpass] at heq
    cases heq
  · next heq =>
    rw [hpass] at heq
    cases heq
    rfl

theorem SameView.trim (h : SameView r r') (isProtected : Protection) (look : Nat) :
    SameView (r.trim isProtected look) (r'.trim isProtected look) := by
  fun_induction RunRegistry.trim isProtected look r generalizing r' with
  | case1 look r hlong order next hpass =>
    rw [h.order] at hlong hpass
    rw [trim_of_none hlong hpass]
    exact ⟨h.entries, rfl⟩
  | case2 look r hlong oldest order next hpass ih =>
    rw [h.order] at hlong hpass
    rw [trim_of_some hlong hpass]
    exact ih (h.removeDeleted oldest rfl _ _)
  | case3 look r hshort =>
    rw [h.order] at hshort
    rw [RunRegistry.trim, if_neg hshort]
    exact h

theorem SameView.record (h : SameView r r') (event : TimelineEvent) :
    SameView (r.record fromStr event) (r'.record fromStr event) := by
  rw [RunRegistry.record, RunRegistry.record, h.summary_eq]
  exact h.insert rfl (by rw [h.order]) _ _

/-- Both ways to apply an event have the same effect on the view. -/
theorem SameView.apply (h : SameView r r') (event : TimelineEvent) (route route' : Route)
    (isProtected : Protection) :
    SameView (r.apply fromStr ⟨event, route, isProtected⟩)
      (r'.apply fromStr ⟨event, route', isProtected⟩) := by
  have hdeletes : r.Deletes fromStr event ↔ r'.Deletes fromStr event := by
    rw [Deletes, Deletes, h.summary_eq]
  -- an ordinary event of a known run is recorded as it is nudged
  have hnudge {q : RunRegistry} {run : RunState} (hrun : q.runs[event.runId]? = some run)
      (hcreated : event.kind ≠ "run_created") (hdeleted : event.kind ≠ "run_deleted") :
      SameView (q.nudge event run) (q.record fromStr event) := by
    have hlive : ¬ (!(q.summary event.runId).deleted &&
        ((q.summary event.runId).applyEvent fromStr event).deleted) = true := by
      rw [deleted_applyEvent]
      cases (q.summary event.runId).deleted <;> simp [hdeleted]
    rw [nudge, RunRegistry.record, if_neg hlive]
    refine SameView.insert ⟨fun _ ↦ rfl, rfl⟩ ?_ rfl _ _
    rw [RunState.snapshot_fromSummary, summary_eq_of_get? hrun]
    exact RunState.snapshot_applyEvent fromStr run hcreated
  have hrecorded (q : RunRegistry) (route : Route)
      (hnot : ¬ q.Deletes fromStr event) :
      SameView (q.apply fromStr ⟨event, route, isProtected⟩) (q.record fromStr event) := by
    rcases apply_cases fromStr q ⟨event, route, isProtected⟩ with
      ⟨hyes, -⟩ | ⟨-, happly, -⟩ | ⟨run, hrun, hcreated, hkind, happly⟩
    · exact absurd hyes hnot
    · rw [happly]
      exact ⟨fun _ ↦ rfl, rfl⟩
    · rw [happly]
      exact hnudge hrun hcreated hkind
  have htrimmed (q : RunRegistry) (route : Route) (hyes : q.Deletes fromStr event) :
      q.apply fromStr ⟨event, route, isProtected⟩ =
        (q.record fromStr event).trim isProtected 0 := by
    rcases apply_cases fromStr q ⟨event, route, isProtected⟩ with
      ⟨-, happly⟩ | ⟨hnot, -⟩ | ⟨_, -, -, hkind, -⟩
    · exact happly
    · exact absurd hyes hnot
    · have hfresh := hyes.2
      rw [deleted_applyEvent, hyes.1] at hfresh
      exact absurd (by simpa using hfresh) hkind
  by_cases hyes : r.Deletes fromStr event
  · rw [htrimmed r route hyes, htrimmed r' route' (hdeletes.mp hyes)]
    exact (h.record event).trim isProtected 0
  · obtain ⟨hentries, horder⟩ := hrecorded r route hyes
    obtain ⟨hentries', horder'⟩ := hrecorded r' route' fun hyes' ↦ hyes (hdeletes.mpr hyes')
    have hrecord : SameView (r.record fromStr event) (r'.record fromStr event) := h.record event
    exact ⟨fun run ↦ (hentries run).trans ((hrecord.entries run).trans (hentries' run).symm),
      horder.trans (hrecord.order.trans horder'.symm)⟩

/-- Claims on deletions and their withdrawals do not show. -/
theorem sameView_modifyRun (r : RunRegistry) (run : String) {f : RunState → RunState}
    (hf : ∀ s, (f s).snapshot = s.snapshot) : SameView (r.modifyRun run f) r := by
  rw [modifyRun]
  cases hrun : r.runs[run]? with
  | none => exact ⟨fun _ ↦ rfl, rfl⟩
  | some s =>
    refine ⟨fun other ↦ ?_, rfl⟩
    by_cases hother : other = run
    · rw [hother, Std.ExtTreeMap.getElem?_insert_self, hrun, Option.map_some, Option.map_some, hf]
    · rw [Table.get?_insert_ne _ _ hother]

theorem Inv.modifyRun (h : r.Inv) (run : String) {f : RunState → RunState}
    (hf : ∀ s, (f s).snapshot = s.snapshot) : (r.modifyRun run f).Inv := by
  have hview := sameView_modifyRun r run hf
  have hindex : (r.modifyRun run f).byPrincipal = r.byPrincipal := by
    rw [RunRegistry.modifyRun]
    split <;> rfl
  exact h.congr hindex hview.order (fun _ _ ↦ by rw [hview.summary_eq])
    fun _ ↦ by rw [hview.summary_eq]

theorem SameView.trans {r'' : RunRegistry} (h : SameView r r') (h' : SameView r' r'') :
    SameView r r'' :=
  ⟨fun run ↦ (h.entries run).trans (h'.entries run), h.order.trans h'.order⟩

theorem build_concat (events : List TimelineEvent) (event : TimelineEvent) :
    build fromStr (events ++ [event]) =
      (build fromStr events).apply fromStr ⟨event, .structural, unprotected⟩ := by
  rw [build, List.foldl_append]
  rfl

theorem inv_build (events : List TimelineEvent) : (build fromStr events).Inv := by
  induction events using List.reverseRecOn with
  | nil => exact inv_empty
  | append_singleton events event ih =>
    rw [build_concat]
    exact ih.apply _

end RunRegistry

/-! ### Tails -/

/-- Sequence number of the last event of a tail. -/
def lastSeq (tail : List TimelineEvent) : UInt64 := tail.getLast?.elim 0 TimelineEvent.seq

namespace TailMaps

/-- Rebuilt tails were touched by their last events, whose sequence numbers are different and not
greater than that of the last event of the log. -/
structure Stamped (last : Nat) (m : TailMaps) : Prop where
  stamps : ∀ run : String, m.recency[run]? = m.tails[run]?.map lastSeq
  bounded : ∀ (run : String) (n : UInt64), m.recency[run]? = some n → n.toNat ≤ last
  distinct : ∀ (run other : String) (n k : UInt64), m.recency[run]? = some n →
    m.recency[other]? = some k → n.toNat = k.toNat → run = other

variable {m : TailMaps} {last : Nat}

theorem Stamped.forget (h : m.Stamped last) (run : String) : (m.forget run).Stamped last := by
  have hget {other : String} {n : UInt64} (hn : (m.recency.erase run)[other]? = some n) :
      m.recency[other]? = some n := by
    by_cases hother : other = run
    · rw [hother, Std.ExtTreeMap.getElem?_erase_self] at hn
      exact absurd hn (by simp)
    · rwa [Table.get?_erase_ne _ hother] at hn
  refine ⟨fun other ↦ ?_, fun other n hn ↦ h.bounded other n (hget hn),
    fun a b n k hn hk ↦ h.distinct a b n k (hget hn) (hget hk)⟩
  rw [TailMaps.forget]
  by_cases hother : other = run
  · rw [hother, Std.ExtTreeMap.getElem?_erase_self, Std.ExtTreeMap.getElem?_erase_self]
    rfl
  · rw [Table.get?_erase_ne _ hother, Table.get?_erase_ne _ hother]
    exact h.stamps other

theorem Stamped.makeRoom (h : m.Stamped last) (run : String) : (m.makeRoom run).Stamped last := by
  rw [TailMaps.makeRoom]
  split
  · rw [evictLeastRecentTail]
    split
    · exact h
    · exact h.forget _
  · exact h

theorem Stamped.append (h : m.Stamped last) {event : TimelineEvent}
    (hseq : event.seq.toNat = last + 1)
    (hlast : lastSeq (insertEventBySeq ((m.makeRoom event.runId).tails[event.runId]?.getD []) event) =
      event.seq) : (m.append event event.seq).Stamped (last + 1) := by
  obtain ⟨hstamps, hbounded, hdistinct⟩ := h.makeRoom event.runId
  have hget {run : String} {n : UInt64}
      (hn : (m.append event event.seq).recency[run]? = some n) :
      run = event.runId ∧ n = event.seq ∨
        run ≠ event.runId ∧ (m.makeRoom event.runId).recency[run]? = some n := by
    rw [TailMaps.append] at hn
    by_cases hrun : run = event.runId
    · rw [hrun, Std.ExtTreeMap.getElem?_insert_self] at hn
      exact .inl ⟨hrun, (Option.some.inj hn).symm⟩
    · rw [Table.get?_insert_ne _ _ hrun] at hn
      exact .inr ⟨hrun, hn⟩
  refine ⟨fun run ↦ ?_, fun run n hn ↦ ?_, fun a b n k hn hk hsame ↦ ?_⟩
  · rw [TailMaps.append]
    by_cases hrun : run = event.runId
    · rw [hrun, Std.ExtTreeMap.getElem?_insert_self, Std.ExtTreeMap.getElem?_insert_self,
        Option.map_some, hlast]
    · rw [Table.get?_insert_ne _ _ hrun, Table.get?_insert_ne _ _ hrun]
      exact hstamps run
  · rcases hget hn with ⟨-, rfl⟩ | ⟨-, hold⟩
    · exact Nat.le_of_eq hseq
    · exact Nat.le_succ_of_le (hbounded run n hold)
  · rcases hget hn with ⟨ha, hnew⟩ | ⟨-, hold⟩ <;> rcases hget hk with ⟨hb, hnew'⟩ | ⟨-, hold'⟩
    · rw [ha, hb]
    · have := hbounded b k hold'
      rw [hnew, hseq] at hsame
      omega
    · have := hbounded a n hold
      rw [hnew', hseq] at hsame
      omega
    · exact hdistinct a b n k hold hold' hsame

end TailMaps

/-- The newest event is the last of its tail. -/
theorem lastSeq_insert {events : List TimelineEvent} {tails : Tails} (h : Holds events tails)
    {event : TimelineEvent} (hnew : ∀ e ∈ events, e.seq < event.seq) :
    lastSeq (insertEventBySeq (tails[event.runId]?.getD []) event) = event.seq := by
  have holder : ∀ e ∈ tails[event.runId]?.getD [], e.seq < event.seq := by
    intro e he
    cases hget : tails[event.runId]? with
    | none => simp [hget] at he
    | some tail =>
      rw [hget] at he
      exact hnew e (List.mem_of_mem_filter ((h event.runId tail hget).2.subset he))
  rw [lastSeq, insertEventBySeq_newest holder, getLast?_trimTail_concat]
  rfl

theorem stamped_rebuild {events : List TimelineEvent} (h : Sequenced 1 events) :
    (TailMaps.rebuild events).Stamped events.length := by
  induction events using List.reverseRecOn with
  | nil =>
    rw [rebuild_sequenced h]
    exact ⟨fun _ ↦ by simp, fun _ _ hn ↦ by simp at hn, fun _ _ _ _ hn ↦ by simp at hn⟩
  | append_singleton events event ih =>
    obtain ⟨hfront, hseq⟩ := h.concat
    rw [rebuild_concat h, TailMaps.rebuildEvent, List.length_append, List.length_singleton]
    split
    · obtain ⟨hstamps, hbounded, hdistinct⟩ := (ih hfront).forget event.runId
      exact ⟨hstamps, fun run n hn ↦ Nat.le_succ_of_le (hbounded run n hn), hdistinct⟩
    · exact (ih hfront).append (by omega)
        (lastSeq_insert ((holds_rebuild hfront).makeRoom event.runId) h.newest)

/-- Tails of a running server and rebuilt ones: the same, touched in the same order. -/
structure Matches (last : Nat) (w : WarmTails) (m : TailMaps) : Prop where
  tails : w.maps.tails = m.tails
  aligned : Table.Aligned UInt64.toNat w.maps.recency m.recency
  touched : ∀ (run : String) (i : UInt64), w.maps.recency[run]? = some i →
    i.toNat ≤ w.touchTick.toNat
  tick : w.touchTick.toNat ≤ last
  bounded : ∀ (run : String) (n : UInt64), m.recency[run]? = some n → n.toNat ≤ last

namespace Matches

variable {last : Nat} {w : WarmTails} {m : TailMaps}

theorem forget (h : Matches last w m) (run : String) :
    Matches last ⟨w.maps.forget run, w.touchTick⟩ (m.forget run) := by
  have hget {t : Table String UInt64} {other : String} {n : UInt64}
      (hn : (t.erase run)[other]? = some n) : t[other]? = some n := by
    by_cases hother : other = run
    · rw [hother, Std.ExtTreeMap.getElem?_erase_self] at hn
      exact absurd hn (by simp)
    · rwa [Table.get?_erase_ne _ hother] at hn
  exact ⟨congrArg (·.erase run) h.tails, h.aligned.erase run,
    fun other i hi ↦ h.touched other i (hget hi), h.tick,
    fun other n hn ↦ h.bounded other n (hget hn)⟩

/-- Both give up the tail of the same run. -/
theorem makeRoom (h : Matches last w m) (run : String) :
    Matches last ⟨w.maps.makeRoom run, w.touchTick⟩ (m.makeRoom run) := by
  rw [TailMaps.makeRoom, TailMaps.makeRoom, h.tails]
  split
  · rw [TailMaps.evictLeastRecentTail, TailMaps.evictLeastRecentTail, h.aligned.leastKey_eq]
    cases m.recency.leastKey UInt64.toNat with
    | none => exact h
    | some oldest => exact h.forget oldest
  · exact h

theorem append (h : Matches last w m) {event : TimelineEvent}
    (hseq : event.seq.toNat = last + 1) :
    Matches (last + 1) ⟨w.maps.append event (satAdd w.touchTick 1), satAdd w.touchTick 1⟩
      (m.append event event.seq) := by
  obtain ⟨htails, haligned, htouched, htick, hbounded⟩ := h.makeRoom event.runId
  have hnext : (satAdd w.touchTick 1).toNat = w.touchTick.toNat + 1 := by
    have hmax := toNat_le_u64Max event.seq
    have htick' : w.touchTick.toNat ≤ last := htick
    rw [toNat_satAdd, UInt64.toNat_one, Nat.min_eq_left (by omega)]
  refine ⟨?_, ?_, ?_, ?_, ?_⟩
  · rw [TailMaps.append, TailMaps.append]
    dsimp only at htails ⊢
    rw [htails]
  · apply haligned.insert
    · intro run i hi
      have := htouched run i hi
      rw [hnext]
      exact Nat.lt_succ_of_le this
    · intro run n hn
      have := hbounded run n hn
      omega
  · intro run i hi
    dsimp only
    rw [hnext]
    by_cases hrun : run = event.runId
    · rw [TailMaps.append, hrun, Std.ExtTreeMap.getElem?_insert_self] at hi
      rw [← Option.some.inj hi, hnext]
    · rw [TailMaps.append, Table.get?_insert_ne _ _ hrun] at hi
      exact Nat.le_succ_of_le (htouched run i hi)
  · dsimp only
    rw [hnext]
    exact Nat.succ_le_succ htick
  · intro run n hn
    by_cases hrun : run = event.runId
    · rw [TailMaps.append, hrun, Std.ExtTreeMap.getElem?_insert_self] at hn
      rw [← Option.some.inj hn, hseq]
    · rw [TailMaps.append, Table.get?_insert_ne _ _ hrun] at hn
      exact Nat.le_succ_of_le (hbounded run n hn)

theorem step (h : Matches last w m) {event : TimelineEvent}
    (hseq : event.seq.toNat = last + 1) :
    Matches (last + 1) (w.applyCommittedEvent event) (m.rebuildEvent event) := by
  rw [WarmTails.applyCommittedEvent, TailMaps.rebuildEvent]
  split
  · obtain ⟨htails, haligned, htouched, htick, hbounded⟩ := h.forget event.runId
    exact ⟨htails, haligned, htouched, Nat.le_succ_of_le htick,
      fun run n hn ↦ Nat.le_succ_of_le (hbounded run n hn)⟩
  · exact h.append hseq

end Matches

/-- A log has no more events than there are sequence numbers. -/
theorem Sequenced.length_le {events : List TimelineEvent} (h : Sequenced 1 events) :
    events.length ≤ u64Max := by
  rcases List.eq_nil_or_concat' events with rfl | ⟨front, event, rfl⟩
  · exact Nat.zero_le _
  · have hseq := h.concat.2
    have := toNat_le_u64Max event.seq
    rw [List.length_append, List.length_singleton]
    omega

/-- The tails of a running server match those rebuilt from all its events. -/
theorem matches_after {stored committed : List TimelineEvent}
    (h : Sequenced 1 (stored ++ committed)) :
    Matches (stored ++ committed).length (WarmTails.after stored committed)
      (TailMaps.rebuild (stored ++ committed)) := by
  induction committed using List.reverseRecOn with
  | nil =>
    rw [List.append_nil] at h ⊢
    obtain ⟨hstamps, hbounded, hdistinct⟩ := stamped_rebuild h
    let w := WarmTails.spawn (buildEventTails stored) (UInt64.ofNat stored.length)
    have htick : w.touchTick.toNat = stored.length := toNat_ofNat_of_le h.length_le
    have hrecency : w.maps.recency = (TailMaps.rebuild stored).recency := by
      apply Std.ExtTreeMap.ext_getElem?
      intro run
      rw [hstamps run]
      exact Std.ExtTreeMap.getElem?_map
    refine ⟨rfl, ?_, ?_, Nat.le_of_eq htick, hbounded⟩
    · rw [show (WarmTails.after stored []).maps.recency = _ from hrecency]
      exact Table.Aligned.refl hdistinct
    · intro run i hi
      rw [show (WarmTails.after stored []).touchTick.toNat = _ from htick]
      exact hbounded run i (by rw [← hrecency]; exact hi)
  | append_singleton committed event ih =>
    rw [← List.append_assoc] at h ⊢
    obtain ⟨hfront, hseq⟩ := h.concat
    rw [WarmTails.after_concat, rebuild_concat h, List.length_append, List.length_singleton]
    exact (ih hfront).step (by omega)

/-! ### Servers -/

theorem validateReplayLoop_of_sequenced (index : Nat) {expected : Nat}
    {events : List TimelineEvent} (h : Sequenced expected events)
    (hroom : expected + events.length ≤ u64Max) :
    validateReplayLoop index expected events = .ok (expected + events.length - 1) := by
  induction events generalizing index expected with
  | nil => rfl
  | cons event events ih =>
    obtain ⟨hseq, hrest⟩ := h
    rw [List.length_cons] at hroom
    rw [validateReplayLoop, if_neg (not_not.mpr hseq), if_neg (by omega),
      ih (index + 1) hrest (by rw [Nat.succ_eq_add_one]; omega), List.length_cons]
    congr 1
    omega

variable (fromStr : String → Option Json)

/-- A server that was started on some events and has done some steps. -/
def Server.after (stored : List TimelineEvent) (steps : List ServerStep) : Server :=
  steps.foldl (Server.step fromStr) (.start (.ofEvents fromStr stored stored.length))

theorem Server.after_concat (stored : List TimelineEvent) (steps : List ServerStep)
    (next : ServerStep) :
    after fromStr stored (steps ++ [next]) = (after fromStr stored steps).step fromStr next := by
  rw [after, List.foldl_append]
  rfl

@[simp] theorem committedEvents_commit (steps : List ServerStep) (event : TimelineEvent) :
    committedEvents (steps ++ [.commit event]) = committedEvents steps ++ [event] := by
  simp [committedEvents]

@[simp] theorem committedEvents_claimDelete (steps : List ServerStep) (run : String) :
    committedEvents (steps ++ [.claimDelete run]) = committedEvents steps := by
  simp [committedEvents]

@[simp] theorem committedEvents_rollbackDelete (steps : List ServerStep) (run : String) :
    committedEvents (steps ++ [.rollbackDelete run]) = committedEvents steps := by
  simp [committedEvents]

/-- The registry of a running server has the invariant and the view of a rebuilt one. -/
theorem Server.registry_after (stored : List TimelineEvent) (steps : List ServerStep) :
    (after fromStr stored steps).registry.Inv ∧
      (after fromStr stored steps).registry.SameView
        (RunRegistry.build fromStr (stored ++ committedEvents steps)) := by
  induction steps using List.reverseRecOn with
  | nil =>
    rw [committedEvents, List.filterMap_nil, List.append_nil]
    exact ⟨RunRegistry.inv_build stored, ⟨fun _ ↦ rfl, rfl⟩⟩
  | append_singleton steps next ih =>
    obtain ⟨hinv, hview⟩ := ih
    rw [after_concat]
    cases next with
    | commit event =>
      rw [committedEvents_commit, ← List.append_assoc, RunRegistry.build_concat]
      have hcommit : (step fromStr (after fromStr stored steps) (.commit event)).registry =
          (after fromStr stored steps).registry.apply fromStr
            ⟨event, .appended, RunRegistry.unprotected⟩ := rfl
      rw [hcommit]
      exact ⟨hinv.apply _, hview.apply event .appended .structural RunRegistry.unprotected⟩
    | claimDelete run =>
      rw [committedEvents_claimDelete]
      have hclaim := RunRegistry.sameView_modifyRun (after fromStr stored steps).registry run
        RunState.snapshot_beginDeleteAppend
      exact ⟨hinv.modifyRun run RunState.snapshot_beginDeleteAppend, hclaim.trans hview⟩
    | rollbackDelete run =>
      rw [committedEvents_rollbackDelete]
      have hrollback := RunRegistry.sameView_modifyRun (after fromStr stored steps).registry run
        RunState.snapshot_rollbackDeleteAppend
      exact ⟨hinv.modifyRun run RunState.snapshot_rollbackDeleteAppend, hrollback.trans hview⟩

theorem Server.warm_after (stored : List TimelineEvent) (steps : List ServerStep) :
    (after fromStr stored steps).warm = WarmTails.after stored (committedEvents steps) := by
  induction steps using List.reverseRecOn with
  | nil => rfl
  | append_singleton steps next ih =>
    rw [after_concat]
    cases next with
    | commit event =>
      rw [committedEvents_commit, WarmTails.after_concat, ← ih]
      rfl
    | claimDelete run =>
      rw [committedEvents_claimDelete]
      exact ih
    | rollbackDelete run =>
      rw [committedEvents_rollbackDelete]
      exact ih

/-- A server was started on the stored events of a log, if any, and has committed others while no
run was protected. A server that restores the log then has the same entries of runs, the same
index by principal, the same queue of deleted runs and the same tails, and it does restore the log
unless that has used up the sequence numbers. -/
theorem restart_equivalence (crc : Bytes → UInt32) (os : Fills) (stored : List TimelineEvent)
    (steps : List ServerStep) (hseq : Sequenced 1 (stored ++ committedEvents steps))
    (records : List (LogRecord crc)) (more : Bytes) (poisoned : Bool)
    (hrecords : LogRecord.events records = stored ++ committedEvents steps) :
    let running := Server.after fromStr stored steps
    let wal : WalWriter :=
      ⟨(LogRecord.content records).length, (LogRecord.content records).length, poisoned⟩
    let restarted := fromWal fromStr crc os wal (.opened (LogRecord.content records ++ more))
    (∀ restored, restarted = .ok restored →
        (∀ run : String, restored.registry.runs[run]?.map RunState.snapshot =
          running.registry.runs[run]?.map RunState.snapshot) ∧
        restored.registry.byPrincipal = running.registry.byPrincipal ∧
        restored.registry.deletedRunOrder = running.registry.deletedRunOrder ∧
        restored.tails = running.warm.maps.tails) ∧
      (records.length < u64Max → ∃ restored, restarted = .ok restored) := by
  intro running wal restarted
  let events := stored ++ committedEvents steps
  have hread : restarted = (validateReplaySequence events).map (Restored.ofEvents fromStr events) := by
    show fromWal fromStr crc os wal (.opened (LogRecord.content records ++ more)) = _
    rw [fromWal, WalWriter.readAll, readAllEventsUpTo_content rfl, hrecords]
    show (validateReplaySequence events).bind _ = _
    cases validateReplaySequence events <;> rfl
  obtain ⟨hinv, hview⟩ := Server.registry_after fromStr stored steps
  constructor
  · intro restored hrestored
    rw [hread] at hrestored
    cases hvalid : validateReplaySequence events with
    | error message =>
      rw [hvalid] at hrestored
      cases hrestored
    | ok maxSeq =>
      rw [hvalid] at hrestored
      cases hrestored
      refine ⟨fun run ↦ (hview.entries run).symm, ?_, hview.order.symm, ?_⟩
      · exact (hview.index_eq hinv (RunRegistry.inv_build events)).symm
      · have hwarm : running.warm = _ := Server.warm_after fromStr stored steps
        rw [hwarm]
        exact (matches_after hseq).tails.symm
  · intro hlength
    have hcount : events.length = records.length := by
      exact (congrArg List.length hrecords.symm).trans (List.length_map LogRecord.event)
    refine ⟨.ofEvents fromStr events (1 + events.length - 1), ?_⟩
    rw [hread, validateReplaySequence,
      validateReplayLoop_of_sequenced 0 hseq (by rw [hcount]; omega)]
    rfl

theorem restart_equivalence_ticks :
    let records := [LogRecord.staged crc32 (tickEvent 1) tickEvent_one_fits,
      LogRecord.staged crc32 (tickEvent 2) tickEvent_two_fits]
    let size := (LogRecord.content records).length
    ∃ restored, fromWal (fun _ ↦ none) crc32 Fills.whole ⟨size, size, false⟩
        (.opened (LogRecord.content records ++ [])) = .ok restored ∧
      restored.tails = (Server.after (fun _ ↦ none) [tickEvent 1]
        [.claimDelete "run", .commit (tickEvent 2)]).warm.maps.tails := by
  have hequivalence := restart_equivalence (fun _ ↦ none) crc32 Fills.whole [tickEvent 1]
    [.claimDelete "run", .commit (tickEvent 2)] ⟨rfl, rfl, trivial⟩
    [LogRecord.staged crc32 (tickEvent 1) tickEvent_one_fits,
      LogRecord.staged crc32 (tickEvent 2) tickEvent_two_fits] [] false rfl
  obtain ⟨restored, hrestored⟩ := hequivalence.2 (by decide)
  exact ⟨restored, hrestored, (hequivalence.1 restored hrestored).2.2.2⟩

end Vidarax.Runs
