import Vidarax.Runs.Slots

/-!
# Runs that are indexed

Package `vidarax-api`, `crates/vidarax-api/src/state.rs:2158–2246`. When the append of a creation
returns, its run is in the bucket of its principal with its entry, and stays there for as long as no
event that ends it is committed.
-/

namespace Vidarax.Runs

open Vidarax.Base Vidarax.Timeline

/-! ### What the worker leaves alone -/

namespace RunRegistry

variable (r : RunRegistry)

theorem mem_members_reindex_of_ne {run other : String} (h : other ≠ run)
    (before after : RunSummary) (q : String) :
    other ∈ (r.reindex run before after).members q ↔ other ∈ r.members q := by
  have hleave (r : RunRegistry) (p : String) :
      other ∈ (r.leaveBucket p run).members q ↔ other ∈ r.members q := by
    rw [members_leaveBucket]
    split
    · rw [Finset.mem_erase, and_iff_right h]
    · rfl
  have hjoin (r : RunRegistry) (p : String) :
      other ∈ (r.joinBucket p run).members q ↔ other ∈ r.members q := by
    rw [members_joinBucket]
    split
    · rw [Finset.mem_insert, or_iff_right h]
    · rfl
  have hleft : other ∈ (if before.created ∧ (¬ after.created ∨ after.deleted ∨
        before.principalKey ≠ after.principalKey) then r.leaveBucket before.principalKey run
      else r).members q ↔ other ∈ r.members q := by
    split
    · exact hleave r before.principalKey
    · rfl
  rw [reindex]
  split
  · rw [hjoin, hleft]
  · exact hleft

/-- Trimming the queue forgets deleted runs only. -/
theorem trim_keeps (isProtected : Protection) (look : Nat) (run : String) :
    (r.trim isProtected look).byPrincipal = r.byPrincipal ∧
      (r.runs[run]?.any (·.snapshot.deleted) = false →
        (r.trim isProtected look).runs[run]? = r.runs[run]?) := by
  fun_induction RunRegistry.trim isProtected look r with
  | case1 look r hlong order next hpass => exact ⟨rfl, fun _ ↦ rfl⟩
  | case2 look r hlong oldest order next hpass ih =>
    refine ⟨ih.1, fun hlive ↦ ?_⟩
    have hsame : (removeDeleted r.runs oldest)[run]? = r.runs[run]? := by
      unfold removeDeleted
      split
      · next hdeleted =>
        apply Table.get?_erase_ne
        intro heq
        rw [heq, hdeleted] at hlive
        exact Bool.noConfusion hlive
      · rfl
    exact (ih.2 (by rw [hsame]; exact hlive)).trans hsame
  | case3 look r hshort => exact ⟨rfl, fun _ ↦ rfl⟩

theorem members_finishStructural (isProtected : Protection) (run : String)
    (before after : RunSummary) (q : String) :
    (r.finishStructural isProtected run before after).members q = r.members q := by
  rw [finishStructural]
  split
  · rw [members, (trim_keeps _ isProtected 0 run).1]
    rfl
  · rfl

/-- The entries of other runs stay, unless they are deleted. -/
theorem get?_finishStructural_of_ne (isProtected : Protection) {run other : String}
    (before after : RunSummary) (h : other ≠ run)
    (hlive : r.runs[other]?.any (·.snapshot.deleted) = false) :
    (r.finishStructural isProtected run before after).runs[other]? = r.runs[other]? := by
  have hinsert : (r.runs.insert run (RunState.fromSummary after))[other]? = r.runs[other]? :=
    Table.get?_insert_ne _ _ h
  rw [finishStructural]
  split
  · exact ((trim_keeps _ isProtected 0 other).2 (by rw [hinsert]; exact hlive)).trans hinsert
  · exact hinsert

/-- The entry of the run is written. -/
theorem get?_finishStructural_self (isProtected : Protection) (run : String)
    (before : RunSummary) {after : RunSummary} (h : after.deleted = false) :
    (r.finishStructural isProtected run before after).runs[run]? =
      some (RunState.fromSummary after) := by
  rw [finishStructural, h, Bool.and_false, if_neg Bool.false_ne_true]
  exact Std.ExtTreeMap.getElem?_insert_self

theorem get?_nudge_of_ne {event : TimelineEvent} (run : RunState) {other : String}
    (h : other ≠ event.runId) : (r.nudge event run).runs[other]? = r.runs[other]? :=
  Table.get?_insert_ne _ _ h

end RunRegistry

/-! ### Runs of the creators -/

/-- The summary of a run after its creation. -/
def createdSummary (p : String) (e : TimelineEvent) : RunSummary :=
  ⟨true, false, p, .pending, e.ptsMs⟩

namespace SlotWorker

variable (fromStr : String → Option Json)

/-- The creation of a run is committed, and every other event of it ends it. -/
structure Known (w : SlotWorker) (p : String) (e : TimelineEvent) : Prop where
  logged : e ∈ w.log
  kind : e.kind = "run_created"
  principal : principalKeyFromPayload fromStr e.payload = some p
  only : ∀ x ∈ w.log, x.runId = e.runId → x = e ∨ Ends x.kind = true

/-- A run whose creation is not applied has no entry. It is in its bucket once it is indexed. -/
structure Awaits (w : SlotWorker) (p : String) (e : TimelineEvent) : Prop where
  entry : w.registry.runs[e.runId]? = none
  bucket : w.indexed ≠ none → w.queue.head? = some e → e.runId ∈ w.registry.members p

/-- A run whose creation is applied has its entry and is in its bucket. -/
structure Entered (w : SlotWorker) (p : String) (e : TimelineEvent) : Prop where
  entry : (w.registry.runs[e.runId]?).map RunState.snapshot = some (createdSummary p e)
  bucket : e.runId ∈ w.registry.members p

/-- A creation that is committed and not applied. -/
structure Waits (w : SlotWorker) (p : String) (e : TimelineEvent) : Prop where
  known : Known fromStr w p e
  once : w.queue.count e = 1
  awaits : Slots.Ongoing w.log e.runId → Awaits w p e

/-- A creation that is applied. -/
structure Done (w : SlotWorker) (p : String) (e : TimelineEvent) : Prop where
  known : Known fromStr w p e
  gone : e ∉ w.queue
  enters : Slots.Ongoing w.log e.runId → Entered w p e

/-- What holds of the run of a creator. -/
def Tracks (w : SlotWorker) : Creation → Prop
  | .durable p e => Waits fromStr w p e
  | .applied p e | .released p e => Done fromStr w p e
  | _ => True

/-- The registry and the log agree. -/
structure Agrees (w : SlotWorker) : Prop where
  unknown : ∀ run, (∀ e ∈ w.log, e.runId ≠ run) →
    w.registry.runs[run]? = none ∧ ∀ q, run ∉ w.registry.members q
  queued : ∀ e ∈ w.queue, e ∈ w.log
  computed : ∀ before after, w.indexed = some (before, after) →
    ∃ event, w.queue.head? = some event ∧ before = w.registry.summary event.runId ∧
      after = before.applyEvent fromStr event

variable {fromStr} {w : SlotWorker} {p : String} {e : TimelineEvent}

/-- An event of a run that goes on is its creation. -/
theorem Known.eq_of_runId (h : Known fromStr w p e) (hongoing : Slots.Ongoing w.log e.runId)
    {x : TimelineEvent} (hx : x ∈ w.log) (hsame : x.runId = e.runId) : x = e := by
  rcases h.only x hx hsame with heq | hends
  · exact heq
  · rw [hongoing x hx hsame] at hends
    exact Bool.noConfusion hends

/-- The creation of a run without entry makes it pending. -/
theorem Known.applyEvent (h : Known fromStr w p e) :
    RunSummary.defaultPublic.applyEvent fromStr e = createdSummary p e := by
  have hmax : max 0 e.ptsMs = e.ptsMs := if_pos UInt64.zero_le
  simp [RunSummary.applyEvent, RunSummary.defaultPublic, createdSummary, h.kind, h.principal,
    transitionState, hmax]

/-- A new event that ends its run, or is of a run without events, leaves what is known. -/
theorem Known.commit (h : Known fromStr w p e) {event : TimelineEvent}
    (hnew : event.runId = e.runId → Ends event.kind = true) :
    Known fromStr (w.commit event) p e where
  logged := List.mem_append_left _ h.logged
  kind := h.kind
  principal := h.principal
  only x hx hsame := by
    rcases List.mem_append.mp hx with hx | hx
    · exact h.only x hx hsame
    · rw [List.mem_singleton.mp hx] at hsame ⊢
      exact .inr (hnew hsame)

theorem Waits.commit (h : Waits fromStr w p e) {event : TimelineEvent} (hne : e ≠ event)
    (hnew : event.runId = e.runId → Ends event.kind = true) :
    Waits fromStr (w.commit event) p e where
  known := h.known.commit hnew
  once := by simp [SlotWorker.commit, h.once, Ne.symm hne]
  awaits hgo := by
    have hbefore := h.awaits fun x hx ↦ hgo x (List.mem_append_left _ hx)
    refine ⟨hbefore.entry, fun hindexed hhead ↦ hbefore.bucket hindexed ?_⟩
    have hmem : e ∈ w.queue := List.count_pos_iff.mp (by rw [h.once]; exact Nat.one_pos)
    rw [SlotWorker.commit, List.head?_append_of_ne_nil _ (List.ne_nil_of_mem hmem)] at hhead
    exact hhead

theorem Done.commit (h : Done fromStr w p e) {event : TimelineEvent} (hne : e ≠ event)
    (hnew : event.runId = e.runId → Ends event.kind = true) :
    Done fromStr (w.commit event) p e where
  known := h.known.commit hnew
  gone := by simp [SlotWorker.commit, h.gone, hne]
  enters hgo := by
    have hbefore := h.enters fun x hx ↦ hgo x (List.mem_append_left _ hx)
    exact ⟨hbefore.entry, hbefore.bucket⟩

/-- A committed event waits in the queue. -/
theorem Tracks.commit {c : Creation} (h : Tracks fromStr w c) {event : TimelineEvent}
    (hnew : ∀ q x, c.created = some (q, x) → x ≠ event ∧
      (event.runId = x.runId → Ends event.kind = true)) : Tracks fromStr (w.commit event) c := by
  cases c with
  | durable p e => exact Waits.commit h (hnew p e rfl).1 (hnew p e rfl).2
  | applied p e => exact Done.commit h (hnew p e rfl).1 (hnew p e rfl).2
  | released p e => exact Done.commit h (hnew p e rfl).1 (hnew p e rfl).2
  | entered _ _ _ => trivial
  | counting _ _ _ _ _ => trivial
  | holding _ => trivial

/-- A creation that was just committed. -/
theorem tracks_new (hagrees : Agrees fromStr w) (hkind : e.kind = "run_created")
    (hprincipal : principalKeyFromPayload fromStr e.payload = some p)
    (hnew : ∀ x ∈ w.log, x.runId ≠ e.runId) : Tracks fromStr (w.commit e) (.durable p e) := by
  have hnone : e ∉ w.queue := fun hmem ↦ hnew e (hagrees.queued e hmem) rfl
  refine ⟨⟨by simp [SlotWorker.commit], hkind, hprincipal, ?_⟩, ?_, fun _ ↦ ⟨?_, ?_⟩⟩
  · intro x hx hsame
    rcases List.mem_append.mp hx with hx | hx
    · exact absurd hsame (hnew x hx)
    · exact .inl (List.mem_singleton.mp hx)
  · simp [SlotWorker.commit, List.count_eq_zero_of_not_mem hnone]
  · exact (hagrees.unknown e.runId hnew).1
  · intro hindexed hhead
    -- an indexed event is in the queue already
    obtain ⟨⟨before, after⟩, hsome⟩ := Option.ne_none_iff_exists'.mp hindexed
    obtain ⟨event, hfirst, -⟩ := hagrees.computed before after hsome
    obtain ⟨queue, hqueue⟩ := List.head?_eq_some_iff.mp hfirst
    rw [SlotWorker.commit, List.head?_append, hfirst] at hhead
    cases hhead
    exact absurd (by rw [hqueue]; exact List.mem_cons_self) hnone

theorem Agrees.commit (h : Agrees fromStr w) (event : TimelineEvent) :
    Agrees fromStr (w.commit event) where
  unknown run hrun := h.unknown run fun x hx ↦ hrun x (List.mem_append_left _ hx)
  queued x hx := by
    rcases List.mem_append.mp hx with hx | hx
    · exact List.mem_append_left _ (h.queued x hx)
    · exact List.mem_append_right _ hx
  computed before after hindexed := by
    obtain ⟨first, hfirst, hcomputed⟩ := h.computed before after hindexed
    refine ⟨first, ?_, hcomputed⟩
    rw [SlotWorker.commit, List.head?_append, hfirst]
    rfl

section Apply

variable {event : TimelineEvent} {queue : List TimelineEvent} {before after : RunSummary}

theorem Agrees.index (h : Agrees fromStr w) (hqueue : w.queue = event :: queue)
    (hbefore : before = w.registry.summary event.runId)
    (hafter : after = before.applyEvent fromStr event) :
    Agrees fromStr (w.index event before after) where
  unknown run hrun := by
    have hne : run ≠ event.runId := fun hsame ↦
      hrun event (h.queued event (by rw [hqueue]; exact List.mem_cons_self)) hsame.symm
    obtain ⟨hnone, hmembers⟩ := h.unknown run hrun
    constructor
    · rw [SlotWorker.index, (RunRegistry.reindex_frame _ _ _ _).1]
      exact hnone
    · intro q
      rw [SlotWorker.index, RunRegistry.mem_members_reindex_of_ne _ hne]
      exact hmembers q
  queued := h.queued
  computed before' after' hindexed := by
    cases hindexed
    refine ⟨event, by rw [SlotWorker.index, hqueue]; rfl, ?_, hafter⟩
    rw [SlotWorker.index, RunRegistry.summary, (RunRegistry.reindex_frame _ _ _ _).1]
    exact hbefore

theorem Agrees.finish (h : Agrees fromStr w) (hqueue : w.queue = event :: queue)
    (isProtected : Protection) : Agrees fromStr (w.finish isProtected event queue before after) where
  unknown run hrun := by
    have hne : run ≠ event.runId := fun hsame ↦
      hrun event (h.queued event (by rw [hqueue]; exact List.mem_cons_self)) hsame.symm
    obtain ⟨hnone, hmembers⟩ := h.unknown run hrun
    constructor
    · rw [SlotWorker.finish, RunRegistry.get?_finishStructural_of_ne _ _ _ _ hne]
      · exact hnone
      · rw [hnone]
        rfl
    · intro q
      rw [SlotWorker.finish, RunRegistry.members_finishStructural]
      exact hmembers q
  queued x hx := h.queued x (by rw [hqueue]; exact List.mem_cons_of_mem _ hx)
  computed before' after' hindexed := by cases hindexed

theorem Agrees.nudge (h : Agrees fromStr w) (hqueue : w.queue = event :: queue)
    (hindexed : w.indexed = none) (run : RunState) : Agrees fromStr (w.nudge event queue run) where
  unknown other hother := by
    have hne : other ≠ event.runId := fun hsame ↦
      hother event (h.queued event (by rw [hqueue]; exact List.mem_cons_self)) hsame.symm
    obtain ⟨hnone, hmembers⟩ := h.unknown other hother
    exact ⟨(RunRegistry.get?_nudge_of_ne _ run hne).trans hnone, hmembers⟩
  queued x hx := h.queued x (by rw [hqueue]; exact List.mem_cons_of_mem _ hx)
  computed before' after' hsome := by
    rw [SlotWorker.nudge, hindexed] at hsome
    cases hsome

/-- What is known of a run does not depend on what was applied. -/
theorem Known.congr {w' : SlotWorker} (h : Known fromStr w p e) (hlog : w'.log = w.log) :
    Known fromStr w' p e :=
  ⟨by rw [hlog]; exact h.logged, h.kind, h.principal, by rw [hlog]; exact h.only⟩

/-- The first event of the queue is of another run. -/
theorem Known.runId_ne (h : Known fromStr w p e) (hagrees : Agrees fromStr w)
    (hqueue : w.queue = event :: queue) (hgo : Slots.Ongoing w.log e.runId) (hother : event ≠ e) :
    e.runId ≠ event.runId := by
  intro hsame
  have hlogged := hagrees.queued event (by rw [hqueue]; exact List.mem_cons_self)
  exact hother (h.eq_of_runId hgo hlogged hsame.symm)

theorem Done.runId_ne (h : Done fromStr w p e) (hagrees : Agrees fromStr w)
    (hqueue : w.queue = event :: queue) (hgo : Slots.Ongoing w.log e.runId) :
    e.runId ≠ event.runId :=
  h.known.runId_ne hagrees hqueue hgo fun heq ↦
    h.gone (by rw [hqueue, heq]; exact List.mem_cons_self)

/-- What is computed for a creation of a run without entry. -/
theorem Waits.applyEvent (h : Waits fromStr w p e) (hgo : Slots.Ongoing w.log e.runId) :
    (w.registry.summary e.runId).applyEvent fromStr e = createdSummary p e := by
  rw [RunRegistry.summary, (h.awaits hgo).entry]
  exact h.known.applyEvent

theorem Waits.index (h : Waits fromStr w p e)
    (hqueue : w.queue = event :: queue) (hbefore : before = w.registry.summary event.runId)
    (hafter : after = before.applyEvent fromStr event) :
    Waits fromStr (w.index event before after) p e where
  known := h.known.congr rfl
  once := h.once
  awaits hgo := by
    have hawaits := h.awaits hgo
    constructor
    · rw [SlotWorker.index, (RunRegistry.reindex_frame _ _ _ _).1]
      exact hawaits.entry
    · intro _ hhead
      rw [SlotWorker.index, hqueue] at hhead
      have hfirst : event = e := Option.some.inj hhead
      subst hfirst
      have hcreated : after = createdSummary p event := by
        rw [hafter, hbefore]
        exact h.applyEvent hgo
      rw [SlotWorker.index, RunRegistry.reindex, hcreated, if_pos ⟨rfl, Bool.false_ne_true⟩,
        RunRegistry.members_joinBucket,
        if_pos (show p = (createdSummary p event).principalKey from rfl)]
      exact Finset.mem_insert_self _ _

theorem Done.index (h : Done fromStr w p e) (hagrees : Agrees fromStr w)
    (hqueue : w.queue = event :: queue) : Done fromStr (w.index event before after) p e where
  known := h.known.congr rfl
  gone := h.gone
  enters hgo := by
    have henters := h.enters hgo
    have hne := h.runId_ne hagrees hqueue hgo
    constructor
    · rw [SlotWorker.index, (RunRegistry.reindex_frame _ _ _ _).1]
      exact henters.entry
    · rw [SlotWorker.index, RunRegistry.mem_members_reindex_of_ne _ hne]
      exact henters.bucket

/-- An entry of a run that is not deleted. -/
theorem Entered.not_deleted (h : Entered w p e) :
    w.registry.runs[e.runId]?.any (·.snapshot.deleted) = false := by
  have hentry := h.entry
  cases hrun : w.registry.runs[e.runId]? with
  | none => rfl
  | some run =>
    rw [hrun] at hentry
    have hsnapshot : run.snapshot = createdSummary p e := Option.some.inj hentry
    rw [Option.any_some, hsnapshot]
    rfl

theorem Done.finish (h : Done fromStr w p e) (hagrees : Agrees fromStr w)
    (hqueue : w.queue = event :: queue) (isProtected : Protection) :
    Done fromStr (w.finish isProtected event queue before after) p e where
  known := h.known.congr rfl
  gone := fun hmem ↦ h.gone (by rw [hqueue]; exact List.mem_cons_of_mem _ hmem)
  enters hgo := by
    have henters := h.enters hgo
    have hne := h.runId_ne hagrees hqueue hgo
    constructor
    · rw [SlotWorker.finish, RunRegistry.get?_finishStructural_of_ne _ _ _ _ hne]
      · exact henters.entry
      · exact henters.not_deleted
    · rw [SlotWorker.finish, RunRegistry.members_finishStructural]
      exact henters.bucket

/-- Another event is applied. -/
theorem Waits.finish (h : Waits fromStr w p e) (hagrees : Agrees fromStr w)
    (hqueue : w.queue = event :: queue) (hother : e ≠ event) (isProtected : Protection) :
    Waits fromStr (w.finish isProtected event queue before after) p e where
  known := h.known.congr rfl
  once := by
    have honce := h.once
    rw [hqueue, List.count_cons_of_ne (Ne.symm hother)] at honce
    exact honce
  awaits hgo := by
    have hawaits := h.awaits hgo
    have hne := h.known.runId_ne hagrees hqueue hgo (Ne.symm hother)
    constructor
    · rw [SlotWorker.finish, RunRegistry.get?_finishStructural_of_ne _ _ _ _ hne]
      · exact hawaits.entry
      · rw [hawaits.entry]
        rfl
    · exact fun hindexed ↦ absurd rfl hindexed

/-- The creation itself is applied. -/
theorem Waits.done (h : Waits fromStr w p event) (hagrees : Agrees fromStr w)
    (hqueue : w.queue = event :: queue) (hindexed : w.indexed = some (before, after))
    (isProtected : Protection) :
    Done fromStr (w.finish isProtected event queue before after) p event where
  known := h.known.congr rfl
  gone := by
    have honce := h.once
    rw [hqueue, List.count_cons_self] at honce
    exact List.count_eq_zero.mp (Nat.succ.inj honce)
  enters hgo := by
    have hawaits := h.awaits hgo
    obtain ⟨first, hfirst, hbefore, hafter⟩ := hagrees.computed before after hindexed
    rw [hqueue] at hfirst
    cases hfirst
    have hcreated : after = createdSummary p event := by
      rw [hafter, hbefore]
      exact h.applyEvent hgo
    constructor
    · rw [SlotWorker.finish, RunRegistry.get?_finishStructural_self _ _ _ _ (by rw [hcreated]; rfl),
        Option.map_some, RunState.snapshot_fromSummary, hcreated]
    · rw [SlotWorker.finish, RunRegistry.members_finishStructural]
      exact hawaits.bucket (by rw [hindexed]; exact Option.some_ne_none _) (by rw [hqueue]; rfl)

theorem Waits.nudge (h : Waits fromStr w p e) (hagrees : Agrees fromStr w)
    (hqueue : w.queue = event :: queue) (hindexed : w.indexed = none)
    (hcreated : event.kind ≠ "run_created") (run : RunState) :
    Waits fromStr (w.nudge event queue run) p e where
  known := h.known.congr rfl
  once := by
    have honce := h.once
    have hother : event ≠ e := fun heq ↦ hcreated (by rw [heq]; exact h.known.kind)
    rw [hqueue, List.count_cons_of_ne hother] at honce
    exact honce
  awaits hgo := by
    have hawaits := h.awaits hgo
    have hne := h.known.runId_ne hagrees hqueue hgo fun heq ↦
      hcreated (by rw [heq]; exact h.known.kind)
    constructor
    · exact (RunRegistry.get?_nudge_of_ne _ run hne).trans hawaits.entry
    · exact fun hsome ↦ absurd hindexed hsome

theorem Done.nudge (h : Done fromStr w p e) (hagrees : Agrees fromStr w)
    (hqueue : w.queue = event :: queue) (run : RunState) :
    Done fromStr (w.nudge event queue run) p e where
  known := h.known.congr rfl
  gone := fun hmem ↦ h.gone (by rw [hqueue]; exact List.mem_cons_of_mem _ hmem)
  enters hgo := by
    have henters := h.enters hgo
    have hne := h.runId_ne hagrees hqueue hgo
    constructor
    · rw [SlotWorker.nudge, RunRegistry.get?_nudge_of_ne _ run hne]
      exact henters.entry
    · exact henters.bucket

end Apply

end SlotWorker

end Vidarax.Runs
