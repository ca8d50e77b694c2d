import Vidarax.Whip.Reclaimed

/-!
# The reclaim protocol

Packages `vidarax-api` and `vidarax-core`, `crates/vidarax-api/src/whip.rs:937–1261`. What holds of
one live session in every run of its watchers, terminations, stops and deletions, with appends that
fail at any time.
-/

namespace Vidarax.Whip

open Vidarax.Base Vidarax.Timeline Vidarax.Runs

namespace Reclaim

variable {fromStr : String → Option Json} {ttlMs : UInt64} {s : Reclaim}
  {events : List TimelineEvent}

/-- What the reclaim of a session guarantees. -/
structure Guarantees (fromStr : String → Option Json) (ttlMs : UInt64) (s : Reclaim) : Prop where
  removedOnce : s.removals.length ≤ 1
  /-- The run had ended when its session was removed, by an event or by expiry. -/
  removedAfter : ∀ removal ∈ s.removals, (∃ kind ∈ endKinds, HasKind removal.log kind) ∨
    WasExpired ttlMs removal.summary removal.times
  terminalOnce : s.log.countP (fun x ↦ x.author.any Role.reclaims ∧
    (x.event.kind = "run_completed" ∨ x.event.kind = "run_failed")) ≤ 1
  deletedFirst : ∀ removal ∈ s.removals, .delete ∈ removal.seen → HasKind removal.log "run_deleted"
  stopKept : ∀ removal ∈ s.removals, .stop ∈ removal.seen → .delete ∉ removal.seen →
    ∀ x ∈ s.log, x.author.any Role.reclaims = true → x.event.kind ∉ reclaimKinds
  /-- Only a reclaimer at work keeps others from the claim of a live session. -/
  claimHeld : s.live = true → s.claimed = true → ∃ t ∈ s.tasks, t.owns = true
  /-- A failed append leads to a live session that nobody has claimed. -/
  claimFreed : ∀ l r role seen, s.tasks = l ++ ⟨role, .failed, seen⟩ :: r →
    ∃ s', Step fromStr ttlMs s s' ∧ s'.live = true ∧ s'.claimed = false ∧
      ∀ t ∈ s'.tasks, t.owns = false
  /-- A run is terminal, deleted or forgotten once a termination was answered with `OK`. -/
  answeredOk : ∀ t ∈ s.tasks, t.role = .terminate → t.phase = .answered true →
    ∀ nowMs, (∀ time ∈ s.times, time ≤ nowMs) → s.whipRunIsTerminal ttlMs nowMs = true

theorem inv_initial (hcreated : ∃ e ∈ events, e.kind = "run_created") :
    Inv ttlMs events.length (initial fromStr events) := by
  have hlength : (initial fromStr events).log.length = events.length := List.length_map _
  have hnone : (initial fromStr events).log.countP Logged.reclaims = 0 := by
    rw [List.countP_eq_zero]
    intro x hx
    obtain ⟨e, -, rfl⟩ := List.mem_map.mp hx
    exact Bool.false_ne_true
  have hsummary : (initial fromStr events).summary =
      events.foldl (RunSummary.applyEvent fromStr) RunSummary.defaultPublic :=
    RunState.snapshot_fromSummary _
  refine ⟨nofun, rfl, ⟨fun _ ↦ rfl, fun _ ↦ rfl⟩, ?_, rfl, fun hmark ↦ ?_, fun place x hplace hx ↦ ?_,
    Nat.le_refl _, Nat.le_of_eq hlength.symm, fun hlt ↦ absurd hlt (Nat.lt_irrefl _), ?_, nofun,
    fun hgone ↦ absurd rfl hgone⟩
  · rw [hnone]
    exact Nat.zero_le _
  · rcases hmark with hmark | hmark <;> cases hmark
  · have hlt := (List.getElem?_eq_some_iff.mp hx).1
    rw [hlength] at hlt
    exact absurd hplace (Nat.not_le.mpr hlt)
  · rw [hsummary]
    exact known_foldl fromStr hcreated

theorem inv_reachable (hcreated : ∃ e ∈ events, e.kind = "run_created")
    (h : Reachable fromStr ttlMs events s) : Inv ttlMs events.length s := by
  induction h with
  | refl => exact inv_initial hcreated
  | tail _ hstep ih => exact ih.step hstep

/-- Who wrote holds the claim. -/
theorem countP_wrote_le (tasks : List Task) :
    tasks.countP Task.wrote ≤ tasks.countP Task.owns := by
  apply List.countP_mono_left
  intro t _ hwrote
  rw [Task.wrote, Bool.and_eq_true, Bool.and_eq_true] at hwrote
  obtain ⟨⟨hrole, hphase⟩, -⟩ := hwrote
  have hholds : t.phase.holds = true := by
    cases hcase : t.phase <;> rw [hcase] at hphase <;> first | rfl | cases hphase
  rw [Task.owns, hrole, hholds]
  rfl

/-- The reclaim of one live session whose run is created, in every order of operations. -/
theorem reclaim_protocol (hcreated : ∃ e ∈ events, e.kind = "run_created")
    (h : Reachable fromStr ttlMs events s) : Guarantees fromStr ttlMs s := by
  have hinv := inv_reachable hcreated h
  have howners : s.tasks.countP Task.owns + s.removals.length ≤ 1 := by
    rw [hinv.owners]
    split <;> omega
  have hwrote := countP_wrote_le s.tasks
  have hremovals : s.removals.countP Removal.wrote ≤ s.removals.length := List.countP_le_length
  have hwritten := hinv.written
  refine ⟨by omega, fun removal hremoval ↦ ?_, ?_, fun removal hremoval ↦ ?_,
    fun removal hremoval hstop hdelete x hx hrole hkind ↦ ?_, fun hlive hclaimed ↦ ?_,
    fun l r role seen hat ↦ ?_, fun t ht hrole hphase nowMs hlatest ↦ ?_⟩
  · obtain ⟨hsettled, hknown, -⟩ := hinv.removals removal hremoval
    exact hknown.cases hsettled
  · have hfinal : s.log.countP (fun x ↦ x.author.any Role.reclaims ∧
        (x.event.kind = "run_completed" ∨ x.event.kind = "run_failed")) ≤
          s.log.countP Logged.reclaims := by
      apply List.countP_mono_left
      intro x _ hx
      obtain ⟨hrole, hkind⟩ := of_decide_eq_true hx
      rw [Logged.reclaims, hrole, Bool.true_and, decide_eq_true_eq]
      simp only [reclaimKinds, List.mem_cons, List.not_mem_nil, or_false]
      exact hkind.elim .inl fun hfailed ↦ .inr (.inl hfailed)
    omega
  · exact (hinv.removals removal hremoval).2.2
  · -- The winner was the only one that could write, and saw the stop.
    obtain ⟨rest, hrest⟩ : ∃ rest, s.removals = removal :: rest := by
      cases hcase : s.removals with
      | nil =>
        rw [hcase] at hremoval
        cases hremoval
      | cons first rest =>
        rw [hcase, List.length_cons] at howners
        have hnil : rest = [] := List.length_eq_zero_iff.mp (by omega)
        rw [hcase, hnil, List.mem_singleton] at hremoval
        exact ⟨rest, by rw [hremoval]⟩
    rw [hrest, List.length_cons] at howners
    have hnil : rest = [] := List.length_eq_zero_iff.mp (by omega)
    have hsilent : Removal.wrote removal = false := by
      rw [Removal.wrote, decide_eq_true ⟨hstop, hdelete⟩]
      rfl
    rw [hrest, hnil, List.countP_singleton, hsilent, if_neg Bool.false_ne_true] at hwritten
    have hlogged : Logged.reclaims x = true := by
      rw [Logged.reclaims, hrole, decide_eq_true hkind]
      rfl
    have hone : 0 < s.log.countP Logged.reclaims := List.countP_pos_iff.mpr ⟨x, hx, hlogged⟩
    omega
  · have hnone := hinv.live.mp hlive
    have hone := hinv.owners
    rw [hclaimed, hnone, if_pos rfl, List.length_nil, Nat.add_zero] at hone
    exact List.countP_pos_iff.mp (by omega)
  · have hold := hinv.tasks _ (mem_focus hat)
    have howns : Task.owns ⟨role, .failed, seen⟩ = true := by
      rw [Task.owns, hold.role rfl]
      rfl
    have hrelease := hinv.release hat
    refine ⟨_, .release hat, (hinv.live_of_owns (mem_focus hat) howns).1, rfl, fun t ht ↦ ?_⟩
    have hnone := hrelease.owners
    rw [if_neg Bool.false_ne_true] at hnone
    have hzero := List.countP_eq_zero.mp (Nat.eq_zero_of_add_eq_zero_right hnone) t ht
    simpa using hzero
  · have hsettled := (hinv.tasks t ht).settled (.inl (by rw [hphase]; rfl))
    exact terminal_of_settled hsettled hlatest

theorem Reachable.next {s' : Reclaim} (h : Reachable fromStr ttlMs events s)
    (hstep : Step fromStr ttlMs s s') : Reachable fromStr ttlMs events s' :=
  h.tail hstep

/-- The creation of a run. -/
def runCreated : TimelineEvent := ⟨1, "run", "default", 5, "run_created", ""⟩

/-- Its completion. -/
def runCompleted : TimelineEvent := ⟨2, "run", "default", 9, "run_completed", ""⟩

/-- A watcher fails to append, and a termination completes the run and removes the session. -/
theorem reclaim_protocol_retry : ∃ s : Reclaim, s.live = false ∧ s.log.length = 2 ∧
    s.tasks = [⟨.watcher, .returned false, []⟩, ⟨.terminate, .answered true, [.complete]⟩] ∧
      Guarantees (fun _ ↦ none) 0 s := by
  have hstart : Reachable (fun _ ↦ none) 0 [runCreated] (initial (fun _ ↦ none) [runCreated]) :=
    .refl
  have hclaimed := (((hstart.next (.arrive .watcher)).next (.move (l := []) (r := []) rfl .peer)).next
    (.move (l := []) (r := []) rfl (.look rfl))).next
    (.claim (l := []) (r := []) rfl (.inl rfl) rfl)
  have hfailed := (((hclaimed.next (.move (l := []) (r := []) rfl (.readFault rfl))).next
    (.look (l := []) (r := []) rfl 7 (.append rfl))).next (.fail (l := []) (r := []) rfl)).next
    (.release (l := []) (r := []) rfl)
  have hmarked := (((hfailed.next (.arrive .terminate)).next
    (.move (l := [_]) (r := []) rfl (.owned rfl))).next
    (.move (l := [_]) (r := []) rfl (.find rfl))).next (.complete (l := [_]) (r := []) rfl)
  have hagain := (hmarked.next (.move (l := [_]) (r := []) rfl (.look rfl))).next
    (.claim (l := [_]) (r := []) rfl (.inl rfl) rfl)
  have hsent := (hagain.next (.move (l := [_]) (r := []) rfl (.readComplete rfl))).next
    (.look (l := [_]) (r := []) rfl 8 (.append rfl))
  have happlied := (hsent.next (.commit (l := [_]) (r := []) rfl runCompleted rfl
    fun _ ↦ rfl)).next (.apply rfl)
  have hremoved := (happlied.next (.move (l := [_]) (r := []) rfl (.answer (by decide)))).next
    (.remove (l := [_]) (r := []) rfl rfl)
  have hanswered := (hremoved.next (.record (l := [_]) (r := []) rfl)).next
    (.move (l := [_]) (r := []) rfl .succeed)
  exact ⟨_, rfl, rfl, rfl, reclaim_protocol ⟨runCreated, List.mem_singleton_self _, rfl⟩ hanswered⟩

end Reclaim

end Vidarax.Whip
