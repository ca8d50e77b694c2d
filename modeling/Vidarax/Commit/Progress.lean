import Mathlib.Data.Prod.Lex
import Vidarax.Base.Fair
import Vidarax.Commit.Sound

/-!
# Progress of the writer and of claims

A deletion in flight ends if the writer and the calls are always given another step: the call that
holds the guard comes to its end, the writer comes to each command in its queue, and it performs
the effects of each batch.
-/

namespace Vidarax.Commit

open Vidarax.Base Vidarax.Timeline Vidarax.Runs

/-! ### Work of the writer -/

/-- Steps of the writer to the end of a batch, at most. An append that is not synced may take an
effect for its answer and one for its guard, and each of them a wake-up. -/
def Phase.backlog : Phase → Nat
  | .gathering [] _ _ => 0
  | .gathering (a :: staged) _ more => 9 * (a :: staged).length + 8 + 20 * (more + 1)
  | .syncing staged => 9 * staged.length + 7
  | .applying rest all => 5 * rest.length + 4 * all.length + 4
  | .trimming _ rest all => 5 * rest.length + 4 * all.length + 7

/-- Steps of a call until it has handed its guard over. -/
def CallState.effort : CallState → Nat
  | .building _ => 4
  | .checking _ => 3
  | .sending _ => 2
  | .dropping .. => 1
  | _ => 0

namespace System

variable {s s' : System} {id : Nat} {crc : Bytes → UInt32} {fromStr : String → Option Json}

/-- Steps of the writer until it is idle, at most. -/
def backlog (s : System) : Nat :=
  s.wake.toList.length + 2 * s.due.length + s.w.registry.deletedRunOrder.length + s.phase.backlog

theorem length_errorEffects_le (reply : Option Nat) (guard : Option Ref) (err : String) :
    (errorEffects reply guard err).length ≤ 2 := by
  cases reply <;> cases guard <;> simp [errorEffects]

theorem length_announceEffects_le (a : StagedTimelineAppend Nat Ref) :
    (announceEffects a).length ≤ 2 := by
  unfold announceEffects
  cases a.reply <;> simp

theorem length_flatMap_le {β γ : Type} {f : β → List γ} {bound : Nat}
    (h : ∀ b, (f b).length ≤ bound) (l : List β) : (l.flatMap f).length ≤ bound * l.length := by
  induction l with
  | nil => exact Nat.zero_le _
  | cons b l ih =>
    have hb := h b
    rw [List.flatMap_cons, List.length_append, List.length_cons, Nat.mul_succ]
    omega

@[simp] theorem order_modify (run : Ref) (f : RunState → RunState) :
    (s.modify run f).w.registry.deletedRunOrder = s.w.registry.deletedRunOrder := by
  unfold modify
  split
  · dsimp only
    rw [RunRegistry.modifyRun]
    split <;> rfl
  · rfl

@[simp] theorem order_perform (effect : Effect Nat Ref) :
    (s.perform effect).w.registry.deletedRunOrder = s.w.registry.deletedRunOrder := by
  cases effect with
  | replied id result =>
    show (s.deliver id result).w.registry.deletedRunOrder = _
    unfold deliver
    split <;> rfl
  | guardCommitted run | guardDropped run => exact order_modify run _
  | failed | published | notified => rfl

variable (fromStr) in
theorem length_order_record (r : RunRegistry) (event : TimelineEvent) :
    (r.record fromStr event).deletedRunOrder.length ≤ r.deletedRunOrder.length + 1 := by
  rw [RunRegistry.record]
  dsimp only
  split <;> simp

theorem due_eq_nil (h : s.w.effects[s.performed]? = none) : s.due = [] :=
  List.drop_eq_nil_of_le (List.getElem?_eq_none_iff.mp h)

/-- A batch with guards is not empty. -/
theorem guards_eq_nil_of_gathering {bytes more : Nat} (h : s.phase = .gathering [] bytes more) :
    s.phase.guards = [] := by
  rw [h]
  rfl

theorem backlog_finish (hclaimed : Claimed s) (first : StagedTimelineAppend Nat Ref)
    (rest all : List (StagedTimelineAppend Nat Ref)) :
    (s.finish first rest all).backlog ≤ s.wake.toList.length + 2 * s.due.length +
      s.w.registry.deletedRunOrder.length + (5 * rest.length + 4 * all.length + 6) := by
  have hdue : (s.finish first rest all).due = s.due ++
      first.deleteGuard.toList.map .guardCommitted := hclaimed.due_append rfl
  have hguard : (first.deleteGuard.toList.map Effect.guardCommitted :
      List (Effect Nat Ref)).length ≤ 1 := by
    cases first.deleteGuard <;> simp
  rw [backlog, hdue, List.length_append]
  show s.wake.toList.length + _ + s.w.registry.deletedRunOrder.length +
    (5 * rest.length + 4 * all.length + 4) ≤ _
  omega

/-- A command is staged. -/
theorem backlog_stage (hclaimed : Claimed s) {staged staged' : List (StagedTimelineAppend Nat Ref)}
    {bytes more : Nat} (hphase : s.phase = .gathering staged bytes more)
    (hguards : s.phase.guards ≠ []) (a : Arrival Nat Ref)
    (hstaged : staged' = (s.w.stageCommand crc a staged bytes).2.1) {phase : Phase}
    (hnext : phase = .syncing staged' ∨
      ∃ bytes more', more' < more ∧ phase = .gathering staged' bytes more')
    (queue : List (TimelineCommand Nat Ref)) :
    ({ s with w := (s.w.stageCommand crc a staged bytes).1, queue := queue, phase := phase } :
      System).backlog < s.backlog := by
  obtain ⟨hregistry, notes, hnotes, hcases⟩ := stageCommand_cases crc s.w a staged bytes
  have hlength : staged'.length ≤ staged.length + 1 := by
    rw [hstaged]
    rcases hcases with ⟨hsame, -⟩ | ⟨hmore, -⟩
    · rw [hsame]
      exact Nat.le_succ _
    · rw [hmore, List.length_append]
      exact Nat.le_refl _
  have hdue : ((s.w.stageCommand crc a staged bytes).1.effects.drop s.performed).length ≤
      s.due.length + 3 := by
    have hone := hnotes.1
    rcases hcases with ⟨-, err, heffects⟩ | ⟨-, heffects, -⟩
    · have hanswer := length_errorEffects_le a.command.reply a.command.request.deleteGuard err
      rw [hclaimed.due_append heffects, List.length_append, List.length_append]
      omega
    · rw [hclaimed.due_append heffects, List.length_append]
      omega
  have hbefore : s.phase.backlog = 9 * staged.length + 8 + 20 * (more + 1) := by
    cases staged with
    | nil => exact absurd (guards_eq_nil_of_gathering hphase) hguards
    | cons first rest => rw [hphase, Phase.backlog]
  have hafter : phase.backlog + 7 ≤ 9 * staged.length + 8 + 20 * (more + 1) := by
    rcases hnext with rfl | ⟨bytes, more', hmore, rfl⟩
    · rw [Phase.backlog]
      omega
    · cases hempty : staged' with
      | nil =>
        rw [Phase.backlog]
        omega
      | cons first rest =>
        rw [hempty] at hlength
        rw [Phase.backlog]
        omega
  rw [backlog, backlog, due, hregistry, hbefore]
  dsimp only
  omega

/-- The writer takes a command, has less to do than before, or is idle. It takes no command while
there is an effect to perform, and has less to do if it takes one while a guard is in its batch. -/
theorem backlog_writerMove (hclaimed : Claimed s) (hmove : s.WriterMove crc fromStr s') :
    (∃ command, s.queue = command :: s'.queue ∧ s.due = [] ∧
        (s.phase.guards ≠ [] → s'.backlog < s.backlog)) ∨
      s'.queue = s.queue ∧ (s'.backlog < s.backlog ∨
        s.queue = [] ∧ s.phase.guards = [] ∧ s.due = []) := by
  cases hmove with
  | wake hwake =>
    refine .inr ⟨rfl, .inl ?_⟩
    rw [backlog, backlog, hwake]
    show 0 + 2 * s.due.length + s.w.registry.deletedRunOrder.length + s.phase.backlog <
      1 + 2 * s.due.length + s.w.registry.deletedRunOrder.length + s.phase.backlog
    omega
  | @perform effect hwake heffect =>
    refine .inr ⟨queue_perform effect, .inl ?_⟩
    have hone : (s.perform effect).wake.toList.length ≤ 1 := by
      cases (s.perform effect).wake <;> simp
    rw [backlog, backlog, hwake, Claimed.due_eq_cons heffect, due]
    dsimp only
    rw [effects_perform, order_perform, phase_perform, List.length_cons]
    simp only [Option.toList_none, List.length_nil]
    omega
  | rest hphase hqueue hidle =>
    exact .inr ⟨rfl, .inr ⟨hqueue, guards_eq_nil_of_gathering hphase, due_eq_nil hidle⟩⟩
  | skip hphase =>
    refine .inr ⟨rfl, .inl ?_⟩
    rw [backlog, backlog, hphase]
    exact Nat.add_lt_add_left (Nat.succ_pos 6) _
  | @close staged bytes more hphase hstaged =>
    refine .inr ⟨rfl, .inl ?_⟩
    rw [backlog, backlog, hphase]
    cases staged with
    | nil => exact absurd rfl hstaged
    | cons first rest =>
      apply Nat.add_lt_add_left
      simp only [Phase.backlog]
      omega
  | @stage staged staged' bytes more command queue w phase hphase hqueue halone a ha hw hstaged
      hnext hidle =>
    subst hw
    refine .inl ⟨command, hqueue, due_eq_nil hidle, fun hguards ↦ ?_⟩
    exact backlog_stage hclaimed hphase hguards a hstaged
      (hnext.imp_right fun hmore ↦ hmore.2) queue
  | @unsynced staged hphase err wal hwal =>
    refine .inr ⟨rfl, .inl ?_⟩
    obtain ⟨hregistry, notes, hnotes, hwal⟩ := withWal_cases s.w wal s.w.file
    have heffects : ((s.w.withWal wal s.w.file).emit (staged.flatMap fun a ↦
        errorEffects a.reply a.deleteGuard err)).effects = s.w.effects ++
          (notes ++ staged.flatMap fun a ↦ errorEffects a.reply a.deleteGuard err) := by
      rw [TimelineWriter.emit, hwal, List.append_assoc]
    have hlength := length_flatMap_le
      (fun a : StagedTimelineAppend Nat Ref ↦ length_errorEffects_le a.reply a.deleteGuard err) staged
    have hone := hnotes.1
    rw [Inv.foldl_failStaged, backlog, backlog, due, hclaimed.due_append heffects, hphase,
      List.length_append, List.length_append]
    show s.wake.toList.length + _ + (s.w.withWal wal s.w.file).registry.deletedRunOrder.length +
      0 < _
    rw [hregistry, Phase.backlog]
    omega
  | synced hphase wal committedEnd hlive hwal hend =>
    refine .inr ⟨rfl, .inl ?_⟩
    rw [backlog, backlog, hphase]
    apply Nat.add_lt_add_left
    simp only [Phase.backlog]
    omega
  | @publish all hphase =>
    refine .inr ⟨rfl, .inl ?_⟩
    have heffects : (s.w.publish.emit (all.flatMap announceEffects)).effects = s.w.effects ++
        ([.published s.w.nextSeq s.w.committedEnd] ++ all.flatMap announceEffects) := by
      simp [TimelineWriter.publish, TimelineWriter.emit]
    have hlength := length_flatMap_le length_announceEffects_le all
    rw [Inv.foldl_announce, backlog, backlog, due, hclaimed.due_append heffects, hphase,
      List.length_append, List.length_append, List.length_singleton]
    show s.wake.toList.length + _ + s.w.registry.deletedRunOrder.length + 0 < _
    simp only [Phase.backlog, List.length_nil]
    omega
  | @delete first rest all hphase hstructural =>
    refine .inr ⟨rfl, .inl ?_⟩
    have horder := length_order_record fromStr s.w.registry first.event
    rw [backlog, backlog, hphase]
    show s.wake.toList.length + 2 * s.due.length +
      (s.w.registry.record fromStr first.event).deletedRunOrder.length +
        (5 * rest.length + 4 * all.length + 7) < _
    simp only [Phase.backlog, List.length_cons]
    omega
  | @record first rest all hphase hstructural =>
    refine .inr ⟨rfl, .inl ?_⟩
    have horder := length_order_record fromStr s.w.registry first.event
    apply Nat.lt_of_le_of_lt (backlog_finish (hclaimed.record fromStr first.event) first rest all)
    rw [backlog, hphase]
    show s.wake.toList.length + 2 * s.due.length +
      (s.w.registry.record fromStr first.event).deletedRunOrder.length +
        (5 * rest.length + 4 * all.length + 6) < _
    simp only [Phase.backlog, List.length_cons]
    omega
  | @nudge first rest all hphase hplain =>
    refine .inr ⟨queue_modify _ _, .inl ?_⟩
    have hkind : first.event.kind ≠ "run_deleted" := fun hkind ↦ hplain (.inr (.inl hkind))
    apply Nat.lt_of_le_of_lt (backlog_finish (hclaimed.nudge hkind _) first rest all)
    rw [due_modify, order_modify, backlog, hphase]
    have hwake : (s.modify ⟨first.event.runId, s.generation first.event.runId⟩
        (·.applyEvent first.event)).wake = s.wake := by
      unfold modify
      split <;> rfl
    rw [hwake]
    simp only [Phase.backlog, List.length_cons]
    omega
  | @evict first rest all oldest order hphase horder hdeleted =>
    refine .inr ⟨rfl, .inl ?_⟩
    rw [backlog, backlog]
    show s.wake.toList.length + 2 * s.due.length + order.length + s.phase.backlog < _
    omega
  | @reorder first rest all order hphase horder =>
    refine .inr ⟨rfl, .inl ?_⟩
    rw [backlog, backlog]
    show s.wake.toList.length + 2 * s.due.length + order.length + s.phase.backlog < _
    omega
  | @trimmed first rest all hphase order horder =>
    refine .inr ⟨rfl, .inl ?_⟩
    apply Nat.lt_of_le_of_lt (backlog_finish (hclaimed.reorder order) first rest all)
    rw [backlog, hphase]
    show s.wake.toList.length + 2 * s.due.length + order.length +
      (5 * rest.length + 4 * all.length + 6) < _
    simp only [Phase.backlog]
    omega

/-! ### Guards with the writer -/

/-- Guards that the writer has or will find in its queue. -/
def held (s : System) : List Ref :=
  s.queue.flatMap commandGuards ++ s.phase.guards ++ s.due.flatMap Effect.guards

variable {stored : List TimelineEvent} {run : Ref}

theorem count_guards (run : Ref) : s.guards.count run =
    (s.calls.flatMap (·.state.guards)).count run + s.held.count run := by
  simp only [guards, held, List.count_append]
  omega

/-- A guard that the writer has is with no call. -/
theorem not_mem_calls (hclaimed : Claimed s) (hheld : run ∈ s.held) :
    ∀ call ∈ s.calls, run ∉ call.state.guards := by
  intro call hcall hmem
  have hcount := count_guards (s := s) run
  have hgiven : run ∈ s.calls.flatMap (·.state.guards) :=
    List.mem_flatMap.mpr ⟨call, hcall, hmem⟩
  have hcalls := List.count_pos_iff.mpr hgiven
  have hwriter := List.count_pos_iff.mpr hheld
  rw [hclaimed.count] at hcount
  split at hcount <;> omega

/-- The guard of a deletion in flight that no call has is with the writer. -/
theorem mem_held (hclaimed : Claimed s) (hflag : s.flag run = some .appendInFlight)
    (hcalls : ∀ call ∈ s.calls, run ∉ call.state.guards) : run ∈ s.held := by
  apply List.count_pos_iff.mp
  have hcount := count_guards (s := s) run
  have hnone : (s.calls.flatMap (·.state.guards)).count run = 0 := by
    apply List.count_eq_zero.mpr
    intro hmem
    obtain ⟨call, hcall, hheld⟩ := List.mem_flatMap.mp hmem
    exact hcalls call hcall hheld
  rw [hclaimed.count, if_pos hflag, hnone] at hcount
  omega

theorem flag_of_held (hclaimed : Claimed s) (hheld : run ∈ s.held) :
    s.flag run = some .appendInFlight := by
  apply hclaimed.flag_of_mem
  apply List.count_pos_iff.mp
  have hcount := count_guards (s := s) run
  have hwriter := List.count_pos_iff.mpr hheld
  omega

/-- The writer gives a guard back to nobody. -/
theorem held_step (hcoherent : Coherent stored s) (hheld : run ∈ s.held) (action : Action)
    (hflag : (s.step crc fromStr action).flag run = some .appendInFlight) :
    run ∈ (s.step crc fromStr action).held := by
  have hnot := not_mem_calls hcoherent.claimed hheld
  apply mem_held (hcoherent.step crc fromStr action).claimed hflag
  intro call' hcall' hmem
  rcases step_cases crc fromStr s action with
    ⟨mode, runId, streamId, kind, payload, -, hstep⟩ | ⟨id, hmove⟩ | hmove
  · rw [hstep] at hcall'
    rcases List.mem_append.mp hcall' with hold | hnew
    · exact hnot call' hold hmem
    · rw [List.mem_singleton.mp hnew, guards_enter] at hmem
      cases hmem
  · obtain ⟨call, hcall, hcallStep⟩ := calls_callMove hmove call' hcall'
    cases hcallStep with
    | keep hkeep => exact hnot call hcall (hkeep.guards run hmem)
    | found hentry hkind hrun hstate | missing hentry hlooking hkind hrun hstate =>
      rw [hstate] at hmem
      cases hmem
    | claim hclaiming hlive hkind hrun hstate =>
      rw [hstate] at hmem
      rw [← List.mem_singleton.mp hmem, flag_of_held hcoherent.claimed hheld] at hlive
      cases hlive
  · obtain ⟨call, hcall, hkeep⟩ := calls_writerMove hmove call' hcall'
    exact hnot call hcall (hkeep.guards run hmem)

/-- Commands of a queue up to the one with a guard, if it is there. -/
def ahead (run : Ref) : List (TimelineCommand Nat Ref) → Nat
  | [] => 0
  | command :: queue =>
    if run ∈ commandGuards command then 1
    else if ahead run queue = 0 then 0 else ahead run queue + 1

theorem ahead_eq_zero {queue : List (TimelineCommand Nat Ref)}
    (h : run ∉ queue.flatMap commandGuards) : ahead run queue = 0 := by
  induction queue with
  | nil => rfl
  | cons command queue ih =>
    rw [List.flatMap_cons, List.mem_append, not_or] at h
    rw [ahead, if_neg h.1, if_pos (ih h.2)]

theorem ahead_pos {queue : List (TimelineCommand Nat Ref)}
    (h : run ∈ queue.flatMap commandGuards) : 0 < ahead run queue := by
  induction queue with
  | nil => cases h
  | cons command queue ih =>
    rw [ahead]
    split
    · exact Nat.one_pos
    · next hnot =>
      rw [List.flatMap_cons, List.mem_append] at h
      have hpos := ih (h.resolve_left hnot)
      rw [if_neg (by omega)]
      exact Nat.succ_pos _

theorem ahead_append {command : TimelineCommand Nat Ref} (h : run ∉ commandGuards command)
    (queue : List (TimelineCommand Nat Ref)) :
    ahead run (queue ++ [command]) = ahead run queue := by
  induction queue with
  | nil => exact ahead_eq_zero (by simpa using h)
  | cons first queue ih => rw [List.cons_append, ahead, ahead, ih]

/-- A command is taken from the queue. -/
theorem ahead_tail {command : TimelineCommand Nat Ref} {queue : List (TimelineCommand Nat Ref)}
    (h : run ∈ (command :: queue).flatMap commandGuards)
    (hone : ((command :: queue).flatMap commandGuards).count run ≤ 1) :
    ahead run queue < ahead run (command :: queue) := by
  rw [ahead]
  by_cases hfirst : run ∈ commandGuards command
  · rw [if_pos hfirst, ahead_eq_zero]
    · exact Nat.one_pos
    · intro hrest
      rw [List.flatMap_cons, List.count_append] at hone
      have hcommand := List.count_pos_iff.mpr hfirst
      have hqueue := List.count_pos_iff.mpr hrest
      omega
  · rw [List.flatMap_cons, List.mem_append] at h
    have hpos := ahead_pos (h.resolve_left hfirst)
    rw [if_neg hfirst, if_neg (by omega)]
    exact Nat.lt_succ_self _

/-- How far the writer is from the end of a guard. -/
def distance (run : Ref) (s : System) : ℕ ×ₗ ℕ := toLex (ahead run s.queue, s.backlog)

@[simp] theorem wake_modify (other : Ref) (f : RunState → RunState) :
    (s.modify other f).wake = s.wake := by
  unfold modify
  split <;> rfl

theorem backlog_callMove (hmove : s.CallMove id s') : s'.backlog = s.backlog := by
  have hmodify (other : Ref) (f : RunState → RunState) :
      (s.modify other f).backlog = s.backlog := by
    rw [backlog, backlog, wake_modify, due_modify, order_modify, phase_modify]
  cases hmove with
  | claim hcall hstate hlive => exact hmodify _ _
  | withdraw hcall hstate => exact hmodify _ _
  | _ => rfl

/-- Calls keep the writer from nothing. -/
theorem distance_callMove (hclaimed : Claimed s) (hheld : run ∈ s.held)
    (hmove : s.CallMove id s') : distance run s' = distance run s := by
  rw [distance, distance, backlog_callMove hmove]
  cases hmove with
  | claim hcall hstate hlive | withdraw hcall hstate =>
    rw [System.setCall]
    dsimp only
    rw [queue_modify]
  | @send call guard hcall hstate =>
    have hnot : run ∉ commandGuards (call.command id guard) := by
      have hcalls := not_mem_calls hclaimed hheld call (List.mem_of_getElem? hcall)
      rw [hstate] at hcalls
      rwa [commandGuards_command]
    rw [System.setCall]
    dsimp only
    rw [ahead_append hnot]
  | _ => rfl

theorem distance_writerMove (hclaimed : Claimed s) (hheld : run ∈ s.held)
    (hmove : s.WriterMove crc fromStr s') : distance run s' < distance run s := by
  rw [distance, distance, Prod.Lex.toLex_lt_toLex]
  rcases backlog_writerMove hclaimed hmove with
    ⟨command, hqueue, hdue, hless⟩ | ⟨hqueue, hless | ⟨hnone, hempty, hdue⟩⟩
  · by_cases hqueued : run ∈ s.queue.flatMap commandGuards
    · left
      have hone : (s.queue.flatMap commandGuards).count run ≤ 1 := by
        have hcount := hclaimed.count run
        simp only [guards, List.count_append] at hcount
        split at hcount <;> omega
      rw [hqueue] at hqueued hone ⊢
      exact ahead_tail hqueued hone
    · right
      have hrest : run ∉ s'.queue.flatMap commandGuards := by
        rw [hqueue, List.flatMap_cons, List.mem_append, not_or] at hqueued
        exact hqueued.2
      refine ⟨by rw [ahead_eq_zero hqueued, ahead_eq_zero hrest], hless fun hnone ↦ ?_⟩
      rw [held, hdue, hnone, List.append_nil, List.flatMap_nil, List.append_nil] at hheld
      exact hqueued hheld
  · exact .inr ⟨by rw [hqueue], hless⟩
  · rw [held, hnone, hempty, hdue] at hheld
    cases hheld

/-! ### Guards with calls -/

/-- A call with a guard is not woken. -/
theorem wake_of_guards {call : Call} (h : run ∈ call.state.guards) (other : Ref) :
    call.wake other = call := by
  obtain ⟨mode, runId, streamId, kind, payload, state⟩ := call
  cases state with
  | loading | awaiting => cases h
  | _ => rfl

/-- What becomes of a call in a step of others: it stays, it is woken, or its caller does not wait
any more. -/
inductive Others (call : Call) : Call → Prop where
  | same : Others call call
  | woken (run : Ref) : Others call (call.wake run)
  | answered {call' : Call} (hbefore : call.state = .waiting) (hafter : call'.state.Done) :
    Others call call'
  | abandoned {call' : Call} {run : Ref} {woken : Bool}
    (hbefore : call.state = .awaiting run woken) (hafter : call'.state.Done) : Others call call'

theorem others_callMove {other : Nat} (hother : other ≠ id) (hmove : s.CallMove other s')
    {call : Call} (hcall : s.calls[id]? = some call) :
    ∃ call' : Call, s'.calls[id]? = some call' ∧ Others call call' := by
  have hset {t : System} {state : CallState} (ht : t.calls[id]? = some call) :
      ∃ call' : Call, (t.setCall other state).calls[id]? = some call' ∧ Others call call' :=
    ⟨call, by rw [getElem?_setCall_ne hother, ht], .same⟩
  cases hmove with
  | stay => exact ⟨call, hcall, .same⟩
  | shift hcall' hshift => exact hset hcall
  | claim hcall' hstate hlive | withdraw hcall' hstate => exact hset (by rwa [calls_modify])
  | send hcall' hstate => exact hset hcall
  | @wake call' run err hcall' hstate =>
    refine ⟨call.wake run, ?_, .woken run⟩
    rw [getElem?_setCall_ne hother, notify_calls, List.getElem?_map, hcall]
    rfl

theorem others_cancel {call : Call} (hcall : s.calls[id]? = some call) :
    ∃ call' : Call, (s.cancel id).calls[id]? = some call' ∧ Others call call' := by
  unfold cancel
  rw [hcall]
  split
  · next hstate =>
    obtain rfl := Option.some.inj hstate
    exact ⟨_, getElem?_setCall_eq hcall _, .abandoned rfl (.inr (.inr rfl))⟩
  · next hstate =>
    obtain rfl := Option.some.inj hstate
    exact ⟨_, getElem?_setCall_eq hcall _, .answered rfl (.inr (.inr rfl))⟩
  · exact ⟨call, hcall, .same⟩

theorem others_writerMove (hmove : s.WriterMove crc fromStr s') {call : Call}
    (hcall : s.calls[id]? = some call) :
    ∃ call' : Call, s'.calls[id]? = some call' ∧ Others call call' := by
  cases hmove with
  | @wake run hwake =>
    refine ⟨call.wake run, ?_, .woken run⟩
    show (s.calls.map _)[id]? = some _
    rw [List.getElem?_map, hcall]
    rfl
  | @perform effect hwake heffect =>
    cases effect with
    | replied other result =>
      show ∃ call', (s.deliver other result).calls[id]? = some call' ∧ Others call call'
      unfold deliver
      split
      · next hwaiting =>
        by_cases hother : other = id
        · subst hother
          obtain rfl := Option.some.inj (hcall.symm.trans hwaiting)
          exact ⟨_, getElem?_setCall_eq hcall _, .answered rfl (.inr (.inl ⟨_, rfl⟩))⟩
        · exact ⟨call, by rw [getElem?_setCall_ne hother, hcall], .same⟩
      · exact ⟨call, hcall, .same⟩
    | guardCommitted other | guardDropped other =>
      refine ⟨call, ?_, .same⟩
      show (s.modify other _).calls[id]? = some call
      rwa [calls_modify]
    | failed | published | notified => exact ⟨call, hcall, .same⟩
  | nudge hphase hplain =>
    refine ⟨call, ?_, .same⟩
    show (s.modify _ _).calls[id]? = some call
    rwa [calls_modify]
  | _ => exact ⟨call, hcall, .same⟩

variable (crc fromStr) in
/-- A call makes a step itself, or others do. -/
theorem others_step {call : Call} (hcall : s.calls[id]? = some call) (action : Action) :
    (∃ refused, action = .call id refused) ∨
      ∃ call' : Call, (s.step crc fromStr action).calls[id]? = some call' ∧ Others call call' := by
  cases action with
  | enter mode runId streamId kind payload =>
    refine .inr ⟨call, ?_, .same⟩
    show (s.calls ++ _)[id]? = some call
    rw [List.getElem?_append_left (List.getElem?_eq_some_iff.mp hcall).1, hcall]
  | call other refused =>
    by_cases hother : other = id
    · subst hother
      exact .inl ⟨refused, rfl⟩
    · exact .inr (others_callMove hother (callMove_callStep other refused) hcall)
  | cancel other =>
    by_cases hother : other = id
    · subst hother
      exact .inr (others_cancel hcall)
    · exact .inr (others_callMove hother (callMove_cancel other) hcall)
  | writer input => exact .inr (others_writerMove (writerMove_writerStep crc fromStr input) hcall)

/-- A call with a guard stays where it is while others make a step. -/
theorem Others.eq_of_guards {call call' : Call} (h : Others call call')
    (hheld : run ∈ call.state.guards) : call' = call := by
  cases h with
  | same => rfl
  | woken other => exact wake_of_guards hheld other
  | answered hbefore hafter | abandoned hbefore hafter =>
    rw [hbefore] at hheld
    cases hheld

/-- A step of the call that has a guard takes it further, hands the guard over or drops it. -/
theorem callStep_of_guards (hcoherent : Coherent stored s) {call : Call}
    (hcall : s.calls[id]? = some call) (hheld : run ∈ call.state.guards)
    (refused : Option String) :
    (∃ call' : Call, (s.callStep id refused).calls[id]? = some call' ∧
        run ∈ call'.state.guards ∧ call'.state.effort < call.state.effort) ∨
      run ∈ (s.callStep id refused).held ∨
      (s.callStep id refused).flag run ≠ some .appendInFlight := by
  have hwf := hcoherent.sound.calls call (List.mem_of_getElem? hcall)
  have hset {state : CallState} (hguards : run ∈ state.guards)
      (hless : state.effort < call.state.effort) :
      ∃ call' : Call, (s.setCall id state).calls[id]? = some call' ∧
        run ∈ call'.state.guards ∧ call'.state.effort < call.state.effort :=
    ⟨{ call with state := state }, getElem?_setCall_eq hcall state, hguards, hless⟩
  have hmode (hpointer : call.state.pointer.isSome) : call.mode ≠ .detached :=
    (hwf.deletes (.inr hpointer)).2
  unfold callStep
  rw [hcall]
  dsimp only
  generalize hstart : call.state = start at hheld hset hmode
  cases start with
  | building guard =>
    obtain rfl := Option.mem_toList.mp hheld
    have hattached := hmode rfl
    dsimp only
    split
    · rw [if_neg fun hfull ↦ hattached hfull.1]
      exact .inl (hset (List.mem_singleton.mpr rfl) (by simp [CallState.effort, Call.failed]))
    · split
      · exact .inl (hset hheld (by simp [CallState.effort]))
      · exact .inl (hset hheld (by simp [CallState.effort]))
  | checking guard =>
    obtain rfl := Option.mem_toList.mp hheld
    dsimp only
    split
    · exact .inl (hset (List.mem_singleton.mpr rfl) (by simp [CallState.effort, Call.failed]))
    · exact .inl (hset hheld (by simp [CallState.effort]))
  | sending guard =>
    obtain rfl := Option.mem_toList.mp hheld
    dsimp only
    split
    · rw [if_neg (hmode rfl)]
      exact .inl (hset (List.mem_singleton.mpr rfl) (by simp [CallState.effort, Call.failed]))
    · right; left
      apply List.mem_append_left
      apply List.mem_append_left
      apply List.mem_flatMap.mpr
      refine ⟨call.command id (some run), List.mem_append_right _ (List.mem_singleton.mpr rfl), ?_⟩
      rw [commandGuards_command]
      exact List.mem_singleton.mpr rfl
  | dropping other err =>
    obtain rfl := List.mem_singleton.mp hheld
    right; right
    have hclaimed := hcoherent.claimed.flag_of_mem (mem_guards_of_call hcall (by rwa [hstart]))
    show (s.modify run RunState.rollbackDeleteAppend).flag run ≠ some .appendInFlight
    rw [flag_rollbackDeleteAppend hclaimed, if_pos rfl]
    simp
  | _ => cases hheld

/-! ### Deletions in flight end -/

/-- The writer and every call that is ever entered are always given another step. -/
structure Fair (crc : Bytes → UInt32) (fromStr : String → Option Json) (s : System)
    (actions : Nat → Action) : Prop where
  writer : Recurs fun n ↦ ∃ input, actions n = .writer input
  calls : ∀ id, (∃ n, id < (s.after crc fromStr actions n).calls.length) →
    Recurs fun n ↦ ∃ refused, actions n = .call id refused

variable {actions : Nat → Action}

theorem distance_step (hclaimed : Claimed s) (hheld : run ∈ s.held) (action : Action) :
    distance run (s.step crc fromStr action) ≤ distance run s ∧
      ((∃ input, action = .writer input) →
        distance run (s.step crc fromStr action) < distance run s) := by
  cases action with
  | enter mode runId streamId kind payload => exact ⟨le_refl _, by simp⟩
  | call id refused =>
    exact ⟨(distance_callMove hclaimed hheld (callMove_callStep id refused)).le, by simp⟩
  | cancel id => exact ⟨(distance_callMove hclaimed hheld (callMove_cancel id)).le, by simp⟩
  | writer input =>
    have hless := distance_writerMove hclaimed hheld (writerMove_writerStep crc fromStr input)
    exact ⟨hless.le, fun _ ↦ hless⟩

/-- The writer comes to the end of a guard that it has. -/
theorem exists_not_inFlight_of_held (hcoherent : Coherent stored s)
    (hfair : Fair crc fromStr s actions) {n : Nat}
    (hheld : run ∈ (s.after crc fromStr actions n).held) :
    ∃ m, n ≤ m ∧ (s.after crc fromStr actions m).flag run ≠ some .appendInFlight := by
  have hafter (k : Nat) := hcoherent.after crc fromStr actions k
  have hends : ∃ m, n ≤ m ∧ run ∉ (s.after crc fromStr actions m).held := by
    apply eventually_of_rank (fun k ↦ distance run (s.after crc fromStr actions k)) hfair.writer
    · exact fun k _ hpending _ ↦ (distance_step (hafter k).claimed hpending (actions k)).1
    · exact fun k _ hturn hpending _ ↦
        (distance_step (hafter k).claimed hpending (actions k)).2 hturn
  obtain ⟨m, hm, hpending, hreleased⟩ := exists_last hheld hends
  exact ⟨m + 1, Nat.le_succ_of_le hm, fun hflag ↦
    hreleased (held_step (hafter m) (hpending m hm (Nat.le_refl m)) (actions m) hflag)⟩

/-- A call comes to the end of its guard, or hands it over to the writer. -/
theorem exists_held_of_call (hcoherent : Coherent stored s) (hfair : Fair crc fromStr s actions)
    {n : Nat} {call : Call} (hcall : (s.after crc fromStr actions n).calls[id]? = some call)
    (hheld : run ∈ call.state.guards) :
    ∃ m, n ≤ m ∧ (run ∈ (s.after crc fromStr actions m).held ∨
      (s.after crc fromStr actions m).flag run ≠ some .appendInFlight) := by
  have hafter (k : Nat) := hcoherent.after crc fromStr actions k
  let pending (k : Nat) : Prop :=
    ∃ call : Call, (s.after crc fromStr actions k).calls[id]? = some call ∧ run ∈ call.state.guards
  let rank (k : Nat) : Nat :=
    ((s.after crc fromStr actions k).calls[id]?.map (·.state.effort)).getD 0
  have hown (k : Nat) (hk : pending k) (hturn : ∃ refused, actions k = .call id refused) :
      (pending (k + 1) ∧ rank (k + 1) < rank k) ∨
        run ∈ (s.after crc fromStr actions (k + 1)).held ∨
        (s.after crc fromStr actions (k + 1)).flag run ≠ some .appendInFlight := by
    obtain ⟨call, hcall, hheld⟩ := hk
    obtain ⟨refused, haction⟩ := hturn
    have hnext : s.after crc fromStr actions (k + 1) =
        (s.after crc fromStr actions k).callStep id refused := by
      rw [System.after, haction]
      rfl
    rw [hnext]
    rcases callStep_of_guards (hafter k) hcall hheld refused with
      ⟨call', hcall', hheld', hless⟩ | hended
    · left
      unfold pending rank
      rw [hnext, hcall, hcall']
      exact ⟨⟨call', rfl, hheld'⟩, hless⟩
    · exact .inr hended
  have hless (k : Nat) (hk : pending k) (hnext : pending (k + 1))
      (hturn : ∃ refused, actions k = .call id refused) : rank (k + 1) < rank k := by
    obtain ⟨call, hcall, hheld⟩ := hnext
    rcases hown k hk hturn with ⟨-, hless⟩ | hwriter | hended
    · exact hless
    · exact absurd hheld (not_mem_calls (hafter (k + 1)).claimed hwriter call
        (List.mem_of_getElem? hcall))
    · exact absurd ((hafter (k + 1)).claimed.flag_of_mem (mem_guards_of_call hcall hheld)) hended
  have hkept (k : Nat) (hk : pending k) :
      (pending (k + 1) ∧ rank (k + 1) = rank k) ∨ ∃ refused, actions k = .call id refused := by
    obtain ⟨call, hcall, hheld⟩ := hk
    rcases others_step crc fromStr hcall (actions k) with
      hturn | ⟨call', hcall', hothers⟩
    · exact .inr hturn
    · left
      obtain rfl := hothers.eq_of_guards hheld
      unfold pending rank
      rw [hcall, System.after, hcall']
      exact ⟨⟨call', rfl, hheld⟩, rfl⟩
  have hcalls : Recurs fun k ↦ ∃ refused, actions k = .call id refused :=
    hfair.calls id ⟨n, (List.getElem?_eq_some_iff.mp hcall).1⟩
  have hends : ∃ m, n ≤ m ∧ ¬ pending m := by
    apply eventually_of_rank rank hcalls
    · intro k _ hk hnext
      rcases hkept k hk with ⟨-, hsame⟩ | hturn
      · exact hsame.le
      · exact (hless k hk hnext hturn).le
    · exact fun k _ hturn hk hnext ↦ hless k hk hnext hturn
  obtain ⟨m, hm, hpending, hended⟩ := exists_last ⟨call, hcall, hheld⟩ hends
  have hk := hpending m hm (Nat.le_refl m)
  refine ⟨m + 1, Nat.le_succ_of_le hm, ?_⟩
  rcases hkept m hk with ⟨hnext, -⟩ | hturn
  · exact absurd hnext hended
  · rcases hown m hk hturn with ⟨hnext, -⟩ | hover
    · exact absurd hnext hended
    · exact hover

/-- A deletion in flight ends. -/
theorem exists_not_inFlight (hcoherent : Coherent stored s) (hfair : Fair crc fromStr s actions)
    (n : Nat) (run : Ref) :
    ∃ m, n ≤ m ∧ (s.after crc fromStr actions m).flag run ≠ some .appendInFlight := by
  by_cases hflag : (s.after crc fromStr actions n).flag run = some .appendInFlight
  · have hclaimed := (hcoherent.after crc fromStr actions n).claimed
    by_cases hcalls : ∀ call ∈ (s.after crc fromStr actions n).calls, run ∉ call.state.guards
    · exact exists_not_inFlight_of_held hcoherent hfair (mem_held hclaimed hflag hcalls)
    · simp only [not_forall, not_not] at hcalls
      obtain ⟨call, hcall, hheld⟩ := hcalls
      obtain ⟨id, hid⟩ := List.mem_iff_getElem?.mp hcall
      obtain ⟨m, hm, hwriter | hended⟩ := exists_held_of_call hcoherent hfair hid hheld
      · obtain ⟨k, hk, hended⟩ := exists_not_inFlight_of_held hcoherent hfair hwriter
        exact ⟨k, hm.trans hk, hended⟩
      · exact ⟨m, hm, hended⟩
  · exact ⟨n, Nat.le_refl n, hflag⟩

/-- A deletion in flight is committed or rolled back. -/
theorem flag_step (hcoherent : Coherent stored s) (hflag : s.flag run = some .appendInFlight)
    (action : Action) :
    (s.step crc fromStr action).flag run = some .appendInFlight ∨
      (s.step crc fromStr action).flag run = some .live ∨
      (s.step crc fromStr action).flag run = some .deleted ∧
        (s.step crc fromStr action).Deleted stored run.run := by
  have hfresh {name : String} (hnew : run = ⟨name, s.generation name + 1⟩) : False := by
    have hnone : s.flag run = none := by
      rw [hnew, flag, object, if_neg (Nat.succ_ne_self _)]
      exact congrArg _ (hcoherent.claimed.fresh ⟨name, s.generation name + 1⟩ (Nat.lt_succ_self _))
    rw [hflag] at hnone
    cases hnone
  have hdeleted (h : (s.step crc fromStr action).flag run = some .deleted) :=
    (hcoherent.step crc fromStr action).sound.flags run h
  rcases step_cases crc fromStr s action with
    ⟨mode, runId, streamId, kind, payload, -, hstep⟩ | ⟨id, hmove⟩ | hmove
  · left
    rw [hstep]
    exact hflag
  · rcases flag_callMove hcoherent.claimed hmove run with hsame | ⟨call, -, -, hclaim | hdrop⟩
    · exact .inl (hsame.trans hflag)
    · exact .inl hclaim.2
    · exact .inr (.inl hdrop.2)
  · rcases flag_writerMove hcoherent.claimed hmove run with hsame | hnew
    · exact .inl (hsame.trans hflag)
    · generalize (s.step crc fromStr action).flag run = flag at hnew hdeleted ⊢
      cases hnew with
      | committed hdue hwake => exact .inr (.inr ⟨rfl, hdeleted rfl⟩)
      | dropped hdue hwake => exact .inr (.inl rfl)
      | recorded hfirst hrun hset => exact (hfresh hrun).elim
      | forgotten hrun => exact (hfresh hrun).elim

/-- A claim on a deletion is committed with the deletion, or rolled back. -/
theorem claim_ends (hcoherent : Coherent stored s) (hfair : Fair crc fromStr s actions) {n : Nat}
    (hflag : (s.after crc fromStr actions n).flag run = some .appendInFlight) :
    ∃ m, n ≤ m ∧
      (∀ k, n ≤ k → k ≤ m → (s.after crc fromStr actions k).flag run = some .appendInFlight) ∧
      ((s.after crc fromStr actions (m + 1)).flag run = some .live ∨
        (s.after crc fromStr actions (m + 1)).flag run = some .deleted ∧
          (s.after crc fromStr actions (m + 1)).Deleted stored run.run) := by
  obtain ⟨m, hm, hpending, hended⟩ := exists_last hflag (exists_not_inFlight hcoherent hfair n run)
  refine ⟨m, hm, hpending, ?_⟩
  rcases flag_step (hcoherent.after crc fromStr actions m) (hpending m hm (Nat.le_refl m))
    (actions m) with hsame | hdone
  · exact absurd hsame hended
  · exact hdone

end System

end Vidarax.Commit
