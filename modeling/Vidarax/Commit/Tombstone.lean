import Vidarax.Commit.Sound

/-!
# Tombstones

A run that is known and live gets one tombstone, whatever its callers and the writer do. Until then
the only requests that delete it carry the guard of its one state, and the tombstone is alone in
its batch. From then on the flag of its new state turns callers away, the commands that are queued
for it are refused, and the guard of the old state can only be committed.
-/

namespace Vidarax.Commit

open Vidarax.Base Vidarax.Timeline Vidarax.Runs

/-- An event that neither creates nor deletes a run. -/
def Plain (kind : String) : Prop := kind ≠ "run_created" ∧ kind ≠ "run_deleted"

/-- No event of the run follows its deletion. -/
def Final (run : String) (log : List TimelineEvent) : Prop :=
  log.Pairwise fun d e ↦ d.kind = "run_deleted" → d.runId = run → e.runId ≠ run

theorem Final.of_ne {run : String} {log : List TimelineEvent}
    (h : ∀ e ∈ log, e.runId = run → e.kind ≠ "run_deleted") : Final run log := by
  apply List.pairwise_iff_forall_sublist.mpr
  intro d e hsublist hkind hrun
  exact absurd hkind (h d (hsublist.subset List.mem_cons_self) hrun)

/-- Whatever comes behind the first events is last. -/
theorem Final.concat {run : String} {log : List TimelineEvent}
    (h : ∀ e ∈ log, e.runId = run → e.kind ≠ "run_deleted") (last : TimelineEvent) :
    Final run (log ++ [last]) := by
  apply List.pairwise_append.mpr ⟨Final.of_ne h, List.pairwise_singleton _ _, _⟩
  exact fun d hd e he hkind hrun ↦ absurd hkind (h d hd hrun)

/-- There is no more than one deletion. -/
theorem Final.length_filter_le {run : String} {log : List TimelineEvent} (h : Final run log) :
    (log.filter fun e ↦ e.kind = "run_deleted" ∧ e.runId = run).length ≤ 1 := by
  have hpairs := List.Pairwise.filter (fun e ↦ e.kind = "run_deleted" ∧ e.runId = run) h
  have hmem (e : TimelineEvent)
      (he : e ∈ log.filter fun e ↦ e.kind = "run_deleted" ∧ e.runId = run) :
      e.kind = "run_deleted" ∧ e.runId = run := of_decide_eq_true (List.mem_filter.mp he).2
  generalize log.filter (fun e ↦ e.kind = "run_deleted" ∧ e.runId = run) = found at hpairs hmem ⊢
  match found with
  | [] | [_] => simp
  | d :: e :: rest =>
    have hd := hmem d List.mem_cons_self
    have he := hmem e (List.mem_cons_of_mem _ List.mem_cons_self)
    exact absurd he.2 ((List.pairwise_cons.mp hpairs).1 e List.mem_cons_self hd.1 hd.2)

namespace System

variable {s s' : System} {stored : List TimelineEvent} {id : Nat} {crc : Bytes → UInt32}
  {fromStr : String → Option Json}

/-! ### The run before its tombstone -/

/-- The run has one state, `mark`, and what is on its way to delete it carries the guard of this
state. Since `before` the run has not been deleted, but for a tombstone that is synced and applied
next. -/
structure Unburied (run : String) (mark : Ref) (before : List TimelineEvent) (s : System) :
    Prop where
  current : mark = ⟨run, s.generation run⟩
  present : s.flag mark = some .live ∨ s.flag mark = some .appendInFlight
  pointers : ∀ call ∈ s.calls, call.runId = run → ∀ other ∈ call.state.pointer, other = mark
  requests : ∀ call ∈ s.calls, call.runId = run → call.state.Requests →
    call.kind ≠ "run_created" ∧ (call.kind = "run_deleted" → call.state.pointer = some mark)
  asks : ∀ q ∈ s.asks, q.runId = run →
    q.kind ≠ "run_created" ∧ (q.kind = "run_deleted" → q.guard = some mark)
  spent : .guardCommitted mark ∉ s.due
  log : (∀ a ∈ s.phase.unfinished, a.event.runId = run → Plain a.event.kind) ∧
      (∃ new, s.committed = before ++ new ∧ ∀ e ∈ new, e.runId = run → e.kind ≠ "run_deleted") ∨
    ∃ tombstone new, s.phase = .applying [tombstone] [tombstone] ∧
      tombstone.event.kind = "run_deleted" ∧ tombstone.event.runId = run ∧
      tombstone.deleteGuard = some mark ∧ s.committed = before ++ (new ++ [tombstone.event]) ∧
      ∀ e ∈ new, e.runId = run → e.kind ≠ "run_deleted"

/-- The run has been deleted since `before`. Its state is a new one, and the guard of the state
`mark` that it had is with nobody but the writer, which commits it. -/
structure Buried (run : String) (mark : Ref) (before : List TimelineEvent) (s : System) :
    Prop where
  current : mark.run = run ∧ s.generation run = mark.generation + 1
  deleted : s.flag ⟨run, s.generation run⟩ = some .deleted
  stale : s.flag mark ≠ some .live
  pointers : ∀ call ∈ s.calls, call.runId = run → ∀ other ∈ call.state.pointer,
    other = mark ∨ other = ⟨run, s.generation run⟩
  released : ∀ call ∈ s.calls, mark ∉ call.state.guards
  requests : ∀ call ∈ s.calls, call.runId = run → call.state.Requests → call.kind ≠ "run_deleted"
  asks : ∀ q ∈ s.asks, q.runId = run → q.kind ≠ "run_deleted"
  kept : .guardDropped mark ∉ s.due
  unsynced : ∀ a ∈ s.phase.unsynced, a.event.runId ≠ run
  unapplied : ∀ a ∈ s.phase.unapplied, a.event.runId ≠ run
  log : ∃ new, s.committed = before ++ new ∧ Final run new ∧
    ∃ e ∈ new, e.kind = "run_deleted" ∧ e.runId = run

variable {run : String} {mark : Ref} {before : List TimelineEvent}

/-- A run has an entry if its state has a flag. -/
theorem entry_of_flag {number : Nat} (hnumber : number = s.generation run) {flag : RunDelete}
    (h : s.flag ⟨run, number⟩ = some flag) : s.entry run = some ⟨run, number⟩ := by
  subst hnumber
  obtain ⟨state, hobject, -⟩ := Option.map_eq_some_iff.mp h
  rw [object, if_pos rfl] at hobject
  rw [entry, if_pos]
  rw [Std.ExtTreeMap.contains_eq_isSome_getElem?, hobject]
  rfl

namespace Unburied

theorem entry_eq (h : Unburied run mark before s) : s.entry run = some mark := by
  rw [h.current]
  rcases h.present with hflag | hflag <;> rw [h.current] at hflag <;>
    exact entry_of_flag rfl hflag

/-- Where a step takes calls for the run. -/
theorem calls_next (h : Unburied run mark before s) {call call' : Call} (hcall : call ∈ s.calls)
    (hwf : call.WF) (hstep : s.CallStep call call') (hrun : call'.runId = run) :
    (∀ other ∈ call'.state.pointer, other = mark) ∧ (call'.state.Requests →
      call'.kind ≠ "run_created" ∧
        (call'.kind = "run_deleted" → call'.state.pointer = some mark)) := by
  cases hstep with
  | keep hkeep =>
    rw [hkeep.runId] at hrun
    refine ⟨fun other hother ↦ h.pointers call hcall hrun other (hkeep.pointer other hother),
      fun hrequests ↦ ?_⟩
    obtain ⟨hbefore, hpointer⟩ := hkeep.requests hrequests
    rw [hkeep.kind, hpointer]
    exact h.requests call hcall hrun hbefore
  | found hentry hkind hsame hstate =>
    rw [← hsame, hrun, h.entry_eq] at hentry
    rw [hstate]
    refine ⟨fun other hother ↦ ?_, by simp [CallState.Requests]⟩
    rw [Option.some.inj hentry]
    exact (Option.some.inj hother).symm
  | missing hentry hlooking hkind hsame hstate =>
    rw [← hsame, hrun, h.entry_eq] at hentry
    cases hentry
  | @claim other hclaiming hlive hkind hsame hstate =>
    have hpointer : other ∈ call.state.pointer := by
      rw [hclaiming]
      rfl
    have hmark := h.pointers call hcall (hsame.symm.trans hrun) other hpointer
    have hdeletes := (hwf.deletes (.inr (Option.isSome_iff_exists.mpr ⟨other, hpointer⟩))).1
    rw [hstate, hkind, hdeletes, hmark]
    exact ⟨fun _ hheld ↦ (Option.some.inj hheld).symm, fun _ ↦ ⟨by decide, fun _ ↦ rfl⟩⟩

theorem callMove (h : Unburied run mark before s) (hcoherent : Coherent stored s)
    (hmove : s.CallMove id s') : Unburied run mark before s' := by
  have hphase := phase_callMove hmove
  have hnext {call' : Call} (hcall' : call' ∈ s'.calls) (hrun : call'.runId = run) :
      (∀ other ∈ call'.state.pointer, other = mark) ∧ (call'.state.Requests →
        call'.kind ≠ "run_created" ∧
          (call'.kind = "run_deleted" → call'.state.pointer = some mark)) := by
    obtain ⟨call, hcall, hstep⟩ := calls_callMove hmove call' hcall'
    exact h.calls_next hcall (hcoherent.sound.calls call hcall) hstep hrun
  constructor
  · rw [generation_callMove hmove]
    exact h.current
  · rcases flag_callMove hcoherent.claimed hmove mark with hsame | ⟨call, -, -, hclaim | hdrop⟩
    · rw [hsame]
      exact h.present
    · exact .inr hclaim.2
    · exact .inl hdrop.2
  · exact fun call' hcall' hrun ↦ (hnext hcall' hrun).1
  · exact fun call' hcall' hrun ↦ (hnext hcall' hrun).2
  · intro q hq hrun
    rcases asks_callMove hmove hq with hold | ⟨call, hcall, hrequests, hkind, hsame, hguard⟩
    · exact h.asks q hold hrun
    · rw [hkind, hguard]
      exact h.requests call hcall (hsame.symm.trans hrun) hrequests
  · rw [due_callMove hmove]
    exact h.spent
  · rw [hphase, committed_callMove hmove]
    exact h.log

/-- A step of the writer that leaves the entry of the run. -/
theorem next (h : Unburied run mark before s) (hcoherent : Coherent stored s)
    (hmove : s.WriterMove crc fromStr s') (hgeneration : s'.generation run = s.generation run)
    (hspent : .guardCommitted mark ∉ s'.due)
    (hlog : (∀ a ∈ s'.phase.unfinished, a.event.runId = run → Plain a.event.kind) ∧
        (∃ new, s'.committed = before ++ new ∧
          ∀ e ∈ new, e.runId = run → e.kind ≠ "run_deleted") ∨
      ∃ tombstone new, s'.phase = .applying [tombstone] [tombstone] ∧
        tombstone.event.kind = "run_deleted" ∧ tombstone.event.runId = run ∧
        tombstone.deleteGuard = some mark ∧ s'.committed = before ++ (new ++ [tombstone.event]) ∧
        ∀ e ∈ new, e.runId = run → e.kind ≠ "run_deleted") : Unburied run mark before s' := by
  have hmark {name : String} (hnew : mark = ⟨name, s.generation name + 1⟩) : False := by
    have hname := congrArg Ref.run hnew
    have hnumber := congrArg Ref.generation hnew
    rw [h.current] at hname hnumber
    dsimp only at hname hnumber
    rw [← hname] at hnumber
    omega
  refine ⟨?_, ?_, ?_, ?_, fun q hq ↦ h.asks q (asks_writerMove hmove hq), hspent, hlog⟩
  · rw [hgeneration]
    exact h.current
  · rcases flag_writerMove hcoherent.claimed hmove mark with hsame | hnew
    · rw [hsame]
      exact h.present
    · generalize s'.flag mark = flag at hnew
      cases hnew with
      | committed hdue hwake => exact absurd hdue h.spent
      | dropped hdue hwake => exact .inl rfl
      | recorded hfirst hnew hflag => exact (hmark hnew).elim
      | forgotten hnew => exact (hmark hnew).elim
  · intro call' hcall' hrun other hother
    obtain ⟨call, hcall, hkeep⟩ := calls_writerMove hmove call' hcall'
    exact h.pointers call hcall (hkeep.runId.symm.trans hrun) other (hkeep.pointer other hother)
  · intro call' hcall' hrun hrequests
    obtain ⟨call, hcall, hkeep⟩ := calls_writerMove hmove call' hcall'
    obtain ⟨hbefore, hpointer⟩ := hkeep.requests hrequests
    rw [hkeep.kind, hpointer]
    exact h.requests call hcall (hkeep.runId.symm.trans hrun) hbefore

/-- The tombstone is applied. -/
theorem bury (h : Unburied run mark before s) (hcoherent : Coherent stored s)
    {tombstone : StagedTimelineAppend Nat Ref}
    (hphase : s.phase = .applying [tombstone] [tombstone])
    (hkind : tombstone.event.kind = "run_deleted") (hrun : tombstone.event.runId = run)
    (hguard : tombstone.deleteGuard = some mark) {new : List TimelineEvent}
    (hcommitted : s.committed = before ++ (new ++ [tombstone.event]))
    (hnew : ∀ e ∈ new, e.runId = run → e.kind ≠ "run_deleted") (hcalls : s'.calls = s.calls)
    (hflag : ∀ other, s'.flag other = (s.replace tombstone.event.runId
      (s.w.registry.record fromStr tombstone.event)).flag other)
    (hgeneration : s'.generation run = s.generation run + 1) (hqueue : s'.queue = s.queue)
    (hdue : .guardDropped mark ∈ s'.due → .guardDropped mark ∈ s.due)
    (hsame : s'.committed = s.committed) (hunsynced : s'.phase.unsynced = [])
    (hunapplied : s'.phase.unapplied = []) : Buried run mark before s' := by
  have hmem : mark ∈ s.phase.guards := by
    rw [hphase]
    simp [Phase.guards, StagedTimelineAppend.guards, hguard]
  have hclaimed := hcoherent.claimed.flag_of_mem (mem_guards_of_phase hmem)
  obtain ⟨hfree, hunqueued, hkept⟩ := hcoherent.claimed.elsewhere hmem
  have hmark := h.current
  have hflags (other : Ref) := flag_replace
    (touches_record fromStr s.w.registry tombstone.event) other
  rw [hrun] at hflags hflag
  have hrequests : ∀ call ∈ s.calls, call.runId = run → call.state.Requests →
      call.kind ≠ "run_deleted" := by
    intro call hcall hname hrequests hdeletes
    have hpointer := (h.requests call hcall hname hrequests).2 hdeletes
    apply hfree call hcall
    obtain ⟨guard, hstate | hstate | hstate⟩ := hrequests <;> rw [hstate] at hpointer ⊢ <;>
      exact Option.mem_toList.mpr hpointer
  constructor
  · rw [hgeneration, hmark]
    exact ⟨rfl, rfl⟩
  · rw [hflag, hgeneration, hflags, if_pos rfl, RunRegistry.record, hrun,
      Std.ExtTreeMap.getElem?_insert_self, Option.map_some, RunState.fromSummary]
    simp [RunRegistry.deleted_applyEvent, hkind]
  · rw [hflag, hflags, if_neg (by rw [hmark]; simp), hclaimed]
    decide
  · rw [hcalls, hgeneration]
    exact fun call hcall hname other hother ↦ .inl (h.pointers call hcall hname other hother)
  · rw [hcalls]
    exact hfree
  · rw [hcalls]
    exact hrequests
  · intro q hq hname hdeletes
    rw [System.asks, hunsynced, hqueue, List.map_nil, List.append_nil] at hq
    have hasked := (h.asks q (List.mem_append_left _ hq) hname).2 hdeletes
    obtain ⟨command, hcommand, rfl⟩ := List.mem_map.mp hq
    exact hunqueued command hcommand (Option.mem_toList.mpr hasked)
  · exact fun hdropped ↦ hkept _ (hdue hdropped) (List.mem_singleton.mpr rfl)
  · rw [hunsynced]
    exact fun _ ha ↦ absurd ha List.not_mem_nil
  · rw [hunapplied]
    exact fun _ ha ↦ absurd ha List.not_mem_nil
  · exact ⟨new ++ [tombstone.event], hsame.trans hcommitted, Final.concat hnew tombstone.event,
      tombstone.event, List.mem_append_right _ (List.mem_singleton.mpr rfl), hkind, hrun⟩

/-- While nothing is synced that deletes the run, its entry stays. -/
theorem generation_eq (h : Unburied run mark before s)
    (hplain : ∀ a ∈ s.phase.unfinished, a.event.runId = run → Plain a.event.kind)
    (hmove : s.WriterMove crc fromStr s') : s'.generation run = s.generation run := by
  rcases generation_writerMove hmove run with
    hsame | ⟨first, rest, all, hphase, hrun, hcreates | hdeletes | hunknown⟩ | ⟨hdeleted, -⟩
  · exact hsame
  · exact absurd hcreates (hplain first (by rw [hphase]; exact List.mem_cons_self) hrun).1
  · exact absurd hdeletes (hplain first (by rw [hphase]; exact List.mem_cons_self) hrun).2
  · have hentry := h.entry_eq
    rw [entry, if_neg (by rwa [hrun] at hunknown)] at hentry
    cases hentry
  · rw [isDeleted_eq_true_iff, ← h.current] at hdeleted
    rcases h.present with hflag | hflag <;> rw [hflag] at hdeleted <;> cases hdeleted

theorem not_mem_due (h : Unburied run mark before s) (hcoherent : Coherent stored s)
    (hplain : ∀ a ∈ s.phase.unfinished, a.event.runId = run → Plain a.event.kind)
    (hmove : s.WriterMove crc fromStr s') : .guardCommitted mark ∉ s'.due := by
  intro hmem
  rcases due_writerMove hcoherent.claimed hmove hmem with hold | hnew
  · exact h.spent hold
  · generalize heffect : Effect.guardCommitted mark = effect at hnew
    cases hnew with
    | failed | published maxSeq committedEnd => cases heffect
    | rejected hq hrejected =>
      subst heffect
      simp [errorEffects] at hrejected
    | announced ha hannounced =>
      subst heffect
      simp [announceEffects] at hannounced
    | @finished first other hfirst hguard =>
      obtain rfl := Effect.guardCommitted.inj heffect
      obtain ⟨-, hfits⟩ := hcoherent.sound.unannounced first
        (hcoherent.sound.unfinished first hfirst)
      obtain ⟨hkind, hrun⟩ := hfits.guard mark hguard
      have hname : mark.run = run := congrArg Ref.run h.current
      exact (hplain first hfirst (hrun.symm.trans hname)).2 hkind

theorem writerMove (h : Unburied run mark before s) (hcoherent : Coherent stored s)
    (hmove : s.WriterMove crc fromStr s') :
    Unburied run mark before s' ∨ Buried run mark before s' := by
  rcases h.log with ⟨hplain, new, hcommitted, hnew⟩ |
    ⟨tombstone, new, hphase, hkind, hrun, hguard, hcommitted, hnew⟩
  · left
    apply h.next hcoherent hmove (h.generation_eq hplain hmove)
      (h.not_mem_due hcoherent hplain hmove)
    rcases committed_writerMove hmove with
      ⟨hsame, hunfinished, -⟩ | ⟨staged, hphase, hsame, hnext⟩
    · exact .inl ⟨fun a ha ↦ hplain a (hunfinished a ha), new, hsame.trans hcommitted, hnew⟩
    · have hasked (a : StagedTimelineAppend Nat Ref) (ha : a ∈ staged) : a.ask ∈ s.asks := by
        apply List.mem_append_right
        rw [hphase]
        exact List.mem_map_of_mem ha
      have hadded : s'.committed = before ++ (new ++ events staged) := by
        rw [hsame, hcommitted, List.append_assoc]
      by_cases hdead : ∃ a ∈ staged, a.event.kind = "run_deleted" ∧ a.event.runId = run
      · obtain ⟨a, ha, hkind, hrun⟩ := hdead
        have halone := hcoherent.alone
        rw [hphase] at halone
        rcases halone with hnone | ⟨only, honly⟩
        · exact absurd hkind (hnone a ha)
        · rw [honly] at ha hadded hnext
          obtain rfl := List.mem_singleton.mp ha
          exact .inr ⟨a, new, hnext, hkind, hrun,
            (h.asks a.ask (hasked a (by rw [honly]; exact ha)) hrun).2 hkind, hadded, hnew⟩
      · refine .inl ⟨fun a ha hrun ↦ ?_, new ++ events staged, hadded, fun e he hrun hkind ↦ ?_⟩
        · rw [hnext] at ha
          exact ⟨(h.asks a.ask (hasked a ha) hrun).1, fun hkind ↦ hdead ⟨a, ha, hkind, hrun⟩⟩
        · rcases List.mem_append.mp he with hold | hadd
          · exact hnew e hold hrun hkind
          · obtain ⟨a, ha, rfl⟩ := List.mem_map.mp hadd
            exact hdead ⟨a, ha, hkind, hrun⟩
  · have hgeneration (r : RunRegistry) :
        (s.replace tombstone.event.runId r).generation run = s.generation run + 1 := by
      rw [hrun]
      exact if_pos rfl
    have hstep := hmove
    cases hmove with
    | wake hwake => exact .inl (h.next hcoherent hstep rfl h.spent h.log)
    | perform hwake heffect =>
      left
      refine h.next hcoherent hstep (congrFun (generation_perform _) run)
        (fun hmem ↦ h.spent (due_perform heffect hmem)) ?_
      dsimp only
      rw [phase_perform, committed_perform]
      exact h.log
    | delete hphase' hstructural =>
      rw [hphase] at hphase'
      cases hphase'
      exact .inr (h.bury hcoherent hphase hkind hrun hguard hcommitted hnew rfl (fun _ ↦ rfl)
        (hgeneration (s.w.registry.record fromStr tombstone.event)) rfl (fun hmem ↦ hmem) rfl rfl
        rfl)
    | record hphase' hstructural =>
      rw [hphase] at hphase'
      cases hphase'
      refine .inr (h.bury hcoherent hphase hkind hrun hguard hcommitted hnew rfl (fun _ ↦ rfl)
        (hgeneration (s.w.registry.record fromStr tombstone.event)) rfl (fun hmem ↦ ?_) rfl rfl
        rfl)
      have hdue : ((s.replace tombstone.event.runId
          (s.w.registry.record fromStr tombstone.event)).finish tombstone [] [tombstone]).due =
            s.due ++ tombstone.deleteGuard.toList.map .guardCommitted :=
        hcoherent.claimed.due_append rfl
      rw [hdue] at hmem
      rcases List.mem_append.mp hmem with hold | hadded
      · exact hold
      · simp at hadded
    | nudge hphase' hplain =>
      rw [hphase] at hphase'
      cases hphase'
      exact absurd (.inr (.inl hkind)) hplain
    | rest hphase' | skip hphase' | close hphase' | stage hphase' | unsynced hphase'
    | synced hphase' | publish hphase' | evict hphase' | reorder hphase' | trimmed hphase' =>
      rw [hphase] at hphase'
      cases hphase'

end Unburied

/-! ### The run after its tombstone -/

namespace Buried

theorem entry_eq (h : Buried run mark before s) :
    s.entry run = some ⟨run, s.generation run⟩ :=
  entry_of_flag rfl h.deleted

/-- The guards that a call for the run could hold are not alive. -/
theorem not_mem_guards (h : Buried run mark before s) (hcoherent : Coherent stored s) {call : Call}
    (hcall : call ∈ s.calls) : ⟨run, s.generation run⟩ ∉ call.state.guards := by
  intro hmem
  obtain ⟨id, hid⟩ := List.mem_iff_getElem?.mp hcall
  have hclaimed := hcoherent.claimed.flag_of_mem (mem_guards_of_call hid hmem)
  rw [h.deleted] at hclaimed
  cases hclaimed

/-- Where a step takes calls for the run. -/
theorem calls_next (h : Buried run mark before s) {call call' : Call} (hcall : call ∈ s.calls)
    (hstep : s.CallStep call call') (hrun : call'.runId = run) :
    (∀ other ∈ call'.state.pointer, other = mark ∨ other = ⟨run, s.generation run⟩) ∧
      (call'.state.Requests → call'.kind ≠ "run_deleted") := by
  cases hstep with
  | keep hkeep =>
    rw [hkeep.runId] at hrun
    refine ⟨fun other hother ↦ h.pointers call hcall hrun other (hkeep.pointer other hother),
      fun hrequests ↦ ?_⟩
    rw [hkeep.kind]
    exact h.requests call hcall hrun (hkeep.requests hrequests).1
  | found hentry hkind hsame hstate =>
    rw [← hsame, hrun, h.entry_eq] at hentry
    rw [hstate]
    refine ⟨fun other hother ↦ .inr ?_, by simp [CallState.Requests]⟩
    rw [Option.some.inj hentry]
    exact (Option.some.inj hother).symm
  | missing hentry hlooking hkind hsame hstate =>
    rw [← hsame, hrun, h.entry_eq] at hentry
    cases hentry
  | @claim other hclaiming hlive hkind hsame hstate =>
    rcases h.pointers call hcall (hsame.symm.trans hrun) other (by rw [hclaiming]; rfl) with
      rfl | rfl
    · exact absurd hlive h.stale
    · rw [h.deleted] at hlive
      cases hlive

theorem callMove (h : Buried run mark before s) (hcoherent : Coherent stored s)
    (hmove : s.CallMove id s') : Buried run mark before s' := by
  have hphase := phase_callMove hmove
  have hgeneration := generation_callMove hmove
  have hnext {call' : Call} (hcall' : call' ∈ s'.calls) (hrun : call'.runId = run) :
      (∀ other ∈ call'.state.pointer, other = mark ∨ other = ⟨run, s.generation run⟩) ∧
        (call'.state.Requests → call'.kind ≠ "run_deleted") := by
    obtain ⟨call, hcall, hstep⟩ := calls_callMove hmove call' hcall'
    exact h.calls_next hcall hstep hrun
  refine ⟨by rw [hgeneration]; exact h.current, ?_, ?_, ?_, ?_, ?_, ?_, ?_, ?_, ?_, ?_⟩
  · rw [hgeneration]
    rcases flag_callMove hcoherent.claimed hmove ⟨run, s.generation run⟩ with
      hsame | ⟨call, hcall, -, ⟨hlive, -⟩ | ⟨hheld, -⟩⟩
    · rw [hsame]
      exact h.deleted
    · rw [h.deleted] at hlive
      cases hlive
    · exact absurd hheld (h.not_mem_guards hcoherent hcall)
  · rcases flag_callMove hcoherent.claimed hmove mark with
      hsame | ⟨call, hcall, -, ⟨hlive, -⟩ | ⟨hheld, -⟩⟩
    · rw [hsame]
      exact h.stale
    · exact absurd hlive h.stale
    · exact absurd hheld (h.released call hcall)
  · rw [hgeneration]
    exact fun call' hcall' hrun ↦ (hnext hcall' hrun).1
  · intro call' hcall' hheld
    obtain ⟨call, hcall, hstep⟩ := calls_callMove hmove call' hcall'
    cases hstep with
    | keep hkeep => exact h.released call hcall (hkeep.guards mark hheld)
    | found hentry hkind hsame hstate | missing hentry hlooking hkind hsame hstate =>
      rw [hstate] at hheld
      cases hheld
    | claim hclaiming hlive hkind hsame hstate =>
      rw [hstate] at hheld
      rw [List.mem_singleton.mp hheld] at h
      exact absurd hlive h.stale
  · exact fun call' hcall' hrun ↦ (hnext hcall' hrun).2
  · intro q hq hrun
    rcases asks_callMove hmove hq with hold | ⟨call, hcall, hrequests, hkind, hsame, -⟩
    · exact h.asks q hold hrun
    · rw [hkind]
      exact h.requests call hcall (hsame.symm.trans hrun) hrequests
  · rw [due_callMove hmove]
    exact h.kept
  · rw [hphase]
    exact h.unsynced
  · rw [hphase]
    exact h.unapplied
  · rw [committed_callMove hmove]
    exact h.log

theorem writerMove (h : Buried run mark before s) (hcoherent : Coherent stored s)
    (hmove : s.WriterMove crc fromStr s') (hretained : s'.w.registry.runs.contains run = true) :
    Buried run mark before s' := by
  have hgeneration : s'.generation run = s.generation run := by
    rcases generation_writerMove hmove run with
      hsame | ⟨first, rest, all, hphase, hrun, -⟩ | ⟨-, hgone⟩
    · exact hsame
    · exact absurd hrun (h.unapplied first (by rw [hphase]; exact List.mem_cons_self))
    · rw [hretained] at hgone
      cases hgone
  have hnew {number : Nat} (hnumber : number ≤ s.generation run) {name : String}
      (hfresh : (⟨run, number⟩ : Ref) = ⟨name, s.generation name + 1⟩) : False := by
    have hname : run = name := congrArg Ref.run hfresh
    have hlate : number = s.generation name + 1 := congrArg Ref.generation hfresh
    rw [← hname] at hlate
    omega
  have hmark : mark = ⟨run, mark.generation⟩ := by rw [← h.current.1]
  refine ⟨by rw [hgeneration]; exact h.current, ?_, ?_, ?_, ?_, ?_,
    fun q hq ↦ h.asks q (asks_writerMove hmove hq), ?_, ?_, ?_, ?_⟩
  · rw [hgeneration]
    rcases flag_writerMove hcoherent.claimed hmove ⟨run, s.generation run⟩ with hsame | hset
    · rw [hsame]
      exact h.deleted
    · generalize s'.flag _ = flag at hset
      cases hset with
      | committed hdue hwake => rfl
      | dropped hdue hwake =>
        have hclaimed := hcoherent.claimed.flag_of_mem (mem_guards_of_due hdue
          (List.mem_singleton.mpr rfl))
        rw [h.deleted] at hclaimed
        cases hclaimed
      | recorded hfirst hfresh hflag => exact (hnew (Nat.le_refl _) hfresh).elim
      | forgotten hfresh => exact (hnew (Nat.le_refl _) hfresh).elim
  · rcases flag_writerMove hcoherent.claimed hmove mark with hsame | hset
    · rw [hsame]
      exact h.stale
    · have hnumber : mark.generation ≤ s.generation run := by
        rw [h.current.2]
        exact Nat.le_succ _
      generalize s'.flag mark = flag at hset
      cases hset with
      | committed hdue hwake => simp
      | dropped hdue hwake => exact absurd hdue h.kept
      | recorded hfirst hfresh hflag => exact (hnew hnumber (hmark.symm.trans hfresh)).elim
      | forgotten hfresh => exact (hnew hnumber (hmark.symm.trans hfresh)).elim
  · rw [hgeneration]
    intro call' hcall' hrun other hother
    obtain ⟨call, hcall, hkeep⟩ := calls_writerMove hmove call' hcall'
    exact h.pointers call hcall (hkeep.runId.symm.trans hrun) other (hkeep.pointer other hother)
  · intro call' hcall' hheld
    obtain ⟨call, hcall, hkeep⟩ := calls_writerMove hmove call' hcall'
    exact h.released call hcall (hkeep.guards mark hheld)
  · intro call' hcall' hrun hrequests
    obtain ⟨call, hcall, hkeep⟩ := calls_writerMove hmove call' hcall'
    rw [hkeep.kind]
    exact h.requests call hcall (hkeep.runId.symm.trans hrun) (hkeep.requests hrequests).1
  · intro hmem
    rcases due_writerMove hcoherent.claimed hmove hmem with hold | hadded
    · exact h.kept hold
    · generalize heffect : Effect.guardDropped mark = effect at hadded
      cases hadded with
      | failed | published maxSeq committedEnd | finished hfirst hguard => cases heffect
      | @rejected q err other hq hrejected =>
        subst heffect
        have hguard : q.guard = some mark := by simpa [errorEffects] using hrejected
        obtain ⟨hkind, hrun⟩ := (hcoherent.sound.asks q hq).guard mark hguard
        exact h.asks q hq (hrun.symm.trans h.current.1) hkind
      | announced ha hannounced =>
        subst heffect
        simp [announceEffects] at hannounced
  · intro a ha hrun
    rcases unsynced_writerMove hmove ha with hold | hlive
    · exact h.unsynced a hold hrun
    · have hasked : a.ask ∈ s'.asks := List.mem_append_right _ (List.mem_map_of_mem ha)
      have hkind := h.asks a.ask (asks_writerMove hmove hasked) hrun
      have hdeleted := (isDeleted_eq_true_iff run).mpr h.deleted
      rw [← hrun, hlive hkind] at hdeleted
      cases hdeleted
  · rcases committed_writerMove hmove with ⟨-, -, hunapplied⟩ | ⟨staged, hphase, -, hnext⟩
    · exact fun a ha ↦ h.unapplied a (hunapplied a ha)
    · rw [hnext]
      exact fun a ha ↦ h.unsynced a (by rw [hphase]; exact ha)
  · obtain ⟨new, hcommitted, hfinal, tombstone, hmem, hdeletes⟩ := h.log
    rcases committed_writerMove hmove with ⟨hsame, -⟩ | ⟨staged, hphase, hsame, -⟩
    · exact ⟨new, hsame.trans hcommitted, hfinal, tombstone, hmem, hdeletes⟩
    · have hother : ∀ e ∈ events staged, e.runId ≠ run := by
        intro e he
        obtain ⟨a, ha, rfl⟩ := List.mem_map.mp he
        exact h.unsynced a (by rw [hphase]; exact ha)
      refine ⟨new ++ events staged, by rw [hsame, hcommitted, List.append_assoc], ?_, tombstone,
        List.mem_append_left _ hmem, hdeletes⟩
      exact List.pairwise_append.mpr ⟨hfinal, Final.of_ne fun e he hrun ↦ absurd hrun (hother e he),
        fun d _ e he _ _ ↦ hother e he⟩

end Buried

/-! ### Runs of the system -/

/-- The run is in the registry and live, and nobody is about to create or delete it. -/
structure Settled (s : System) (run : String) : Prop where
  live : s.flag ⟨run, s.generation run⟩ = some .live
  calls : ∀ call ∈ s.calls, call.runId = run → call.state.Done ∨ Plain call.kind
  asks : ∀ q ∈ s.asks, q.runId = run → Plain q.kind
  unfinished : ∀ a ∈ s.phase.unfinished, a.event.runId = run → Plain a.event.kind

/-- A call is entered that creates the run. -/
def Action.Creates (run : String) : Action → Prop
  | .enter _ runId _ kind _ => runId = run ∧ kind = "run_created"
  | .call .. | .cancel _ | .writer _ => False

theorem Settled.unburied (h : s.Settled run) (hcoherent : Coherent stored s) :
    Unburied run ⟨run, s.generation run⟩ s.committed s where
  current := rfl
  present := .inl h.live
  pointers := by
    intro call hcall hrun other hother
    rcases h.calls call hcall hrun with hdone | hplain
    · rw [hdone.pointer_eq] at hother
      cases hother
    · have hheld := Option.isSome_iff_exists.mpr ⟨other, hother⟩
      exact absurd ((hcoherent.sound.calls call hcall).deletes (.inr hheld)).1 hplain.2
  requests := by
    intro call hcall hrun hrequests
    rcases h.calls call hcall hrun with hdone | hplain
    · exact absurd hrequests hdone.not_requests
    · exact ⟨hplain.1, fun hkind ↦ absurd hkind hplain.2⟩
  asks := fun q hq hrun ↦ ⟨(h.asks q hq hrun).1, fun hkind ↦ absurd hkind (h.asks q hq hrun).2⟩
  spent := by
    intro hdue
    have hclaimed := hcoherent.claimed.flag_of_mem
      (mem_guards_of_due hdue (List.mem_singleton.mpr rfl))
    rw [h.live] at hclaimed
    cases hclaimed
  log := .inl ⟨h.unfinished, [], (List.append_nil _).symm, fun _ he ↦ absurd he List.not_mem_nil⟩

section Enter

variable (mode : Mode) (runId streamId kind payload : String)

theorem requests_enter (h : (Call.enter mode runId streamId kind payload).state.Requests) :
    kind ≠ "run_deleted" := by
  intro hkind
  rw [Call.enter, if_pos hkind] at h
  split at h <;> simp [CallState.Requests] at h

variable {mode runId streamId kind payload}

theorem Unburied.enter (h : Unburied run mark before s)
    (hkind : runId = run → kind ≠ "run_created") : Unburied run mark before
      { s with calls := s.calls ++ [Call.enter mode runId streamId kind payload] } := by
  refine ⟨h.current, h.present, fun call hcall hrun other hother ↦ ?_,
    fun call hcall hrun hrequests ↦ ?_, h.asks, h.spent, h.log⟩
  · rcases List.mem_append.mp hcall with hold | hnew
    · exact h.pointers call hold hrun other hother
    · rw [List.mem_singleton.mp hnew, pointer_enter] at hother
      cases hother
  · rcases List.mem_append.mp hcall with hold | hnew
    · exact h.requests call hold hrun hrequests
    · rw [List.mem_singleton.mp hnew] at hrun hrequests ⊢
      exact ⟨hkind hrun, fun hdeletes ↦ absurd hdeletes (requests_enter _ _ _ _ _ hrequests)⟩

theorem Buried.enter (h : Buried run mark before s) : Buried run mark before
    { s with calls := s.calls ++ [Call.enter mode runId streamId kind payload] } := by
  refine ⟨h.current, h.deleted, h.stale, fun call hcall hrun other hother ↦ ?_,
    fun call hcall hheld ↦ ?_, fun call hcall hrun hrequests ↦ ?_, h.asks, h.kept, h.unsynced,
    h.unapplied, h.log⟩
  · rcases List.mem_append.mp hcall with hold | hnew
    · exact h.pointers call hold hrun other hother
    · rw [List.mem_singleton.mp hnew, pointer_enter] at hother
      cases hother
  · rcases List.mem_append.mp hcall with hold | hnew
    · exact h.released call hold hheld
    · rw [List.mem_singleton.mp hnew, guards_enter] at hheld
      cases hheld
  · rcases List.mem_append.mp hcall with hold | hnew
    · exact h.requests call hold hrun hrequests
    · rw [List.mem_singleton.mp hnew] at hrequests ⊢
      exact requests_enter _ _ _ _ _ hrequests

end Enter

theorem Unburied.step (h : Unburied run mark before s) (hcoherent : Coherent stored s)
    {action : Action} (haction : ¬ action.Creates run) :
    Unburied run mark before (s.step crc fromStr action) ∨
      Buried run mark before (s.step crc fromStr action) := by
  rcases step_cases crc fromStr s action with
    ⟨mode, runId, streamId, kind, payload, rfl, hstep⟩ | ⟨id, hmove⟩ | hmove
  · rw [hstep]
    exact .inl (h.enter fun hrun hkind ↦ haction ⟨hrun, hkind⟩)
  · exact .inl (h.callMove hcoherent hmove)
  · exact h.writerMove hcoherent hmove

theorem Buried.step (h : Buried run mark before s) (hcoherent : Coherent stored s)
    {action : Action}
    (hretained : (s.step crc fromStr action).w.registry.runs.contains run = true) :
    Buried run mark before (s.step crc fromStr action) := by
  rcases step_cases crc fromStr s action with
    ⟨mode, runId, streamId, kind, payload, -, hstep⟩ | ⟨id, hmove⟩ | hmove
  · rw [hstep]
    exact h.enter
  · exact h.callMove hcoherent hmove
  · exact h.writerMove hcoherent hmove hretained

/-- A live run stays live until it is deleted, once. -/
theorem Settled.after (h : s.Settled run) (hcoherent : Coherent stored s) (actions : Nat → Action)
    (n : Nat) (hcreates : ∀ m < n, ¬ (actions m).Creates run)
    (hretained : ∀ m ≤ n, (s.after crc fromStr actions m).w.registry.runs.contains run = true) :
    Unburied run ⟨run, s.generation run⟩ s.committed (s.after crc fromStr actions n) ∨
      Buried run ⟨run, s.generation run⟩ s.committed (s.after crc fromStr actions n) := by
  induction n with
  | zero => exact .inl (h.unburied hcoherent)
  | succ n ih =>
    have hbefore := hcoherent.after crc fromStr actions n
    rcases ih (fun m hm ↦ hcreates m (Nat.lt_succ_of_lt hm))
      (fun m hm ↦ hretained m (Nat.le_succ_of_le hm)) with hunburied | hburied
    · exact hunburied.step hbefore (hcreates n (Nat.lt_succ_self n))
    · exact .inr (hburied.step hbefore (hretained (n + 1) (Nat.le_refl _)))

variable (crc fromStr) in
/-- While the entry of a run is retained, what is committed has one deletion of it at most, and no
event of the run behind. Until then its flag says that it is live or that a deletion is in flight. -/
theorem Settled.final (h : s.Settled run) (hcoherent : Coherent stored s)
    (actions : Nat → Action) (n : Nat) (hcreates : ∀ m < n, ¬ (actions m).Creates run)
    (hretained : ∀ m ≤ n, (s.after crc fromStr actions m).w.registry.runs.contains run = true) :
    ∃ new, (s.after crc fromStr actions n).committed = s.committed ++ new ∧ Final run new ∧
      ((∀ e ∈ new, e.runId = run → e.kind ≠ "run_deleted") →
        (s.after crc fromStr actions n).flag ⟨run, s.generation run⟩ = some .live ∨
          (s.after crc fromStr actions n).flag ⟨run, s.generation run⟩ = some .appendInFlight) := by
  rcases h.after hcoherent actions n hcreates hretained with hunburied | hburied
  · rcases hunburied.log with
      ⟨-, new, hcommitted, hnew⟩ | ⟨tombstone, new, -, -, -, -, hcommitted, hnew⟩
    · exact ⟨new, hcommitted, Final.of_ne hnew, fun _ ↦ hunburied.present⟩
    · exact ⟨new ++ [tombstone.event], hcommitted, Final.concat hnew _,
        fun _ ↦ hunburied.present⟩
  · obtain ⟨new, hcommitted, hfinal, tombstone, hmem, hkind, hrun⟩ := hburied.log
    exact ⟨new, hcommitted, hfinal, fun hnone ↦ absurd hkind (hnone tombstone hmem hrun)⟩

end System

end Vidarax.Commit
