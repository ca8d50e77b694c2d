import Vidarax.Commit.Changes

/-!
# What callers are told

What is on its way to the writer is what was asked for, and that a run is deleted shows in its flag
and in the answers to calls only when the deletion is in the log.
-/

namespace Vidarax.Commit

open Vidarax.Base Vidarax.Timeline Vidarax.Runs

/-- A guard is that of a deletion of its run, and the call that is answered asked for this. -/
structure Ask.Fits (q : Ask) (calls : List Call) : Prop where
  guard : ∀ run ∈ q.guard, q.kind = "run_deleted" ∧ run.run = q.runId
  reply : ∀ id ∈ q.reply, ∃ call : Call, calls[id]? = some call ∧ call.kind = q.kind ∧
    call.runId = q.runId

namespace System

/-- The deletion of a run is in the log. -/
def Deleted (stored : List TimelineEvent) (s : System) (run : String) : Prop :=
  ∃ event ∈ stored ++ s.committed, event.kind = "run_deleted" ∧ event.runId = run

/-- An effect that may be performed. -/
def Performable (stored : List TimelineEvent) (s : System) : Effect Nat Ref → Prop
  | .guardCommitted run => s.Deleted stored run.run
  | .replied id (.ok event) => event ∈ s.committed ∧
    Ask.Fits ⟨event.kind, event.runId, none, some id⟩ s.calls
  | _ => True

/-- What is on its way is what was asked for, and a deletion shows only if it is in the log. -/
structure Sound (stored : List TimelineEvent) (s : System) : Prop where
  calls : ∀ call ∈ s.calls, call.WF
  asks : ∀ q ∈ s.asks, q.Fits s.calls
  unfinished : ∀ a ∈ s.phase.unfinished, a ∈ s.phase.unannounced
  unannounced : ∀ a ∈ s.phase.unannounced, a.event ∈ s.committed ∧ a.ask.Fits s.calls
  due : ∀ effect ∈ s.due, s.Performable stored effect
  flags : ∀ run, s.flag run = some .deleted → s.Deleted stored run.run
  returned : ∀ call ∈ s.calls, ∀ event, call.state = .returned (.ok event) →
    call.kind = "run_deleted" → s.Deleted stored call.runId

/-! ### Calls keep what they ask for -/

/-- The calls of a later state. -/
def Same (calls calls' : List Call) : Prop :=
  ∀ (id : Nat) (call : Call), calls[id]? = some call →
    ∃ call' : Call, calls'[id]? = some call' ∧ call'.kind = call.kind ∧ call'.runId = call.runId

theorem Same.refl (calls : List Call) : Same calls calls :=
  fun _ call hcall ↦ ⟨call, hcall, rfl, rfl⟩

theorem Same.modify (calls : List Call) (id : Nat) (state : CallState) :
    Same calls (calls.modify id fun call ↦ { call with state := state }) := by
  intro i call hcall
  rw [List.getElem?_modify, hcall]
  split
  · exact ⟨_, rfl, rfl, rfl⟩
  · exact ⟨_, rfl, rfl, rfl⟩

theorem Same.wake (calls : List Call) (run : Ref) : Same calls (calls.map (Call.wake run)) := by
  intro i call hcall
  rw [List.getElem?_map, hcall]
  exact ⟨_, rfl, call.wake_kind run, call.wake_runId run⟩

theorem Same.append (calls more : List Call) : Same calls (calls ++ more) := by
  intro i call hcall
  exact ⟨call, List.getElem?_append_left (List.getElem?_eq_some_iff.mp hcall).1 ▸ hcall, rfl, rfl⟩

end System

theorem Ask.Fits.same {q : Ask} {calls calls' : List Call} (h : q.Fits calls)
    (hsame : System.Same calls calls') : q.Fits calls' := by
  refine ⟨h.guard, fun id hid ↦ ?_⟩
  obtain ⟨call, hcall, hkind, hrun⟩ := h.reply id hid
  obtain ⟨call', hcall', hkind', hrun'⟩ := hsame id call hcall
  exact ⟨call', hcall', hkind'.trans hkind, hrun'.trans hrun⟩

namespace System

variable {s s' : System} {stored : List TimelineEvent} {id : Nat}

theorem Deleted.mono {run : String} (h : s.Deleted stored run) {new : List TimelineEvent}
    (hnew : s'.committed = s.committed ++ new) : s'.Deleted stored run := by
  obtain ⟨event, hmem, hevent⟩ := h
  refine ⟨event, ?_, hevent⟩
  rw [hnew, ← List.append_assoc]
  exact List.mem_append_left _ hmem

namespace Sound

/-- A step by which calls go on and requests, effects and flags are as before or sound. -/
theorem next (h : Sound stored s) (hcalls : ∀ call ∈ s'.calls, call.WF)
    (hsame : Same s.calls s'.calls) {new : List TimelineEvent}
    (hnew : s'.committed = s.committed ++ new)
    (hasks : ∀ q ∈ s'.asks, q ∈ s.asks ∨ q.Fits s'.calls)
    (hunfinished : ∀ a ∈ s'.phase.unfinished, a ∈ s'.phase.unannounced)
    (hunannounced : ∀ a ∈ s'.phase.unannounced, a ∈ s.phase.unannounced ∨
      a ∈ s.phase.unsynced ∧ a.event ∈ s'.committed)
    (hdue : ∀ effect ∈ s'.due, effect ∈ s.due ∨ s'.Performable stored effect)
    (hflags : ∀ run, s'.flag run = some .deleted → s.flag run = some .deleted ∨
      s'.Deleted stored run.run)
    (hreturned : ∀ call ∈ s'.calls, ∀ event, call.state = .returned (.ok event) →
      call.kind = "run_deleted" → (∃ old ∈ s.calls, old.state = call.state ∧
        old.kind = call.kind ∧ old.runId = call.runId) ∨ s'.Deleted stored call.runId) :
    Sound stored s' := by
  have hstaged : ∀ a ∈ s.phase.unsynced, a.ask ∈ s.asks := fun a ha ↦
    List.mem_append_right _ (List.mem_map_of_mem ha)
  refine ⟨hcalls, fun q hq ↦ ?_, hunfinished, fun a ha ↦ ?_, fun effect heffect ↦ ?_,
    fun run hrun ↦ ?_, fun call hcall event hstate hkind ↦ ?_⟩
  · rcases hasks q hq with hold | hfits
    · exact (h.asks q hold).same hsame
    · exact hfits
  · rcases hunannounced a ha with hold | ⟨hold, hevent⟩
    · obtain ⟨hevent, hfits⟩ := h.unannounced a hold
      refine ⟨?_, hfits.same hsame⟩
      rw [hnew]
      exact List.mem_append_left _ hevent
    · exact ⟨hevent, (h.asks _ (hstaged a hold)).same hsame⟩
  · rcases hdue effect heffect with hold | hperformable
    · have hperform := h.due effect hold
      unfold Performable at hperform ⊢
      split
      · exact Deleted.mono hperform hnew
      · refine ⟨?_, hperform.2.same hsame⟩
        rw [hnew]
        exact List.mem_append_left _ hperform.1
      · trivial
    · exact hperformable
  · rcases hflags run hrun with hold | hdeleted
    · exact (h.flags run hold).mono hnew
    · exact hdeleted
  · rcases hreturned call hcall event hstate hkind with ⟨old, hold, hsame, hkind', hrun⟩ | hdeleted
    · rw [← hrun]
      exact (h.returned old hold event (hsame.trans hstate) (hkind'.trans hkind)).mono hnew
    · exact hdeleted

/-! ### Steps of calls -/

/-- A step that sets where a call stands, and may change the queue and a flag. -/
theorem setCall (h : Sound stored s) {call : Call} {state : CallState}
    (hcall : s.calls[id]? = some call) (hcalls : ∀ call ∈ s'.calls, call.WF)
    (hset : s'.calls = (s.setCall id state).calls) (hcommitted : s'.committed = s.committed)
    (hphase : s'.phase = s.phase) (hdue : s'.due = s.due)
    (hqueue : ∀ command ∈ s'.queue, command ∈ s.queue ∨ (commandAsk command).Fits s'.calls)
    (hflags : ∀ run, s'.flag run = some .deleted → s.flag run = some .deleted)
    (hreturned : ∀ event, state = .returned (.ok event) → call.kind = "run_deleted" →
      s.Deleted stored call.runId) : Sound stored s' := by
  have hnew : s'.committed = s.committed ++ [] := by rw [hcommitted, List.append_nil]
  refine h.next hcalls (by rw [hset]; exact Same.modify _ _ _) hnew (fun q hq ↦ ?_)
    (by rw [hphase]; exact h.unfinished) (fun a ha ↦ .inl (by rwa [hphase] at ha))
    (fun effect heffect ↦ .inl (by rwa [hdue] at heffect)) (fun run hrun ↦ .inl (hflags run hrun))
    fun call' hcall' event hstate hkind ↦ ?_
  · rcases List.mem_append.mp hq with hqueued | hstaged
    · obtain ⟨command, hcommand, rfl⟩ := List.mem_map.mp hqueued
      rcases hqueue command hcommand with hold | hfits
      · exact .inl (List.mem_append_left _ (List.mem_map_of_mem hold))
      · exact .inr hfits
    · rw [hphase] at hstaged
      exact .inl (List.mem_append_right _ hstaged)
  · rw [hset] at hcall'
    rcases mem_setCall hcall hcall' with hold | rfl
    · exact .inl ⟨call', hold, rfl, rfl, rfl⟩
    · exact .inr ((hreturned event hstate hkind).mono hnew)

/-- A flag is changed, and it shows a deletion only if this is in the log. -/
theorem touch (h : Sound stored s) (run : Ref) (f : RunState → RunState)
    (hflags : ∀ other, (s.modify run f).flag other = some .deleted →
      s.flag other = some .deleted ∨ s.Deleted stored other.run) :
    Sound stored (s.modify run f) := by
  have hnew : (s.modify run f).committed = s.committed ++ [] := by
    rw [committed_modify, List.append_nil]
  refine h.next (by rw [calls_modify]; exact h.calls) (by rw [calls_modify]; exact Same.refl _)
    hnew (fun q hq ↦ .inl ?_) (by rw [phase_modify]; exact h.unfinished)
    (fun a ha ↦ .inl (by rwa [phase_modify] at ha))
    (fun effect heffect ↦ .inl (by rwa [due_modify] at heffect)) (fun other hother ↦ ?_)
    fun call hcall event hstate hkind ↦ .inl ⟨call, by rwa [calls_modify] at hcall, rfl, rfl, rfl⟩
  · rwa [System.asks, queue_modify, phase_modify] at hq
  · rcases hflags other hother with hold | hdeleted
    · exact .inl hold
    · exact .inr (hdeleted.mono hnew)

/-- A step that changes a flag and sets where a call stands. -/
theorem modify (h : Sound stored s) {call : Call} (hcall : s.calls[id]? = some call) (run : Ref)
    (f : RunState → RunState) (state : CallState)
    (hcalls : ∀ call ∈ ((s.modify run f).setCall id state).calls, call.WF)
    (hflags : ∀ other, (s.modify run f).flag other = some .deleted →
      s.flag other = some .deleted)
    (hreturned : ∀ event, state ≠ .returned (.ok event)) :
    Sound stored ((s.modify run f).setCall id state) :=
  (h.touch run f fun other hother ↦ .inl (hflags other hother)).setCall
    (by rw [calls_modify]; exact hcall) hcalls rfl rfl rfl rfl (fun _ ↦ .inl)
    (fun _ hrun ↦ hrun) fun event hevent ↦ absurd hevent (hreturned event)

theorem notify (h : Sound stored s) (run : Ref) : Sound stored (s.notify run) := by
  refine h.next (fun call hcall ↦ ?_) (Same.wake s.calls run) (List.append_nil _).symm
    (fun _ ↦ .inl) h.unfinished (fun _ ↦ .inl) (fun _ ↦ .inl) (fun _ ↦ .inl)
    fun call hcall event hstate hkind ↦ .inl ?_
  · obtain ⟨old, hold, rfl⟩ := List.mem_map.mp hcall
    exact (h.calls old hold).wake run
  · obtain ⟨old, hold, rfl⟩ := List.mem_map.mp hcall
    refine ⟨old, hold, ?_, (old.wake_kind run).symm, (old.wake_runId run).symm⟩
    rcases old.wake_state run with hsame | ⟨other, woken, -, hwoken⟩ | ⟨other, woken, -, hwoken⟩
    · exact hsame.symm
    · rw [hwoken] at hstate
      cases hstate
    · rw [hwoken] at hstate
      cases hstate

theorem callMove (h : Sound stored s) (hclaimed : Claimed s) (hmove : s.CallMove id s') :
    Sound stored s' := by
  have hcalls := wf_callMove h.calls hmove
  cases hmove with
  | stay => exact h
  | @shift call state hcall hshift =>
    have hwf := h.calls call (List.mem_of_getElem? hcall)
    refine h.setCall hcall hcalls rfl rfl rfl rfl (fun _ ↦ .inl) (fun _ hrun ↦ hrun)
      fun event hevent hkind ↦ ?_
    generalize hstart : call.state = start at hshift
    cases hshift with
    | @already run hflag =>
      rw [← hwf.run run (by rw [hstart]; rfl)]
      exact h.flags run hflag
    | @unbuilt guard hdetached =>
      exact absurd hkind (hwf.plain ⟨guard, .inl hstart⟩ hdetached)
    | @unsent guard hdetached =>
      exact absurd hkind (hwf.plain ⟨guard, .inr (.inr hstart)⟩ hdetached)
    | @refused guard err | @late guard err | @full guard err => cases guard <;> cases hevent
    | _ => cases hevent
  | @claim call run hcall hstate hlive =>
    refine h.modify hcall run _ (.building (some run)) hcalls (fun other hother ↦ ?_)
      (fun event hevent ↦ by cases hevent)
    rw [flag_beginDeleteAppend hlive] at hother
    split at hother
    · cases hother
    · exact hother
  | @send call guard hcall hstate =>
    have hwf := h.calls call (List.mem_of_getElem? hcall)
    refine h.setCall hcall hcalls rfl rfl rfl rfl (fun command hcommand ↦ ?_) (fun _ hrun ↦ hrun)
      fun event hevent hkind ↦ ?_
    · rcases List.mem_append.mp hcommand with hold | hnew
      · exact .inl hold
      · right
        rw [List.mem_singleton.mp hnew]
        have hguard : call.state.pointer = guard := by rw [hstate]; rfl
        obtain ⟨call', hcall', hkind, hrun⟩ := Same.modify s.calls id (sent call) id call hcall
        refine ⟨fun run hrun ↦ ?_, fun reply hreply ↦ ?_⟩
        · rw [guard_commandAsk, ← hguard] at hrun
          have hheld := Option.isSome_iff_exists.mpr ⟨run, hrun⟩
          rw [kind_commandAsk, runId_commandAsk]
          exact ⟨(hwf.deletes (.inr hheld)).1, hwf.run run hrun⟩
        · rw [reply_commandAsk hreply, kind_commandAsk, runId_commandAsk]
          exact ⟨call', hcall', hkind, hrun⟩
    · unfold sent at hevent
      split at hevent
      · next hdetached => exact absurd hkind (hwf.plain ⟨guard, .inr (.inr hstate)⟩ hdetached)
      · cases hevent
  | @withdraw call run err hcall hstate =>
    have hheld : run ∈ call.state.guards := by
      rw [hstate]
      exact List.mem_singleton.mpr rfl
    have hflag := hclaimed.flag_of_mem (mem_guards_of_call hcall hheld)
    refine h.modify hcall run _ (.waking run err) hcalls (fun other hother ↦ ?_)
      (fun event hevent ↦ by cases hevent)
    rw [flag_rollbackDeleteAppend hflag] at hother
    split at hother
    · cases hother
    · exact hother
  | @wake call run err hcall hstate =>
    have hcall' : (s.notify run).calls[id]? = some (call.wake run) := by
      rw [notify_calls, List.getElem?_map, hcall]
      rfl
    refine (h.notify run).setCall hcall' hcalls rfl rfl rfl rfl (fun _ ↦ .inl)
      (fun _ hrun ↦ hrun) fun event hevent ↦ ?_
    cases hevent

/-! ### Steps of the writer -/

/-- A step of the writer that leaves the calls alone. -/
theorem advance (h : Sound stored s) (hcalls : s'.calls = s.calls) {new : List TimelineEvent}
    (hnew : s'.committed = s.committed ++ new)
    (hasks : ∀ q ∈ s'.asks, q ∈ s.asks)
    (hunfinished : ∀ a ∈ s'.phase.unfinished, a ∈ s'.phase.unannounced)
    (hunannounced : ∀ a ∈ s'.phase.unannounced, a ∈ s.phase.unannounced ∨
      a ∈ s.phase.unsynced ∧ a.event ∈ s'.committed)
    (hdue : ∀ effect ∈ s'.due, effect ∈ s.due ∨ s'.Performable stored effect)
    (hflags : ∀ run, s'.flag run = some .deleted → s.flag run = some .deleted ∨
      s'.Deleted stored run.run) : Sound stored s' := by
  refine h.next (by rw [hcalls]; exact h.calls) (by rw [hcalls]; exact Same.refl _) hnew
    (fun q hq ↦ .inl (hasks q hq)) hunfinished hunannounced hdue hflags
    fun call hcall event hstate hkind ↦ .inl ⟨call, by rwa [hcalls] at hcall, rfl, rfl, rfl⟩

theorem performable_error {effect : Effect Nat Ref} {reply : Option Nat} {guard : Option Ref}
    {err : String} (h : effect ∈ errorEffects reply guard err) : s.Performable stored effect := by
  rcases List.mem_append.mp h with hreply | hguard
  · obtain ⟨id, -, rfl⟩ := List.mem_map.mp hreply
    trivial
  · obtain ⟨run, -, rfl⟩ := List.mem_map.mp hguard
    trivial

theorem performable_note {notes : List (Effect Nat Ref)} {effect : Effect Nat Ref}
    (hnotes : Notes notes) (h : effect ∈ notes) : s.Performable stored effect := by
  rw [hnotes.2 effect h]
  trivial

theorem setPhase (h : Sound stored s) {phase : Phase}
    (hunsynced : ∀ a ∈ phase.unsynced, a ∈ s.phase.unsynced)
    (hunfinished : ∀ a ∈ phase.unfinished, a ∈ phase.unannounced)
    (hunannounced : ∀ a ∈ phase.unannounced, a ∈ s.phase.unannounced) :
    Sound stored { s with phase := phase } := by
  refine h.advance rfl (List.append_nil _).symm (fun q hq ↦ ?_) hunfinished
    (fun a ha ↦ .inl (hunannounced a ha)) (fun _ ↦ .inl) fun _ ↦ .inl
  rcases List.mem_append.mp hq with hqueued | hstaged
  · exact List.mem_append_left _ hqueued
  · obtain ⟨a, ha, rfl⟩ := List.mem_map.mp hstaged
    exact List.mem_append_right _ (List.mem_map_of_mem (hunsynced a ha))

/-- The first event of a batch is finished. -/
theorem finish (h : Sound stored s) (hclaimed : Claimed s) {first : StagedTimelineAppend Nat Ref}
    {rest all : List (StagedTimelineAppend Nat Ref)} (hunsynced : s.phase.unsynced = [])
    (hunfinished : s.phase.unfinished = first :: rest) (hunannounced : s.phase.unannounced = all) :
    Sound stored (s.finish first rest all) := by
  have hdue : (s.finish first rest all).due = s.due ++
      first.deleteGuard.toList.map .guardCommitted := hclaimed.due_append rfl
  have hmem (a : StagedTimelineAppend Nat Ref) (ha : a ∈ first :: rest) :
      a ∈ s.phase.unannounced := h.unfinished a (by rw [hunfinished]; exact ha)
  refine h.advance rfl (List.append_nil _).symm (fun q hq ↦ ?_) (fun a ha ↦ ?_)
    (fun a ha ↦ .inl (by rw [hunannounced]; exact ha)) (fun effect heffect ↦ ?_) fun _ ↦ .inl
  · rw [System.asks, hunsynced]
    exact hq
  · show a ∈ all
    rw [← hunannounced]
    exact hmem a (List.mem_cons_of_mem _ ha)
  · rw [hdue] at heffect
    rcases List.mem_append.mp heffect with hold | hnew
    · exact .inl hold
    · obtain ⟨run, hrun, rfl⟩ := List.mem_map.mp hnew
      obtain ⟨hevent, hfits⟩ := h.unannounced first (hmem first List.mem_cons_self)
      obtain ⟨hkind, hsame⟩ := hfits.guard run (Option.mem_toList.mp hrun)
      exact .inr ⟨first.event, List.mem_append_right _ hevent, hkind, hsame.symm⟩

theorem perform (h : Sound stored s) (hclaimed : Claimed s) {effect : Effect Nat Ref}
    (heffect : s.w.effects[s.performed]? = some effect) :
    Sound stored { s.perform effect with performed := s.performed + 1 } := by
  have hdue := Claimed.due_eq_cons heffect
  have hperformable : s.Performable stored effect := h.due effect (by rw [hdue]; simp)
  have hrest (e : Effect Nat Ref) (he : e ∈ s.w.effects.drop (s.performed + 1)) : e ∈ s.due := by
    rw [hdue]
    exact List.mem_cons_of_mem _ he
  have hpassed : Sound stored { s with performed := s.performed + 1 } :=
    h.advance rfl (List.append_nil _).symm (fun _ hq ↦ hq) h.unfinished (fun _ ↦ .inl)
      (fun e he ↦ .inl (hrest e he)) fun _ ↦ .inl
  have hended (run : Ref) (f : RunState → RunState) (hflags : ∀ other,
      (s.modify run f).flag other = some .deleted → s.flag other = some .deleted ∨
        s.Deleted stored other.run) :
      Sound stored { s.modify run f with wake := some run, performed := s.performed + 1 } := by
    have htouch := h.touch run f hflags
    refine ⟨htouch.calls, htouch.asks, htouch.unfinished, htouch.unannounced, fun e he ↦ ?_,
      htouch.flags, htouch.returned⟩
    apply htouch.due e
    rw [due_modify]
    apply hrest
    rw [← effects_modify run f]
    exact he
  have hheld (run : Ref) (hguards : effect.guards = [run]) :
      s.flag run = some .appendInFlight := by
    apply hclaimed.flag_of_mem
    rw [System.guards, hdue, List.flatMap_cons, hguards]
    simp
  cases effect with
  | replied id result =>
    show Sound stored { s.deliver id result with performed := s.performed + 1 }
    unfold deliver
    split
    · next mode runId streamId kind payload hcall =>
      refine hpassed.setCall hcall (fun call hmem ↦ ?_) rfl rfl rfl rfl (fun _ ↦ .inl)
        (fun _ hrun ↦ hrun) fun event hevent hkind ↦ ?_
      · rcases mem_setCall hcall hmem with hold | rfl
        · exact h.calls call hold
        · exact ⟨by simp [CallState.pointer], by simp [CallState.pointer],
            by simp [CallState.Requests]⟩
      · cases result with
        | error err => cases hevent
        | ok answer =>
          obtain ⟨hmem, hfits⟩ := hperformable
          obtain ⟨call, hsame, hkind', hrun⟩ := hfits.reply id rfl
          obtain rfl := Option.some.inj (hcall.symm.trans hsame)
          exact ⟨answer, List.mem_append_right _ hmem, hkind'.symm.trans hkind, hrun.symm⟩
    · exact hpassed
  | guardCommitted run =>
    refine hended run _ fun other hother ↦ ?_
    rw [flag_commitDeleteAppend (hheld run rfl)] at hother
    split at hother
    · next hsame =>
      rw [hsame]
      exact .inr hperformable
    · exact .inl hother
  | guardDropped run =>
    refine hended run _ fun other hother ↦ .inl ?_
    rw [flag_rollbackDeleteAppend (hheld run rfl)] at hother
    split at hother
    · cases hother
    · exact hother
  | failed | published | notified => exact hpassed

theorem stage (h : Sound stored s) (hclaimed : Claimed s) {crc : Bytes → UInt32}
    {staged staged' : List (StagedTimelineAppend Nat Ref)} {bytes more : Nat}
    {command : TimelineCommand Nat Ref} {queue : List (TimelineCommand Nat Ref)} {phase : Phase}
    (hphase : s.phase = .gathering staged bytes more) (hqueue : s.queue = command :: queue)
    (a : Arrival Nat Ref) (ha : a.command = command)
    (hstaged : staged' = (s.w.stageCommand crc a staged bytes).2.1)
    (hnext : phase.unsynced = staged' ∧ phase.unfinished = [] ∧ phase.unannounced = []) :
    Sound stored { s with
      w := (s.w.stageCommand crc a staged bytes).1, queue := queue, phase := phase } := by
  obtain ⟨hregistry, notes, hnotes, hcases⟩ := stageCommand_cases crc s.w a staged bytes
  obtain ⟨hunsynced, hunfinished, hunannounced⟩ := hnext
  have hold : s.asks = commandAsk command :: queue.map commandAsk ++
      staged.map StagedTimelineAppend.ask := by
    rw [System.asks, hqueue, hphase]
    rfl
  refine h.advance rfl (List.append_nil _).symm (fun q hq ↦ ?_) (by simp [hunfinished])
    (by simp [hunannounced]) (fun effect heffect ↦ ?_) fun run hrun ↦ .inl ?_
  · have hq' : q ∈ queue.map commandAsk ++ staged'.map StagedTimelineAppend.ask := by
      rw [← hunsynced]
      exact hq
    rw [hold]
    rcases List.mem_append.mp hq' with hqueued | hmem
    · exact List.mem_append_left _ (List.mem_cons_of_mem _ hqueued)
    · rcases hcases with ⟨hsame, -⟩ | ⟨hmore, -⟩
      · rw [hstaged, hsame] at hmem
        exact List.mem_append_right _ hmem
      · rw [hstaged, hmore, List.map_append] at hmem
        rcases List.mem_append.mp hmem with hbefore | hnew
        · exact List.mem_append_right _ hbefore
        · rw [List.mem_singleton.mp hnew, ← ha]
          exact List.mem_append_left _ List.mem_cons_self
  · rcases hcases with ⟨-, err, heffects⟩ | ⟨-, heffects, -⟩
    · rw [System.due, hclaimed.due_append heffects] at heffect
      rcases List.mem_append.mp heffect with hbefore | hnew
      · exact .inl hbefore
      · rcases List.mem_append.mp hnew with hnote | herror
        · exact .inr (performable_note hnotes hnote)
        · exact .inr (performable_error herror)
    · rw [System.due, hclaimed.due_append heffects] at heffect
      rcases List.mem_append.mp heffect with hbefore | hnote
      · exact .inl hbefore
      · exact .inr (performable_note hnotes hnote)
  · rwa [flag_mk s (congrArg RunRegistry.runs hregistry)] at hrun

/-- A run has no other deletion flag than its event or its state before says. -/
theorem record (h : Sound stored s) (fromStr : String → Option Json) {event : TimelineEvent}
    (hevent : event ∈ s.committed) :
    Sound stored (s.replace event.runId (s.w.registry.record fromStr event)) := by
  refine h.advance rfl (List.append_nil _).symm (fun _ hq ↦ hq) h.unfinished (fun _ ↦ .inl)
    (fun _ ↦ .inl) fun run hrun ↦ ?_
  rw [flag_replace (touches_record fromStr s.w.registry event)] at hrun
  split at hrun
  · next hnew =>
    right
    rw [RunRegistry.record, Std.ExtTreeMap.getElem?_insert_self, Option.map_some,
      Option.some_inj, RunState.fromSummary] at hrun
    have hdeleted : ((s.w.registry.summary event.runId).applyEvent fromStr event).deleted =
        true := by
      by_contra hlive
      simp [hlive] at hrun
    rw [RunRegistry.deleted_applyEvent, Bool.or_eq_true] at hdeleted
    have hrunId : run.run = event.runId := by rw [hnew]
    rcases hdeleted with hbefore | hkind
    · have hflag : s.flag ⟨event.runId, s.generation event.runId⟩ = some .deleted := by
        unfold flag object
        rw [if_pos rfl]
        rw [RunRegistry.summary] at hbefore
        cases hstate : s.w.registry.runs[event.runId]? with
        | none =>
          rw [hstate] at hbefore
          cases hbefore
        | some state =>
          rw [hstate] at hbefore
          simpa [RunState.snapshot] using hbefore
      rw [hrunId]
      exact h.flags _ hflag
    · rw [hrunId]
      exact ⟨event, List.mem_append_right _ hevent, of_decide_eq_true hkind, rfl⟩
  · exact .inl hrun

theorem forget (h : Sound stored s) {oldest : String} (hdeleted : s.w.isDeleted oldest = true)
    (order : List String) : Sound stored (s.forget oldest order) := by
  refine h.advance rfl (List.append_nil _).symm (fun _ hq ↦ hq) h.unfinished (fun _ ↦ .inl)
    (fun _ ↦ .inl) fun run hrun ↦ .inl ?_
  have hgone : RunRegistry.removeDeleted s.w.registry.runs oldest =
      s.w.registry.runs.erase oldest := if_pos hdeleted
  rw [System.forget, flag_replace (touches_removeDeleted s.w.registry oldest order)] at hrun
  split at hrun
  · dsimp only at hrun
    rw [hgone, Std.ExtTreeMap.getElem?_erase_self] at hrun
    cases hrun
  · exact hrun

theorem reorder (h : Sound stored s) (order : List String) : Sound stored (s.reorder order) :=
  h.advance rfl (List.append_nil _).symm (fun _ hq ↦ hq) h.unfinished (fun _ ↦ .inl)
    (fun _ ↦ .inl) fun _ ↦ .inl

theorem writerMove {crc : Bytes → UInt32} {fromStr : String → Option Json} (h : Sound stored s)
    (hclaimed : Claimed s) (hmove : s.WriterMove crc fromStr s') : Sound stored s' := by
  cases hmove with
  | @wake run hwake =>
    have hnotify := h.notify run
    exact ⟨hnotify.calls, hnotify.asks, hnotify.unfinished, hnotify.unannounced, hnotify.due,
      hnotify.flags, hnotify.returned⟩
  | perform hwake heffect => exact h.perform hclaimed heffect
  | rest hphase hqueue hidle =>
    exact h.setPhase (by simp [Phase.fresh, Phase.unsynced]) (by simp [Phase.fresh, Phase.unfinished])
      (by simp [Phase.fresh, Phase.unannounced])
  | skip hphase =>
    exact h.setPhase (by simp [Phase.fresh, Phase.unsynced]) (by simp [Phase.fresh, Phase.unfinished])
      (by simp [Phase.fresh, Phase.unannounced])
  | close hphase hstaged =>
    exact h.setPhase (by rw [hphase]; exact fun _ ha ↦ ha) (by simp [Phase.unfinished])
      (by simp [Phase.unannounced])
  | stage hphase hqueue halone a ha hw hstaged hnext hidle =>
    subst hw
    refine h.stage hclaimed hphase hqueue a ha hstaged ?_
    rcases hnext with rfl | ⟨-, bytes, more, -, rfl⟩ <;> exact ⟨rfl, rfl, rfl⟩
  | @unsynced staged hphase err wal hwal =>
    obtain ⟨hregistry, notes, hnotes, hwal⟩ := withWal_cases s.w wal s.w.file
    rw [Inv.foldl_failStaged]
    have heffects : ((s.w.withWal wal s.w.file).emit (staged.flatMap fun a ↦
        errorEffects a.reply a.deleteGuard err)).effects = s.w.effects ++
          (notes ++ staged.flatMap fun a ↦ errorEffects a.reply a.deleteGuard err) := by
      rw [TimelineWriter.emit, hwal, List.append_assoc]
    refine h.advance rfl (List.append_nil _).symm (fun q hq ↦ ?_)
      (by simp [Phase.fresh, Phase.unfinished]) (by simp [Phase.fresh, Phase.unannounced])
      (fun effect heffect ↦ ?_) fun run hrun ↦ .inl ?_
    · rcases List.mem_append.mp hq with hqueued | hnone
      · exact List.mem_append_left _ hqueued
      · cases hnone
    · rw [System.due, hclaimed.due_append heffects] at heffect
      rcases List.mem_append.mp heffect with hbefore | hnew
      · exact .inl hbefore
      · rcases List.mem_append.mp hnew with hnote | herror
        · exact .inr (performable_note hnotes hnote)
        · obtain ⟨a, -, ha⟩ := List.mem_flatMap.mp herror
          exact .inr (performable_error ha)
    · rwa [flag_mk s (by exact congrArg RunRegistry.runs hregistry)] at hrun
  | @synced staged hphase wal committedEnd hlive hwal hend =>
    refine h.advance rfl rfl (fun q hq ↦ ?_) (fun a ha ↦ ha) (fun a ha ↦ .inr ⟨?_, ?_⟩)
      (fun _ ↦ .inl) fun _ ↦ .inl
    · rcases List.mem_append.mp hq with hqueued | hnone
      · exact List.mem_append_left _ hqueued
      · cases hnone
    · rw [hphase]
      exact ha
    · exact List.mem_append_right _ (List.mem_map_of_mem ha)
  | @publish all hphase =>
    rw [Inv.foldl_announce]
    have heffects : (s.w.publish.emit (all.flatMap announceEffects)).effects = s.w.effects ++
        ([.published s.w.nextSeq s.w.committedEnd] ++ all.flatMap announceEffects) := by
      simp [TimelineWriter.publish, TimelineWriter.emit]
    refine h.advance rfl (List.append_nil _).symm (fun q hq ↦ ?_)
      (by simp [Phase.fresh, Phase.unfinished]) (by simp [Phase.fresh, Phase.unannounced])
      (fun effect heffect ↦ ?_) fun _ ↦ .inl
    · rcases List.mem_append.mp hq with hqueued | hnone
      · exact List.mem_append_left _ hqueued
      · cases hnone
    · rw [System.due, hclaimed.due_append heffects] at heffect
      rcases List.mem_append.mp heffect with hbefore | hnew
      · exact .inl hbefore
      · right
        rcases List.mem_append.mp hnew with hpublished | hannounced
        · rw [List.mem_singleton.mp hpublished]
          trivial
        · obtain ⟨a, ha, heffect⟩ := List.mem_flatMap.mp hannounced
          have hmem := h.unannounced a (by rw [hphase]; exact ha)
          rcases List.mem_cons.mp heffect with rfl | hreply
          · trivial
          · obtain ⟨id, hid, rfl⟩ := List.mem_map.mp hreply
            refine ⟨hmem.1, ⟨fun _ hnone ↦ absurd hnone (by simp), fun other hother ↦ ?_⟩⟩
            rw [← Option.some.inj hother]
            exact hmem.2.reply id (Option.mem_toList.mp hid)
  | @delete first rest all hphase hstructural =>
    have hevent := (h.unannounced first (h.unfinished first (by rw [hphase]; simp [Phase.unfinished]))).1
    refine (h.record fromStr hevent).setPhase (by simp [Phase.unsynced]) (fun a ha ↦ ?_)
      fun a ha ↦ ?_
    · have hunfinished := h.unfinished a
      rw [hphase] at hunfinished
      exact hunfinished ha
    · show a ∈ s.phase.unannounced
      rw [hphase]
      exact ha
  | @record first rest all hphase hstructural =>
    have hevent := (h.unannounced first (h.unfinished first (by rw [hphase]; simp [Phase.unfinished]))).1
    have hrecord := h.record fromStr hevent
    refine hrecord.finish (hclaimed.record fromStr _) ?_ ?_ ?_ <;>
      · show _ = _
        rw [show (s.replace first.event.runId (s.w.registry.record fromStr first.event)).phase =
          s.phase from rfl, hphase]
        rfl
  | @nudge first rest all hphase hplain =>
    have hkind : first.event.kind ≠ "run_deleted" := fun hkind ↦ hplain (.inr (.inl hkind))
    have hnudged := h.touch ⟨first.event.runId, s.generation first.event.runId⟩
      (·.applyEvent first.event) fun other hother ↦ .inl (by rwa [flag_applyEvent hkind] at hother)
    refine hnudged.finish (hclaimed.nudge hkind _) ?_ ?_ ?_ <;>
      · rw [phase_modify, hphase]
        rfl
  | @evict first rest all oldest order hphase horder hdeleted => exact h.forget hdeleted order
  | @reorder first rest all order hphase horder => exact h.reorder order
  | @trimmed first rest all hphase order horder =>
    refine (h.reorder order).finish (hclaimed.reorder order) ?_ ?_ ?_ <;>
      · show _ = _
        rw [show (s.reorder order).phase = s.phase from rfl, hphase]
        rfl

/-- A call is entered. -/
theorem enter (h : Sound stored s) (mode : Mode) (runId streamId kind payload : String) :
    Sound stored { s with calls := s.calls ++ [Call.enter mode runId streamId kind payload] } := by
  refine h.next (fun call hcall ↦ ?_) (Same.append _ _) (List.append_nil _).symm (fun _ ↦ .inl)
    h.unfinished (fun _ ↦ .inl) (fun _ ↦ .inl) (fun _ ↦ .inl) fun call hcall event hstate hkind ↦ ?_
  · rcases List.mem_append.mp hcall with hold | hnew
    · exact h.calls call hold
    · rw [List.mem_singleton.mp hnew]
      exact Call.wf_enter mode runId streamId kind payload
  · rcases List.mem_append.mp hcall with hold | hnew
    · exact .inl ⟨call, hold, rfl, rfl, rfl⟩
    · rw [List.mem_singleton.mp hnew] at hstate
      unfold Call.enter at hstate
      dsimp only at hstate
      split at hstate
      · split at hstate <;> cases hstate
      · cases hstate

end Sound

/-! ### Runs -/

/-- The invariants of a system in which every run may be deleted. -/
structure Coherent (stored : List TimelineEvent) (s : System) : Prop where
  claimed : s.Claimed
  sound : s.Sound stored
  alone : s.phase.Alone

/-- What a step can do. -/
theorem step_cases (crc : Bytes → UInt32) (fromStr : String → Option Json) (s : System)
    (action : Action) :
    (∃ mode runId streamId kind payload, action = .enter mode runId streamId kind payload ∧
        s.step crc fromStr action =
          { s with calls := s.calls ++ [Call.enter mode runId streamId kind payload] }) ∨
      (∃ id, s.CallMove id (s.step crc fromStr action)) ∨
      s.WriterMove crc fromStr (s.step crc fromStr action) := by
  cases action with
  | enter mode runId streamId kind payload => exact .inl ⟨_, _, _, _, _, rfl, rfl⟩
  | call id refused => exact .inr (.inl ⟨id, callMove_callStep id refused⟩)
  | cancel id => exact .inr (.inl ⟨id, callMove_cancel id⟩)
  | writer input => exact .inr (.inr (writerMove_writerStep crc fromStr input))

/-- A restored registry has no deletion in flight, and each one that it shows is in the log. -/
theorem deleteState_build (fromStr : String → Option Json) (events : List TimelineEvent)
    {run : String} {state : RunState}
    (h : (RunRegistry.build fromStr events).runs[run]? = some state) :
    state.deleteState ≠ .appendInFlight ∧ (state.deleteState = .deleted →
      ∃ event ∈ events, event.kind = "run_deleted" ∧ event.runId = run) := by
  induction events using List.reverseRecOn generalizing run state with
  | nil => simp [RunRegistry.build, RunRegistry.empty] at h
  | append_singleton events event ih =>
    have hrecord {state : RunState}
        (hstate : ((RunRegistry.build fromStr events).record fromStr event).runs[run]? =
          some state) :
        state.deleteState ≠ .appendInFlight ∧ (state.deleteState = .deleted →
          ∃ e ∈ events ++ [event], e.kind = "run_deleted" ∧ e.runId = run) := by
      by_cases hrun : run = event.runId
      · subst hrun
        rw [RunRegistry.record, Std.ExtTreeMap.getElem?_insert_self, Option.some_inj] at hstate
        subst hstate
        rw [RunState.fromSummary, RunRegistry.deleted_applyEvent]
        dsimp only
        refine ⟨by split <;> simp, fun hdeleted ↦ ?_⟩
        have hboth : ((RunRegistry.build fromStr events).summary event.runId).deleted = true ∨
            event.kind = "run_deleted" := by
          by_contra hneither
          rw [not_or] at hneither
          simp [hneither] at hdeleted
        rcases hboth with hbefore | hkind
        · rw [RunRegistry.summary] at hbefore
          cases hold : (RunRegistry.build fromStr events).runs[event.runId]? with
          | none =>
            rw [hold] at hbefore
            cases hbefore
          | some old =>
            rw [hold] at hbefore
            obtain ⟨e, he, hevent⟩ := (ih hold).2 (by simpa [RunState.snapshot] using hbefore)
            exact ⟨e, List.mem_append_left _ he, hevent⟩
        · exact ⟨event, by simp, hkind, rfl⟩
      · rw [touches_record fromStr _ event run hrun] at hstate
        obtain ⟨hlive, hdeleted⟩ := ih hstate
        refine ⟨hlive, fun hflag ↦ ?_⟩
        obtain ⟨e, he, hevent⟩ := hdeleted hflag
        exact ⟨e, List.mem_append_left _ he, hevent⟩
    rw [RunRegistry.build_concat, RunRegistry.apply] at h
    rcases RunRegistry.applyStructuralEvent_eq fromStr RunRegistry.unprotected
      (RunRegistry.build fromStr events) event with ⟨-, happly⟩ | ⟨-, happly, -⟩
    · have hinv : (RunRegistry.build fromStr events).Inv := RunRegistry.inv_build events
      rw [happly] at h
      rcases ((hinv.record fromStr event).trim RunRegistry.unprotected 0).forgets run with hsame | ⟨hgone, -⟩
      · exact hrecord (hsame.symm.trans h)
      · rw [hgone] at h
        cases h
    · rw [happly] at h
      exact hrecord h

/-- A writer that is started on a log has not been asked for anything. -/
theorem coherent_start (fromStr : String → Option Json) (stored : List TimelineEvent)
    (wal : WalWriter) (file : Bytes) (maxSeq : Nat) :
    Coherent stored (start (.spawn wal file (.ofEvents fromStr stored maxSeq))) := by
  have hflag {run : Ref} {flag : RunDelete}
      (h : (start (.spawn wal file (.ofEvents fromStr stored maxSeq))).flag run = some flag) :
      ∃ state, (RunRegistry.build fromStr stored).runs[run.run]? = some state ∧
        state.deleteState = flag := by
    obtain ⟨state, hobject, hstate⟩ := Option.map_eq_some_iff.mp h
    unfold object at hobject
    split at hobject
    · exact ⟨state, hobject, hstate⟩
    · cases hobject
  refine ⟨⟨Nat.le_refl _, fun run ↦ ?_, fun _ _ ↦ rfl⟩, ⟨?_, ?_, ?_, ?_, ?_, fun run hrun ↦ ?_, ?_⟩,
    fun _ ha ↦ absurd ha List.not_mem_nil⟩
  · rw [if_neg]
    · rfl
    · intro hclaimed
      obtain ⟨state, hstate, hdelete⟩ := hflag hclaimed
      exact (deleteState_build fromStr stored hstate).1 hdelete
  · exact fun _ hcall ↦ absurd hcall List.not_mem_nil
  · exact fun _ hq ↦ absurd hq List.not_mem_nil
  · exact fun _ ha ↦ absurd ha List.not_mem_nil
  · exact fun _ ha ↦ absurd ha List.not_mem_nil
  · exact fun _ he ↦ absurd he List.not_mem_nil
  · obtain ⟨state, hstate, hdelete⟩ := hflag hrun
    obtain ⟨event, hevent, hdeleted⟩ := (deleteState_build fromStr stored hstate).2 hdelete
    exact ⟨event, List.mem_append_left _ hevent, hdeleted⟩
  · exact fun _ hcall ↦ absurd hcall List.not_mem_nil

theorem Coherent.step (h : Coherent stored s) (crc : Bytes → UInt32)
    (fromStr : String → Option Json) (action : Action) :
    Coherent stored (s.step crc fromStr action) := by
  rcases step_cases crc fromStr s action with
    ⟨mode, runId, streamId, kind, payload, -, hstep⟩ | ⟨id, hmove⟩ | hmove
  · rw [hstep]
    exact ⟨h.claimed.enter mode runId streamId kind payload,
      h.sound.enter mode runId streamId kind payload, h.alone⟩
  · refine ⟨h.claimed.callMove h.sound.calls hmove, h.sound.callMove h.claimed hmove, ?_⟩
    rw [phase_callMove hmove]
    exact h.alone
  · exact ⟨h.claimed.writerMove hmove, h.sound.writerMove h.claimed hmove,
      alone_writerMove h.alone hmove⟩

theorem Coherent.after (h : Coherent stored s) (crc : Bytes → UInt32)
    (fromStr : String → Option Json) (actions : Nat → Action) (n : Nat) :
    Coherent stored (s.after crc fromStr actions n) := by
  induction n with
  | zero => exact h
  | succ n ih => exact ih.step crc fromStr (actions n)

end System

end Vidarax.Commit
