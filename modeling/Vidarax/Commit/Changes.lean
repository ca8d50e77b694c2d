import Vidarax.Commit.Claims

/-!
# What steps change

Where the requests of callers are, and what a step of a call or of the writer can change of them, of
the calls, of the flags and of the effects that are due.
-/

namespace Vidarax.Commit

open Vidarax.Base Vidarax.Timeline Vidarax.Runs

/-! ### Requests on their way -/

/-- The call makes no request any more. -/
def CallState.Done (state : CallState) : Prop :=
  state = .waiting ∨ (∃ result, state = .returned result) ∨ state = .cancelled

theorem CallState.Done.pointer_eq {state : CallState} (h : state.Done) : state.pointer = none := by
  rcases h with rfl | ⟨result, rfl⟩ | rfl <;> rfl

theorem CallState.Done.not_requests {state : CallState} (h : state.Done) : ¬ state.Requests := by
  rcases h with rfl | ⟨result, rfl⟩ | rfl <;> simp [CallState.Requests]

/-- What a request asks for, with its guard and the call that it answers. -/
structure Ask where
  kind : String
  runId : String
  guard : Option Ref
  reply : Option Nat

/-- What a command asks for. -/
def commandAsk (command : TimelineCommand Nat Ref) : Ask where
  kind := command.request.kind
  runId := command.request.runId
  guard := command.request.deleteGuard
  reply := command.reply

/-- What a staged append asks for. -/
def StagedTimelineAppend.ask (a : StagedTimelineAppend Nat Ref) : Ask where
  kind := a.event.kind
  runId := a.event.runId
  guard := a.deleteGuard
  reply := a.reply

/-- Staged appends that are not synced. -/
def Phase.unsynced : Phase → List (StagedTimelineAppend Nat Ref)
  | .gathering staged _ _ | .syncing staged => staged
  | .applying .. | .trimming .. => []

/-- Synced appends that are not finished. -/
def Phase.unfinished : Phase → List (StagedTimelineAppend Nat Ref)
  | .applying rest _ => rest
  | .trimming first rest _ => first :: rest
  | .gathering .. | .syncing _ => []

/-- Synced appends that are not announced. -/
def Phase.unannounced : Phase → List (StagedTimelineAppend Nat Ref)
  | .applying _ all | .trimming _ _ all => all
  | .gathering .. | .syncing _ => []

/-- Synced appends that are not applied. -/
def Phase.unapplied : Phase → List (StagedTimelineAppend Nat Ref)
  | .applying rest _ | .trimming _ rest _ => rest
  | .gathering .. | .syncing _ => []

/-- A deletion is alone in its batch. -/
def Phase.Alone : Phase → Prop
  | .gathering staged _ _ => ∀ a ∈ staged, a.event.kind ≠ "run_deleted"
  | .syncing staged => (∀ a ∈ staged, a.event.kind ≠ "run_deleted") ∨ ∃ a, staged = [a]
  | .applying .. | .trimming .. => True

section Commands

variable (call : Call) (id : Nat) (guard : Option Ref)

@[simp] theorem kind_commandAsk : (commandAsk (call.command id guard)).kind = call.kind := by
  unfold Call.command
  split <;> rfl

@[simp] theorem runId_commandAsk : (commandAsk (call.command id guard)).runId = call.runId := by
  unfold Call.command
  split <;> rfl

@[simp] theorem guard_commandAsk : (commandAsk (call.command id guard)).guard = guard := by
  unfold Call.command
  split <;> rfl

variable {call id guard}

theorem reply_commandAsk {reply : Nat} (h : reply ∈ (commandAsk (call.command id guard)).reply) :
    reply = id := by
  unfold Call.command at h
  split at h
  · cases h
  · exact (Option.some.inj h).symm

end Commands

namespace System

/-- Requests that are not synced. -/
def asks (s : System) : List Ask :=
  s.queue.map commandAsk ++ s.phase.unsynced.map StagedTimelineAppend.ask

variable {s s' : System} {id : Nat} {crc : Bytes → UInt32} {fromStr : String → Option Json}

/-! ### Steps of calls -/

theorem phase_callMove (hmove : s.CallMove id s') : s'.phase = s.phase := by
  cases hmove with
  | claim hcall hstate hlive => exact phase_modify _ _
  | withdraw hcall hstate => exact phase_modify _ _
  | _ => rfl

theorem committed_callMove (hmove : s.CallMove id s') : s'.committed = s.committed := by
  cases hmove with
  | claim hcall hstate hlive => exact committed_modify _ _
  | withdraw hcall hstate => exact committed_modify _ _
  | _ => rfl

theorem due_callMove (hmove : s.CallMove id s') : s'.due = s.due := by
  cases hmove with
  | claim hcall hstate hlive => exact due_modify _ _
  | withdraw hcall hstate => exact due_modify _ _
  | _ => rfl

@[simp] theorem generation_modify (run : Ref) (f : RunState → RunState) :
    (s.modify run f).generation = s.generation := by
  unfold modify
  split <;> rfl

theorem generation_callMove (hmove : s.CallMove id s') : s'.generation = s.generation := by
  cases hmove with
  | claim hcall hstate hlive => exact generation_modify _ _
  | withdraw hcall hstate => exact generation_modify _ _
  | _ => rfl

/-- A step of a call changes no flag but that of the pointer it holds. -/
theorem flag_callMove (hclaimed : Claimed s) (hmove : s.CallMove id s') (run : Ref) :
    s'.flag run = s.flag run ∨ ∃ call ∈ s.calls, call.state.pointer = some run ∧
      (s.flag run = some .live ∧ s'.flag run = some .appendInFlight ∨
        run ∈ call.state.guards ∧ s'.flag run = some .live) := by
  cases hmove with
  | @claim call other hcall hstate hlive =>
    have hflag : ((s.modify other RunState.beginDeleteAppend).setCall id (.building (some other))).flag run =
        if run = other then some .appendInFlight else s.flag run :=
      flag_beginDeleteAppend hlive run
    rw [hflag]
    split
    · next hsame =>
      subst hsame
      exact .inr ⟨call, List.mem_of_getElem? hcall, by rw [hstate]; rfl, .inl ⟨hlive, rfl⟩⟩
    · exact .inl rfl
  | @withdraw call other err hcall hstate =>
    have hheld : other ∈ call.state.guards := by
      rw [hstate]
      exact List.mem_singleton.mpr rfl
    have hclaim := hclaimed.flag_of_mem (mem_guards_of_call hcall hheld)
    have hflag : ((s.modify other RunState.rollbackDeleteAppend).setCall id (.waking other err)).flag run =
        if run = other then some .live else s.flag run :=
      flag_rollbackDeleteAppend hclaim run
    rw [hflag]
    split
    · next hsame =>
      subst hsame
      exact .inr ⟨call, List.mem_of_getElem? hcall, by rw [hstate]; rfl, .inr ⟨hheld, rfl⟩⟩
    · exact .inl rfl
  | _ => exact .inl rfl

/-- A call goes on with the pointer it has, or drops it. -/
structure Keeps (call call' : Call) : Prop where
  kind : call'.kind = call.kind
  runId : call'.runId = call.runId
  pointer : ∀ run ∈ call'.state.pointer, run ∈ call.state.pointer
  guards : ∀ run ∈ call'.state.guards, run ∈ call.state.guards
  requests : call'.state.Requests →
    call.state.Requests ∧ call'.state.pointer = call.state.pointer

theorem Keeps.refl (call : Call) : Keeps call call :=
  ⟨rfl, rfl, fun _ h ↦ h, fun _ h ↦ h, fun h ↦ ⟨h, rfl⟩⟩

/-- A call that has no request to send. -/
theorem Keeps.of_pointer {call : Call} {state : CallState}
    (hpointer : ∀ run ∈ state.pointer, run ∈ call.state.pointer)
    (hguards : ∀ run ∈ state.guards, run ∈ call.state.guards) (hrequests : ¬ state.Requests) :
    Keeps call { call with state := state } :=
  ⟨rfl, rfl, hpointer, hguards, fun h ↦ absurd h hrequests⟩

theorem keeps_wake (run : Ref) (call : Call) : Keeps call (call.wake run) := by
  rcases call.wake_state run with hsame | ⟨other, woken, hstate, hwoken⟩ |
    ⟨other, woken, hstate, hwoken⟩
  · refine ⟨call.wake_kind run, call.wake_runId run, ?_, ?_, ?_⟩ <;> rw [hsame]
    · exact fun _ h ↦ h
    · exact fun _ h ↦ h
    · exact fun h ↦ ⟨h, rfl⟩
  all_goals
    refine ⟨call.wake_kind run, call.wake_runId run, ?_, ?_, ?_⟩ <;> rw [hwoken, hstate]
    · exact fun _ h ↦ h
    · exact fun _ h ↦ h
    · simp [CallState.Requests]

variable (s) in
/-- Where a step of a call takes a call. -/
inductive CallStep (call call' : Call) : Prop where
  | keep (h : Keeps call call')
  | found {run : Ref} (hentry : s.entry call.runId = some run) (hkind : call'.kind = call.kind)
    (hrun : call'.runId = call.runId) (hstate : call'.state = .claiming run)
  | missing (hentry : s.entry call.runId = none) (hlooking : call.state = .looking)
    (hkind : call'.kind = call.kind) (hrun : call'.runId = call.runId)
    (hstate : call'.state = .building none)
  | claim {run : Ref} (hclaiming : call.state = .claiming run) (hlive : s.flag run = some .live)
    (hkind : call'.kind = call.kind) (hrun : call'.runId = call.runId)
    (hstate : call'.state = .building (some run))

theorem callStep_shift {call : Call} {state : CallState} (h : s.Shift call call.state state) :
    s.CallStep call { call with state := state } := by
  generalize hstart : call.state = start at h
  have hkeep {next : CallState} (hpointer : ∀ run ∈ next.pointer, run ∈ start.pointer)
      (hguards : ∀ run ∈ next.guards, run ∈ start.guards) (hrequests : ¬ next.Requests) :
      s.CallStep call { call with state := next } :=
    .keep (Keeps.of_pointer (by rw [hstart]; exact hpointer) (by rw [hstart]; exact hguards)
      hrequests)
  have hnext {next : CallState} (hpointer : next.pointer = start.pointer)
      (hguards : next.guards = start.guards) (hrequests : start.Requests) :
      s.CallStep call { call with state := next } := by
    rw [← hstart] at hpointer hguards hrequests
    exact .keep ⟨rfl, rfl, by rw [hpointer]; exact fun _ h ↦ h, by rw [hguards]; exact fun _ h ↦ h,
      fun _ ↦ ⟨hrequests, hpointer⟩⟩
  cases h with
  | missing hentry => exact .missing hentry hstart rfl rfl rfl
  | found hentry => exact .found hentry rfl rfl rfl
  | @built guard | @ready guard => exact hnext rfl rfl ⟨guard, .inl rfl⟩
  | @checked guard => exact hnext rfl rfl ⟨guard, .inr (.inl rfl)⟩
  | @refused guard err | @late guard err | @full guard err =>
    apply hkeep _ _ (CallState.not_requests_failed guard err)
    · rw [CallState.pointer_failed]
      exact fun _ h ↦ h
    · cases guard <;> exact fun _ h ↦ h
  | _ =>
    refine hkeep ?_ ?_ ?_ <;>
      simp [CallState.pointer, CallState.guards, CallState.Requests]

/-- Every call after a step of a call comes from one before. -/
theorem calls_callMove (hmove : s.CallMove id s') :
    ∀ call' ∈ s'.calls, ∃ call ∈ s.calls, s.CallStep call call' := by
  have hset {t : System} {call : Call} {state : CallState} (hcalls : t.calls = s.calls)
      (hcall : s.calls[id]? = some call)
      (hstep : s.CallStep call { call with state := state }) :
      ∀ call' ∈ (t.setCall id state).calls, ∃ call ∈ s.calls, s.CallStep call call' := by
    intro call' hmem
    rw [System.setCall, hcalls] at hmem
    rcases mem_modify hcall hmem with hold | rfl
    · exact ⟨call', hold, .keep (Keeps.refl call')⟩
    · exact ⟨call, List.mem_of_getElem? hcall, hstep⟩
  cases hmove with
  | stay => exact fun call hcall ↦ ⟨call, hcall, .keep (Keeps.refl call)⟩
  | shift hcall hshift => exact hset rfl hcall (callStep_shift hshift)
  | claim hcall hstate hlive =>
    exact hset (calls_modify _ _) hcall (.claim hstate hlive rfl rfl rfl)
  | send hcall hstate =>
    refine hset rfl hcall (.keep (Keeps.of_pointer ?_ ?_ ?_)) <;> unfold sent <;> split <;>
      simp [CallState.pointer, CallState.guards, CallState.Requests]
  | withdraw hcall hstate =>
    refine hset (calls_modify _ _) hcall (.keep (Keeps.of_pointer ?_ ?_ ?_))
    · rw [hstate]
      exact fun _ h ↦ h
    · simp [CallState.guards]
    · simp [CallState.Requests]
  | @wake call run err hcall hstate =>
    intro call' hmem
    have hcall' : (s.notify run).calls[id]? = some (call.wake run) := by
      rw [notify_calls, List.getElem?_map, hcall]
      rfl
    rcases mem_setCall hcall' hmem with hold | rfl
    · obtain ⟨old, hbefore, rfl⟩ := List.mem_map.mp hold
      exact ⟨old, hbefore, .keep (keeps_wake run old)⟩
    · exact ⟨call, List.mem_of_getElem? hcall, .keep ⟨call.wake_kind run, call.wake_runId run,
        by simp [CallState.pointer], by simp [CallState.guards], by simp [CallState.Requests]⟩⟩

/-- The writer takes no call anywhere but to its answer. -/
theorem calls_writerMove (hmove : s.WriterMove crc fromStr s') :
    ∀ call' ∈ s'.calls, ∃ call ∈ s.calls, Keeps call call' := by
  have hsame {t : System} (hcalls : t.calls = s.calls) :
      ∀ call' ∈ t.calls, ∃ call ∈ s.calls, Keeps call call' := by
    rw [hcalls]
    exact fun call hcall ↦ ⟨call, hcall, Keeps.refl call⟩
  cases hmove with
  | @wake run hwake =>
    intro call' hmem
    obtain ⟨old, hold, rfl⟩ := List.mem_map.mp hmem
    exact ⟨old, hold, keeps_wake run old⟩
  | @perform effect hwake heffect =>
    cases effect with
    | replied id result =>
      show ∀ call' ∈ (s.deliver id result).calls, _
      unfold deliver
      split
      · next mode runId streamId kind payload hcall =>
        intro call' hmem
        rcases mem_setCall hcall hmem with hold | rfl
        · exact ⟨call', hold, Keeps.refl call'⟩
        · exact ⟨_, List.mem_of_getElem? hcall, Keeps.of_pointer (by simp [CallState.pointer])
            (by simp [CallState.guards]) (by simp [CallState.Requests])⟩
      · exact hsame rfl
    | guardCommitted run | guardDropped run => exact hsame (calls_modify _ _)
    | failed | published | notified => exact hsame rfl
  | nudge hphase hplain => exact hsame (calls_modify _ _)
  | _ => exact hsame rfl

/-- What a call sends is its request. -/
theorem asks_callMove (hmove : s.CallMove id s') {q : Ask} (hq : q ∈ s'.asks) :
    q ∈ s.asks ∨ ∃ call ∈ s.calls, call.state.Requests ∧ q.kind = call.kind ∧
      q.runId = call.runId ∧ q.guard = call.state.pointer := by
  cases hmove with
  | claim hcall hstate hlive | withdraw hcall hstate =>
    left
    have hasks : q ∈ (s.modify _ _).asks := hq
    rwa [System.asks, queue_modify, phase_modify] at hasks
  | @send call guard hcall hstate =>
    rcases List.mem_append.mp hq with hqueued | hstaged
    · have hmem : q ∈ (s.queue ++ [call.command id guard]).map commandAsk := hqueued
      rw [List.map_append] at hmem
      rcases List.mem_append.mp hmem with hold | hnew
      · exact .inl (List.mem_append_left _ hold)
      · right
        rw [List.mem_singleton.mp hnew]
        exact ⟨call, List.mem_of_getElem? hcall, ⟨guard, .inr (.inr hstate)⟩, kind_commandAsk ..,
          runId_commandAsk .., by rw [guard_commandAsk, hstate]; rfl⟩
    · exact .inl (List.mem_append_right _ hstaged)
  | _ => exact .inl hq

/-! ### Steps of the writer -/

section Perform

variable (s) in
/-- An answer reaches a call that waits for it, or nobody. -/
theorem deliver_cases (id : Nat) (result : Except String TimelineEvent) :
    s.deliver id result = s ∨ ∃ mode runId streamId kind payload,
      s.calls[id]? = some ⟨mode, runId, streamId, kind, payload, .waiting⟩ ∧
        s.deliver id result = s.setCall id (.returned (result.map some)) := by
  unfold deliver
  split
  · next hcall => exact .inr ⟨_, _, _, _, _, hcall, rfl⟩
  · exact .inl rfl

variable (effect : Effect Nat Ref)

@[simp] theorem phase_perform : (s.perform effect).phase = s.phase := by
  cases effect with
  | replied id result =>
    show (s.deliver id result).phase = _
    rcases s.deliver_cases id result with hdeliver | ⟨_, _, _, _, _, _, hdeliver⟩
    · rw [hdeliver]
    · rw [hdeliver]
      rfl
  | guardCommitted run | guardDropped run => exact phase_modify run _
  | failed | published | notified => rfl

@[simp] theorem committed_perform : (s.perform effect).committed = s.committed := by
  cases effect with
  | replied id result =>
    show (s.deliver id result).committed = _
    rcases s.deliver_cases id result with hdeliver | ⟨_, _, _, _, _, _, hdeliver⟩
    · rw [hdeliver]
    · rw [hdeliver]
      rfl
  | guardCommitted run | guardDropped run => exact committed_modify run _
  | failed | published | notified => rfl

@[simp] theorem queue_perform : (s.perform effect).queue = s.queue := by
  cases effect with
  | replied id result =>
    show (s.deliver id result).queue = _
    rcases s.deliver_cases id result with hdeliver | ⟨_, _, _, _, _, _, hdeliver⟩
    · rw [hdeliver]
    · rw [hdeliver]
      rfl
  | guardCommitted run | guardDropped run => exact queue_modify run _
  | failed | published | notified => rfl

@[simp] theorem generation_perform : (s.perform effect).generation = s.generation := by
  cases effect with
  | replied id result =>
    show (s.deliver id result).generation = _
    rcases s.deliver_cases id result with hdeliver | ⟨_, _, _, _, _, _, hdeliver⟩
    · rw [hdeliver]
    · rw [hdeliver]
      rfl
  | guardCommitted run | guardDropped run => exact generation_modify run _
  | failed | published | notified => rfl

@[simp] theorem effects_perform : (s.perform effect).w.effects = s.w.effects := by
  cases effect with
  | replied id result =>
    show (s.deliver id result).w.effects = _
    rcases s.deliver_cases id result with hdeliver | ⟨_, _, _, _, _, _, hdeliver⟩
    · rw [hdeliver]
    · rw [hdeliver]
      rfl
  | guardCommitted run | guardDropped run => exact effects_modify run _
  | failed | published | notified => rfl

end Perform

variable (s) in
/-- Effects that a step of the writer makes due. -/
inductive NewEffect : Effect Nat Ref → Prop where
  | failed : NewEffect .failed
  | rejected {q : Ask} {err : String} {effect : Effect Nat Ref} (hq : q ∈ s.asks)
    (heffect : effect ∈ errorEffects q.reply q.guard err) : NewEffect effect
  | published (maxSeq : UInt64) (committedEnd : Nat) : NewEffect (.published maxSeq committedEnd)
  | announced {a : StagedTimelineAppend Nat Ref} {effect : Effect Nat Ref}
    (ha : a ∈ s.phase.unannounced) (heffect : effect ∈ announceEffects a) : NewEffect effect
  | finished {first : StagedTimelineAppend Nat Ref} {run : Ref}
    (hfirst : first ∈ s.phase.unfinished) (hrun : first.deleteGuard = some run) :
    NewEffect (.guardCommitted run)

theorem due_finish (hclaimed : Claimed s') (hdue : s'.due = s.due)
    {first : StagedTimelineAppend Nat Ref} (hfirst : first ∈ s.phase.unfinished)
    {rest all : List (StagedTimelineAppend Nat Ref)} {effect : Effect Nat Ref}
    (heffect : effect ∈ (s'.finish first rest all).due) :
    effect ∈ s.due ∨ s.NewEffect effect := by
  have hnew : (s'.finish first rest all).due = s'.due ++
      first.deleteGuard.toList.map .guardCommitted := hclaimed.due_append rfl
  rw [hnew, hdue] at heffect
  rcases List.mem_append.mp heffect with hold | hcommitted
  · exact .inl hold
  · obtain ⟨run, hrun, rfl⟩ := List.mem_map.mp hcommitted
    exact .inr (.finished hfirst (Option.mem_toList.mp hrun))

theorem due_perform {performed effect : Effect Nat Ref}
    (hperform : s.w.effects[s.performed]? = some performed)
    (heffect : effect ∈
      ({ s.perform performed with performed := s.performed + 1 } : System).due) :
    effect ∈ s.due := by
  rw [Claimed.due_eq_cons hperform]
  apply List.mem_cons_of_mem
  rw [← effects_perform performed]
  exact heffect

theorem due_writerMove (hclaimed : Claimed s) (hmove : s.WriterMove crc fromStr s')
    {effect : Effect Nat Ref} (heffect : effect ∈ s'.due) : effect ∈ s.due ∨ s.NewEffect effect := by
  have hnote {notes : List (Effect Nat Ref)} (hnotes : Notes notes) (hmem : effect ∈ notes) :
      s.NewEffect effect := by
    rw [hnotes.2 effect hmem]
    exact .failed
  cases hmove with
  | wake hwake => exact .inl heffect
  | @perform performed hwake hperform =>
    exact .inl (due_perform hperform heffect)
  | @stage staged staged' bytes more command queue w phase hphase hqueue halone a ha hw hstaged
      hnext hidle =>
    subst hw
    obtain ⟨-, notes, hnotes, hcases⟩ := stageCommand_cases crc s.w a staged bytes
    have hasked : commandAsk command ∈ s.asks := by
      apply List.mem_append_left
      rw [hqueue]
      exact List.mem_cons_self
    rcases hcases with ⟨-, err, heffects⟩ | ⟨-, heffects, -⟩
    · rw [due, hclaimed.due_append heffects] at heffect
      rcases List.mem_append.mp heffect with hold | hnew
      · exact .inl hold
      · rcases List.mem_append.mp hnew with hmem | herror
        · exact .inr (hnote hnotes hmem)
        · rw [ha] at herror
          exact .inr (.rejected hasked herror)
    · rw [due, hclaimed.due_append heffects] at heffect
      rcases List.mem_append.mp heffect with hold | hmem
      · exact .inl hold
      · exact .inr (hnote hnotes hmem)
  | @unsynced staged hphase err wal hwal =>
    obtain ⟨-, notes, hnotes, hwal⟩ := withWal_cases s.w wal s.w.file
    rw [Inv.foldl_failStaged] at heffect
    have heffects : ((s.w.withWal wal s.w.file).emit (staged.flatMap fun a ↦
        errorEffects a.reply a.deleteGuard err)).effects = s.w.effects ++
          (notes ++ staged.flatMap fun a ↦ errorEffects a.reply a.deleteGuard err) := by
      rw [TimelineWriter.emit, hwal, List.append_assoc]
    rw [due, hclaimed.due_append heffects] at heffect
    rcases List.mem_append.mp heffect with hold | hnew
    · exact .inl hold
    · rcases List.mem_append.mp hnew with hmem | herror
      · exact .inr (hnote hnotes hmem)
      · obtain ⟨a, ha, herror⟩ := List.mem_flatMap.mp herror
        have hasked : a.ask ∈ s.asks := by
          apply List.mem_append_right
          rw [hphase]
          exact List.mem_map_of_mem ha
        exact .inr (.rejected hasked herror)
  | @publish all hphase =>
    rw [Inv.foldl_announce] at heffect
    have heffects : (s.w.publish.emit (all.flatMap announceEffects)).effects = s.w.effects ++
        ([.published s.w.nextSeq s.w.committedEnd] ++ all.flatMap announceEffects) := by
      simp [TimelineWriter.publish, TimelineWriter.emit]
    rw [due, hclaimed.due_append heffects] at heffect
    rcases List.mem_append.mp heffect with hold | hnew
    · exact .inl hold
    · rcases List.mem_append.mp hnew with hpublished | hannounced
      · rw [List.mem_singleton.mp hpublished]
        exact .inr (.published _ _)
      · obtain ⟨a, ha, hmem⟩ := List.mem_flatMap.mp hannounced
        exact .inr (.announced (by rw [hphase]; exact ha) hmem)
  | record hphase hstructural =>
    exact due_finish (s := s) (hclaimed.record fromStr _) rfl
      (by rw [hphase]; exact List.mem_cons_self) heffect
  | nudge hphase hplain =>
    exact due_finish (hclaimed.nudge (fun hkind ↦ hplain (.inr (.inl hkind))) _)
      (due_modify _ _) (by rw [hphase]; exact List.mem_cons_self) heffect
  | trimmed hphase order horder =>
    exact due_finish (s := s) (hclaimed.reorder order) rfl
      (by rw [hphase]; exact List.mem_cons_self) heffect
  | _ => exact .inl heffect

variable (s) in
/-- Flags that a step of the writer sets. It wakes those who wait for the end of a guard next. -/
inductive NewFlag (wake : Option Ref) (run : Ref) : Option RunDelete → Prop where
  | committed (h : .guardCommitted run ∈ s.due) (hwake : wake = some run) :
    NewFlag wake run (some .deleted)
  | dropped (h : .guardDropped run ∈ s.due) (hwake : wake = some run) :
    NewFlag wake run (some .live)
  | recorded {first : StagedTimelineAppend Nat Ref} (hfirst : first ∈ s.phase.unfinished)
    (hrun : run = ⟨first.event.runId, s.generation first.event.runId + 1⟩)
    {flag : Option RunDelete} (hflag : flag = some .deleted →
      (s.w.registry.summary first.event.runId).deleted = true ∨
        first.event.kind = "run_deleted") : NewFlag wake run flag
  | forgotten {oldest : String} (hrun : run = ⟨oldest, s.generation oldest + 1⟩) :
    NewFlag wake run none

theorem flag_record (first : StagedTimelineAppend Nat Ref) (fromStr : String → Option Json)
    (hfirst : first ∈ s.phase.unfinished) (run : Ref) :
    (s.replace first.event.runId (s.w.registry.record fromStr first.event)).flag run =
        s.flag run ∨
      s.NewFlag s.wake run
        ((s.replace first.event.runId (s.w.registry.record fromStr first.event)).flag run) := by
  rw [flag_replace (touches_record fromStr s.w.registry first.event)]
  split
  · next hnew =>
    right
    rw [RunRegistry.record, Std.ExtTreeMap.getElem?_insert_self, Option.map_some]
    refine .recorded hfirst hnew fun hflag ↦ ?_
    rw [Option.some_inj, RunState.fromSummary] at hflag
    have hdeleted : ((s.w.registry.summary first.event.runId).applyEvent fromStr
        first.event).deleted = true := by
      by_contra hlive
      simp [hlive] at hflag
    rw [RunRegistry.deleted_applyEvent, Bool.or_eq_true] at hdeleted
    exact hdeleted.imp_right of_decide_eq_true
  · exact .inl rfl

theorem flag_writerMove (hclaimed : Claimed s) (hmove : s.WriterMove crc fromStr s') (run : Ref) :
    s'.flag run = s.flag run ∨ s.NewFlag s'.wake run (s'.flag run) := by
  cases hmove with
  | @perform effect hwake heffect =>
    have hdue : effect ∈ s.due := by
      rw [Claimed.due_eq_cons heffect]
      exact List.mem_cons_self
    have hheld (other : Ref) (hguards : effect.guards = [other]) :
        s.flag other = some .appendInFlight := by
      apply hclaimed.flag_of_mem
      apply List.mem_append_right
      exact List.mem_flatMap.mpr ⟨effect, hdue, by rw [hguards]; exact List.mem_singleton.mpr rfl⟩
    cases effect with
    | replied id result =>
      left
      show (s.deliver id result).flag run = _
      unfold deliver
      split <;> rfl
    | guardCommitted other =>
      have hflag : ({ s.perform (.guardCommitted other) with performed := s.performed + 1 } :
          System).flag run = _ := flag_commitDeleteAppend (hheld other rfl) run
      rw [hflag]
      split
      · next hsame =>
        rw [← hsame] at hdue
        exact .inr (.committed hdue (congrArg some hsame.symm))
      · exact .inl rfl
    | guardDropped other =>
      have hflag : ({ s.perform (.guardDropped other) with performed := s.performed + 1 } :
          System).flag run = _ := flag_rollbackDeleteAppend (hheld other rfl) run
      rw [hflag]
      split
      · next hsame =>
        rw [← hsame] at hdue
        exact .inr (.dropped hdue (congrArg some hsame.symm))
      · exact .inl rfl
    | failed | published | notified => exact .inl rfl
  | stage hphase hqueue halone a ha hw hstaged hnext hidle =>
    subst hw
    exact .inl (flag_mk s (congrArg RunRegistry.runs (stageCommand_cases crc s.w a _ _).1) run)
  | unsynced hphase err wal hwal =>
    rw [Inv.foldl_failStaged]
    left
    rw [flag_mk s]
    exact congrArg RunRegistry.runs (withWal_cases s.w wal s.w.file).1
  | publish hphase =>
    rw [Inv.foldl_announce]
    exact .inl rfl
  | delete hphase hstructural | record hphase hstructural =>
    exact flag_record _ fromStr (by rw [hphase]; exact List.mem_cons_self) run
  | nudge hphase hplain =>
    exact .inl (flag_applyEvent (fun hkind ↦ hplain (.inr (.inl hkind))) _ run)
  | @evict first rest all oldest order hphase horder hdeleted =>
    have hgone : RunRegistry.removeDeleted s.w.registry.runs oldest =
        s.w.registry.runs.erase oldest := if_pos hdeleted
    rw [forget, flag_replace (touches_removeDeleted s.w.registry oldest order)]
    split
    · next hnew =>
      dsimp only
      rw [hgone, Std.ExtTreeMap.getElem?_erase_self]
      exact .inr (.forgotten hnew)
    · exact .inl rfl
  | _ => exact .inl rfl

/-- The writer takes requests from the queue into its batch, as they are. -/
theorem asks_writerMove (hmove : s.WriterMove crc fromStr s') {q : Ask} (hq : q ∈ s'.asks) :
    q ∈ s.asks := by
  have hqueued {phase : Phase} (hnone : phase.unsynced = [])
      (hmem : q ∈ s.queue.map commandAsk ++ phase.unsynced.map StagedTimelineAppend.ask) :
      q ∈ s.asks := by
    rw [hnone, List.map_nil, List.append_nil] at hmem
    exact List.mem_append_left _ hmem
  cases hmove with
  | @perform effect hwake heffect =>
    have hmem : q ∈ (s.perform effect).asks := hq
    rwa [System.asks, queue_perform, phase_perform] at hmem
  | rest hphase hqueue hidle | skip hphase | unsynced hphase err wal hwal | synced hphase wal end_ hlive hwal hend =>
    exact hqueued rfl hq
  | publish hphase =>
    rw [Inv.foldl_announce] at hq
    exact hqueued rfl hq
  | close hphase hstaged =>
    rw [System.asks, hphase]
    exact hq
  | @stage staged staged' bytes more command queue w phase hphase hqueue halone a ha hw hstaged
      hnext hidle =>
    obtain ⟨-, notes, -, hcases⟩ := stageCommand_cases crc s.w a staged bytes
    have hunsynced : phase.unsynced = staged' := by
      rcases hnext with rfl | ⟨-, bytes, more, -, rfl⟩ <;> rfl
    have hmem : q ∈ queue.map commandAsk ++ phase.unsynced.map StagedTimelineAppend.ask := hq
    rw [hunsynced] at hmem
    rw [System.asks, hqueue, hphase, List.map_cons]
    rcases List.mem_append.mp hmem with hlater | hbatch
    · exact List.mem_append_left _ (List.mem_cons_of_mem _ hlater)
    · rcases hcases with ⟨hsame, -⟩ | ⟨hmore, -⟩
      · rw [hstaged, hsame] at hbatch
        exact List.mem_append_right _ hbatch
      · rw [hstaged, hmore, List.map_append] at hbatch
        rcases List.mem_append.mp hbatch with hold | hnew
        · exact List.mem_append_right _ hold
        · apply List.mem_append_left
          rw [List.mem_singleton.mp hnew, ← ha]
          exact List.mem_cons_self
  | record hphase hstructural | trimmed hphase order horder | delete hphase hstructural =>
    exact hqueued rfl hq
  | nudge hphase hplain =>
    have hmem : q ∈ (s.modify _ _).queue.map commandAsk ++ [] := hq
    rw [queue_modify, List.append_nil] at hmem
    exact List.mem_append_left _ hmem
  | _ => exact hq

/-! ### Batches -/

theorem alone_writerMove (h : s.phase.Alone) (hmove : s.WriterMove crc fromStr s') :
    s'.phase.Alone := by
  cases hmove with
  | wake hwake => exact h
  | @perform effect hwake heffect =>
    show (s.perform effect).phase.Alone
    rw [phase_perform]
    exact h
  | rest hphase hqueue hidle => exact fun _ ha ↦ absurd ha List.not_mem_nil
  | skip hphase => exact fun _ ha ↦ absurd ha List.not_mem_nil
  | close hphase hstaged =>
    rw [hphase] at h
    exact .inl h
  | @stage staged staged' bytes more command queue w phase hphase hqueue halone a ha hw hstaged
      hnext hidle =>
    rw [hphase] at h
    obtain ⟨-, notes, -, hcases⟩ := stageCommand_cases crc s.w a staged bytes
    have hkind : command.isDelete = false → ∀ b ∈ staged', b.event.kind ≠ "run_deleted" := by
      intro hordinary b hb
      rcases hcases with ⟨hsame, -⟩ | ⟨hmore, -⟩
      · rw [hstaged, hsame] at hb
        exact h b hb
      · rw [hstaged, hmore] at hb
        rcases List.mem_append.mp hb with hold | hnew
        · exact h b hold
        · rw [List.mem_singleton.mp hnew]
          rw [← ha] at hordinary
          exact of_decide_eq_false hordinary
    rcases hnext with rfl | ⟨hordinary, bytes, more, -, rfl⟩
    · cases hdelete : command.isDelete with
      | false => exact .inl (hkind hdelete)
      | true =>
        have hnone := halone hdelete
        subst hnone
        rcases hcases with ⟨hsame, -⟩ | ⟨hmore, -⟩
        · left
          rw [hstaged, hsame]
          exact fun _ hb ↦ absurd hb List.not_mem_nil
        · exact .inr ⟨_, hstaged.trans hmore⟩
    · exact hkind hordinary
  | unsynced hphase err wal hwal => exact fun _ ha ↦ absurd ha List.not_mem_nil
  | publish hphase => exact fun _ ha ↦ absurd ha List.not_mem_nil
  | evict hphase horder hdeleted => exact h
  | reorder hphase horder => exact h
  | _ => trivial

/-- Events are committed by a sync, which makes them unfinished. -/
theorem committed_writerMove (hmove : s.WriterMove crc fromStr s') :
    (s'.committed = s.committed ∧ (∀ a ∈ s'.phase.unfinished, a ∈ s.phase.unfinished) ∧
        ∀ a ∈ s'.phase.unapplied, a ∈ s.phase.unapplied) ∨
      ∃ staged, s.phase = .syncing staged ∧ s'.committed = s.committed ++ events staged ∧
        s'.phase = .applying staged staged := by
  have hnone {t : System} (hcommitted : t.committed = s.committed)
      (hunfinished : t.phase.unfinished = []) (hunapplied : t.phase.unapplied = []) :
      (t.committed = s.committed ∧ (∀ a ∈ t.phase.unfinished, a ∈ s.phase.unfinished) ∧
          ∀ a ∈ t.phase.unapplied, a ∈ s.phase.unapplied) ∨
        ∃ staged, s.phase = .syncing staged ∧ t.committed = s.committed ++ events staged ∧
          t.phase = .applying staged staged := by
    rw [hunfinished, hunapplied]
    exact .inl ⟨hcommitted, by simp, by simp⟩
  cases hmove with
  | wake hwake | evict hphase horder hdeleted | reorder hphase horder =>
    exact .inl ⟨rfl, fun _ ha ↦ ha, fun _ ha ↦ ha⟩
  | @perform effect hwake heffect =>
    left
    dsimp only
    rw [committed_perform, phase_perform]
    exact ⟨rfl, fun _ ha ↦ ha, fun _ ha ↦ ha⟩
  | rest hphase hqueue hidle | skip hphase | close hphase hstaged | unsynced hphase err wal hwal =>
    exact hnone rfl rfl rfl
  | publish hphase =>
    rw [Inv.foldl_announce]
    exact hnone rfl rfl rfl
  | stage hphase hqueue halone a ha hw hstaged hnext hidle =>
    rcases hnext with rfl | ⟨-, bytes, more, -, rfl⟩ <;> exact hnone rfl rfl rfl
  | synced hphase wal committedEnd hlive hwal hend => exact .inr ⟨_, hphase, rfl, rfl⟩
  | delete hphase hstructural =>
    rw [hphase]
    exact .inl ⟨rfl, fun _ ha ↦ ha, fun _ ha ↦ List.mem_cons_of_mem _ ha⟩
  | record hphase hstructural =>
    rw [hphase]
    exact .inl ⟨rfl, fun _ ha ↦ List.mem_cons_of_mem _ ha, fun _ ha ↦ List.mem_cons_of_mem _ ha⟩
  | nudge hphase hplain =>
    rw [hphase]
    exact .inl ⟨committed_modify _ _, fun _ ha ↦ List.mem_cons_of_mem _ ha,
      fun _ ha ↦ List.mem_cons_of_mem _ ha⟩
  | trimmed hphase order horder =>
    rw [hphase]
    exact .inl ⟨rfl, fun _ ha ↦ List.mem_cons_of_mem _ ha, fun _ ha ↦ ha⟩

/-- An append is staged for a request in the queue, and not if its run is deleted. -/
theorem unsynced_writerMove (hmove : s.WriterMove crc fromStr s')
    {b : StagedTimelineAppend Nat Ref} (hb : b ∈ s'.phase.unsynced) :
    b ∈ s.phase.unsynced ∨
      (b.event.kind ≠ "run_deleted" → s.w.isDeleted b.event.runId = false) := by
  cases hmove with
  | @perform effect hwake heffect =>
    have hmem : b ∈ (s.perform effect).phase.unsynced := hb
    rw [phase_perform] at hmem
    exact .inl hmem
  | close hphase hstaged =>
    rw [hphase]
    exact .inl hb
  | @stage staged staged' bytes more command queue w phase hphase hqueue halone a ha hw hstaged
      hnext hidle =>
    obtain ⟨-, notes, -, hcases⟩ := stageCommand_cases crc s.w a staged bytes
    have hunsynced : phase.unsynced = staged' := by
      rcases hnext with rfl | ⟨-, bytes, more, -, rfl⟩ <;> rfl
    have hmem : b ∈ phase.unsynced := hb
    rw [hphase]
    rcases hcases with ⟨hsame, -⟩ | ⟨hmore, -, hlive⟩
    · rw [hunsynced, hstaged, hsame] at hmem
      exact .inl hmem
    · rw [hunsynced, hstaged, hmore] at hmem
      rcases List.mem_append.mp hmem with hold | hnew
      · exact .inl hold
      · rw [List.mem_singleton.mp hnew]
        exact .inr hlive
  | wake hwake | evict hphase horder hdeleted | reorder hphase horder => exact .inl hb
  | nudge hphase hplain | publish hphase => cases hb
  | _ => cases hb

/-- The flag in the registry is what the writer goes by. -/
theorem isDeleted_eq_true_iff (run : String) :
    s.w.isDeleted run = true ↔ s.flag ⟨run, s.generation run⟩ = some .deleted := by
  unfold TimelineWriter.isDeleted flag object
  rw [if_pos rfl]
  cases s.w.registry.runs[run]? with
  | none => simp
  | some state => simp [RunState.snapshot]

/-- The entry of a run is replaced when an event makes or deletes the run, and when the deleted run
is forgotten. -/
theorem generation_writerMove (hmove : s.WriterMove crc fromStr s') (run : String) :
    s'.generation run = s.generation run ∨
      (∃ first rest all, s.phase = .applying (first :: rest) all ∧ first.event.runId = run ∧
        s.Structural first.event) ∨
      s.w.isDeleted run = true ∧ s'.w.registry.runs.contains run = false := by
  have hreplace (other : String) (r : RunRegistry) (h : other ≠ run) :
      (s.replace other r).generation run = s.generation run := if_neg (Ne.symm h)
  cases hmove with
  | @perform effect hwake heffect =>
    left
    show (s.perform effect).generation run = _
    rw [generation_perform]
  | publish hphase =>
    rw [Inv.foldl_announce]
    exact .inl rfl
  | @delete first rest all hphase hstructural | @record first rest all hphase hstructural =>
    by_cases hrun : first.event.runId = run
    · exact .inr (.inl ⟨first, rest, all, hphase, hrun, hstructural⟩)
    · exact .inl (hreplace _ (s.w.registry.record fromStr first.event) hrun)
  | nudge hphase hplain =>
    left
    show (s.modify _ _).generation run = _
    rw [generation_modify]
  | @evict first rest all oldest order hphase horder hdeleted =>
    by_cases hrun : oldest = run
    · subst hrun
      have hgone : RunRegistry.removeDeleted s.w.registry.runs oldest =
          s.w.registry.runs.erase oldest := if_pos hdeleted
      refine .inr (.inr ⟨hdeleted, ?_⟩)
      show (RunRegistry.removeDeleted s.w.registry.runs oldest).contains oldest = false
      rw [hgone]
      simp
    · exact .inl (hreplace _ _ hrun)
  | _ => exact .inl rfl

end System

end Vidarax.Commit
