import Vidarax.Commit.Moves
import Vidarax.Commit.Protocol

/-!
# Claims on deletions

A run has a deletion in flight exactly while one guard for it is alive, wherever the guard is: with
the caller, in the queue, in a batch or with an effect that the writer has not performed yet.
-/

namespace Vidarax.Commit

open Vidarax.Base Vidarax.Timeline Vidarax.Runs

/-! ### Calls -/

/-- The pointer that a call holds. -/
def CallState.pointer : CallState → Option Ref
  | .claiming run | .spinning run | .listening run | .loading run _ | .awaiting run _
  | .dropping run _ | .waking run _ => some run
  | .building guard | .checking guard | .sending guard => guard
  | _ => none

/-- The call has a request that is not sent yet. -/
def CallState.Requests (state : CallState) : Prop :=
  ∃ guard, state = .building guard ∨ state = .checking guard ∨ state = .sending guard

/-- Only a call that deletes its run looks the run up or holds a pointer, which is to this run, and
no detached call sends a deletion. -/
structure Call.WF (call : Call) : Prop where
  deletes : call.state = .looking ∨ call.state.pointer.isSome →
    call.kind = "run_deleted" ∧ call.mode ≠ .detached
  run : ∀ run ∈ call.state.pointer, run.run = call.runId
  plain : call.state.Requests → call.mode = .detached → call.kind ≠ "run_deleted"

theorem Call.wf_enter (mode : Mode) (runId streamId kind payload : String) :
    (Call.enter mode runId streamId kind payload).WF := by
  unfold Call.enter
  split
  · next hkind =>
    split
    · exact ⟨by simp [CallState.pointer], by simp [CallState.pointer], by simp [CallState.Requests]⟩
    · next hmode =>
      exact ⟨fun _ ↦ ⟨hkind, hmode⟩, by simp [CallState.pointer], by simp [CallState.Requests]⟩
  · next hkind => exact ⟨by simp [CallState.pointer], by simp [CallState.pointer], fun _ _ ↦ hkind⟩

@[simp] theorem Call.wake_kind (run : Ref) (call : Call) : (call.wake run).kind = call.kind := by
  unfold Call.wake
  split <;> rfl

@[simp] theorem Call.wake_runId (run : Ref) (call : Call) : (call.wake run).runId = call.runId := by
  unfold Call.wake
  split <;> rfl

@[simp] theorem Call.wake_mode (run : Ref) (call : Call) : (call.wake run).mode = call.mode := by
  unfold Call.wake
  split <;> rfl

/-- Waking a call leaves it where it stands, but for the mark that it was woken. -/
theorem Call.wake_state (run : Ref) (call : Call) :
    (call.wake run).state = call.state ∨
      (∃ other woken, call.state = .loading other woken ∧
        (call.wake run).state = .loading other (woken || other = run)) ∨
      ∃ other woken, call.state = .awaiting other woken ∧
        (call.wake run).state = .awaiting other (woken || other = run) := by
  unfold Call.wake
  split
  · next other woken hstate => exact .inr (.inl ⟨other, woken, hstate, rfl⟩)
  · next other woken hstate => exact .inr (.inr ⟨other, woken, hstate, rfl⟩)
  · exact .inl rfl

theorem Call.WF.wake {call : Call} (h : call.WF) (run : Ref) : (call.wake run).WF := by
  rcases call.wake_state run with hsame | ⟨other, woken, hstate, hwoken⟩ |
    ⟨other, woken, hstate, hwoken⟩
  · refine ⟨?_, ?_, ?_⟩ <;> rw [hsame] <;> simp only [wake_kind, wake_mode, wake_runId]
    · exact h.deletes
    · exact h.run
    · exact h.plain
  all_goals
    refine ⟨?_, ?_, ?_⟩ <;> rw [hwoken] <;> simp only [wake_kind, wake_mode, wake_runId]
    · exact fun _ ↦ h.deletes (by rw [hstate]; exact .inr rfl)
    · have hrun := h.run
      rw [hstate] at hrun
      exact hrun
    · simp [CallState.Requests]

/-- A call that holds the pointer it had, or none. -/
theorem Call.WF.keep {call : Call} (h : call.WF) {state : CallState} (hlooking : state ≠ .looking)
    (hpointer : ∀ run ∈ state.pointer, run ∈ call.state.pointer)
    (hrequests : state.Requests → call.state.Requests) : { call with state := state : Call }.WF := by
  refine ⟨fun hstate ↦ ?_, fun run hrun ↦ h.run run (hpointer run hrun),
    fun hstate ↦ h.plain (hrequests hstate)⟩
  rcases hstate with hstate | hstate
  · exact absurd hstate hlooking
  · obtain ⟨run, hrun⟩ := Option.isSome_iff_exists.mp hstate
    exact h.deletes (.inr (Option.isSome_iff_exists.mpr ⟨run, hpointer run hrun⟩))

/-- A call that starts over. -/
theorem Call.WF.again {call : Call} (h : call.WF) (hpointer : call.state.pointer.isSome) :
    { call with state := .looking : Call }.WF :=
  ⟨fun _ ↦ h.deletes (.inr hpointer), by simp [CallState.pointer], by simp [CallState.Requests]⟩

theorem CallState.pointer_failed (guard : Option Ref) (err : String) :
    (Call.failed guard err).pointer = guard := by
  cases guard <;> rfl

theorem CallState.failed_ne_looking (guard : Option Ref) (err : String) :
    Call.failed guard err ≠ .looking := by
  cases guard <;> simp [Call.failed]

theorem CallState.not_requests_failed (guard : Option Ref) (err : String) :
    ¬ (Call.failed guard err).Requests := by
  cases guard <;> simp [Call.failed, CallState.Requests]

theorem System.Shift.wf {s : System} {call : Call} {state : CallState} (h : call.WF)
    (hshift : s.Shift call call.state state) : { call with state := state : Call }.WF := by
  generalize hstart : call.state = start at hshift
  have hkeep {next : CallState} (hlooking : next ≠ .looking)
      (hpointer : ∀ run ∈ next.pointer, run ∈ start.pointer)
      (hrequests : next.Requests → start.Requests) : { call with state := next : Call }.WF :=
    h.keep hlooking (by rw [hstart]; exact hpointer) (by rw [hstart]; exact hrequests)
  cases hshift with
  | missing hentry =>
    have hdeletes := h.deletes (.inl hstart)
    exact ⟨fun _ ↦ hdeletes, by simp [CallState.pointer],
      fun _ hdetached ↦ absurd hdetached hdeletes.2⟩
  | found hentry =>
    have hdeletes := h.deletes (.inl hstart)
    refine ⟨fun _ ↦ hdeletes, fun run hrun ↦ ?_, by simp [CallState.Requests]⟩
    unfold entry at hentry
    split at hentry
    · obtain rfl := Option.some.inj hrun
      rw [← Option.some.inj hentry]
    · cases hentry
  | spun => exact h.again (by rw [hstart]; rfl)
  | loaded => exact h.again (by rw [hstart]; rfl)
  | refused err | late err | full err =>
    exact hkeep (CallState.failed_ne_looking _ _)
      (fun run hrun ↦ by rwa [CallState.pointer_failed] at hrun)
      fun hrequests ↦ absurd hrequests (CallState.not_requests_failed _ _)
  | built | ready | checked =>
    exact hkeep (by simp) (fun _ hrun ↦ hrun) (by simp [CallState.Requests])
  | _ => exact hkeep (by simp) (by simp [CallState.pointer]) (by simp [CallState.Requests])

/-! ### Guards -/

/-- Guards of a call. -/
def CallState.guards : CallState → List Ref
  | .building guard | .checking guard | .sending guard => guard.toList
  | .dropping run _ => [run]
  | _ => []

/-- Guards of a staged append. -/
def StagedTimelineAppend.guards (a : StagedTimelineAppend Nat Ref) : List Ref :=
  a.deleteGuard.toList

/-- Guards of a batch that have no effect yet. -/
def Phase.guards : Phase → List Ref
  | .gathering staged _ _ | .syncing staged => staged.flatMap StagedTimelineAppend.guards
  | .applying rest _ => rest.flatMap StagedTimelineAppend.guards
  | .trimming first rest _ => first.guards ++ rest.flatMap StagedTimelineAppend.guards

/-- Guards that an effect ends. -/
def Effect.guards : Effect Nat Ref → List Ref
  | .guardCommitted run | .guardDropped run => [run]
  | _ => []

/-- Guards of a command. -/
def commandGuards (command : TimelineCommand Nat Ref) : List Ref :=
  command.request.deleteGuard.toList

namespace System

/-- Effects that are not performed yet. -/
def due (s : System) : List (Effect Nat Ref) := s.w.effects.drop s.performed

/-- Guards that are alive. -/
def guards (s : System) : List Ref :=
  s.calls.flatMap (·.state.guards) ++ s.queue.flatMap commandGuards ++ s.phase.guards ++
    s.due.flatMap Effect.guards

variable {s : System}

/-- A call that moves on by itself keeps its guard. -/
theorem Shift.guards {call : Call} {state : CallState} (h : call.WF)
    (hshift : s.Shift call call.state state) : state.guards = call.state.guards := by
  generalize hstart : call.state = start at hshift
  have hnone {guard : Option Ref} (hguard : call.state.pointer = guard)
      (hdetached : call.mode = .detached) : guard.toList = [] := by
    cases guard with
    | none => rfl
    | some run => exact absurd hdetached (h.deletes (.inr (by rw [hguard]; rfl))).2
  cases hshift with
  | @refused guard err | @late guard err | @full guard err => cases guard <;> rfl
  | unbuilt hdetached | unsent hdetached =>
    exact (hnone (by rw [hstart]; rfl) hdetached).symm
  | _ => rfl

/-! ### Objects -/

/-- The object behind a pointer is changed and no other. -/
theorem object_modify (run other : Ref) (f : RunState → RunState) :
    (s.modify run f).object other =
      if other = run then (s.object run).map f else s.object other := by
  unfold modify object
  by_cases hcurrent : run.generation = s.generation run.run
  · rw [if_pos hcurrent, if_pos hcurrent]
    dsimp only
    rw [RunRegistry.modifyRun]
    by_cases hsame : other = run
    · subst hsame
      rw [if_pos rfl, if_pos hcurrent]
      cases hrun : s.w.registry.runs[other.run]? with
      | none => exact hrun
      | some state => exact Std.ExtTreeMap.getElem?_insert_self
    · rw [if_neg hsame]
      split
      · next hother =>
        have hne : other.run ≠ run.run := by
          intro hrun
          apply hsame
          obtain ⟨otherRun, number⟩ := other
          obtain ⟨thisRun, this⟩ := run
          dsimp only at hother hcurrent hrun
          rw [hother, hcurrent, hrun]
        split
        · exact Table.get?_insert_ne _ _ hne
        · rfl
      · rfl
  · rw [if_neg hcurrent, if_neg hcurrent]
    dsimp only
    by_cases hsame : other = run
    · rw [if_pos hsame, hsame, if_neg hcurrent, if_pos rfl]
    · rw [if_neg hsame, if_neg hsame]

theorem flag_modify (run other : Ref) (f : RunState → RunState) :
    (s.modify run f).flag other =
      if other = run then (s.object run).map fun state ↦ (f state).deleteState
      else s.flag other := by
  rw [flag, object_modify]
  split
  · rw [Option.map_map]
    rfl
  · rfl

/-- Changes of the registry to one run that keep the others. -/
def Touches (r r' : RunRegistry) (run : String) : Prop :=
  ∀ other, other ≠ run → r'.runs[other]? = r.runs[other]?

theorem object_replace {run : String} {r : RunRegistry} (h : Touches s.w.registry r run)
    (other : Ref) :
    (s.replace run r).object other =
      if other = ⟨run, s.generation run + 1⟩ then r.runs[run]? else s.object other := by
  unfold replace object
  dsimp only
  obtain ⟨name, number⟩ := other
  by_cases hname : name = run
  · subst hname
    by_cases hnew : number = s.generation name + 1
    · simp [hnew]
    · by_cases hold : number = s.generation name <;> simp [hnew, hold]
  · simp [hname, h name hname]

theorem flag_replace {run : String} {r : RunRegistry} (h : Touches s.w.registry r run)
    (other : Ref) :
    (s.replace run r).flag other =
      if other = ⟨run, s.generation run + 1⟩ then r.runs[run]?.map RunState.deleteState
      else s.flag other := by
  rw [flag, object_replace h]
  split <;> rfl

theorem flag_beginDeleteAppend {run : Ref} (h : s.flag run = some .live) (other : Ref) :
    (s.modify run RunState.beginDeleteAppend).flag other =
      if other = run then some .appendInFlight else s.flag other := by
  rw [flag_modify]
  obtain ⟨state, hobject, hlive⟩ := Option.map_eq_some_iff.mp h
  simp [hobject, RunState.beginDeleteAppend, hlive]

theorem flag_rollbackDeleteAppend {run : Ref} (h : s.flag run = some .appendInFlight)
    (other : Ref) :
    (s.modify run RunState.rollbackDeleteAppend).flag other =
      if other = run then some .live else s.flag other := by
  rw [flag_modify]
  obtain ⟨state, hobject, hclaimed⟩ := Option.map_eq_some_iff.mp h
  simp [hobject, RunState.rollbackDeleteAppend, hclaimed]

theorem flag_commitDeleteAppend {run : Ref} (h : s.flag run = some .appendInFlight)
    (other : Ref) :
    (s.modify run RunState.commitDeleteAppend).flag other =
      if other = run then some .deleted else s.flag other := by
  rw [flag_modify]
  obtain ⟨state, hobject, -⟩ := Option.map_eq_some_iff.mp h
  simp [hobject, RunState.commitDeleteAppend]

/-- Ordinary events do not touch the flag. -/
theorem flag_applyEvent {event : TimelineEvent} (h : event.kind ≠ "run_deleted") (run other : Ref) :
    (s.modify run (·.applyEvent event)).flag other = s.flag other := by
  rw [flag_modify]
  split
  · next hother =>
    rw [hother, flag]
    congr 1
    funext state
    simp [RunState.applyEvent, h]
  · rfl

/-- What a pointer shows depends on the registry and on what it has given up. -/
theorem flag_mk (s : System) {w : TimelineWriter Nat Ref} {performed : Nat} {wake : Option Ref}
    {phase : Phase} {queue : List (TimelineCommand Nat Ref)} {calls : List Call}
    {committed : List TimelineEvent} (h : w.registry.runs = s.w.registry.runs) (run : Ref) :
    (System.mk w performed wake phase queue calls s.generation s.retired committed).flag run =
      s.flag run := by
  rw [flag, flag, object, object, h]

theorem touches_record (fromStr : String → Option Json) (r : RunRegistry) (event : TimelineEvent) :
    Touches r (r.record fromStr event) event.runId :=
  fun _ hother ↦ Table.get?_insert_ne _ _ hother

theorem touches_removeDeleted (r : RunRegistry) (run : String) (order : List String) :
    Touches r { r with
      deletedRunOrder := order, runs := RunRegistry.removeDeleted r.runs run } run := by
  intro other hother
  dsimp only
  rw [RunRegistry.removeDeleted]
  split
  · exact Table.get?_erase_ne _ hother
  · rfl

/-! ### Setting calls -/

theorem getElem?_setCall_eq {id : Nat} {call : Call} (h : s.calls[id]? = some call)
    (state : CallState) :
    (s.setCall id state).calls[id]? = some { call with state := state } := by
  rw [setCall, List.getElem?_modify_eq, h]
  rfl

theorem getElem?_setCall_ne {id other : Nat} (h : other ≠ id) (state : CallState) :
    (s.setCall other state).calls[id]? = s.calls[id]? := by
  rw [setCall, List.getElem?_modify_ne _ _ h]

/-! ### Counting guards -/

/-- Replacing an element replaces what it contributes. -/
theorem count_flatMap_modify {α β : Type} [DecidableEq β] (f : α → List β) (g : α → α)
    {l : List α} {i : Nat} {a : α} (h : l[i]? = some a) (b : β) :
    ((l.modify i g).flatMap f).count b + (f a).count b =
      (l.flatMap f).count b + (f (g a)).count b := by
  induction l generalizing i with
  | nil => cases h
  | cons x l ih =>
    cases i with
    | zero =>
      obtain rfl : x = a := Option.some.inj h
      rw [List.modify_zero_cons, List.flatMap_cons, List.flatMap_cons, List.count_append,
        List.count_append]
      omega
    | succ i =>
      have hrest := ih h
      rw [List.modify_succ_cons, List.flatMap_cons, List.flatMap_cons, List.count_append,
        List.count_append]
      omega

theorem count_guards_setCall {id : Nat} {call : Call} (h : s.calls[id]? = some call)
    (state : CallState) (run : Ref) :
    (s.setCall id state).guards.count run + call.state.guards.count run =
      s.guards.count run + state.guards.count run := by
  have hcalls := count_flatMap_modify (fun call : Call ↦ call.state.guards)
    (fun call ↦ { call with state := state }) h run
  simp only [guards, due, setCall, List.count_append] at hcalls ⊢
  omega

@[simp] theorem guards_wake (run : Ref) (call : Call) :
    (call.wake run).state.guards = call.state.guards := by
  obtain ⟨mode, runId, streamId, kind, payload, state⟩ := call
  cases state <;> rfl

@[simp] theorem guards_notify (run : Ref) : (s.notify run).guards = s.guards := by
  simp [guards, due, notify, List.flatMap_map]

@[simp] theorem guards_modify (run : Ref) (f : RunState → RunState) :
    (s.modify run f).guards = s.guards := by
  unfold modify
  split <;> rfl

@[simp] theorem calls_modify (run : Ref) (f : RunState → RunState) :
    (s.modify run f).calls = s.calls := by
  unfold modify
  split <;> rfl

@[simp] theorem notify_calls (run : Ref) : (s.notify run).calls = s.calls.map (Call.wake run) := rfl

@[simp] theorem commandGuards_command (call : Call) (id : Nat) (guard : Option Ref) :
    commandGuards (call.command id guard) = guard.toList := by
  unfold commandGuards Call.command
  split <;> rfl

@[simp] theorem phase_modify (run : Ref) (f : RunState → RunState) :
    (s.modify run f).phase = s.phase := by
  unfold modify
  split <;> rfl

@[simp] theorem queue_modify (run : Ref) (f : RunState → RunState) :
    (s.modify run f).queue = s.queue := by
  unfold modify
  split <;> rfl

@[simp] theorem committed_modify (run : Ref) (f : RunState → RunState) :
    (s.modify run f).committed = s.committed := by
  unfold modify
  split <;> rfl

@[simp] theorem effects_modify (run : Ref) (f : RunState → RunState) :
    (s.modify run f).w.effects = s.w.effects := by
  unfold modify
  split <;> rfl

@[simp] theorem performed_modify (run : Ref) (f : RunState → RunState) :
    (s.modify run f).performed = s.performed := by
  unfold modify
  split <;> rfl

@[simp] theorem due_modify (run : Ref) (f : RunState → RunState) : (s.modify run f).due = s.due := by
  rw [due, due, effects_modify, performed_modify]

theorem mem_guards_of_call {id : Nat} {call : Call} {run : Ref} (h : s.calls[id]? = some call)
    (hrun : run ∈ call.state.guards) : run ∈ s.guards := by
  have hcalls : run ∈ s.calls.flatMap (·.state.guards) :=
    List.mem_flatMap.mpr ⟨call, List.mem_of_getElem? h, hrun⟩
  simp [guards, hcalls]

theorem mem_guards_of_phase {run : Ref} (h : run ∈ s.phase.guards) : run ∈ s.guards := by
  simp [guards, h]

theorem mem_guards_of_due {run : Ref} {effect : Effect Nat Ref} (h : effect ∈ s.due)
    (hrun : run ∈ effect.guards) : run ∈ s.guards :=
  List.mem_append_right _ (List.mem_flatMap.mpr ⟨effect, h, hrun⟩)

@[simp] theorem guards_replace (run : String) (r : RunRegistry) :
    (s.replace run r).guards = s.guards := rfl

/-- A call that is entered has no pointer. -/
theorem pointer_enter (mode : Mode) (runId streamId kind payload : String) :
    (Call.enter mode runId streamId kind payload).state.pointer = none := by
  unfold Call.enter
  split
  · split <;> rfl
  · rfl

/-- A call that is entered has no guard. -/
theorem guards_enter (mode : Mode) (runId streamId kind payload : String) :
    (Call.enter mode runId streamId kind payload).state.guards = [] := by
  unfold Call.enter
  split
  · split <;> rfl
  · rfl

/-! ### The invariant -/

/-- One guard is alive for each deletion in flight and no other, and a run has had no more states
than its entry has been replaced. -/
structure Claimed (s : System) : Prop where
  performed : s.performed ≤ s.w.effects.length
  count : ∀ run, s.guards.count run = if s.flag run = some .appendInFlight then 1 else 0
  fresh : ∀ run : Ref, s.generation run.run < run.generation → s.retired run = none

namespace Claimed

variable {s' : System}

/-- A step that changes neither flags nor guards. -/
theorem keep (h : Claimed s) (hperformed : s'.performed ≤ s'.w.effects.length) (hflag : ∀ run, s'.flag run = some .appendInFlight ↔
      s.flag run = some .appendInFlight)
    (hguards : ∀ run, s'.guards.count run = s.guards.count run)
    (hfresh : ∀ run : Ref, s'.generation run.run < run.generation → s'.retired run = none) :
    Claimed s' := by
  refine ⟨hperformed, fun run ↦ ?_, hfresh⟩
  rw [hguards, h.count]
  simp only [hflag run]

/-- A step by which a deletion becomes claimed. -/
theorem claim (h : Claimed s) (run : Ref) (hperformed : s'.performed ≤ s'.w.effects.length)
    (hlive : s.flag run ≠ some .appendInFlight)
    (hflag : ∀ other, s'.flag other = if other = run then some .appendInFlight else s.flag other)
    (hguards : ∀ other, s'.guards.count other = s.guards.count other + [run].count other)
    (hfresh : ∀ run : Ref, s'.generation run.run < run.generation → s'.retired run = none) :
    Claimed s' := by
  refine ⟨hperformed, fun other ↦ ?_, hfresh⟩
  rw [hguards, h.count, hflag]
  by_cases hother : other = run
  · subst hother
    simp [hlive]
  · simp [hother, Ne.symm hother]

/-- A step that ends a guard. -/
theorem release (h : Claimed s) (run : Ref) (hperformed : s'.performed ≤ s'.w.effects.length)
    (hended : s'.flag run ≠ some .appendInFlight)
    (hflag : ∀ other, other ≠ run → s'.flag other = s.flag other)
    (hguards : ∀ other, s'.guards.count other + [run].count other = s.guards.count other)
    (hfresh : ∀ run : Ref, s'.generation run.run < run.generation → s'.retired run = none) :
    Claimed s' := by
  refine ⟨hperformed, fun other ↦ ?_, hfresh⟩
  have hcount := hguards other
  rw [h.count] at hcount
  by_cases hother : other = run
  · subst hother
    rw [if_neg hended]
    rw [List.count_singleton_self] at hcount
    split at hcount <;> omega
  · rw [List.count_singleton, if_neg (by simpa using Ne.symm hother), Nat.add_zero] at hcount
    rw [hcount, hflag other hother]

/-- A guard that is alive belongs to a deletion in flight. -/
theorem flag_of_mem (h : Claimed s) {run : Ref} (hmem : run ∈ s.guards) :
    s.flag run = some .appendInFlight := by
  have hpos := List.count_pos_iff.mpr hmem
  rw [h.count] at hpos
  split at hpos
  · next hflag => exact hflag
  · cases hpos

theorem mem_of_flag (h : Claimed s) {run : Ref} (hflag : s.flag run = some .appendInFlight) :
    run ∈ s.guards := by
  apply List.count_pos_iff.mp
  rw [h.count, if_pos hflag]
  exact Nat.one_pos

/-- A guard that is with a batch is nowhere else. -/
theorem elsewhere (h : Claimed s) {run : Ref} (hmem : run ∈ s.phase.guards) :
    (∀ call ∈ s.calls, run ∉ call.state.guards) ∧
      (∀ command ∈ s.queue, run ∉ commandGuards command) ∧
        ∀ effect ∈ s.due, run ∉ effect.guards := by
  have hone : s.guards.count run ≤ 1 := by
    rw [h.count]
    split <;> omega
  have hphase := List.count_pos_iff.mpr hmem
  simp only [guards, List.count_append] at hone
  have hnone {α : Type} (f : α → List Ref) (l : List α) (hzero : (l.flatMap f).count run = 0)
      (a : α) (ha : a ∈ l) : run ∉ f a := fun hrun ↦
    List.count_eq_zero.mp hzero (List.mem_flatMap.mpr ⟨a, ha, hrun⟩)
  exact ⟨hnone _ _ (by omega), hnone _ _ (by omega), hnone _ _ (by omega)⟩

theorem performed_modify (h : Claimed s) (run : Ref) (f : RunState → RunState) :
    (s.modify run f).performed ≤ (s.modify run f).w.effects.length := by
  rw [System.performed_modify, effects_modify]
  exact h.performed

theorem fresh_modify (h : Claimed s) (run : Ref) (f : RunState → RunState) (other : Ref)
    (hlate : (s.modify run f).generation other.run < other.generation) :
    (s.modify run f).retired other = none := by
  unfold modify at hlate ⊢
  split at hlate
  · next hcurrent =>
    rw [if_pos hcurrent]
    exact h.fresh other hlate
  · next hcurrent =>
    rw [if_neg hcurrent]
    dsimp only
    split
    · next hsame =>
      rw [← hsame, h.fresh other hlate]
      rfl
    · exact h.fresh other hlate

theorem fresh_replace (h : Claimed s) (run : String) (r : RunRegistry) (other : Ref)
    (hlate : (s.replace run r).generation other.run < other.generation) :
    (s.replace run r).retired other = none := by
  unfold replace at hlate ⊢
  dsimp only at hlate ⊢
  have hnot : other ≠ ⟨run, s.generation run⟩ := by
    intro hsame
    subst hsame
    dsimp only at hlate
    rw [if_pos rfl] at hlate
    omega
  rw [if_neg hnot]
  apply h.fresh
  split at hlate
  · next hrun =>
    rw [hrun]
    omega
  · exact hlate

/-! ### Steps of calls -/

variable {id : Nat} {call : Call}

/-- A call moves on with the guard it has. -/
theorem shift (h : Claimed s) (hcall : s.calls[id]? = some call) {state : CallState}
    (hguards : state.guards = call.state.guards) : Claimed (s.setCall id state) := by
  refine h.keep h.performed (fun run ↦ Iff.rfl) (fun run ↦ ?_) h.fresh
  have hcount := count_guards_setCall hcall state run
  rw [hguards] at hcount
  omega

theorem notify (h : Claimed s) (run : Ref) : Claimed (s.notify run) :=
  h.keep h.performed (fun _ ↦ Iff.rfl) (fun _ ↦ by rw [guards_notify]) h.fresh

theorem callMove (h : Claimed s) (hwf : ∀ call ∈ s.calls, call.WF) (hmove : s.CallMove id s') :
    Claimed s' := by
  cases hmove with
  | stay => exact h
  | shift hcall hshift => exact h.shift hcall (hshift.guards (hwf _ (List.mem_of_getElem? hcall)))
  | @claim call run hcall hstate hlive =>
    have hcall' : (s.modify run RunState.beginDeleteAppend).calls[id]? = some call := by
      rw [calls_modify, hcall]
    refine h.claim run (h.performed_modify run _) (by rw [hlive]; decide)
      (flag_beginDeleteAppend hlive) (fun other ↦ ?_) (h.fresh_modify run _)
    have hcount := count_guards_setCall hcall' (.building (some run)) other
    rw [hstate, guards_modify] at hcount
    exact hcount
  | @send call guard hcall hstate =>
    refine h.keep h.performed (fun _ ↦ Iff.rfl) (fun run ↦ ?_) h.fresh
    have hqueue : ({ s with queue := s.queue ++ [call.command id guard] } : System).guards.count
        run = s.guards.count run + guard.toList.count run := by
      simp only [guards, due, List.flatMap_append, List.flatMap_singleton,
        commandGuards_command, List.count_append]
      omega
    have hcount := count_guards_setCall (s := { s with
      queue := s.queue ++ [call.command id guard] }) hcall (sent call) run
    have hsent : (sent call).guards = [] := by
      unfold sent
      split <;> rfl
    have hheld : call.state.guards = guard.toList := by rw [hstate]; rfl
    rw [hsent, hheld, hqueue, List.count_nil] at hcount
    omega
  | @withdraw call run err hcall hstate =>
    have hcall' : (s.modify run RunState.rollbackDeleteAppend).calls[id]? = some call := by
      rw [calls_modify, hcall]
    have hheld : run ∈ call.state.guards := by
      rw [hstate]
      exact List.mem_singleton.mpr rfl
    have hflag := h.flag_of_mem (mem_guards_of_call hcall hheld)
    refine h.release run (h.performed_modify run _) ?_ (fun other hother ↦ ?_) (fun other ↦ ?_) (h.fresh_modify run _)
    · show (s.modify run RunState.rollbackDeleteAppend).flag run ≠ _
      rw [flag_rollbackDeleteAppend hflag, if_pos rfl]
      decide
    · show (s.modify run RunState.rollbackDeleteAppend).flag other = _
      rw [flag_rollbackDeleteAppend hflag, if_neg hother]
    · have hcount := count_guards_setCall hcall' (.waking run err) other
      rw [hstate, guards_modify] at hcount
      exact hcount
  | @wake call run err hcall hstate =>
    have hcall' : (s.notify run).calls[id]? = some (call.wake run) := by
      rw [notify_calls, List.getElem?_map, hcall]
      rfl
    apply (h.notify run).shift hcall'
    rw [guards_wake, hstate]
    rfl

/-! ### Steps of the writer -/

/-- New effects come behind those that are due. -/
theorem due_append (h : Claimed s) {w : TimelineWriter Nat Ref} {new : List (Effect Nat Ref)}
    (hw : w.effects = s.w.effects ++ new) : w.effects.drop s.performed = s.due ++ new := by
  rw [hw, List.drop_append_of_le_length h.performed, due]

theorem length_append (h : Claimed s) {w : TimelineWriter Nat Ref} {new : List (Effect Nat Ref)}
    (hw : w.effects = s.w.effects ++ new) : s.performed ≤ w.effects.length := by
  rw [hw, List.length_append]
  exact Nat.le_add_right_of_le h.performed

theorem guards_notes {notes : List (Effect Nat Ref)} (h : Notes notes) :
    notes.flatMap Effect.guards = [] := by
  apply List.flatMap_eq_nil_iff.mpr
  intro effect heffect
  rw [h.2 effect heffect]
  rfl

theorem guards_errorEffects (reply : Option Nat) (guard : Option Ref) (err : String) :
    (errorEffects reply guard err).flatMap Effect.guards = guard.toList := by
  cases reply <;> cases guard <;> rfl

theorem guards_errors (err : String) (staged : List (StagedTimelineAppend Nat Ref)) :
    (staged.flatMap fun a ↦ errorEffects a.reply a.deleteGuard err).flatMap Effect.guards =
      staged.flatMap StagedTimelineAppend.guards := by
  rw [List.flatMap_assoc]
  congr 1
  funext a
  exact guards_errorEffects a.reply a.deleteGuard err

theorem guards_announce (staged : List (StagedTimelineAppend Nat Ref)) :
    (staged.flatMap announceEffects).flatMap Effect.guards = [] := by
  rw [List.flatMap_assoc]
  apply List.flatMap_eq_nil_iff.mpr
  intro a _
  obtain ⟨event, reply, guard⟩ := a
  cases reply <;> rfl

/-- The registry has another state for a run that is not being deleted. -/
theorem replace (h : Claimed s) {run : String} {r : RunRegistry}
    (htouches : Touches s.w.registry r run)
    (hnew : r.runs[run]?.map RunState.deleteState ≠ some .appendInFlight) :
    Claimed (s.replace run r) := by
  refine h.keep h.performed (fun other ↦ ?_) (fun _ ↦ rfl) (h.fresh_replace run r)
  rw [flag_replace htouches]
  split
  · next hother =>
    have hold : s.object other = none := by
      subst hother
      unfold object
      rw [if_neg (Nat.succ_ne_self _)]
      exact h.fresh _ (Nat.lt_succ_self _)
    rw [flag, hold]
    simpa using hnew
  · exact Iff.rfl

theorem record (h : Claimed s) (fromStr : String → Option Json) (event : TimelineEvent) :
    Claimed (s.replace event.runId (s.w.registry.record fromStr event)) := by
  apply h.replace (touches_record fromStr s.w.registry event)
  rw [RunRegistry.record, Std.ExtTreeMap.getElem?_insert_self, Option.map_some,
    RunState.fromSummary]
  split <;> simp

theorem nudge (h : Claimed s) {event : TimelineEvent} (hkind : event.kind ≠ "run_deleted")
    (run : Ref) : Claimed (s.modify run (·.applyEvent event)) :=
  h.keep (h.performed_modify run _) (fun other ↦ by rw [flag_applyEvent hkind])
    (fun other ↦ by rw [guards_modify]) (h.fresh_modify run _)

theorem finish (h : Claimed s) {first : StagedTimelineAppend Nat Ref}
    {rest : List (StagedTimelineAppend Nat Ref)}
    (hphase : s.phase.guards = first.guards ++ rest.flatMap StagedTimelineAppend.guards)
    (all : List (StagedTimelineAppend Nat Ref)) : Claimed (s.finish first rest all) := by
  let new : List (Effect Nat Ref) := first.deleteGuard.toList.map .guardCommitted
  have hdue : (s.finish first rest all).due = s.due ++ new := h.due_append rfl
  have hnew : new.flatMap Effect.guards = first.guards := by
    unfold new StagedTimelineAppend.guards
    cases first.deleteGuard <;> rfl
  refine h.keep (h.length_append rfl) (fun _ ↦ Iff.rfl) (fun run ↦ ?_) h.fresh
  have hrest : (s.finish first rest all).phase.guards = rest.flatMap StagedTimelineAppend.guards :=
    rfl
  rw [guards, guards, hdue, hrest, hphase, List.flatMap_append, hnew]
  simp only [List.count_append, System.finish]
  omega

theorem reorder (h : Claimed s) (order : List String) : Claimed (s.reorder order) :=
  h.keep h.performed (fun _ ↦ Iff.rfl) (fun _ ↦ rfl) h.fresh

theorem setPhase (h : Claimed s) {phase : Phase} (hphase : phase.guards = s.phase.guards) :
    Claimed { s with phase := phase } :=
  h.keep h.performed (fun _ ↦ Iff.rfl) (fun run ↦ by rw [guards, guards, hphase]; rfl) h.fresh

theorem due_eq_cons {effect : Effect Nat Ref} (heffect : s.w.effects[s.performed]? = some effect) :
    s.due = effect :: s.w.effects.drop (s.performed + 1) := by
  obtain ⟨hlt, heq⟩ := List.getElem?_eq_some_iff.mp heffect
  rw [due, List.drop_eq_getElem_cons hlt, heq]

theorem performed_lt {effect : Effect Nat Ref}
    (heffect : s.w.effects[s.performed]? = some effect) : s.performed < s.w.effects.length :=
  (List.getElem?_eq_some_iff.mp heffect).1

/-- An effect without a guard is performed. -/
theorem perform (h : Claimed s) {effect : Effect Nat Ref}
    (heffect : s.w.effects[s.performed]? = some effect) :
    Claimed { s.perform effect with performed := s.performed + 1 } := by
  have hdue := due_eq_cons heffect
  have hlt := performed_lt heffect
  have hpassed (hnone : effect.guards = []) :
      Claimed { s with performed := s.performed + 1 } := by
    refine h.keep hlt (fun _ ↦ Iff.rfl) (fun run ↦ ?_) h.fresh
    rw [guards, guards, hdue, List.flatMap_cons, hnone]
    rfl
  have hended (run : Ref) (hheld : effect.guards = [run]) (f : RunState → RunState)
      (flag : RunDelete) (hne : flag ≠ .appendInFlight)
      (hflag : s.flag run = some .appendInFlight → ∀ other,
        (s.modify run f).flag other = if other = run then some flag else s.flag other) :
      Claimed { s.modify run f with wake := some run, performed := s.performed + 1 } := by
    have hmem : run ∈ s.guards := by
      rw [guards, hdue, List.flatMap_cons, hheld]
      simp
    have hchange := hflag (h.flag_of_mem hmem)
    refine h.release run (by rw [effects_modify]; exact hlt) ?_ (fun other hother ↦ ?_) (fun other ↦ ?_)
      (h.fresh_modify run f)
    · show (s.modify run f).flag run ≠ _
      rw [hchange, if_pos rfl]
      simpa using hne
    · show (s.modify run f).flag other = _
      rw [hchange, if_neg hother]
    · have hguards : ({ s.modify run f with wake := some run, performed := s.performed + 1 } :
          System).guards = s.calls.flatMap (·.state.guards) ++ s.queue.flatMap commandGuards ++
            s.phase.guards ++ (s.w.effects.drop (s.performed + 1)).flatMap Effect.guards := by
        rw [← calls_modify run f, ← queue_modify run f, ← phase_modify run f,
          ← effects_modify run f]
        rfl
      rw [hguards, guards, hdue, List.flatMap_cons, hheld]
      simp only [List.count_append]
      omega
  cases effect with
  | replied id result =>
    have hnext := hpassed rfl
    show Claimed { s.deliver id result with performed := s.performed + 1 }
    unfold deliver
    split
    · next mode runId streamId kind payload hcall =>
      exact hnext.shift (s := { s with performed := s.performed + 1 }) hcall rfl
    · exact hnext
  | guardCommitted run => exact hended run rfl _ .deleted (by simp) flag_commitDeleteAppend
  | guardDropped run => exact hended run rfl _ .live (by simp) flag_rollbackDeleteAppend
  | failed | published | notified => exact hpassed rfl

theorem stage (h : Claimed s) {crc : Bytes → UInt32}
    {staged staged' : List (StagedTimelineAppend Nat Ref)} {bytes more : Nat}
    {command : TimelineCommand Nat Ref} {queue : List (TimelineCommand Nat Ref)} {phase : Phase}
    (hphase : s.phase = .gathering staged bytes more) (hqueue : s.queue = command :: queue)
    (a : Arrival Nat Ref) (ha : a.command = command)
    (hstaged : staged' = (s.w.stageCommand crc a staged bytes).2.1)
    (hnext : phase.guards = staged'.flatMap StagedTimelineAppend.guards) :
    Claimed { s with
      w := (s.w.stageCommand crc a staged bytes).1, queue := queue, phase := phase } := by
  obtain ⟨hregistry, notes, hnotes, hcases⟩ := stageCommand_cases crc s.w a staged bytes
  have hflag (run : Ref) : ({ s with
      w := (s.w.stageCommand crc a staged bytes).1, queue := queue, phase := phase } :
        System).flag run = s.flag run :=
    flag_mk s (congrArg RunRegistry.runs hregistry) run
  have hguard : commandGuards command = a.command.request.deleteGuard.toList := by rw [ha]; rfl
  have hold : s.phase.guards = staged.flatMap StagedTimelineAppend.guards := by rw [hphase]; rfl
  rcases hcases with ⟨hsame, err, heffects⟩ | ⟨hmore, heffects, -⟩
  · refine h.keep (h.length_append heffects) (fun run ↦ by rw [hflag]) (fun run ↦ ?_) h.fresh
    rw [guards, guards, due, h.due_append heffects]
    dsimp only
    rw [hnext, hstaged, hsame, hold, hqueue, List.flatMap_cons, hguard, List.flatMap_append,
      List.flatMap_append, guards_notes hnotes, guards_errorEffects]
    simp only [List.count_append, List.count_nil]
    omega
  · refine h.keep (h.length_append heffects) (fun run ↦ by rw [hflag]) (fun run ↦ ?_) h.fresh
    rw [guards, guards, due, h.due_append heffects]
    dsimp only
    rw [hnext, hstaged, hmore, hold, hqueue, List.flatMap_cons, hguard, List.flatMap_append,
      List.flatMap_append, guards_notes hnotes, List.flatMap_singleton]
    simp only [List.count_append, List.count_nil, StagedTimelineAppend.guards]
    omega

theorem writerMove {crc : Bytes → UInt32} {fromStr : String → Option Json} (h : Claimed s)
    (hmove : s.WriterMove crc fromStr s') : Claimed s' := by
  cases hmove with
  | @wake run hwake =>
    have hnotify := h.notify run
    exact hnotify.keep hnotify.performed (fun _ ↦ Iff.rfl) (fun _ ↦ rfl) hnotify.fresh
  | perform hwake heffect => exact h.perform heffect
  | rest hphase hqueue hidle => exact h.setPhase (by rw [hphase]; rfl)
  | skip hphase => exact h.setPhase (by rw [hphase]; rfl)
  | close hphase hstaged => exact h.setPhase (by rw [hphase]; rfl)
  | stage hphase hqueue halone a ha hw hstaged hnext hidle =>
    subst hw
    refine h.stage hphase hqueue a ha hstaged ?_
    rcases hnext with rfl | ⟨-, bytes, more, -, rfl⟩ <;> rfl
  | @unsynced staged hphase err wal hwal =>
    obtain ⟨hregistry, notes, hnotes, hwal⟩ := withWal_cases s.w wal s.w.file
    rw [Inv.foldl_failStaged]
    have heffects : ((s.w.withWal wal s.w.file).emit (staged.flatMap fun a ↦
        errorEffects a.reply a.deleteGuard err)).effects = s.w.effects ++
          (notes ++ staged.flatMap fun a ↦ errorEffects a.reply a.deleteGuard err) := by
      rw [TimelineWriter.emit, hwal, List.append_assoc]
    refine h.keep (h.length_append heffects) (fun run ↦ ?_) (fun run ↦ ?_) h.fresh
    · rw [flag_mk s]
      exact congrArg RunRegistry.runs hregistry
    · rw [guards, guards, due, h.due_append heffects, hphase, List.flatMap_append,
        List.flatMap_append, guards_notes hnotes, guards_errors]
      simp only [List.count_append, List.count_nil, Phase.guards, Phase.fresh, List.flatMap_nil]
      omega
  | synced hphase wal committedEnd hlive hwal hend =>
    refine h.keep h.performed (fun _ ↦ Iff.rfl) (fun run ↦ ?_) h.fresh
    rw [guards, guards, hphase]
    rfl
  | @publish all hphase =>
    rw [Inv.foldl_announce]
    have heffects : (s.w.publish.emit (all.flatMap announceEffects)).effects = s.w.effects ++
        ([.published s.w.nextSeq s.w.committedEnd] ++ all.flatMap announceEffects) := by
      simp [TimelineWriter.publish, TimelineWriter.emit]
    refine h.keep (h.length_append heffects) (fun _ ↦ Iff.rfl) (fun run ↦ ?_) h.fresh
    rw [guards, guards, due, h.due_append heffects, hphase, List.flatMap_append,
      List.flatMap_append, guards_announce]
    simp [Phase.guards, Phase.fresh, Effect.guards]
  | delete hphase hstructural =>
    exact (h.record fromStr _).setPhase (by show _ = s.phase.guards; rw [hphase]; rfl)
  | record hphase hstructural =>
    exact (h.record fromStr _).finish (by show s.phase.guards = _; rw [hphase]; rfl) _
  | nudge hphase hplain =>
    have hkind := fun hkind ↦ hplain (.inr (.inl hkind))
    exact (h.nudge hkind _).finish (by rw [phase_modify, hphase]; rfl) _
  | @evict first rest all oldest order hphase horder hdeleted =>
    refine h.replace (touches_removeDeleted s.w.registry oldest order) ?_
    have hgone : RunRegistry.removeDeleted s.w.registry.runs oldest =
        s.w.registry.runs.erase oldest := if_pos hdeleted
    dsimp only
    rw [hgone, Std.ExtTreeMap.getElem?_erase_self]
    simp
  | reorder hphase horder => exact h.reorder _
  | trimmed hphase order horder =>
    exact (h.reorder order).finish (by show s.phase.guards = _; rw [hphase]; rfl) _

/-- A call is entered. -/
theorem enter (h : Claimed s) (mode : Mode) (runId streamId kind payload : String) :
    Claimed { s with calls := s.calls ++ [Call.enter mode runId streamId kind payload] } := by
  refine h.keep h.performed (fun _ ↦ Iff.rfl) (fun run ↦ ?_) h.fresh
  simp only [guards, due, List.flatMap_append, List.flatMap_singleton, guards_enter,
    List.append_nil]

end Claimed

/-! ### Calls are well formed -/

variable {s' : System} {id : Nat}

/-- A change of the calls by position. -/
theorem mem_modify {α : Type} {l : List α} {i : Nat} {f : α → α} {a b : α} (ha : l[i]? = some a)
    (h : b ∈ l.modify i f) : b ∈ l ∨ b = f a := by
  obtain ⟨j, hj⟩ := List.mem_iff_getElem?.mp h
  rw [List.getElem?_modify] at hj
  split at hj
  · next hij =>
    rw [← hij, ha] at hj
    exact .inr (Option.some.inj hj).symm
  · exact .inl (List.mem_of_getElem? (by simpa using hj))

theorem mem_setCall {call call' : Call} {state : CallState} (hcall : s.calls[id]? = some call)
    (h : call' ∈ (s.setCall id state).calls) :
    call' ∈ s.calls ∨ call' = { call with state := state } := mem_modify hcall h

theorem wf_callMove (h : ∀ call ∈ s.calls, call.WF) (hmove : s.CallMove id s') :
    ∀ call ∈ s'.calls, call.WF := by
  have hset {t : System} (hcalls : ∀ call ∈ t.calls, call.WF) {call : Call} {state : CallState}
      (hcall : t.calls[id]? = some call) (hnew : { call with state := state : Call }.WF) :
      ∀ call ∈ (t.setCall id state).calls, call.WF := by
    intro call' hmem
    rcases mem_setCall hcall hmem with hold | rfl
    · exact hcalls call' hold
    · exact hnew
  cases hmove with
  | stay => exact h
  | shift hcall hshift => exact hset h hcall (hshift.wf (h _ (List.mem_of_getElem? hcall)))
  | @claim call run hcall hstate hlive =>
    have hwf := h call (List.mem_of_getElem? hcall)
    have hdeletes := hwf.deletes (.inr (by rw [hstate]; rfl))
    apply hset (t := s.modify run _) (by rw [calls_modify]; exact h) (by rw [calls_modify]; exact hcall)
    have hrun := hwf.run
    rw [hstate] at hrun
    exact ⟨fun _ ↦ hdeletes, hrun, fun _ hdetached ↦ absurd hdetached hdeletes.2⟩
  | @send call guard hcall hstate =>
    apply hset (t := { s with queue := s.queue ++ [call.command id guard] }) h hcall
    unfold sent
    split <;> exact ⟨by simp [CallState.pointer], by simp [CallState.pointer],
      by simp [CallState.Requests]⟩
  | @withdraw call run err hcall hstate =>
    have hwf := h call (List.mem_of_getElem? hcall)
    apply hset (t := s.modify run _) (by rw [calls_modify]; exact h) (by rw [calls_modify]; exact hcall)
    apply hwf.keep (by simp) _ (by simp [CallState.Requests])
    rw [hstate]
    exact fun _ hrun ↦ hrun
  | @wake call run err hcall hstate =>
    have hnotified : ∀ call ∈ (s.notify run).calls, call.WF := by
      intro call' hmem
      obtain ⟨old, hold, rfl⟩ := List.mem_map.mp hmem
      exact (h old hold).wake run
    have hcall' : (s.notify run).calls[id]? = some (call.wake run) := by
      rw [notify_calls, List.getElem?_map, hcall]
      rfl
    apply hset hnotified hcall'
    exact ⟨by simp [CallState.pointer], by simp [CallState.pointer], by simp [CallState.Requests]⟩

end System

end Vidarax.Commit
