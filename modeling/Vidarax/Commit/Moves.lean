import Vidarax.Commit.Deletion

/-!
# Moves of callers and of the writer

What each step can do, said once: a call moves on by itself, claims a deletion, sends its command,
withdraws its claim or wakes those who wait for it, and the writer performs an effect, stages a
command, ends a batch, or applies an event.
-/

namespace Vidarax.Commit

open Vidarax.Base Vidarax.Timeline Vidarax.Runs

namespace System

variable (s : System)

/-! ### Calls -/

/-- A call moves on by itself. -/
inductive Shift (call : Call) : CallState → CallState → Prop where
  | missing (h : s.entry call.runId = none) : Shift call .looking (.building none)
  | found {run : Ref} (h : s.entry call.runId = some run) : Shift call .looking (.claiming run)
  | already {run : Ref} (h : s.flag run = some .deleted) :
    Shift call (.claiming run) (.returned (.ok none))
  | spin {run : Ref} : Shift call (.claiming run) (.spinning run)
  | spun {run : Ref} : Shift call (.spinning run) .looking
  | listen {run : Ref} : Shift call (.claiming run) (.listening run)
  | listening {run : Ref} : Shift call (.listening run) (.loading run false)
  | sleep {run : Ref} {woken : Bool} (h : s.flag run = some .appendInFlight) :
    Shift call (.loading run woken) (.awaiting run woken)
  | loaded {run : Ref} {woken : Bool} : Shift call (.loading run woken) .looking
  | woken {run : Ref} : Shift call (.awaiting run true) (.listening run)
  | built {guard : Option Ref} : Shift call (.building guard) (.checking guard)
  | ready {guard : Option Ref} : Shift call (.building guard) (.sending guard)
  | checked {guard : Option Ref} : Shift call (.checking guard) (.sending guard)
  | refused {guard : Option Ref} (err : String) :
    Shift call (.building guard) (Call.failed guard err)
  | late {guard : Option Ref} (err : String) : Shift call (.checking guard) (Call.failed guard err)
  | full {guard : Option Ref} (err : String) : Shift call (.sending guard) (Call.failed guard err)
  | unbuilt {guard : Option Ref} (h : call.mode = .detached) :
    Shift call (.building guard) (.returned (.ok none))
  | unsent {guard : Option Ref} (h : call.mode = .detached) :
    Shift call (.sending guard) (.returned (.ok none))
  | abandoned {run : Ref} {woken : Bool} : Shift call (.awaiting run woken) .cancelled
  | cancelled : Shift call .waiting .cancelled

/-- The state of a call whose command is in the queue. -/
def sent (call : Call) : CallState :=
  if call.mode = .detached then .returned (.ok none) else .waiting

/-- What a step of a call can do. -/
inductive CallMove (id : Nat) : System → Prop where
  | stay : CallMove id s
  | shift {call : Call} {state : CallState} (hcall : s.calls[id]? = some call)
    (hshift : s.Shift call call.state state) : CallMove id (s.setCall id state)
  | claim {call : Call} {run : Ref} (hcall : s.calls[id]? = some call)
    (hstate : call.state = .claiming run) (hlive : s.flag run = some .live) :
    CallMove id ((s.modify run RunState.beginDeleteAppend).setCall id (.building (some run)))
  | send {call : Call} {guard : Option Ref} (hcall : s.calls[id]? = some call)
    (hstate : call.state = .sending guard) :
    CallMove id ({ s with queue := s.queue ++ [call.command id guard] }.setCall id (sent call))
  | withdraw {call : Call} {run : Ref} {err : String} (hcall : s.calls[id]? = some call)
    (hstate : call.state = .dropping run err) :
    CallMove id ((s.modify run RunState.rollbackDeleteAppend).setCall id (.waking run err))
  | wake {call : Call} {run : Ref} {err : String} (hcall : s.calls[id]? = some call)
    (hstate : call.state = .waking run err) :
    CallMove id ((s.notify run).setCall id (.returned (.error err)))

variable {s}

theorem callMove_callStep (id : Nat) (refused : Option String) :
    s.CallMove id (s.callStep id refused) := by
  unfold callStep
  split
  · exact .stay
  · next call hcall =>
    have hshift {start state : CallState} (hstart : call.state = start)
        (h : s.Shift call start state) : s.CallMove id (s.setCall id state) :=
      .shift hcall (hstart ▸ h)
    split
    · next hstate =>
      split
      · next hentry => exact hshift hstate (.missing hentry)
      · next run hentry => exact hshift hstate (.found hentry)
    · next run hstate =>
      split
      · next hlive => exact .claim hcall hstate hlive
      · split
        · next hdeleted => exact hshift hstate (.already hdeleted)
        · split
          · exact hshift hstate .listen
          · exact hshift hstate .spin
    · next run hstate =>
      split
      · exact .stay
      · exact hshift hstate .spun
    · next run hstate => exact hshift hstate .listening
    · next run woken hstate =>
      split
      · next hclaimed => exact hshift hstate (.sleep hclaimed)
      · exact hshift hstate .loaded
    · next run woken hstate =>
      split
      · next hwoken => exact hshift hstate (by rw [hwoken]; exact .woken)
      · exact .stay
    · next guard hstate =>
      split
      · next err =>
        split
        · next hfull => exact hshift hstate (.unbuilt hfull.1)
        · exact hshift hstate (.refused err)
      · split
        · exact hshift hstate .built
        · exact hshift hstate .ready
    · next guard hstate =>
      split
      · exact hshift hstate (.late _)
      · exact hshift hstate .checked
    · next guard hstate =>
      split
      · split
        · next hdetached => exact hshift hstate (.unsent hdetached)
        · exact hshift hstate (.full _)
      · exact .send hcall hstate
    · next run err hstate => exact .withdraw hcall hstate
    · next run err hstate => exact .wake hcall hstate
    all_goals exact .stay

theorem callMove_cancel (id : Nat) : s.CallMove id (s.cancel id) := by
  unfold cancel
  split
  · next hcall => exact .shift hcall .abandoned
  · next hcall => exact .shift hcall .cancelled
  · exact .stay

/-! ### Commands -/

/-- Effects by which the writer notes, once at most, that its log is poisoned. -/
def Notes (effects : List (Effect Nat Ref)) : Prop :=
  effects.length ≤ 1 ∧ ∀ effect ∈ effects, effect = .failed

theorem withWal_cases (w : TimelineWriter Nat Ref) (wal : WalWriter) (file : Bytes) :
    (w.withWal wal file).registry = w.registry ∧
      ∃ notes, Notes notes ∧ (w.withWal wal file).effects = w.effects ++ notes := by
  rw [TimelineWriter.withWal]
  split
  · exact ⟨rfl, [.failed], by simp [Notes], rfl⟩
  · exact ⟨rfl, [], by simp [Notes], (List.append_nil _).symm⟩

/-- What staging a command can do: nothing but an answer with an error, or to append its event to
the batch. -/
theorem stageCommand_cases (crc : Bytes → UInt32) (w : TimelineWriter Nat Ref)
    (a : Arrival Nat Ref) (staged : List (StagedTimelineAppend Nat Ref)) (bytes : Nat) :
    (w.stageCommand crc a staged bytes).1.registry = w.registry ∧
      ∃ notes, Notes notes ∧
        (((w.stageCommand crc a staged bytes).2.1 = staged ∧ ∃ err,
            (w.stageCommand crc a staged bytes).1.effects = w.effects ++
              (notes ++ errorEffects a.command.reply a.command.request.deleteGuard err)) ∨
          (w.stageCommand crc a staged bytes).2.1 = staged ++ [⟨w.eventFor a staged.length,
              a.command.reply, a.command.request.deleteGuard⟩] ∧
            (w.stageCommand crc a staged bytes).1.effects = w.effects ++ notes ∧
            (a.command.request.kind ≠ "run_deleted" →
              w.isDeleted a.command.request.runId = false)) := by
  rw [TimelineWriter.stageCommand]
  dsimp only
  split
  · exact ⟨rfl, [], by simp [Notes], .inl ⟨rfl, _, rfl⟩⟩
  · next hlive =>
    split
    · exact ⟨rfl, [], by simp [Notes], .inl ⟨rfl, _, rfl⟩⟩
    · split
      · next written wal file hstage =>
        obtain ⟨hregistry, notes, hnotes, heffects⟩ := withWal_cases w wal file
        refine ⟨hregistry, notes, hnotes, .inr ⟨rfl, heffects, fun hkind ↦ ?_⟩⟩
        simpa [hkind] using hlive
      · next err wal file hstage =>
        obtain ⟨hregistry, notes, hnotes, heffects⟩ := withWal_cases w wal file
        refine ⟨hregistry, notes, hnotes, .inl ⟨rfl, err.display, ?_⟩⟩
        rw [TimelineWriter.sendStageError, TimelineWriter.emit, heffects, List.append_assoc]

/-! ### The writer -/

/-- The queue of deleted runs is rotated. -/
def reorder (s : System) (order : List String) : System :=
  { s with w := { s.w with registry := { s.w.registry with deletedRunOrder := order } } }

/-- A deleted run is forgotten. -/
def forget (s : System) (oldest : String) (order : List String) : System :=
  s.replace oldest { s.w.registry with
    deletedRunOrder := order, runs := RunRegistry.removeDeleted s.w.registry.runs oldest }

variable (s) in
/-- What a step of the writer can do. -/
inductive WriterMove (crc : Bytes → UInt32) (fromStr : String → Option Json) : System → Prop where
  | wake {run : Ref} (hwake : s.wake = some run) :
    WriterMove crc fromStr { s.notify run with wake := none }
  | perform {effect : Effect Nat Ref} (hwake : s.wake = none)
    (heffect : s.w.effects[s.performed]? = some effect) :
    WriterMove crc fromStr { s.perform effect with performed := s.performed + 1 }
  | rest {bytes more : Nat} (hphase : s.phase = .gathering [] bytes more) (hqueue : s.queue = [])
    (hidle : s.w.effects[s.performed]? = none) : WriterMove crc fromStr { s with phase := .fresh }
  | skip (hphase : s.phase = .syncing []) : WriterMove crc fromStr { s with phase := .fresh }
  | close {staged : List (StagedTimelineAppend Nat Ref)} {bytes more : Nat}
    (hphase : s.phase = .gathering staged bytes more) (hstaged : staged ≠ []) :
    WriterMove crc fromStr { s with phase := .syncing staged }
  | stage {staged staged' : List (StagedTimelineAppend Nat Ref)} {bytes more : Nat}
    {command : TimelineCommand Nat Ref} {queue : List (TimelineCommand Nat Ref)}
    {w : TimelineWriter Nat Ref} {phase : Phase}
    (hphase : s.phase = .gathering staged bytes more) (hqueue : s.queue = command :: queue)
    (halone : command.isDelete = true → staged = []) (a : Arrival Nat Ref)
    (ha : a.command = command) (hw : w = (s.w.stageCommand crc a staged bytes).1)
    (hstaged : staged' = (s.w.stageCommand crc a staged bytes).2.1)
    (hnext : phase = .syncing staged' ∨ command.isDelete = false ∧
      ∃ bytes more', more' < more ∧ phase = .gathering staged' bytes more')
    (hidle : s.w.effects[s.performed]? = none) :
    WriterMove crc fromStr { s with w := w, queue := queue, phase := phase }
  | unsynced {staged : List (StagedTimelineAppend Nat Ref)} (hphase : s.phase = .syncing staged)
    (err : String) (wal : WalWriter) (hwal : wal = { s.w.wal with poisoned := true }) :
    WriterMove crc fromStr { s with
      w := staged.foldl (TimelineWriter.failStaged err) (s.w.withWal wal s.w.file)
      phase := .fresh }
  | synced {staged : List (StagedTimelineAppend Nat Ref)} (hphase : s.phase = .syncing staged)
    (wal : WalWriter) (committedEnd : Nat) (hlive : s.w.wal.poisoned = false)
    (hwal : wal = { s.w.wal with committedEnd := s.w.wal.pendingEnd })
    (hend : committedEnd = s.w.wal.pendingEnd) :
    WriterMove crc fromStr { s with
      w := { s.w with wal := wal, committedEnd := committedEnd }
      committed := s.committed ++ events staged
      phase := .applying staged staged }
  | publish {all : List (StagedTimelineAppend Nat Ref)} (hphase : s.phase = .applying [] all) :
    WriterMove crc fromStr
      { s with w := all.foldl TimelineWriter.announce s.w.publish, phase := .fresh }
  | delete {first : StagedTimelineAppend Nat Ref} {rest all : List (StagedTimelineAppend Nat Ref)}
    (hphase : s.phase = .applying (first :: rest) all) (hstructural : s.Structural first.event) :
    WriterMove crc fromStr
      { s.replace first.event.runId (s.w.registry.record fromStr first.event) with
        phase := .trimming first rest all }
  | record {first : StagedTimelineAppend Nat Ref} {rest all : List (StagedTimelineAppend Nat Ref)}
    (hphase : s.phase = .applying (first :: rest) all) (hstructural : s.Structural first.event) :
    WriterMove crc fromStr
      ((s.replace first.event.runId (s.w.registry.record fromStr first.event)).finish first rest
        all)
  | nudge {first : StagedTimelineAppend Nat Ref} {rest all : List (StagedTimelineAppend Nat Ref)}
    (hphase : s.phase = .applying (first :: rest) all) (hplain : ¬ s.Structural first.event) :
    WriterMove crc fromStr
      ((s.modify ⟨first.event.runId, s.generation first.event.runId⟩
        (·.applyEvent first.event)).finish first rest all)
  | evict {first : StagedTimelineAppend Nat Ref} {rest all : List (StagedTimelineAppend Nat Ref)}
    {oldest : String} {order : List String} (hphase : s.phase = .trimming first rest all)
    (horder : order.length < s.w.registry.deletedRunOrder.length)
    (hdeleted : s.w.isDeleted oldest = true) : WriterMove crc fromStr (s.forget oldest order)
  | reorder {first : StagedTimelineAppend Nat Ref}
    {rest all : List (StagedTimelineAppend Nat Ref)} {order : List String}
    (hphase : s.phase = .trimming first rest all)
    (horder : order.length < s.w.registry.deletedRunOrder.length) :
    WriterMove crc fromStr (s.reorder order)
  | trimmed {first : StagedTimelineAppend Nat Ref} {rest all : List (StagedTimelineAppend Nat Ref)}
    (hphase : s.phase = .trimming first rest all) (order : List String)
    (horder : order.length ≤ s.w.registry.deletedRunOrder.length) :
    WriterMove crc fromStr ((s.reorder order).finish first rest all)

variable (crc : Bytes → UInt32) (fromStr : String → Option Json)

theorem writerMove_gather {staged : List (StagedTimelineAppend Nat Ref)} {bytes more : Nat}
    (hphase : s.phase = .gathering staged bytes more) (hidle : s.w.effects[s.performed]? = none)
    (i : WriterInput) : s.WriterMove crc fromStr (s.gather crc staged bytes more i) := by
  unfold gather
  split
  · next hqueue =>
    split
    · next hstaged =>
      rw [hstaged] at hphase
      exact .rest hphase hqueue hidle
    · next hstaged => exact .close hphase hstaged
  · next command rest hqueue =>
    split
    · next hdelete => exact .close hphase hdelete.2
    · next halone =>
      refine .stage hphase hqueue (fun hdelete ↦ ?_) _ rfl rfl rfl ?_ hidle
      · by_contra hstaged
        exact halone ⟨hdelete, hstaged⟩
      · split
        · exact .inl rfl
        · next hmore =>
          simp only [not_or, Bool.not_eq_true] at hmore
          exact .inr ⟨hmore.1, _, more - 1, by omega, rfl⟩

theorem writerMove_sync {staged : List (StagedTimelineAppend Nat Ref)}
    (hphase : s.phase = .syncing staged) (i : WriterInput) :
    s.WriterMove crc fromStr (s.sync staged i) := by
  unfold sync
  split
  · next hstaged =>
    rw [hstaged] at hphase
    exact .skip hphase
  · split
    · next err wal hsync => exact .unsynced hphase err.display wal (syncPending_error hsync)
    · next wal hsync =>
      obtain ⟨hlive, hwal⟩ := syncPending_ok hsync
      exact .synced hphase wal _ hlive hwal (congrArg WalWriter.committedEnd hwal)

theorem writerMove_applyFirst {first : StagedTimelineAppend Nat Ref}
    {rest all : List (StagedTimelineAppend Nat Ref)}
    (hphase : s.phase = .applying (first :: rest) all) :
    s.WriterMove crc fromStr (s.applyFirst fromStr first rest all) := by
  unfold applyFirst
  dsimp only
  split
  · next hstructural =>
    split
    · exact .delete hphase hstructural
    · exact .record hphase hstructural
  · next hplain => exact .nudge hphase hplain

theorem writerMove_trimOne {first : StagedTimelineAppend Nat Ref}
    {rest all : List (StagedTimelineAppend Nat Ref)}
    (hphase : s.phase = .trimming first rest all) (i : WriterInput) :
    s.WriterMove crc fromStr (s.trimOne first rest all i) := by
  unfold trimOne
  dsimp only
  split
  · exact .trimmed hphase s.w.registry.deletedRunOrder (Nat.le_refl _)
  · split
    · next order look hpass =>
      apply WriterMove.trimmed hphase order
      rcases RunRegistry.evictPass_spec i.isProtected 0 s.w.registry.deletedRunOrder [] with
        ⟨-, horder, -⟩ | ⟨skipped, oldest, rest, n, -, -, hsome, -⟩
      · rw [hpass] at horder
        exact Nat.le_of_eq (congrArg List.length horder)
      · rw [hpass] at hsome
        cases hsome
    · next oldest order look hpass =>
      have horder : order.length < s.w.registry.deletedRunOrder.length := by
        rw [← RunRegistry.length_evictPass hpass]
        exact Nat.lt_succ_self _
      split
      · next hdeleted => exact .evict hphase horder hdeleted
      · next hlive =>
        have hruns : RunRegistry.removeDeleted s.w.registry.runs oldest = s.w.registry.runs := by
          rw [RunRegistry.removeDeleted]
          exact if_neg hlive
        rw [hruns]
        exact .reorder hphase horder

theorem writerMove_writerStep (i : WriterInput) :
    s.WriterMove crc fromStr (s.writerStep crc fromStr i) := by
  unfold writerStep
  split
  · next run hwake => exact .wake hwake
  · next hwake =>
    split
    · next effect heffect => exact .perform hwake heffect
    · next hidle =>
      split
      · next staged bytes more hphase => exact writerMove_gather crc fromStr hphase hidle i
      · next staged hphase => exact writerMove_sync crc fromStr hphase i
      · next all hphase => exact .publish hphase
      · next first rest all hphase => exact writerMove_applyFirst crc fromStr hphase
      · next first rest all hphase => exact writerMove_trimOne crc fromStr hphase i

end System

end Vidarax.Commit
