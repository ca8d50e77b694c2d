import Vidarax.Commit.Changes

/-!
# The log that runs of the system leave

Whatever callers and the writer do, the file begins with the records of the committed events, which
are numbered on from the stored ones, and subscribers are notified of the committed events in order.
File, committed events and notifications only grow at their ends.
-/

namespace Vidarax.Commit

open Vidarax.Base Vidarax.Timeline Vidarax.Runs

variable {Reply Guard : Type}

/-- The log of a writer that was started on some events and has committed others. Behind these it
has staged appends that are not synced, and some committed ones are not finished or not announced. -/
structure Logged (crc : Bytes → UInt32) (stored committed : List TimelineEvent)
    (unsynced unfinished unannounced : List (StagedTimelineAppend Reply Guard))
    (w : TimelineWriter Reply Guard) : Prop where
  disk : ∃ records : List (LogRecord crc), LogRecord.events records = stored ++ committed ∧
    w.wal.committedEnd = (LogRecord.content records).length ∧
    LogRecord.content records <+: w.file ∧
    (w.wal.poisoned = false → w.wal.pendingEnd = w.file.length ∧
      w.file = LogRecord.content records ++ ((events unsynced).map (stagedLine crc)).flatten)
  shared : w.committedEnd = w.wal.committedEnd
  sequenced : Sequenced 1 (stored ++ committed ++ events unsynced)
  fits : ∀ e ∈ events unsynced, e.body.length ≤ MAX_RECORD_BYTES
  next : ∃ applied, stored ++ committed = applied ++ events unfinished ∧
    w.nextSeq.toNat = applied.length
  notified : notifiedOf w.effects ++ events unannounced = committed

/-- The writers have the same log and effects. -/
structure SameLog (w w' : TimelineWriter Reply Guard) : Prop where
  wal : w'.wal = w.wal
  file : w'.file = w.file
  committedEnd : w'.committedEnd = w.committedEnd
  nextSeq : w'.nextSeq = w.nextSeq
  effects : w'.effects = w.effects

theorem SameLog.refl (w : TimelineWriter Reply Guard) : SameLog w w := ⟨rfl, rfl, rfl, rfl, rfl⟩

namespace Logged

variable {crc : Bytes → UInt32} {stored committed : List TimelineEvent}
  {unsynced unfinished unannounced : List (StagedTimelineAppend Reply Guard)}
  {w w' : TimelineWriter Reply Guard}

theorem congr (h : Logged crc stored committed unsynced unfinished unannounced w)
    (hsame : SameLog w w') : Logged crc stored committed unsynced unfinished unannounced w' := by
  obtain ⟨hwal, hfile, hend, hnext, heffects⟩ := hsame
  constructor
  · rw [hwal, hfile]
    exact h.disk
  · rw [hend, hwal]
    exact h.shared
  · exact h.sequenced
  · exact h.fits
  · rw [hnext]
    exact h.next
  · rw [heffects]
    exact h.notified

/-- Effects other than notifications do not matter. -/
theorem emit (h : Logged crc stored committed unsynced unfinished unannounced w)
    {more : List (Effect Reply Guard)} (hmore : notifiedOf more = []) :
    Logged crc stored committed unsynced unfinished unannounced (w.emit more) := by
  refine ⟨h.disk, h.shared, h.sequenced, h.fits, h.next, ?_⟩
  show notifiedOf (w.effects ++ more) ++ _ = _
  rw [notifiedOf_append, hmore, List.append_nil]
  exact h.notified

/-- A log operation fails, perhaps behind a part of a line. -/
theorem poison (h : Logged crc stored committed unsynced unfinished unannounced w) (part : Bytes) :
    Logged crc stored committed unsynced unfinished unannounced
      (w.withWal { w.wal with poisoned := true } (w.file ++ part)) := by
  obtain ⟨records, hevents, hend, hfront, -⟩ := h.disk
  have hpoisoned : Logged crc stored committed unsynced unfinished unannounced
      { w with wal := { w.wal with poisoned := true }, file := w.file ++ part } := by
    refine ⟨⟨records, hevents, hend, hfront.trans (List.prefix_append _ _), fun hlive ↦ ?_⟩,
      h.shared, h.sequenced, h.fits, h.next, h.notified⟩
    cases hlive
  rw [TimelineWriter.withWal]
  split
  · exact hpoisoned.emit rfl
  · exact hpoisoned

/-- A poisoned writer gives its batch up. -/
theorem drop (h : Logged crc stored committed unsynced unfinished unannounced w)
    (hpoisoned : w.wal.poisoned = true) :
    Logged crc stored committed [] unfinished unannounced w := by
  obtain ⟨records, hevents, hend, hfront, -⟩ := h.disk
  refine ⟨⟨records, hevents, hend, hfront, fun hlive ↦ ?_⟩, h.shared, ?_, ?_, h.next, h.notified⟩
  · rw [hpoisoned] at hlive
    cases hlive
  · show Sequenced 1 (stored ++ committed ++ [])
    rw [List.append_nil]
    exact (numbered_append.mp h.sequenced).1
  · exact fun _ he ↦ absurd he List.not_mem_nil

/-- The number of the last committed event, where nothing is left to finish. -/
theorem nextSeq_eq (h : Logged crc stored committed unsynced [] unannounced w) :
    w.nextSeq.toNat = (stored ++ committed).length := by
  obtain ⟨applied, hall, hnext⟩ := h.next
  rw [hnext, hall]
  exact congrArg List.length (List.append_nil applied).symm

/-- An event is staged. -/
theorem stage (h : Logged crc stored committed unsynced [] unannounced w)
    {a : StagedTimelineAppend Reply Guard} {outcome : WriteOutcome} {written : Nat}
    {wal : WalWriter} {file : Bytes}
    (hstage : w.wal.stage crc w.file a.event outcome = (.ok written, wal, file))
    (hseq : a.event.seq.toNat = w.nextSeq.toNat + (unsynced.length + 1)) :
    Logged crc stored committed (unsynced ++ [a]) [] unannounced (w.withWal wal file) := by
  have haccepts : w.wal.Accepts crc a.event := by
    by_contra hnot
    obtain ⟨error, hw⟩ := WalWriter.stage_of_not_accepts hnot w.file outcome
    rw [hstage] at hw
    cases hw
  have hmore : events (unsynced ++ [a]) = events unsynced ++ [a.event] := List.map_append
  cases outcome with
  | failed written message =>
    rw [WalWriter.stage_failed haccepts] at hstage
    cases hstage
  | done =>
    rw [WalWriter.stage_done haccepts, Prod.mk.injEq, Prod.mk.injEq] at hstage
    obtain ⟨-, rfl, rfl⟩ := hstage
    obtain ⟨records, hevents, hend, hfront, hfile⟩ := h.disk
    obtain ⟨hpending, hcontent⟩ := hfile haccepts.1
    rw [TimelineWriter.withWal, if_neg fun hboth ↦ hboth.2 hboth.1]
    refine ⟨⟨records, hevents, hend, hfront.trans (List.prefix_append _ _), fun _ ↦ ⟨?_, ?_⟩⟩,
      h.shared, ?_, ?_, h.next, h.notified⟩
    · dsimp only
      rw [hpending, List.length_append]
    · rw [hmore, List.map_append, List.flatten_append, ← List.append_assoc, ← hcontent]
      simp
    · rw [hmore, ← List.append_assoc]
      apply Inv.sequenced_concat h.sequenced
      rw [hseq, h.nextSeq_eq]
      simp only [List.length_append, events, List.length_map]
      omega
    · rw [hmore]
      intro e he
      rcases List.mem_append.mp he with hold | hnew
      · exact h.fits e hold
      · rw [List.mem_singleton.mp hnew]
        exact haccepts.2.1

/-- Staging fails. -/
theorem stageFailed (h : Logged crc stored committed unsynced unfinished unannounced w)
    {e : TimelineEvent} {outcome : WriteOutcome} {err : TimelineError} {wal : WalWriter}
    {file : Bytes} (hstage : w.wal.stage crc w.file e outcome = (.error err, wal, file)) :
    Logged crc stored committed unsynced unfinished unannounced (w.withWal wal file) := by
  rcases Inv.stage_error hstage with ⟨rfl, rfl⟩ | ⟨part, rfl, rfl⟩
  · rw [TimelineWriter.withWal, if_neg fun hboth ↦ hboth.2 hboth.1]
    exact h
  · exact h.poison part

theorem notifiedOf_errorEffects (reply : Option Reply) (guard : Option Guard) (err : String) :
    notifiedOf (errorEffects reply guard err) = [] :=
  Inv.notifiedOf_errors Inv.isError_of_mem

/-- A command is staged or rejected. -/
theorem stageCommand (h : Logged crc stored committed unsynced [] unannounced w)
    (a : Arrival Reply Guard) (bytes : Nat) :
    Logged crc stored committed (w.stageCommand crc a unsynced bytes).2.1 [] unannounced
      (w.stageCommand crc a unsynced bytes).1 := by
  rw [TimelineWriter.stageCommand]
  dsimp only
  split
  · exact h.emit (notifiedOf_errorEffects _ _ _)
  · split
    · exact h.emit (notifiedOf_errorEffects _ _ _)
    · next hroom =>
      split
      · next written wal file hstage =>
        exact h.stage hstage (Inv.seq_eventFor (Nat.le_of_not_lt hroom))
      · next err wal file hstage => exact (h.stageFailed hstage).emit (notifiedOf_errorEffects _ _ _)

/-- The batch is synced. -/
theorem sync (h : Logged crc stored committed unsynced [] [] w) (hlive : w.wal.poisoned = false) :
    Logged crc stored (committed ++ events unsynced) [] unsynced unsynced
      { w with
        wal := { w.wal with committedEnd := w.wal.pendingEnd }
        committedEnd := w.wal.pendingEnd } := by
  obtain ⟨records, hevents, hend, hfront, hfile⟩ := h.disk
  obtain ⟨hpending, hcontent⟩ := hfile hlive
  obtain ⟨batch, hbatch, hlines⟩ := exists_staged_records crc h.fits
  have hnew : LogRecord.content (records ++ batch) = w.file := by
    rw [LogRecord.content_append, hlines, ← hcontent]
  refine ⟨⟨records ++ batch, ?_, ?_, ?_, fun _ ↦ ⟨hpending, ?_⟩⟩, rfl, ?_, ?_,
    ⟨stored ++ committed, ?_, h.nextSeq_eq⟩, ?_⟩
  · rw [LogRecord.events_append, hevents, hbatch, List.append_assoc]
  · rw [hnew]
    exact hpending
  · rw [hnew]
  · rw [hnew]
    exact (List.append_nil _).symm
  · show Sequenced 1 (stored ++ (committed ++ events unsynced) ++ [])
    rw [List.append_nil, ← List.append_assoc]
    exact h.sequenced
  · exact fun _ he ↦ absurd he List.not_mem_nil
  · rw [List.append_assoc]
  · have hnotified := h.notified
    rw [show events ([] : List (StagedTimelineAppend Reply Guard)) = [] from rfl,
      List.append_nil] at hnotified
    rw [hnotified]

/-- The first of the unfinished appends is finished. -/
theorem finish {first : StagedTimelineAppend Reply Guard}
    (h : Logged crc stored committed [] (first :: unfinished) unannounced w)
    (hsame : SameLog { w with nextSeq := first.event.seq } w') :
    Logged crc stored committed [] unfinished unannounced w' := by
  obtain ⟨applied, hall, hnext⟩ := h.next
  have hseq : first.event.seq.toNat = (applied ++ [first.event]).length := by
    have hsequenced : Sequenced 1 (applied ++ [first.event] ++ events unfinished) := by
      have hfront := (numbered_append.mp h.sequenced).1
      rw [hall] at hfront
      rw [List.append_assoc]
      exact hfront
    rw [(Sequenced.concat (numbered_append.mp hsequenced).1).2, List.length_append,
      List.length_singleton, Nat.add_comm]
  refine congr (w := { w with nextSeq := first.event.seq }) ?_ hsame
  refine ⟨h.disk, h.shared, h.sequenced, h.fits, ⟨applied ++ [first.event], ?_, hseq⟩, h.notified⟩
  rw [hall, List.append_assoc]
  rfl

/-- The batch is published. -/
theorem publish (h : Logged crc stored committed [] [] unannounced w) :
    Logged crc stored committed [] [] []
      (unannounced.foldl TimelineWriter.announce w.publish) := by
  refine ⟨?_, ?_, h.sequenced, h.fits, ?_, ?_⟩
  all_goals rw [Inv.foldl_announce]
  · exact h.disk
  · exact h.shared
  · exact h.next
  · show notifiedOf (w.effects ++ [_] ++ unannounced.flatMap announceEffects) ++ [] = _
    rw [List.append_nil, notifiedOf_append, notifiedOf_append, Inv.notifiedOf_announce,
      ← h.notified]
    exact congrArg (· ++ _) (List.append_nil _)

end Logged

namespace System

variable {s s' : System} {id : Nat} {crc : Bytes → UInt32} {fromStr : String → Option Json}
  {stored : List TimelineEvent}

/-! ### Steps -/

/-- The log of the system. -/
def Logged (crc : Bytes → UInt32) (stored : List TimelineEvent) (s : System) : Prop :=
  Commit.Logged crc stored s.committed s.phase.unsynced s.phase.unfinished s.phase.unannounced s.w

/-- Notifications that were sent. -/
def notified (s : System) : List TimelineEvent := notifiedOf (s.w.effects.take s.performed)

/-- The system has grown at the ends of what it keeps. -/
structure Grows (s s' : System) : Prop where
  file : s.w.file <+: s'.w.file
  effects : s.w.effects <+: s'.w.effects
  performed : s.performed ≤ s'.performed
  committed : s.committed <+: s'.committed

theorem Grows.notified (h : Grows s s') : s.notified <+: s'.notified := by
  obtain ⟨more, hmore⟩ := h.effects
  apply List.IsPrefix.filterMap
  rw [← hmore, List.take_append]
  exact (List.take_prefix_take_left h.performed).trans (List.prefix_append _ _)

/-- A step that leaves the log and what is performed of the effects alone. -/
theorem Grows.of_same (hsame : SameLog s.w s'.w) (hperformed : s.performed ≤ s'.performed)
    (hcommitted : s'.committed = s.committed) : Grows s s' := by
  refine ⟨?_, ?_, hperformed, ?_⟩
  · rw [hsame.file]
  · rw [hsame.effects]
  · rw [hcommitted]

/-- The notifications that were sent are some of the first committed events. -/
theorem Logged.notified_front (h : Logged crc stored s) : s.notified <+: s.committed := by
  rw [← h.notified]
  exact ((List.take_prefix _ _).filterMap _).trans (List.prefix_append _ _)

theorem sameLog_modify (run : Ref) (f : RunState → RunState) : SameLog s.w (s.modify run f).w := by
  unfold modify
  split <;> exact ⟨rfl, rfl, rfl, rfl, rfl⟩

theorem sameLog_perform (effect : Effect Nat Ref) : SameLog s.w (s.perform effect).w := by
  cases effect with
  | replied id result =>
    show SameLog s.w (s.deliver id result).w
    unfold deliver
    split <;> exact .refl _
  | guardCommitted run => exact sameLog_modify run RunState.commitDeleteAppend
  | guardDropped run => exact sameLog_modify run RunState.rollbackDeleteAppend
  | failed | published maxSeq committedEnd | notified event => exact .refl _

theorem sameLog_callMove (hmove : s.CallMove id s') : SameLog s.w s'.w := by
  cases hmove with
  | claim hcall hstate hlive => exact sameLog_modify _ RunState.beginDeleteAppend
  | withdraw hcall hstate => exact sameLog_modify _ RunState.rollbackDeleteAppend
  | _ => exact .refl _

theorem performed_callMove (hmove : s.CallMove id s') : s'.performed = s.performed := by
  cases hmove with
  | claim hcall hstate hlive => exact performed_modify _ _
  | withdraw hcall hstate => exact performed_modify _ _
  | _ => rfl

theorem logged_callMove (h : Logged crc stored s) (hmove : s.CallMove id s') :
    Logged crc stored s' := by
  unfold Logged
  rw [phase_callMove hmove, committed_callMove hmove]
  exact h.congr (sameLog_callMove hmove)

theorem grows_callMove (hmove : s.CallMove id s') : Grows s s' :=
  .of_same (sameLog_callMove hmove) (Nat.le_of_eq (performed_callMove hmove).symm)
    (committed_callMove hmove)

/-- What finishing an append does to the log. -/
theorem logged_finish {first : StagedTimelineAppend Nat Ref}
    {rest all : List (StagedTimelineAppend Nat Ref)}
    (h : Commit.Logged crc stored s.committed [] (first :: rest) all s.w) :
    Logged crc stored (s.finish first rest all) := by
  have hguard : notifiedOf (first.deleteGuard.toList.map .guardCommitted :
      List (Effect Nat Ref)) = [] := Inv.notifiedOf_guards _
  let w : TimelineWriter Nat Ref := { s.w with
    nextSeq := first.event.seq
    warm := s.w.warm.applyCommittedEvent first.event }
  have hsame : SameLog { s.w with nextSeq := first.event.seq } w := ⟨rfl, rfl, rfl, rfl, rfl⟩
  exact (h.finish hsame).emit hguard

theorem logged_writerMove (h : Logged crc stored s) (hmove : s.WriterMove crc fromStr s') :
    Logged crc stored s' := by
  unfold Logged at h
  cases hmove with
  | wake hwake => exact h
  | @perform effect hwake heffect =>
    show Commit.Logged crc stored (s.perform effect).committed (s.perform effect).phase.unsynced
      (s.perform effect).phase.unfinished (s.perform effect).phase.unannounced (s.perform effect).w
    rw [phase_perform, committed_perform]
    exact h.congr (sameLog_perform effect)
  | rest hphase hqueue hidle | skip hphase | close hphase hstaged =>
    rw [hphase] at h
    exact h
  | @stage staged staged' bytes more command queue w phase hphase hqueue halone a ha hw hstaged
      hnext hidle =>
    rw [hphase] at h
    subst hw hstaged
    have hstage := h.stageCommand a bytes
    rcases hnext with rfl | ⟨-, bytes, more, -, rfl⟩ <;> exact hstage
  | @unsynced staged hphase err wal hwal =>
    rw [hphase] at h
    subst hwal
    have hpoisoned := h.poison []
    rw [List.append_nil] at hpoisoned
    have hdropped := hpoisoned.drop (by rw [TimelineWriter.withWal]; split <;> rfl)
    rw [Inv.foldl_failStaged]
    apply hdropped.emit
    apply Inv.notifiedOf_errors
    intro effect heffect
    obtain ⟨a, -, ha⟩ := List.mem_flatMap.mp heffect
    exact Inv.isError_of_mem effect ha
  | synced hphase wal committedEnd hlive hwal hend =>
    rw [hphase] at h
    subst hwal hend
    exact h.sync hlive
  | publish hphase =>
    rw [hphase] at h
    exact h.publish
  | delete hphase hstructural =>
    rw [hphase] at h
    exact h.congr ⟨rfl, rfl, rfl, rfl, rfl⟩
  | record hphase hstructural =>
    rw [hphase] at h
    exact logged_finish (h.congr ⟨rfl, rfl, rfl, rfl, rfl⟩)
  | @nudge first rest all hphase hplain =>
    rw [hphase] at h
    apply logged_finish
    rw [committed_modify]
    exact h.congr (sameLog_modify _ _)
  | evict hphase horder hdeleted | reorder hphase horder =>
    exact h.congr ⟨rfl, rfl, rfl, rfl, rfl⟩
  | trimmed hphase order horder =>
    rw [hphase] at h
    exact logged_finish (h.congr ⟨rfl, rfl, rfl, rfl, rfl⟩)

/-! ### Growth -/

theorem file_withWal (w : TimelineWriter Nat Ref) (wal : WalWriter) (file : Bytes) :
    (w.withWal wal file).file = file := by
  rw [TimelineWriter.withWal]
  split <;> rfl

theorem file_stage {wal wal' : WalWriter} {file file' : Bytes} {e : TimelineEvent}
    {outcome : WriteOutcome} {result : Except TimelineError Nat}
    (h : wal.stage crc file e outcome = (result, wal', file')) : file <+: file' := by
  cases result with
  | error err =>
    rcases Inv.stage_error h with ⟨-, rfl⟩ | ⟨part, -, rfl⟩
    · exact List.prefix_rfl
    · exact List.prefix_append _ _
  | ok written =>
    by_cases haccepts : wal.Accepts crc e
    · cases outcome with
      | done =>
        rw [WalWriter.stage_done haccepts, Prod.mk.injEq, Prod.mk.injEq] at h
        rw [← h.2.2]
        exact List.prefix_append _ _
      | failed size message =>
        rw [WalWriter.stage_failed haccepts] at h
        cases h
    · obtain ⟨error, hw⟩ := WalWriter.stage_of_not_accepts haccepts file outcome
      rw [h] at hw
      cases hw

theorem file_stageCommand (w : TimelineWriter Nat Ref) (a : Arrival Nat Ref)
    (staged : List (StagedTimelineAppend Nat Ref)) (bytes : Nat) :
    w.file <+: (w.stageCommand crc a staged bytes).1.file := by
  rw [TimelineWriter.stageCommand]
  dsimp only
  split
  · exact List.prefix_refl w.file
  · split
    · exact List.prefix_refl w.file
    · split
      · next written wal file hstage =>
        rw [file_withWal]
        exact file_stage hstage
      · next err wal file hstage =>
        show w.file <+: (w.withWal wal file).file
        rw [file_withWal]
        exact file_stage hstage

theorem grows_writerMove (hmove : s.WriterMove crc fromStr s') : Grows s s' := by
  have hemit {t : System} (hfile : t.w.file = s.w.file)
      (heffects : ∃ more, t.w.effects = s.w.effects ++ more) (hperformed : t.performed = s.performed)
      (hcommitted : t.committed = s.committed) : Grows s t := by
    obtain ⟨more, hmore⟩ := heffects
    refine ⟨?_, ?_, Nat.le_of_eq hperformed.symm, ?_⟩
    · rw [hfile]
    · rw [hmore]
      exact List.prefix_append _ _
    · rw [hcommitted]
  cases hmove with
  | wake hwake | rest hphase hqueue hidle | skip hphase | close hphase hstaged
  | delete hphase hstructural | evict hphase horder hdeleted | reorder hphase horder =>
    exact .of_same ⟨rfl, rfl, rfl, rfl, rfl⟩ (Nat.le_refl _) rfl
  | @perform effect hwake heffect =>
    exact .of_same (sameLog_perform effect) (Nat.le_succ _) (committed_perform effect)
  | @stage staged staged' bytes more command queue w phase hphase hqueue halone a ha hw hstaged
      hnext hidle =>
    subst hw
    refine ⟨file_stageCommand s.w a staged bytes, ?_, Nat.le_refl _, List.prefix_rfl⟩
    obtain ⟨-, notes, -, hcases⟩ := stageCommand_cases crc s.w a staged bytes
    dsimp only
    rcases hcases with ⟨-, err, heffects⟩ | ⟨-, heffects, -⟩ <;>
    · rw [heffects]
      exact List.prefix_append _ _
  | @unsynced staged hphase err wal hwal =>
    rw [Inv.foldl_failStaged]
    obtain ⟨-, notes, -, heffects⟩ := withWal_cases s.w wal s.w.file
    refine hemit (file_withWal s.w wal s.w.file) ⟨notes ++ staged.flatMap fun a ↦
      errorEffects a.reply a.deleteGuard err, ?_⟩ rfl rfl
    rw [TimelineWriter.emit, heffects, List.append_assoc]
  | synced hphase wal committedEnd hlive hwal hend =>
    exact ⟨List.prefix_rfl, List.prefix_rfl, Nat.le_refl _, List.prefix_append _ _⟩
  | publish hphase =>
    rw [Inv.foldl_announce]
    exact hemit rfl ⟨_, List.append_assoc _ _ _⟩ rfl rfl
  | record hphase hstructural => exact hemit rfl ⟨_, rfl⟩ rfl rfl
  | trimmed hphase order horder => exact hemit rfl ⟨_, rfl⟩ rfl rfl
  | @nudge first rest all hphase hplain =>
    have hsame := sameLog_modify (s := s) ⟨first.event.runId, s.generation first.event.runId⟩
      (·.applyEvent first.event)
    refine hemit hsame.file ⟨first.deleteGuard.toList.map .guardCommitted, ?_⟩
      (performed_modify _ _) (committed_modify _ _)
    rw [← hsame.effects]
    rfl

/-! ### Runs -/

theorem Logged.step (h : Logged crc stored s) (action : Action) :
    Logged crc stored (s.step crc fromStr action) := by
  cases action with
  | enter mode runId streamId kind payload => exact h
  | call id refused => exact logged_callMove h (callMove_callStep id refused)
  | cancel id => exact logged_callMove h (callMove_cancel id)
  | writer input => exact logged_writerMove h (writerMove_writerStep crc fromStr input)

theorem grows_step (action : Action) : Grows s (s.step crc fromStr action) := by
  cases action with
  | enter mode runId streamId kind payload =>
    exact ⟨List.prefix_rfl, List.prefix_rfl, Nat.le_refl _, List.prefix_rfl⟩
  | call id refused => exact grows_callMove (callMove_callStep id refused)
  | cancel id => exact grows_callMove (callMove_cancel id)
  | writer input => exact grows_writerMove (writerMove_writerStep crc fromStr input)

/-- The writer of a server that was started on a log. -/
def spawned (fromStr : String → Option Json) (records : List (LogRecord crc)) :
    TimelineWriter Nat Ref :=
  let size := (LogRecord.content records).length
  .spawn ⟨size, size, false⟩ (LogRecord.content records)
    (.ofEvents fromStr (LogRecord.events records) records.length)

theorem logged_start (fromStr : String → Option Json) {records : List (LogRecord crc)}
    (h : Sequenced 1 (LogRecord.events records)) :
    Logged crc (LogRecord.events records) (start (spawned fromStr records)) := by
  have hlength : (LogRecord.events records).length = records.length := List.length_map _
  refine ⟨⟨records, (List.append_nil _).symm, rfl, List.prefix_rfl, fun _ ↦ ⟨rfl, ?_⟩⟩, rfl, ?_,
    fun _ he ↦ absurd he List.not_mem_nil, ⟨LogRecord.events records, rfl, ?_⟩, rfl⟩
  · exact (List.append_nil _).symm
  · show Sequenced 1 (LogRecord.events records ++ [] ++ [])
    rw [List.append_nil, List.append_nil]
    exact h
  · show (UInt64.ofNat records.length).toNat = _
    rw [← hlength, toNat_ofNat_of_le h.length_le]

end System

end Vidarax.Commit
