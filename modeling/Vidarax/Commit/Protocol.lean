import Vidarax.Commit.TimelineWriter

/-!
# The commit protocol

What a timeline writer has committed, in every batching of its commands and with writes and syncs
failing anywhere: the log numbers the committed events from one, each command is answered once and
with its event just when that is committed, and nothing is committed behind a failed write or sync.
-/

namespace Vidarax.Commit

open Vidarax.Base Vidarax.Timeline Vidarax.Runs

variable {Reply Guard : Type}

/-- A command and the event that was committed for it, if any. -/
abbrev Verdict (Reply Guard : Type) : Type := Arrival Reply Guard × Option TimelineEvent

/-- The event has the fields of the request. -/
structure Carries (a : Arrival Reply Guard) (e : TimelineEvent) : Prop where
  runId : e.runId = a.command.request.runId
  streamId : e.streamId = a.command.request.streamId
  kind : e.kind = a.command.request.kind
  payload : e.payload = a.command.request.payload
  ptsMs : e.ptsMs = a.nowMs

/-- Events that were committed. -/
def committed (verdicts : List (Verdict Reply Guard)) : List TimelineEvent :=
  verdicts.filterMap Prod.snd

/-- Answers that commands with a reply get: their events if these were committed. -/
def answersDue (verdicts : List (Verdict Reply Guard)) : List (Reply × Option TimelineEvent) :=
  verdicts.filterMap fun v ↦ v.1.command.reply.map (·, v.2)

/-- Answers among some effects. -/
def answersOf (effects : List (Effect Reply Guard)) : List (Reply × Option TimelineEvent) :=
  effects.filterMap fun
    | .replied reply result => some (reply, result.toOption)
    | _ => none

/-- Notifications among some effects. -/
def notifiedOf (effects : List (Effect Reply Guard)) : List TimelineEvent :=
  effects.filterMap fun
    | .notified event => some event
    | _ => none

/-- No event is answered behind a failed write or sync. -/
def QuietAfterFailure (effects : List (Effect Reply Guard)) : Prop :=
  effects.Pairwise fun before after ↦
    before = .failed → ∀ reply event, after ≠ .replied reply (.ok event)

/-- A published number is that of the events in the log up to the published boundary. -/
def PublishedOf {crc : Bytes → UInt32} (records : List (LogRecord crc)) (maxSeq : UInt64)
    (committedEnd : Nat) : Prop :=
  ∃ k ≤ records.length, maxSeq.toNat = k ∧
    committedEnd = (LogRecord.content (records.take k)).length

section Effects

variable (effects more : List (Effect Reply Guard))

@[simp] theorem answersOf_append :
    answersOf (effects ++ more) = answersOf effects ++ answersOf more := List.filterMap_append

@[simp] theorem notifiedOf_append :
    notifiedOf (effects ++ more) = notifiedOf effects ++ notifiedOf more := List.filterMap_append

variable {effects more}

/-- Effects without answered events may follow. -/
theorem QuietAfterFailure.append (h : QuietAfterFailure effects)
    (hmore : ∀ effect ∈ more, ∀ reply event, effect ≠ .replied reply (.ok event)) :
    QuietAfterFailure (effects ++ more) := by
  apply List.pairwise_append.mpr
  refine ⟨h, ?_, fun _ _ after hafter _ ↦ hmore after hafter⟩
  exact List.pairwise_of_forall_mem_list fun _ _ after hafter _ ↦ hmore after hafter

/-- Where nothing has failed any effects are so. -/
theorem quiet_of_not_mem (h : .failed ∉ effects) : QuietAfterFailure effects :=
  List.pairwise_of_forall_mem_list fun _ hbefore _ _ hfailed ↦ absurd (hfailed ▸ hbefore) h

end Effects

/-! ### The invariant -/

/-- Appends that wait for the sync of the current batch. -/
abbrev Mark (Reply Guard : Type) : Type :=
  Arrival Reply Guard × Option (StagedTimelineAppend Reply Guard)

/-- Staged appends of a batch. -/
def stagedOf (current : List (Mark Reply Guard)) : List (StagedTimelineAppend Reply Guard) :=
  current.filterMap Prod.snd

/-- Events of staged appends. -/
def events (staged : List (StagedTimelineAppend Reply Guard)) : List TimelineEvent :=
  staged.map StagedTimelineAppend.event

/-- Commands of a batch that could not be staged. -/
def rejected (current : List (Mark Reply Guard)) : List (Verdict Reply Guard) :=
  (current.filter fun m ↦ m.2.isNone).map fun m ↦ (m.1, none)

/-- Verdicts on the commands of a batch, where each staged append gets one. -/
def judge (verdict : StagedTimelineAppend Reply Guard → Option TimelineEvent)
    (current : List (Mark Reply Guard)) : List (Verdict Reply Guard) :=
  current.map fun m ↦ (m.1, m.2.bind verdict)

theorem committed_judge_none (current : List (Mark Reply Guard)) :
    committed (judge (fun _ ↦ none) current) = [] := by
  simp [committed, judge, List.filterMap_map]

theorem committed_judge_event (current : List (Mark Reply Guard)) :
    committed (judge (fun s ↦ some s.event) current) = events (stagedOf current) := by
  induction current with
  | nil => rfl
  | cons m current ih =>
    obtain ⟨a, _ | s⟩ := m
    · exact ih
    · exact congrArg (s.event :: ·) ih

/-- The answers due are those of rejected commands and of staged ones. -/
theorem answersDue_judge {current : List (Mark Reply Guard)}
    (verdict : StagedTimelineAppend Reply Guard → Option TimelineEvent)
    (hreply : ∀ m ∈ current, ∀ s ∈ m.2, s.reply = m.1.command.reply) :
    (answersDue (judge verdict current)).Perm (answersDue (rejected current) ++
      (stagedOf current).filterMap fun s ↦ s.reply.map (·, verdict s)) := by
  induction current with
  | nil => exact List.Perm.refl _
  | cons m current ih =>
    have hrest := ih fun n hn ↦ hreply n (List.mem_cons_of_mem m hn)
    obtain ⟨a, _ | s⟩ := m
    · cases ha : a.command.reply with
      | none =>
        have hsame : answersDue (judge verdict ((a, none) :: current)) =
            answersDue (judge verdict current) := by simp [answersDue, judge, ha]
        have hsame' : answersDue (rejected ((a, none) :: current)) =
            answersDue (rejected current) := by simp [answersDue, rejected, ha]
        rw [hsame, hsame']
        exact hrest
      | some r =>
        have hfirst : answersDue (judge verdict ((a, none) :: current)) =
            (r, none) :: answersDue (judge verdict current) := by simp [answersDue, judge, ha]
        have hfirst' : answersDue (rejected ((a, none) :: current)) =
            (r, none) :: answersDue (rejected current) := by simp [answersDue, rejected, ha]
        rw [hfirst, hfirst']
        exact hrest.cons _
    · have hs : s.reply = a.command.reply := hreply (a, some s) List.mem_cons_self s rfl
      have hrejected : rejected ((a, some s) :: current) = rejected current := by simp [rejected]
      have hstaged : stagedOf ((a, some s) :: current) = s :: stagedOf current := rfl
      rw [hrejected, hstaged]
      cases ha : a.command.reply with
      | none =>
        have hsame : answersDue (judge verdict ((a, some s) :: current)) =
            answersDue (judge verdict current) := by simp [answersDue, judge, ha]
        rw [hsame, List.filterMap_cons_none (by rw [hs, ha]; rfl)]
        exact hrest
      | some r =>
        have hfirst : answersDue (judge verdict ((a, some s) :: current)) =
            (r, verdict s) :: answersDue (judge verdict current) := by simp [answersDue, judge, ha]
        rw [hfirst, List.filterMap_cons_some (b := (r, verdict s)) (by rw [hs, ha]; rfl)]
        exact (hrest.cons _).trans List.perm_middle.symm

/-- The state of a writer that was started on some events, has finished some commands and has
staged or rejected those of the current batch. -/
structure Inv (crc : Bytes → UInt32) (stored : List TimelineEvent)
    (done : List (Verdict Reply Guard)) (current : List (Mark Reply Guard))
    (w : TimelineWriter Reply Guard) : Prop where
  disk : ∃ records : List (LogRecord crc), LogRecord.events records = stored ++ committed done ∧
    w.wal.committedEnd = (LogRecord.content records).length ∧
    LogRecord.content records <+: w.file ∧
    (w.wal.poisoned = false → w.wal.pendingEnd = w.file.length ∧ w.file = LogRecord.content records ++
      ((events (stagedOf current)).map (stagedLine crc)).flatten) ∧
    ∀ maxSeq committedEnd, .published maxSeq committedEnd ∈ w.effects →
      PublishedOf records maxSeq committedEnd
  sequenced : Sequenced 1 (stored ++ committed done ++ events (stagedOf current))
  fits : ∀ e ∈ events (stagedOf current), e.body.length ≤ MAX_RECORD_BYTES
  next : w.nextSeq.toNat = (stored ++ committed done).length
  snapshot : w.snapshot.maxSeq = w.nextSeq
  shared : w.committedEnd = w.wal.committedEnd
  answers : (answersOf w.effects).Perm (answersDue (done ++ rejected current))
  notified : notifiedOf w.effects = committed done
  failed : .failed ∈ w.effects ↔ w.wal.poisoned = true
  quiet : QuietAfterFailure w.effects
  verdicts : ∀ v ∈ done, ∀ e ∈ v.2, Carries v.1 e
  marks : ∀ m ∈ current, ∀ s ∈ m.2, Carries m.1 s.event ∧ s.reply = m.1.command.reply

namespace Inv

variable {crc : Bytes → UInt32} {stored : List TimelineEvent} {done : List (Verdict Reply Guard)}
  {current : List (Mark Reply Guard)} {w : TimelineWriter Reply Guard}

/-- An answered error or a dropped guard. -/
def IsError (effect : Effect Reply Guard) : Prop :=
  (∃ reply err, effect = .replied reply (.error err)) ∨ ∃ guard, effect = .guardDropped guard

theorem isError_of_mem {reply : Option Reply} {guard : Option Guard} {err : String} :
    ∀ effect ∈ errorEffects reply guard err, IsError effect := by
  intro effect h
  rcases List.mem_append.mp h with hreply | hguard
  · obtain ⟨r, -, hr⟩ := List.mem_map.mp hreply
    exact .inl ⟨r, err, hr.symm⟩
  · obtain ⟨g, -, hg⟩ := List.mem_map.mp hguard
    exact .inr ⟨g, hg.symm⟩

theorem answersOf_errorEffects (reply : Option Reply) (guard : Option Guard) (err : String) :
    answersOf (errorEffects reply guard err) = (reply.map (·, none)).toList := by
  cases reply <;> cases guard <;> rfl

theorem notifiedOf_errors {effects : List (Effect Reply Guard)}
    (h : ∀ effect ∈ effects, IsError effect) : notifiedOf effects = [] := by
  apply List.filterMap_eq_nil_iff.mpr
  intro effect heffect
  rcases h effect heffect with ⟨r, err, rfl⟩ | ⟨g, rfl⟩ <;> rfl

/-- Errors are answered for commands of the batch, of which staged ones may be given up once the
writer is poisoned. -/
theorem emitErrors (h : Inv crc stored done current w) {done' : List (Verdict Reply Guard)}
    {current' : List (Mark Reply Guard)} {more : List (Effect Reply Guard)}
    (herrors : ∀ effect ∈ more, IsError effect) (hcommitted : committed done' = committed done)
    (hfront : events (stagedOf current') <+: events (stagedOf current))
    (hlive : w.wal.poisoned = false → events (stagedOf current') = events (stagedOf current))
    (hanswers : (answersDue (done ++ rejected current) ++ answersOf more).Perm
      (answersDue (done' ++ rejected current')))
    (hverdicts : ∀ v ∈ done', ∀ e ∈ v.2, Carries v.1 e)
    (hmarks : ∀ m ∈ current', ∀ s ∈ m.2, Carries m.1 s.event ∧ s.reply = m.1.command.reply) :
    Inv crc stored done' current' (w.emit more) := by
  obtain ⟨records, hevents, hend, hcontent, hfile, hpublished⟩ := h.disk
  have hnot {effect : Effect Reply Guard} (hmem : effect ∈ (w.emit more).effects)
      (hno : ¬ IsError effect) : effect ∈ w.effects := by
    rcases List.mem_append.mp hmem with hold | hnew
    · exact hold
    · exact absurd (herrors effect hnew) hno
  refine ⟨⟨records, ?_, hend, hcontent, fun hp ↦ ?_, fun maxSeq committedEnd hmem ↦ ?_⟩, ?_, ?_, ?_,
    h.snapshot, h.shared, ?_, ?_, ⟨fun hmem ↦ ?_, fun hp ↦ ?_⟩, ?_, hverdicts, hmarks⟩
  · rw [hcommitted]
    exact hevents
  · rw [hlive hp]
    exact hfile hp
  · refine hpublished maxSeq committedEnd (hnot hmem ?_)
    rintro (⟨r, err, hr⟩ | ⟨g, hg⟩) <;> contradiction
  · obtain ⟨given, hgiven⟩ := hfront
    have hsequenced := h.sequenced
    rw [← hgiven, ← List.append_assoc] at hsequenced
    rw [hcommitted]
    exact (numbered_append.mp hsequenced).1
  · exact fun e he ↦ h.fits e (hfront.subset he)
  · rw [hcommitted]
    exact h.next
  · show (answersOf (w.effects ++ more)).Perm _
    rw [answersOf_append]
    exact (h.answers.append_right _).trans hanswers
  · show notifiedOf (w.effects ++ more) = _
    rw [notifiedOf_append, notifiedOf_errors herrors, List.append_nil, hcommitted]
    exact h.notified
  · refine h.failed.mp (hnot hmem ?_)
    rintro (⟨r, err, hr⟩ | ⟨g, hg⟩) <;> contradiction
  · exact List.mem_append_left more (h.failed.mpr hp)
  · apply h.quiet.append
    intro effect heffect reply event hok
    rcases herrors effect heffect with ⟨r, err, rfl⟩ | ⟨g, rfl⟩ <;> cases hok

/-- A command is rejected. -/
theorem reject (h : Inv crc stored done current w) (a : Arrival Reply Guard) (err : String) :
    Inv crc stored done (current ++ [(a, none)])
      (w.sendStageError a.command.reply a.command.request.deleteGuard err) := by
  have hstaged : stagedOf (current ++ [((a, none) : Mark Reply Guard)]) = stagedOf current := by
    simp [stagedOf]
  have hrejected : rejected (current ++ [((a, none) : Mark Reply Guard)]) =
      rejected current ++ [(a, none)] := by simp [rejected]
  refine h.emitErrors isError_of_mem rfl ?_ (fun _ ↦ by rw [hstaged]) ?_ h.verdicts fun m hm ↦ ?_
  · rw [hstaged]
  · rw [answersOf_errorEffects, hrejected, ← List.append_assoc]
    cases hreply : a.command.reply <;> simp [answersDue, hreply]
  · rcases List.mem_append.mp hm with hold | hnew
    · exact h.marks m hold
    · rw [List.mem_singleton.mp hnew]
      exact fun s hs ↦ by cases hs

/-- A log operation fails, perhaps behind a part of a line: the writer is poisoned. -/
theorem poison (h : Inv crc stored done current w) (part : Bytes) :
    Inv crc stored done current (w.withWal { w.wal with poisoned := true } (w.file ++ part)) := by
  obtain ⟨records, hevents, hend, hfront, -, hpublished⟩ := h.disk
  let wal : WalWriter := { w.wal with poisoned := true }
  let more : List (Effect Reply Guard) := if w.wal.poisoned then [] else [.failed]
  have hmore : ∀ effect ∈ more, effect = .failed := by
    intro effect heffect
    cases hp : w.wal.poisoned <;> simp_all [more]
  have hresult : w.withWal wal (w.file ++ part) =
      { w with wal := wal, file := w.file ++ part, effects := w.effects ++ more } := by
    cases hp : w.wal.poisoned <;>
      simp [TimelineWriter.withWal, TimelineWriter.emit, wal, more, hp]
  have hnone : answersOf more = [] ∧ notifiedOf more = [] := by
    cases hp : w.wal.poisoned <;> simp [more, hp, answersOf, notifiedOf]
  show Inv crc stored done current (w.withWal wal (w.file ++ part))
  rw [hresult]
  refine ⟨⟨records, hevents, hend, hfront.trans (List.prefix_append _ _), ?_, ?_⟩,
    h.sequenced, h.fits, h.next, h.snapshot, h.shared, ?_, ?_, ⟨fun _ ↦ rfl, fun _ ↦ ?_⟩, ?_,
    h.verdicts, h.marks⟩
  · intro hpoisoned
    exact absurd (show true = false from hpoisoned) (by decide)
  · intro maxSeq committedEnd hmem
    rcases List.mem_append.mp hmem with hold | hnew
    · exact hpublished maxSeq committedEnd hold
    · cases hmore _ hnew
  · dsimp only
    rw [answersOf_append, hnone.1, List.append_nil]
    exact h.answers
  · dsimp only
    rw [notifiedOf_append, hnone.2, List.append_nil]
    exact h.notified
  · cases hp : w.wal.poisoned with
    | true => exact List.mem_append_left more (h.failed.mpr hp)
    | false => simp [more, hp]
  · apply h.quiet.append
    intro effect heffect reply event hok
    rw [hmore effect heffect] at hok
    cases hok

/-- Staging fails before the write, or within it. -/
theorem stage_error {wal wal' : WalWriter} {file file' : Bytes} {e : TimelineEvent}
    {outcome : WriteOutcome} {err : TimelineError}
    (h : wal.stage crc file e outcome = (.error err, wal', file')) :
    wal' = wal ∧ file' = file ∨
      ∃ part, wal' = { wal with poisoned := true } ∧ file' = file ++ part := by
  by_cases haccepts : wal.Accepts crc e
  · cases outcome with
    | done =>
      rw [WalWriter.stage_done haccepts] at h
      cases h
    | failed written message =>
      rw [WalWriter.stage_failed haccepts] at h
      cases h
      exact .inr ⟨_, rfl, rfl⟩
  · obtain ⟨error, hw⟩ := WalWriter.stage_of_not_accepts haccepts file outcome
    rw [h] at hw
    cases hw
    exact .inl ⟨rfl, rfl⟩

/-- Where staging fails the writer may be poisoned. -/
theorem stageFailed (h : Inv crc stored done current w) {e : TimelineEvent}
    {outcome : WriteOutcome} {err : TimelineError} {wal : WalWriter} {file : Bytes}
    (hstage : w.wal.stage crc w.file e outcome = (.error err, wal, file)) :
    Inv crc stored done current (w.withWal wal file) := by
  rcases stage_error hstage with ⟨rfl, rfl⟩ | ⟨part, rfl, rfl⟩
  · rw [TimelineWriter.withWal, if_neg fun hboth ↦ hboth.2 hboth.1]
    exact h
  · exact h.poison part

/-- The next number in order. -/
theorem sequenced_concat {first : Nat} {xs : List TimelineEvent} {e : TimelineEvent}
    (h : Sequenced first xs) (hseq : e.seq.toNat = first + xs.length) :
    Sequenced first (xs ++ [e]) := by
  apply numbered_append.mpr
  refine ⟨h, ?_, trivial⟩
  rw [Nat.succ_iterate]
  exact hseq

/-- A command is staged. -/
theorem stage (h : Inv crc stored done current w) {a : Arrival Reply Guard}
    {s : StagedTimelineAppend Reply Guard} {outcome : WriteOutcome} {written : Nat}
    {wal : WalWriter} {file : Bytes}
    (hstage : w.wal.stage crc w.file s.event outcome = (.ok written, wal, file))
    (hseq : s.event.seq.toNat = w.nextSeq.toNat + ((stagedOf current).length + 1))
    (hcarries : Carries a s.event) (hreply : s.reply = a.command.reply) :
    Inv crc stored done (current ++ [(a, some s)]) (w.withWal wal file) := by
  have haccepts : w.wal.Accepts crc s.event := by
    by_contra hnot
    obtain ⟨error, hw⟩ := WalWriter.stage_of_not_accepts hnot w.file outcome
    rw [hstage] at hw
    cases hw
  have hstaged : events (stagedOf (current ++ [((a, some s) : Mark Reply Guard)])) =
      events (stagedOf current) ++ [s.event] := by simp [stagedOf, events]
  have hrejected : rejected (current ++ [((a, some s) : Mark Reply Guard)]) = rejected current := by
    simp [rejected]
  cases outcome with
  | failed written message =>
    rw [WalWriter.stage_failed haccepts] at hstage
    cases hstage
  | done =>
    rw [WalWriter.stage_done haccepts, Prod.mk.injEq, Prod.mk.injEq] at hstage
    obtain ⟨-, rfl, rfl⟩ := hstage
    obtain ⟨records, hevents, hend, hfront, hfile, hpublished⟩ := h.disk
    obtain ⟨hpending, hcontent⟩ := hfile haccepts.1
    rw [TimelineWriter.withWal, if_neg fun hboth ↦ hboth.2 hboth.1]
    refine ⟨⟨records, hevents, hend, hfront.trans (List.prefix_append _ _), fun _ ↦ ⟨?_, ?_⟩,
      hpublished⟩, ?_, ?_, h.next, h.snapshot, h.shared, ?_, h.notified, h.failed, h.quiet,
      h.verdicts, fun m hm ↦ ?_⟩
    · dsimp only
      rw [hpending, List.length_append]
    · rw [hstaged, List.map_append, List.flatten_append, ← List.append_assoc, ← hcontent]
      simp
    · rw [hstaged, ← List.append_assoc]
      apply sequenced_concat h.sequenced
      rw [hseq, h.next]
      simp only [List.length_append, events, List.length_map]
      omega
    · rw [hstaged]
      intro e he
      rcases List.mem_append.mp he with hold | hnew
      · exact h.fits e hold
      · rw [List.mem_singleton.mp hnew]
        exact haccepts.2.1
    · rw [hrejected]
      exact h.answers
    · rcases List.mem_append.mp hm with hold | hnew
      · exact h.marks m hold
      · rw [List.mem_singleton.mp hnew]
        rintro _ ⟨⟩
        exact ⟨hcarries, hreply⟩

/-- Numbers go on from the last committed one. -/
theorem seq_eventFor {a : Arrival Reply Guard} {n : Nat}
    (hroom : w.nextSeq.toNat + (n + 1) ≤ u64Max) :
    (w.eventFor a n).seq.toNat = w.nextSeq.toNat + (n + 1) := by
  show (w.nextSeq + UInt64.ofNat (n + 1)).toNat = _
  rw [UInt64.toNat_add, toNat_ofNat_of_le (Nat.le_trans (Nat.le_add_left _ _) hroom)]
  apply Nat.mod_eq_of_lt
  have : u64Max < 2 ^ 64 := by decide
  omega

/-- A command is staged or rejected. -/
theorem stageCommand (h : Inv crc stored done current w) (a : Arrival Reply Guard) (bytes : Nat) :
    ∃ mark, Inv crc stored done (current ++ [(a, mark)])
        (w.stageCommand crc a (stagedOf current) bytes).1 ∧
      (w.stageCommand crc a (stagedOf current) bytes).2.1 =
        stagedOf (current ++ [(a, mark)]) := by
  have hnone : stagedOf current = stagedOf (current ++ [((a, none) : Mark Reply Guard)]) := by
    simp [stagedOf]
  rw [TimelineWriter.stageCommand]
  dsimp only
  split
  · exact ⟨none, h.reject a _, hnone⟩
  · split
    · exact ⟨none, h.reject a _, hnone⟩
    · next hroom =>
      split
      · next written wal file hstage =>
        refine ⟨some ⟨w.eventFor a (stagedOf current).length, a.command.reply,
          a.command.request.deleteGuard⟩, ?_, by simp [stagedOf]⟩
        exact h.stage hstage (seq_eventFor (Nat.le_of_not_lt hroom)) ⟨rfl, rfl, rfl, rfl, rfl⟩ rfl
      · next err wal file hstage => exact ⟨none, (h.stageFailed hstage).reject a _, hnone⟩

/-- Commands are staged or rejected up to the end of a batch; the others stay in the queue. -/
theorem batchLoop (h : Inv crc stored done current w) (bytes more : Nat)
    (a : Arrival Reply Guard) (rx : List (Arrival Reply Guard)) :
    ∃ marks : List (Mark Reply Guard),
      let batch := TimelineWriter.batchLoop crc w (stagedOf current) bytes more a rx
      Inv crc stored done (current ++ marks) batch.writer ∧
        batch.staged = stagedOf (current ++ marks) ∧
        a :: rx = marks.map Prod.fst ++ batch.queue := by
  induction rx generalizing w current bytes more a with
  | nil =>
    rw [TimelineWriter.batchLoop]
    split
    · exact ⟨[], by rwa [List.append_nil], by rw [List.append_nil], rfl⟩
    · obtain ⟨mark, hinv, hstaged⟩ := h.stageCommand a bytes
      dsimp only
      split <;> exact ⟨[(a, mark)], hinv, hstaged, rfl⟩
  | cons b rest ih =>
    rw [TimelineWriter.batchLoop]
    split
    · exact ⟨[], by rwa [List.append_nil], by rw [List.append_nil], rfl⟩
    · obtain ⟨mark, hinv, hstaged⟩ := h.stageCommand a bytes
      dsimp only
      split
      · exact ⟨[(a, mark)], hinv, hstaged, rfl⟩
      · split
        · obtain ⟨marks, hinv', hstaged', hqueue⟩ := ih hinv
            (w.stageCommand crc a (stagedOf current) bytes).2.2 (more - 1) b
          rw [← hstaged, List.append_assoc] at hinv' hstaged'
          rw [← hstaged] at hqueue
          refine ⟨(a, mark) :: marks, hinv', hstaged', ?_⟩
          rw [hqueue]
          rfl
        · exact ⟨[(a, mark)], hinv, hstaged, rfl⟩

theorem foldl_failStaged (err : String) (staged : List (StagedTimelineAppend Reply Guard))
    (w : TimelineWriter Reply Guard) :
    staged.foldl (TimelineWriter.failStaged err) w =
      w.emit (staged.flatMap fun s ↦ errorEffects s.reply s.deleteGuard err) := by
  induction staged generalizing w with
  | nil => simp [TimelineWriter.emit]
  | cons s staged ih =>
    rw [List.foldl_cons, ih, List.flatMap_cons]
    simp [TimelineWriter.failStaged, TimelineWriter.sendStageError, TimelineWriter.emit,
      errorEffects]

theorem answersOf_flatMap_errors (err : String)
    (staged : List (StagedTimelineAppend Reply Guard)) :
    answersOf (staged.flatMap fun s ↦ errorEffects s.reply s.deleteGuard err) =
      staged.filterMap fun s ↦ s.reply.map (·, none) := by
  induction staged with
  | nil => rfl
  | cons s staged ih =>
    rw [List.flatMap_cons, answersOf_append, answersOf_errorEffects, ih, List.filterMap_cons]
    cases s.reply <;> rfl

theorem mem_judge_none {v : Verdict Reply Guard} (h : v ∈ judge (fun _ ↦ none) current) :
    v.2 = none := by
  obtain ⟨m, -, rfl⟩ := List.mem_map.mp h
  cases m.2 <;> rfl

/-- The replies of staged appends are those of their commands. -/
theorem reply_eq (h : Inv crc stored done current w) :
    ∀ m ∈ current, ∀ s ∈ m.2, s.reply = m.1.command.reply := fun m hm s hs ↦ (h.marks m hm s hs).2

/-- Commands of a batch that is not synced are answered with errors. -/
theorem failBatch (h : Inv crc stored done current w)
    (hgiven : w.wal.poisoned = true ∨ stagedOf current = []) (err : String) :
    Inv crc stored (done ++ judge (fun _ ↦ none) current) []
      ((stagedOf current).foldl (TimelineWriter.failStaged err) w) := by
  rw [foldl_failStaged]
  refine h.emitErrors ?_ ?_ List.nil_prefix (fun hlive ↦ ?_) ?_ (fun v hv ↦ ?_)
    fun m hm ↦ absurd hm List.not_mem_nil
  · intro effect heffect
    obtain ⟨s, -, hs⟩ := List.mem_flatMap.mp heffect
    exact isError_of_mem effect hs
  · rw [committed, List.filterMap_append]
    exact (congrArg (committed done ++ ·) (committed_judge_none current)).trans (List.append_nil _)
  · rcases hgiven with hpoisoned | hnone
    · rw [hpoisoned] at hlive
      cases hlive
    · rw [hnone]
      rfl
  · rw [answersOf_flatMap_errors, show rejected ([] : List (Mark Reply Guard)) = [] from rfl,
      List.append_nil, answersDue, answersDue, List.filterMap_append, List.filterMap_append,
      List.append_assoc]
    exact (answersDue_judge (fun _ ↦ none) h.reply_eq).symm.append_left _
  · rcases List.mem_append.mp hv with hold | hnew
    · exact h.verdicts v hold
    · rw [mem_judge_none hnew]
      exact fun e he ↦ by cases he

theorem foldl_announce (staged : List (StagedTimelineAppend Reply Guard))
    (w : TimelineWriter Reply Guard) :
    staged.foldl TimelineWriter.announce w = w.emit (staged.flatMap announceEffects) := by
  induction staged generalizing w with
  | nil => simp [TimelineWriter.emit]
  | cons s staged ih =>
    rw [List.foldl_cons, ih, List.flatMap_cons]
    simp [TimelineWriter.announce, TimelineWriter.emit]

theorem answersOf_announce (staged : List (StagedTimelineAppend Reply Guard)) :
    answersOf (staged.flatMap announceEffects) =
      staged.filterMap fun s ↦ s.reply.map (·, some s.event) := by
  induction staged with
  | nil => rfl
  | cons s staged ih =>
    rw [List.flatMap_cons, answersOf_append, ih, List.filterMap_cons, announceEffects]
    cases s.reply <;> rfl

theorem notifiedOf_announce (staged : List (StagedTimelineAppend Reply Guard)) :
    notifiedOf (staged.flatMap announceEffects) = events staged := by
  induction staged with
  | nil => rfl
  | cons s staged ih =>
    rw [List.flatMap_cons, notifiedOf_append, ih, announceEffects]
    cases s.reply <;> rfl

/-- What applying staged appends to the memory of the server changes. -/
structure Applies (w w' : TimelineWriter Reply Guard) (count : Nat) : Prop where
  wal : w'.wal = w.wal
  file : w'.file = w.file
  committedEnd : w'.committedEnd = w.committedEnd
  nextSeq : w'.nextSeq.toNat = w.nextSeq.toNat + count
  effects : ∃ guards : List Guard, w'.effects = w.effects ++ guards.map .guardCommitted

theorem applies_foldl (fromStr : String → Option Json) (protection : UInt64 → Protection)
    (staged : List (StagedTimelineAppend Reply Guard)) {w : TimelineWriter Reply Guard}
    (hseq : Sequenced (w.nextSeq.toNat + 1) (events staged)) :
    Applies w (staged.foldl (TimelineWriter.commitStaged fromStr protection) w) staged.length := by
  induction staged generalizing w with
  | nil => exact ⟨rfl, rfl, rfl, rfl, [], (List.append_nil _).symm⟩
  | cons s staged ih =>
    obtain ⟨hfirst, hrest⟩ := hseq
    let next := w.commitStaged fromStr protection s
    have hnext : next.nextSeq.toNat = w.nextSeq.toNat + 1 := hfirst
    obtain ⟨hwal, hfile, hend, hcount, guards, heffects⟩ :=
      ih (w := next) (by rw [hnext]; exact hrest)
    refine ⟨hwal, hfile, hend, ?_, s.deleteGuard.toList ++ guards, ?_⟩
    · rw [List.foldl_cons, hcount, hnext, List.length_cons]
      omega
    · rw [List.foldl_cons, heffects, List.map_append, ← List.append_assoc]
      rfl

theorem answersOf_guards (guards : List Guard) :
    answersOf (guards.map .guardCommitted : List (Effect Reply Guard)) = [] := by
  simp [answersOf]

theorem notifiedOf_guards (guards : List Guard) :
    notifiedOf (guards.map .guardCommitted : List (Effect Reply Guard)) = [] := by
  simp [notifiedOf]

/-- Effects of a commit behind those of its guards. -/
theorem mem_commitEffects {guards : List Guard} {staged : List (StagedTimelineAppend Reply Guard)}
    {maxSeq : UInt64} {committedEnd : Nat} {effect : Effect Reply Guard}
    (h : effect ∈ guards.map .guardCommitted ++
      ([.published maxSeq committedEnd] ++ staged.flatMap announceEffects)) :
    effect = .published maxSeq committedEnd ∨ effect ≠ .failed ∧
      ∀ maxSeq committedEnd, effect ≠ .published maxSeq committedEnd := by
  rcases List.mem_append.mp h with hguard | hrest
  · obtain ⟨g, -, rfl⟩ := List.mem_map.mp hguard
    exact .inr ⟨by simp, by simp⟩
  · rcases List.mem_cons.mp hrest with rfl | hannounced
    · exact .inl rfl
    · obtain ⟨s, -, hs⟩ := List.mem_flatMap.mp hannounced
      rcases List.mem_cons.mp hs with rfl | hreply
      · exact .inr ⟨by simp, by simp⟩
      · obtain ⟨r, -, rfl⟩ := List.mem_map.mp hreply
        exact .inr ⟨by simp, by simp⟩

theorem length_eq_of_events {records : List (LogRecord crc)} {xs : List TimelineEvent}
    (h : LogRecord.events records = xs) : records.length = xs.length := by
  rw [← h, LogRecord.events, List.length_map]

/-- The batch is synced: its events are published, notified and answered. -/
theorem commitBatch (h : Inv crc stored done current w) (hlive : w.wal.poisoned = false)
    (fromStr : String → Option Json) (protection : UInt64 → Protection) :
    let wal : WalWriter := { w.wal with committedEnd := w.wal.pendingEnd }
    let applied := (stagedOf current).foldl (TimelineWriter.commitStaged fromStr protection)
      { w with wal := wal, committedEnd := wal.committedEnd }
    Inv crc stored (done ++ judge (fun s ↦ some s.event) current) []
      ((stagedOf current).foldl TimelineWriter.announce applied.publish) := by
  intro wal applied
  obtain ⟨records, hevents, hend, hfront, hfile, hpublished⟩ := h.disk
  obtain ⟨hpending, hcontent⟩ := hfile hlive
  obtain ⟨batch, hbatch, hlines⟩ := exists_staged_records crc h.fits
  have hcommitted : committed (done ++ judge (fun s ↦ some s.event) current) =
      committed done ++ events (stagedOf current) := by
    rw [committed, List.filterMap_append]
    exact congrArg (committed done ++ ·) (committed_judge_event current)
  have hsequenced := numbered_append.mp h.sequenced
  have hall : (stored ++ committed done ++ events (stagedOf current)).length =
      w.nextSeq.toNat + (stagedOf current).length := by
    rw [List.length_append, h.next, events, List.length_map]
  have happlies : Applies { w with wal := wal, committedEnd := wal.committedEnd } applied
      (stagedOf current).length := by
    apply applies_foldl
    have hrest := hsequenced.2
    rw [Nat.succ_iterate, ← h.next, Nat.add_comm] at hrest
    exact hrest
  obtain ⟨hwal, happliedFile, happliedEnd, hnext, guards, heffects⟩ := happlies
  have hnew : LogRecord.content (records ++ batch) = w.file := by
    rw [LogRecord.content_append, hlines, ← hcontent]
  have hsize : wal.committedEnd = (LogRecord.content (records ++ batch)).length := by
    rw [hnew]
    exact hpending
  let more : List (Effect Reply Guard) := guards.map .guardCommitted ++
    ([.published applied.nextSeq applied.committedEnd] ++ (stagedOf current).flatMap announceEffects)
  have hresult : (stagedOf current).foldl TimelineWriter.announce applied.publish =
      { applied with
        snapshot := ⟨applied.warm.maps.tails, applied.nextSeq⟩
        effects := w.effects ++ more } := by
    rw [foldl_announce, TimelineWriter.publish, TimelineWriter.emit, TimelineWriter.emit]
    dsimp only
    rw [heffects, List.append_assoc, List.append_assoc]
  have hrecords : (records ++ batch).length = applied.nextSeq.toNat := by
    rw [List.length_append, length_eq_of_events hevents, length_eq_of_events hbatch, hnext,
      events, List.length_map]
    exact congrArg (· + _) h.next.symm
  have hnot : .failed ∉ w.effects ++ more := by
    intro hmem
    rcases List.mem_append.mp hmem with hold | hnew
    · have hpoisoned := h.failed.mp hold
      rw [hlive] at hpoisoned
      cases hpoisoned
    · rcases mem_commitEffects hnew with hpublish | ⟨hfailed, -⟩
      · cases hpublish
      · exact hfailed rfl
  rw [hresult]
  refine ⟨⟨records ++ batch, ?_, ?_, ?_, fun _ ↦ ⟨?_, ?_⟩, ?_⟩, ?_, fun e he ↦ ?_, ?_, rfl, ?_, ?_, ?_,
    ⟨fun hmem ↦ absurd hmem hnot, fun hp ↦ ?_⟩, quiet_of_not_mem hnot, fun v hv ↦ ?_,
    fun m hm ↦ absurd hm List.not_mem_nil⟩
  · rw [hcommitted, LogRecord.events_append, hevents, hbatch, List.append_assoc]
  · dsimp only
    rw [hwal]
    exact hsize
  · dsimp only
    rw [happliedFile, hnew]
  · dsimp only
    rw [hwal, happliedFile]
    exact hpending
  · dsimp only
    rw [happliedFile, hnew]
    exact (List.append_nil _).symm
  · intro maxSeq committedEnd hmem
    rcases List.mem_append.mp hmem with hold | hnew'
    · obtain ⟨k, hk, hmax, hboundary⟩ := hpublished maxSeq committedEnd hold
      refine ⟨k, ?_, hmax, ?_⟩
      · rw [List.length_append]
        omega
      · rw [List.take_append_of_le_length hk]
        exact hboundary
    · rcases mem_commitEffects hnew' with hpublish | ⟨-, hother⟩
      · cases hpublish
        refine ⟨(records ++ batch).length, Nat.le_refl _, hrecords.symm, ?_⟩
        rw [List.take_length, happliedEnd]
        exact hsize
      · exact absurd rfl (hother maxSeq committedEnd)
  · rw [hcommitted, ← List.append_assoc]
    exact (List.append_nil _).symm ▸ h.sequenced
  · cases he
  · dsimp only
    rw [hnext, hcommitted, ← List.append_assoc, hall]
  · dsimp only
    rw [happliedEnd, hwal]
  · show (answersOf (w.effects ++ more)).Perm _
    rw [answersOf_append, answersOf_append, answersOf_append, answersOf_guards, answersOf_announce,
      show rejected ([] : List (Mark Reply Guard)) = [] from rfl, List.append_nil, answersDue,
      List.filterMap_append]
    have hdue := answersDue_judge (fun s ↦ some s.event) h.reply_eq
    have hbefore := h.answers
    rw [answersDue, List.filterMap_append] at hbefore
    refine (hbefore.append_right _).trans ?_
    rw [List.append_assoc]
    exact hdue.symm.append_left _
  · show notifiedOf (w.effects ++ more) = _
    rw [notifiedOf_append, notifiedOf_append, notifiedOf_append, notifiedOf_guards,
      notifiedOf_announce, h.notified, hcommitted]
    rfl
  · dsimp only at hp
    rw [hwal, show wal.poisoned = w.wal.poisoned from rfl, hlive] at hp
    cases hp
  · rcases List.mem_append.mp hv with hold | hjudged
    · exact h.verdicts v hold
    · obtain ⟨m, hm, rfl⟩ := List.mem_map.mp hjudged
      intro e he
      obtain ⟨s, hs, hevent⟩ := Option.bind_eq_some_iff.mp he
      cases hevent
      exact (h.marks m hm s hs).1

end Inv

/-! ### Runs -/

theorem syncPending_error {wal wal' : WalWriter} {sync : Option String} {err : TimelineError}
    (h : wal.syncPending sync = (.error err, wal')) : wal' = { wal with poisoned := true } := by
  obtain ⟨committedEnd, pendingEnd, poisoned⟩ := wal
  unfold WalWriter.syncPending at h
  split at h
  · next hpoisoned =>
    cases h
    rw [← hpoisoned]
  · split at h
    · cases h
    · cases sync with
      | none => cases h
      | some message =>
        cases h
        rfl

theorem syncPending_ok {wal wal' : WalWriter} {sync : Option String}
    (h : wal.syncPending sync = (.ok (), wal')) :
    wal.poisoned = false ∧ wal' = { wal with committedEnd := wal.pendingEnd } := by
  rcases wal.syncPending_cases sync with ⟨err, poisoned, herror, -⟩ | ⟨hlive, hok⟩
  · rw [h] at herror
    cases herror
  · rw [h] at hok
    cases hok
    exact ⟨hlive, rfl⟩

namespace Inv

variable {crc : Bytes → UInt32} {stored : List TimelineEvent} {done : List (Verdict Reply Guard)}
  {current : List (Mark Reply Guard)} {w : TimelineWriter Reply Guard}
  (fromStr : String → Option Json) (protection : UInt64 → Protection)

/-- A batch is synced or answered with errors. -/
theorem syncAndPublish (h : Inv crc stored done current w) (sync : Option String) :
    ∃ verdict, Inv crc stored (done ++ judge verdict current) []
      (w.syncAndPublish fromStr protection (stagedOf current) sync) := by
  rw [TimelineWriter.syncAndPublish]
  split
  · next hnone =>
    have hfail := h.failBatch (.inr hnone) ""
    rw [hnone] at hfail
    exact ⟨_, hfail⟩
  · cases hsync : w.wal.syncPending sync with
    | mk result wal =>
      cases result with
      | error err =>
        have hpoisoned := h.poison []
        rw [List.append_nil, ← syncPending_error hsync] at hpoisoned
        refine ⟨_, hpoisoned.failBatch (.inl ?_) err.display⟩
        rw [syncPending_error hsync, TimelineWriter.withWal]
        split <;> rfl
      | ok =>
        obtain ⟨hlive, hwal⟩ := syncPending_ok hsync
        rw [hwal]
        exact ⟨_, h.commitBatch hlive fromStr protection⟩

/-- A run finishes the commands of its queue in order. -/
theorem run (h : Inv crc stored done [] w) (queue : List (Arrival Reply Guard))
    (syncs : List (Option String)) :
    ∃ done', Inv crc stored done' [] (w.run fromStr protection crc queue syncs) ∧
      done'.map Prod.fst = done.map Prod.fst ++ queue := by
  fun_induction TimelineWriter.run fromStr protection crc w queue syncs generalizing done with
  | case1 w syncs => exact ⟨done, h, (List.append_nil _).symm⟩
  | case2 w syncs a rx ih =>
    obtain ⟨marks, hinv, hstaged, hqueue⟩ :=
      h.batchLoop 0 (TIMELINE_BATCH_MAX_COMMANDS - 1) a rx
    rw [List.nil_append] at hinv hstaged
    obtain ⟨verdict, hsynced⟩ := hinv.syncAndPublish fromStr protection (syncs.headD none)
    rw [← hstaged] at hsynced
    obtain ⟨done', hrun, hdone⟩ := ih hsynced
    refine ⟨done', hrun, ?_⟩
    rw [hdone, List.map_append, List.append_assoc, hqueue]
    congr 2
    rw [judge, List.map_map]
    rfl

end Inv

/-- A writer is started on a log and takes the commands of a queue, in any batches and with writes
and syncs that fail anywhere. Its committed log is the old one with an event for each of some
commands, in the order of the queue and numbered on from the old ones. Each command that wants an
answer gets one: its event if this is in the log, an error if not. The published snapshot counts
the committed events, and each published one has counted those up to its boundary. The
notifications are the committed events in order. Behind a failed write or sync, and only that
poisons the log writer, no event is answered. -/
theorem commit_protocol (crc : Bytes → UInt32) (os : Fills) (fromStr : String → Option Json)
    (protection : UInt64 → Protection) (records : List (LogRecord crc))
    (hseq : Sequenced 1 (LogRecord.events records)) (queue : List (Arrival Reply Guard))
    (syncs : List (Option String)) :
    let size := (LogRecord.content records).length
    let start : TimelineWriter Reply Guard := .spawn ⟨size, size, false⟩ (LogRecord.content records)
      (.ofEvents fromStr (LogRecord.events records) records.length)
    let w := start.run fromStr protection crc queue syncs
    ∃ verdicts : List (Verdict Reply Guard), verdicts.map Prod.fst = queue ∧
      (∀ v ∈ verdicts, ∀ e ∈ v.2, Carries v.1 e) ∧
      w.wal.readAll crc os (.opened w.file) =
        .ok (LogRecord.events records ++ committed verdicts) ∧
      Sequenced 1 (LogRecord.events records ++ committed verdicts) ∧
      (answersOf w.effects).Perm (answersDue verdicts) ∧
      w.snapshot.maxSeq.toNat = (LogRecord.events records ++ committed verdicts).length ∧
      (∀ maxSeq committedEnd, .published maxSeq committedEnd ∈ w.effects → ∃ events,
        readAllEventsUpTo crc os (.opened w.file) (some committedEnd) = .ok events ∧
          events.length = maxSeq.toNat) ∧
      notifiedOf w.effects = committed verdicts ∧ QuietAfterFailure w.effects ∧
      (.failed ∈ w.effects ↔ w.wal.poisoned = true) := by
  intro size start w
  let stored := LogRecord.events records
  have hlength : stored.length = records.length := List.length_map _
  have hstart : Inv crc stored [] [] start := by
    have hnext : start.nextSeq.toNat = records.length := by
      apply toNat_ofNat_of_le
      rw [← hlength]
      exact hseq.length_le
    refine ⟨⟨records, (List.append_nil _).symm, rfl, List.prefix_rfl, fun _ ↦ ⟨rfl, ?_⟩,
      fun _ _ hmem ↦ absurd hmem List.not_mem_nil⟩, ?_, fun _ he ↦ absurd he List.not_mem_nil, ?_,
      rfl, rfl, List.Perm.refl _, rfl, ⟨fun hmem ↦ absurd hmem List.not_mem_nil, fun hp ↦ ?_⟩,
      List.Pairwise.nil, fun _ hv ↦ absurd hv List.not_mem_nil,
      fun _ hm ↦ absurd hm List.not_mem_nil⟩
    · exact (List.append_nil _).symm
    · show Sequenced 1 (stored ++ [] ++ [])
      rw [List.append_nil, List.append_nil]
      exact hseq
    · show start.nextSeq.toNat = (stored ++ []).length
      rw [hnext, List.append_nil, hlength]
    · cases hp
  obtain ⟨verdicts, hinv, hqueue⟩ := hstart.run fromStr protection queue syncs
  obtain ⟨final, hevents, hend, hfront, -, hpublished⟩ := hinv.disk
  obtain ⟨tail, hfile⟩ := hfront
  refine ⟨verdicts, hqueue, hinv.verdicts, ?_, ?_, ?_, ?_, fun maxSeq committedEnd hmem ↦ ?_,
    hinv.notified, hinv.quiet, hinv.failed⟩
  · show readAllEventsUpTo crc os (.opened w.file) (some w.wal.committedEnd) = _
    rw [hend, readAllEventsUpTo_content hfile.symm, hevents]
  · have hsequenced := hinv.sequenced
    rwa [show events (stagedOf ([] : List (Mark Reply Guard))) = [] from rfl,
      List.append_nil] at hsequenced
  · have hanswers := hinv.answers
    rwa [show rejected ([] : List (Mark Reply Guard)) = [] from rfl, List.append_nil] at hanswers
  · rw [hinv.snapshot]
    exact hinv.next
  · obtain ⟨k, hk, hmax, hboundary⟩ := hpublished maxSeq committedEnd hmem
    refine ⟨LogRecord.events (final.take k), ?_, ?_⟩
    · rw [hboundary]
      have hsplit : w.file = LogRecord.content (final.take k) ++
          (LogRecord.content (final.drop k) ++ tail) := by
        rw [← List.append_assoc, ← LogRecord.content_append, List.take_append_drop]
        exact hfile.symm
      exact readAllEventsUpTo_content hsplit
    · rw [LogRecord.events, List.length_map, List.length_take, hmax]
      omega

/-- A request for an ordinary event. -/
def tickRequest : TimelineAppendRequest Nat := ⟨"run", "cam", "tick", "a", none⟩

theorem commit_protocol_tick :
    let records := [LogRecord.staged crc32 (tickEvent 1) tickEvent_one_fits]
    let size := (LogRecord.content records).length
    let start : TimelineWriter Nat Nat := .spawn ⟨size, size, false⟩ (LogRecord.content records)
      (.ofEvents (fun _ ↦ none) (LogRecord.events records) 1)
    let w := start.run (fun _ ↦ none) (fun _ ↦ RunRegistry.unprotected) crc32
      [⟨.append tickRequest 7, true, 40, .done⟩] [some "disk full"]
    QuietAfterFailure w.effects := by
  have hprotocol := @commit_protocol Nat Nat crc32 Fills.whole (fun _ ↦ none)
    (fun _ ↦ RunRegistry.unprotected)
    [LogRecord.staged crc32 (tickEvent 1) tickEvent_one_fits] ⟨rfl, trivial⟩
    [⟨.append tickRequest 7, true, 40, .done⟩] [some "disk full"]
  obtain ⟨verdicts, -, -, -, -, -, -, -, -, hquiet, -⟩ := hprotocol
  exact hquiet

end Vidarax.Commit
