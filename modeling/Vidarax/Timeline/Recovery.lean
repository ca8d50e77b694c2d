import Vidarax.Timeline.Writer

/-!
# Recovery after a crash

Package `vidarax-core`, `crates/vidarax-core/src/timeline.rs:164–348`.
A session is a run of the writer on an open log in which any write or sync may fail.
After a crash the file is any prefix of what was written that reaches the published
boundary. Opening it again loses no acknowledged event and invents none.
-/

namespace Vidarax.Timeline

open Vidarax.Base

variable {crc : Bytes → UInt32} {os os' : Fills}

/-- An open log and its file, with the events handed to `write_all` and the events a
successful sync acknowledged since the log was opened. -/
structure Session where
  writer : WalWriter
  file : Bytes
  staged : List TimelineEvent
  acknowledged : List TimelineEvent

/-- A call on the writer with the outcome of its system call. -/
inductive WalOp where
  | stage (event : TimelineEvent) (outcome : WriteOutcome)
  | syncPending (failure : Option String)

namespace Session

/-- The session right after the log was opened. -/
def start (writer : WalWriter) (file : Bytes) : Session := ⟨writer, file, [], []⟩

/-- One call. -/
def step (crc : Bytes → UInt32) (s : Session) : WalOp → Session
  | .stage event outcome =>
    let (_, writer, file) := s.writer.stage crc s.file event outcome
    { s with
      writer := writer
      file := file
      staged := if s.writer.Accepts crc event then s.staged ++ [event] else s.staged }
  | .syncPending failure =>
    match s.writer.syncPending failure with
    | (.ok (), writer) => { s with writer := writer, acknowledged := s.staged }
    | (.error _, writer) => { s with writer := writer }

/-- A run of calls. -/
def run (crc : Bytes → UInt32) (s : Session) (ops : List WalOp) : Session :=
  ops.foldl (step crc) s

/-- The file holds the old records and, unless a write failed, exactly the staged ones; the
published boundary ends the acknowledged ones. -/
structure Inv (old records : List (LogRecord crc)) (s : Session) : Prop where
  staged_eq : s.staged = LogRecord.events records
  file_prefix : s.file <+: LogRecord.content (old ++ records)
  file_le : s.file.length ≤ u64Max
  committed : ∃ synced, synced <+: records ∧ s.acknowledged = LogRecord.events synced ∧
    s.writer.committedEnd = (LogRecord.content (old ++ synced)).length
  healthy : s.writer.poisoned = false → s.file = LogRecord.content (old ++ records) ∧
    s.writer.pendingEnd = s.file.length

/-- A log that was just opened meets the invariant. -/
theorem inv_start (old : List (LogRecord crc)) (h : (LogRecord.content old).length ≤ u64Max) :
    Inv old [] (start ⟨(LogRecord.content old).length, (LogRecord.content old).length, false⟩
      (LogRecord.content old)) where
  staged_eq := rfl
  file_prefix := by
    rw [List.append_nil]
    exact List.prefix_rfl
  file_le := h
  committed := ⟨[], List.prefix_rfl, rfl, by rw [List.append_nil]; rfl⟩
  healthy := fun _ ↦ ⟨by rw [List.append_nil]; rfl, rfl⟩

/-- Staging keeps the invariant, whether or not the write succeeds. -/
theorem inv_stage {old records : List (LogRecord crc)} {s : Session} (h : Inv old records s)
    (event : TimelineEvent) (outcome : WriteOutcome) :
    ∃ records', Inv old records' (s.step crc (.stage event outcome)) := by
  by_cases hacc : s.writer.Accepts crc event
  · obtain ⟨hfile, hpending⟩ := h.healthy hacc.1
    let r := LogRecord.staged crc event hacc.2.1
    have hroom : s.file.length + (stagedLine crc event).length ≤ u64Max := by
      rw [← hpending]
      exact hacc.2.2
    have hevents : s.staged ++ [event] = LogRecord.events (records ++ [r]) := by
      rw [h.staged_eq]
      simp [LogRecord.events, r, LogRecord.staged]
    have hcontent : s.file ++ stagedLine crc event = LogRecord.content (old ++ (records ++ [r])) := by
      rw [hfile, ← List.append_assoc, LogRecord.content_append _ [r]]
      simp [LogRecord.content, r, LogRecord.staged, stagedLine]
    have hcommitted : ∃ synced, synced <+: records ++ [r] ∧
        s.acknowledged = LogRecord.events synced ∧
        s.writer.committedEnd = (LogRecord.content (old ++ synced)).length := by
      obtain ⟨synced, hs, ha, hc⟩ := h.committed
      exact ⟨synced, hs.trans (List.prefix_append _ _), ha, hc⟩
    cases outcome with
    | done =>
      refine ⟨records ++ [r], ?_⟩
      simp only [step, WalWriter.stage_done hacc, if_pos hacc]
      exact ⟨hevents, hcontent ▸ List.prefix_rfl, by rwa [List.length_append], hcommitted,
        fun _ ↦ ⟨hcontent, by rw [List.length_append, hpending]⟩⟩
    | failed written message =>
      refine ⟨records ++ [r], ?_⟩
      simp only [step, WalWriter.stage_failed hacc, if_pos hacc]
      refine ⟨hevents, ?_, ?_, hcommitted, fun hp ↦ absurd hp (by simp)⟩
      · rw [← hcontent]
        exact List.prefix_append_right_inj _ |>.mpr (List.take_prefix _ _)
      · rw [List.length_append]
        have := (List.take_prefix written (stagedLine crc event)).length_le
        omega
  · refine ⟨records, ?_⟩
    obtain ⟨err, hstage⟩ := WalWriter.stage_of_not_accepts hacc s.file outcome
    simp only [step, hstage, if_neg hacc]
    exact h

/-- A sync keeps the invariant, whether or not it succeeds. -/
theorem inv_syncPending {old records : List (LogRecord crc)} {s : Session}
    (h : Inv old records s) (failure : Option String) :
    Inv old records (s.step crc (.syncPending failure)) := by
  rcases s.writer.syncPending_cases failure with ⟨err, poisoned, hsync, hpoison⟩ | ⟨hp, hsync⟩
  · simp only [step, hsync]
    refine ⟨h.staged_eq, h.file_prefix, h.file_le, h.committed, fun hp ↦ h.healthy ?_⟩
    cases hw : s.writer.poisoned with
    | false => rfl
    | true => exact absurd (hpoison hw) (by simpa using hp)
  · obtain ⟨hfile, hpending⟩ := h.healthy hp
    simp only [step, hsync]
    exact ⟨h.staged_eq, h.file_prefix, h.file_le,
      ⟨records, List.prefix_rfl, h.staged_eq, by rw [hpending, hfile]⟩, h.healthy⟩

/-- Every run keeps the invariant. -/
theorem inv_run {old records : List (LogRecord crc)} {s : Session} (h : Inv old records s)
    (ops : List WalOp) : ∃ records', Inv old records' (s.run crc ops) := by
  induction ops generalizing s records with
  | nil => exact ⟨records, h⟩
  | cons op ops ih =>
    cases op with
    | stage event outcome =>
      obtain ⟨records', h'⟩ := inv_stage h event outcome
      exact ih h'
    | syncPending failure => exact ih (inv_syncPending h failure)

end Session

/-! ### Opening a log -/

/-- In a working environment recovery keeps the complete records of a log. -/
theorem recover_content (os : Fills) {file tail : Bytes} {records : List (LogRecord crc)}
    (ht : newline ∉ tail) (hsize : tail.length ≤ MAX_LINE_BYTES)
    (hfile : file = LogRecord.content records ++ tail) (hlen : file.length ≤ u64Max) :
    WalWriter.recover crc os .working file =
      (.ok ⟨(LogRecord.content records).length, (LogRecord.content records).length, false⟩,
        LogRecord.content records) := by
  have hscan := scanEvents_none os false ht hsize hfile hlen
  simp only [WalWriter.recover, OpenEnv.call, OpenEnv.working, bind, Except.bind, hscan, scanned]
  by_cases he : tail = []
  · simp [he, hfile]
  · simp [he, hfile]

/-- In a working environment a log opens with its complete records. -/
theorem openWal_content (os : Fills) {disk : Option Bytes} {tail : Bytes} {records : List (LogRecord crc)}
    (ht : newline ∉ tail) (hsize : tail.length ≤ MAX_LINE_BYTES)
    (hfile : disk.getD [] = LogRecord.content records ++ tail)
    (hlen : (disk.getD []).length ≤ u64Max) :
    WalWriter.openWal crc os .working disk =
      (.ok ⟨(LogRecord.content records).length, (LogRecord.content records).length, false⟩,
        some (LogRecord.content records)) := by
  have hrecover := recover_content os ht hsize hfile hlen
  simp only [WalWriter.openWal, hrecover, OpenEnv.call, OpenEnv.working, bind, Except.bind]
  cases disk <;> rfl

private theorem bind_eq_ok {α β : Type} {x : Except TimelineError α}
    {f : α → Except TimelineError β} {b : β} (h : (x >>= f) = .ok b) :
    ∃ a, x = .ok a ∧ f a = .ok b := by
  cases x with
  | error err => cases h
  | ok a => exact ⟨a, rfl, h⟩

/-- Recovery that succeeds leaves the complete records of the file. -/
theorem exists_records_of_recover {env : OpenEnv} {file file' : Bytes} {w : WalWriter}
    (hlen : file.length ≤ u64Max) (h : WalWriter.recover crc os env file = (.ok w, file')) :
    ∃ records : List (LogRecord crc), file' = LogRecord.content records ∧ file' <+: file ∧
      w = ⟨file'.length, file'.length, false⟩ := by
  unfold WalWriter.recover at h
  split at h
  · cases h
  · next scan hscan =>
    obtain ⟨-, -, hscan⟩ := bind_eq_ok hscan
    obtain ⟨records, tail, ht, hsize, hfile⟩ := exists_records_of_scanEvents hlen hscan
    have hres := (scanEvents_none os false ht hsize hfile hlen).symm.trans hscan
    rw [Except.ok.injEq] at hres
    have hcut : (if scan.incompleteTail then file.take scan.lastCompleteEnd else file) =
        LogRecord.content records := by
      rw [← hres, hfile]
      by_cases he : tail = [] <;> simp [scanned, he]
    split at h
    · cases h
    · simp only [hcut] at h
      split at h
      · cases h
      · simp only [Prod.mk.injEq, Except.ok.injEq] at h
        obtain ⟨rfl, rfl⟩ := h
        exact ⟨records, rfl, hfile ▸ List.prefix_append _ _, rfl⟩

/-- A log that opens holds records only, and its boundaries are its length. -/
theorem exists_records_of_openWal {env : OpenEnv} {disk : Option Bytes} {file : Bytes}
    {w : WalWriter} (hlen : (disk.getD []).length ≤ u64Max)
    (h : WalWriter.openWal crc os env disk = (.ok w, some file)) :
    ∃ records : List (LogRecord crc), file = LogRecord.content records ∧
      file <+: disk.getD [] ∧ w = ⟨file.length, file.length, false⟩ := by
  unfold WalWriter.openWal at h
  split at h
  · cases h
  · split at h
    · cases h
    · simp only [Prod.mk.injEq, Option.some.injEq] at h
      exact exists_records_of_recover hlen (Prod.ext h.1 h.2)

/-! ### Crash safety -/

/-- Whatever run the writer makes on an open log, with any writes and syncs failing, and
whatever prefix of the file that reaches the published boundary a crash leaves: the log
opens again at a record boundary, and what is then read is what the log held before the
run followed by a prefix of the staged events that has every acknowledged event. -/
theorem crash_recovery (crc : Bytes → UInt32) (os os' : Fills) (env : OpenEnv)
    (disk : Option Bytes) (hdisk : (disk.getD []).length ≤ u64Max) (w : WalWriter) (file : Bytes)
    (hopen : WalWriter.openWal crc os env disk = (.ok w, some file)) (ops : List WalOp)
    (image : Bytes) (himage : image <+: ((Session.start w file).run crc ops).file)
    (hcommitted : ((Session.start w file).run crc ops).writer.committedEnd ≤ image.length) :
    ∃ old recovered w' file',
      w.readAll crc os (.opened file) = .ok old ∧ (disk = none → old = []) ∧
      WalWriter.openWal crc os' .working (some image) = (.ok w', some file') ∧
      file' <+: image ∧ newline ∉ image.drop file'.length ∧
      (file' = [] ∨ file'.getLast? = some newline) ∧
      w'.readAll crc os' (.opened file') = .ok (old ++ recovered) ∧
      ((Session.start w file).run crc ops).acknowledged <+: recovered ∧
      recovered <+: ((Session.start w file).run crc ops).staged := by
  obtain ⟨old, rfl, hold, rfl⟩ := exists_records_of_openWal hdisk hopen
  have hstart := Session.inv_start old (Nat.le_trans hold.length_le hdisk)
  obtain ⟨records, hinv⟩ := Session.inv_run hstart ops
  obtain ⟨synced, hsynced, hack, hend⟩ := hinv.committed
  -- the image is a number of whole records and a part of the next one
  have hp : image <+: LogRecord.content (old ++ records) ++ [] := by
    rw [List.append_nil]
    exact himage.trans hinv.file_prefix
  obtain ⟨k, rest, hcut, hn, hsize⟩ := LogRecord.exists_take_of_prefix (by simp) (by simp) hp
  have hreach : LogRecord.content (old ++ synced) <+: image :=
    List.prefix_of_prefix_length_le
      (LogRecord.content_mono ((List.prefix_append_right_inj old).mpr hsynced))
      (by simpa using hp) (hend ▸ hcommitted)
  have hkept : old ++ synced <+: (old ++ records).take k :=
    LogRecord.prefix_of_content hn (hcut ▸ hreach)
  obtain ⟨recovered, hrec⟩ := (List.prefix_append old synced).trans hkept
  rw [← hrec] at hcut hkept
  have hsync : synced <+: recovered := (List.prefix_append_right_inj old).mp hkept
  have hrecovered : recovered <+: records :=
    (List.prefix_append_right_inj old).mp (hrec ▸ List.take_prefix _ _)
  have himage_le : image.length ≤ u64Max := Nat.le_trans himage.length_le hinv.file_le
  have hreopen : WalWriter.openWal crc os' .working (some image) = _ :=
    openWal_content os' hn hsize hcut himage_le
  refine ⟨LogRecord.events old, LogRecord.events recovered, _, _,
    readAllEventsUpTo_content (List.append_nil _).symm, ?_,
    hreopen, ?_, ?_, ?_, ?_, ?_, ?_⟩
  · rintro rfl
    rw [LogRecord.content_eq_nil.mp (List.prefix_nil.mp hold)]
    rfl
  · exact hcut ▸ List.prefix_append _ _
  · rw [hcut, List.drop_left]
    exact hn
  · exact or_iff_not_imp_left.mpr LogRecord.getLast?_content
  · rw [← LogRecord.events_append]
    exact readAllEventsUpTo_content (List.append_nil _).symm
  · rw [hack]
    exact hsync.map _
  · rw [hinv.staged_eq]
    exact hrecovered.map _

/-- An event of the sample run. -/
def tornEvent (seq : UInt64) : TimelineEvent := ⟨seq, "run", "cam", 40, "tick", "größe"⟩

/-- Calls on a new log: a synced event, a staged one, and one whose write fails. -/
def tornOps : List WalOp :=
  [.stage (tornEvent 1) .done, .syncPending none, .stage (tornEvent 2) .done,
    .stage (tornEvent 3) (.failed 11 "no space left on device"), .syncPending none]

/-- A crash inside the second record of a new log keeps the synced event. -/
theorem crash_recovery_torn :
    ∃ w' file' recovered,
      WalWriter.openWal crc32 Fills.whole .working
        (some (((Session.start ⟨0, 0, false⟩ []).run crc32 tornOps).file.take 75)) =
        (.ok w', some file') ∧
      w'.readAll crc32 Fills.whole (.opened file') = .ok recovered ∧
      [tornEvent 1] <+: recovered ∧ recovered <+: [tornEvent 1, tornEvent 2, tornEvent 3] := by
  have hempty : (none : Option Bytes).getD [] =
      LogRecord.content ([] : List (LogRecord crc32)) ++ [] := rfl
  have hopen : WalWriter.openWal crc32 Fills.whole .working none =
      (.ok ⟨0, 0, false⟩, some []) :=
    openWal_content Fills.whole List.not_mem_nil (Nat.zero_le _) hempty (Nat.zero_le _)
  have hrun : ((Session.start ⟨0, 0, false⟩ []).run crc32 tornOps).acknowledged = [tornEvent 1] ∧
      ((Session.start ⟨0, 0, false⟩ []).run crc32 tornOps).staged =
        [tornEvent 1, tornEvent 2, tornEvent 3] := by
    decide +kernel
  obtain ⟨old, recovered, w', file', -, hold, hreopen, -, -, -, hread, hack, hstaged⟩ :=
    crash_recovery crc32 Fills.whole Fills.whole .working none (by simp) ⟨0, 0, false⟩ [] hopen
      tornOps _ (List.take_prefix 75 _) (by decide +kernel)
  rw [hold rfl, List.nil_append] at hread
  exact ⟨w', file', recovered, hreopen, hread, hrun.1 ▸ hack, hrun.2 ▸ hstaged⟩

end Vidarax.Timeline
