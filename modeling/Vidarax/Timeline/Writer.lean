import Vidarax.Base.Crc32
import Vidarax.Timeline.Reader

/-!
# The log writer

Package `vidarax-core`, `crates/vidarax-core/src/timeline.rs:153–348`.
The writer appends one framed record at a time and acknowledges records only when a
sync succeeds. A failed write or sync poisons it until the log is opened again. The
outcomes of the system calls are inputs of the operations.
-/

namespace Vidarax.Timeline

open Vidarax.Base

variable {crc : Bytes → UInt32} {os : Fills}

/-- The state of an open log; `timeline.rs:153`. -/
structure WalWriter where
  committedEnd : Nat
  pendingEnd : Nat
  poisoned : Bool
  deriving DecidableEq

/-- How `write_all` ends: with every byte appended, or with an error after some of them. -/
inductive WriteOutcome where
  | done
  | failed (written : Nat) (message : String)

/-- Rejection by a poisoned writer. -/
def poisonedWriter : TimelineError := .io "timeline WAL writer is poisoned; reopen for recovery"

namespace WalWriter

/-- Append one record without acknowledging it; `timeline.rs:254`. -/
def stage (crc : Bytes → UInt32) (w : WalWriter) (file : Bytes) (event : TimelineEvent)
    (outcome : WriteOutcome) : Except TimelineError Nat × WalWriter × Bytes :=
  if w.poisoned then (.error poisonedWriter, w, file)
  else
    match encodedLenFields event with
    | .error err => (.error err, w, file)
    | .ok bodyLen =>
      let line := recordLine crc bodyLen event
      let nextEnd := w.pendingEnd + line.length
      if nextEnd > u64Max then (.error (.io "timeline WAL byte offset overflow"), w, file)
      else
        match outcome with
        | .failed written message =>
          (.error (.io message), { w with poisoned := true }, file ++ line.take written)
        | .done => (.ok line.length, { w with pendingEnd := nextEnd }, file ++ line)

/-- Acknowledge all staged records with one sync, which may fail; `timeline.rs:306`. -/
def syncPending (w : WalWriter) (failure : Option String) : Except TimelineError Unit × WalWriter :=
  if w.poisoned then (.error poisonedWriter, w)
  else if w.pendingEnd = w.committedEnd then (.ok (), w)
  else
    match failure with
    | some message => (.error (.io message), { w with poisoned := true })
    | none => (.ok (), { w with committedEnd := w.pendingEnd })

/-- Read the acknowledged events; `timeline.rs:345`. -/
def readAll (crc : Bytes → UInt32) (os : Fills) (w : WalWriter) (access : FileAccess) :
    Except TimelineError (List TimelineEvent) :=
  readAllEventsUpTo crc os access (some w.committedEnd)

end WalWriter

/-! ### Opening -/

/-- The system calls of `open` that can fail, in the order they are made. -/
inductive OpenCall where
  | fileName
  | canonicalize
  | rejectSymlinks
  | openLockFile
  | lockSidecar
  | openFile
  | lockInode
  | syncNewFile
  | syncParentDirectory
  | cloneFile
  | setLen
  | syncFile
  | metadata
  deriving DecidableEq

/-- The text a failed call is reported with. -/
def OpenCall.report : OpenCall → String → String
  | .fileName, _ => "WAL path has no file name"
  | .lockSidecar, error => s!"timeline WAL already owned or cannot be locked: {error}"
  | .lockInode, error => s!"timeline WAL inode already owned or cannot be locked: {error}"
  | _, error => error

/-- The message of each failing call. -/
abbrev OpenEnv : Type := OpenCall → Option String

/-- An environment in which no call fails. -/
def OpenEnv.working : OpenEnv := fun _ ↦ none

/-- Make a call. -/
def OpenEnv.call (env : OpenEnv) (c : OpenCall) : Except TimelineError Unit :=
  match env c with
  | none => .ok ()
  | some error => .error (.io (c.report error))

/-- Recovery of the file at `open`: an incomplete last line is cut off, and the rest is
synced before it is exposed; `timeline.rs:225`. -/
def WalWriter.recover (crc : Bytes → UInt32) (os : Fills) (env : OpenEnv) (file : Bytes) :
    Except TimelineError WalWriter × Bytes :=
  match (do env.call .cloneFile; scanEvents crc os file none false) with
  | .error err => (.error err, file)
  | .ok scan =>
    match (if scan.incompleteTail then env.call .setLen else .ok ()) with
    | .error err => (.error err, file)
    | .ok () =>
      let file := if scan.incompleteTail then file.take scan.lastCompleteEnd else file
      match (do env.call .syncFile; env.call .metadata) with
      | .error err => (.error err, file)
      | .ok () => (.ok ⟨file.length, file.length, false⟩, file)

/-- Lock, create if missing and recover the log; `timeline.rs:165`. The second component
is the file afterwards, if there is one. -/
def WalWriter.openWal (crc : Bytes → UInt32) (os : Fills) (env : OpenEnv) (disk : Option Bytes) :
    Except TimelineError WalWriter × Option Bytes :=
  match (do
      env.call .fileName
      env.call .canonicalize
      env.call .rejectSymlinks
      env.call .openLockFile
      env.call .lockSidecar
      env.call .openFile : Except TimelineError Unit) with
  | .error err => (.error err, disk)
  | .ok () =>
    let file := disk.getD []
    match (do
        env.call .lockInode
        if disk.isNone then env.call .syncNewFile
        env.call .syncParentDirectory : Except TimelineError Unit) with
    | .error err => (.error err, some file)
    | .ok () =>
      let (result, file) := WalWriter.recover crc os env file
      (result, some file)

/-! ### What the operations do -/

/-- The bytes of a staged event. -/
def stagedLine (crc : Bytes → UInt32) (e : TimelineEvent) : Bytes :=
  recordLine crc e.body.length e

/-- The event passes every check that `stage` makes before it writes. -/
def WalWriter.Accepts (crc : Bytes → UInt32) (w : WalWriter) (e : TimelineEvent) : Prop :=
  w.poisoned = false ∧ e.body.length ≤ MAX_RECORD_BYTES ∧
    w.pendingEnd + (stagedLine crc e).length ≤ u64Max

instance (w : WalWriter) (e : TimelineEvent) : Decidable (w.Accepts crc e) :=
  inferInstanceAs (Decidable (_ ∧ _ ∧ _))

/-- Staging an event that fails a check changes nothing. -/
theorem WalWriter.stage_of_not_accepts {w : WalWriter} {e : TimelineEvent}
    (h : ¬ w.Accepts crc e) (file : Bytes) (outcome : WriteOutcome) :
    ∃ err, w.stage crc file e outcome = (.error err, w, file) := by
  unfold stage
  cases hp : w.poisoned with
  | true => exact ⟨poisonedWriter, rfl⟩
  | false =>
    rw [encodedLenFields_eq]
    by_cases hs : e.body.length ≤ MAX_RECORD_BYTES
    · have hroom : w.pendingEnd + (recordLine crc e.body.length e).length > u64Max :=
        Nat.lt_of_not_le fun hle ↦ h ⟨hp, hs, hle⟩
      rw [if_pos hs]
      exact ⟨.io "timeline WAL byte offset overflow", by simp [hroom]⟩
    · rw [if_neg hs]
      exact ⟨oversizeRecord, rfl⟩

/-- Staging an accepted event appends its line. -/
theorem WalWriter.stage_done {w : WalWriter} {e : TimelineEvent} (h : w.Accepts crc e)
    (file : Bytes) :
    w.stage crc file e .done =
      (.ok (stagedLine crc e).length,
        { w with pendingEnd := w.pendingEnd + (stagedLine crc e).length },
        file ++ stagedLine crc e) := by
  obtain ⟨hp, hs, hroom⟩ := h
  have hroom' : ¬ w.pendingEnd + (recordLine crc e.body.length e).length > u64Max :=
    Nat.not_lt.mpr hroom
  unfold stage
  rw [encodedLenFields_eq, if_pos hs, hp]
  simp only [Bool.false_eq_true, if_false, hroom', stagedLine]

/-- A failed write of an accepted event leaves a part of its line and poisons the writer. -/
theorem WalWriter.stage_failed {w : WalWriter} {e : TimelineEvent} (h : w.Accepts crc e)
    (file : Bytes) (written : Nat) (message : String) :
    w.stage crc file e (.failed written message) =
      (.error (.io message), { w with poisoned := true },
        file ++ (stagedLine crc e).take written) := by
  obtain ⟨hp, hs, hroom⟩ := h
  have hroom' : ¬ w.pendingEnd + (recordLine crc e.body.length e).length > u64Max :=
    Nat.not_lt.mpr hroom
  unfold stage
  rw [encodedLenFields_eq, if_pos hs, hp]
  simp only [Bool.false_eq_true, if_false, hroom', stagedLine]

/-- A sync leaves the file and the pending end alone. It either acknowledges everything
staged or leaves the published boundary in place. -/
theorem WalWriter.syncPending_cases (w : WalWriter) (failure : Option String) :
    (∃ err poisoned, w.syncPending failure = (.error err, { w with poisoned := poisoned }) ∧
      (w.poisoned = true → poisoned = true)) ∨
      (w.poisoned = false ∧
        w.syncPending failure = (.ok (), { w with committedEnd := w.pendingEnd })) := by
  obtain ⟨committedEnd, pendingEnd, poisoned⟩ := w
  cases poisoned with
  | true => exact Or.inl ⟨poisonedWriter, true, rfl, fun _ ↦ rfl⟩
  | false =>
    by_cases he : pendingEnd = committedEnd
    · subst he
      exact Or.inr ⟨rfl, by simp [syncPending]⟩
    · cases failure with
      | none => exact Or.inr ⟨rfl, by simp [syncPending, he]⟩
      | some message => exact Or.inl ⟨.io message, true, by simp [syncPending, he], fun _ ↦ rfl⟩

/-! ### Round trip -/

/-- The size computed without building the line is the size of the line. -/
theorem framedLen_eq {e : TimelineEvent} (h : e.body.length ≤ MAX_RECORD_BYTES) :
    e.framedLen = .ok (stagedLine crc e).length := by
  rw [TimelineEvent.framedLen, encodedLenFields_eq, if_pos h, stagedLine,
    length_recordLine crc _ e rfl]
  rfl

/-- A staged line is within the line limit. -/
theorem length_stagedLine_le {e : TimelineEvent} (h : e.body.length ≤ MAX_RECORD_BYTES) :
    (stagedLine crc e).length ≤ MAX_LINE_BYTES := by
  rw [stagedLine, length_recordLine crc _ e rfl]
  exact framedLenForBody_le h

/-- A staged line has one newline, its last byte. -/
theorem count_newline_stagedLine (crc : Bytes → UInt32) (e : TimelineEvent) :
    (stagedLine crc e).count newline = 1 ∧ (stagedLine crc e).getLast? = some newline := by
  obtain ⟨front, hf, hn⟩ := isFrame_recordLine crc e.body.length e
  rw [stagedLine, hf]
  simp [List.count_append, List.count_eq_zero_of_not_mem hn]

/-- Reading a concatenation of log records line by line gives their events. -/
theorem scanLoop_content (records : List (LogRecord crc)) {reader : BufReader}
    (h : reader.rest = LogRecord.content records) :
    scanLoop crc true reader 0 0 [] =
      .ok (⟨LogRecord.events records, (LogRecord.content records).length, false⟩,
        (LogRecord.content records).length) := by
  rw [scanLoop_eq true (by simp) (by simp) (h.trans (List.append_nil _).symm) 0 [], h]
  simp [scanned]

/-- The records of staged events. -/
theorem exists_staged_records (crc : Bytes → UInt32) {events : List TimelineEvent}
    (h : ∀ e ∈ events, e.body.length ≤ MAX_RECORD_BYTES) :
    ∃ records : List (LogRecord crc), LogRecord.events records = events ∧
      LogRecord.content records = (events.map (stagedLine crc)).flatten := by
  induction events with
  | nil => exact ⟨[], rfl, rfl⟩
  | cons e events ih =>
    obtain ⟨records, he, hc⟩ := ih fun x hx ↦ h x (by simp [hx])
    refine ⟨LogRecord.staged crc e (h e (by simp)) :: records, ?_, ?_⟩
    · exact congrArg (e :: ·) he
    · rw [LogRecord.content_cons, hc]
      rfl

/-- What `stage` writes for events within the record limit: each line has the size computed
in advance and ends in its only newline, reading the line back gives the event, and
reading any concatenation of such lines gives the list of events. -/
theorem stage_round_trip (crc : Bytes → UInt32) (events : List TimelineEvent)
    (h : ∀ e ∈ events, e.body.length ≤ MAX_RECORD_BYTES) :
    (∀ e ∈ events, ∃ line : Bytes,
      (∀ (w : WalWriter) (file : Bytes), w.poisoned = false →
        w.pendingEnd + line.length ≤ u64Max →
        w.stage crc file e .done =
          (.ok line.length, { w with pendingEnd := w.pendingEnd + line.length }, file ++ line)) ∧
      line.count newline = 1 ∧ line.getLast? = some newline ∧
      e.framedLen = .ok line.length ∧
      (∀ (reader : BufReader) (more : Bytes) (offset : Nat), reader.rest = line ++ more →
        ∃ reader', readBoundedLine reader offset = .ok (line, true, reader') ∧
          reader'.rest = more ∧ decodeRecord crc line.dropLast offset = .ok e)) ∧
    ∀ (reader : BufReader),
      reader.rest = (events.map fun e ↦ (WalWriter.stage crc ⟨0, 0, false⟩ [] e .done).2.2).flatten →
      scanLoop crc true reader 0 0 [] =
        .ok (⟨events, reader.rest.length, false⟩, reader.rest.length) := by
  constructor
  · intro e he
    let r := LogRecord.staged crc e (h e he)
    refine ⟨stagedLine crc e, fun w file hp hroom ↦ WalWriter.stage_done ⟨hp, h e he, hroom⟩ file,
      (count_newline_stagedLine crc e).1, (count_newline_stagedLine crc e).2,
      framedLen_eq (h e he), fun reader more offset hrest ↦ ?_⟩
    obtain ⟨reader', hread, hmore⟩ := readBoundedLine_record r hrest offset
    exact ⟨reader', hread, hmore, r.decodes offset⟩
  · intro reader hrest
    have hline (e : TimelineEvent) (he : e ∈ events) :
        (WalWriter.stage crc ⟨0, 0, false⟩ [] e .done).2.2 = stagedLine crc e := by
      have hacc : WalWriter.Accepts crc ⟨0, 0, false⟩ e := by
        refine ⟨rfl, h e he, ?_⟩
        rw [Nat.zero_add]
        exact Nat.le_trans (length_stagedLine_le (h e he)) (by decide)
      rw [WalWriter.stage_done hacc, List.nil_append]
    obtain ⟨records, hev, hcontent⟩ := exists_staged_records crc h
    rw [List.map_congr_left hline, ← hcontent] at hrest
    rw [scanLoop_content records hrest, hev, hrest]

/-- Events with every escaped byte, a carriage return and text beyond ASCII. -/
def escapedEvents : List TimelineEvent :=
  [⟨0, "run\\t", "cam\t1", 10, "line\nfeed", "\\\\n\r\n"⟩, ⟨7, "", "größe", 25, "→", "\t\t\\"⟩]

/-- The events with escapes are read back from their staged lines. -/
theorem stage_round_trip_escaped :
    scanLoop crc32 true (BufReader.single
      (escapedEvents.map fun e ↦ (WalWriter.stage crc32 ⟨0, 0, false⟩ [] e .done).2.2).flatten)
      0 0 [] =
      .ok (⟨escapedEvents, (escapedEvents.map fun e ↦
          (WalWriter.stage crc32 ⟨0, 0, false⟩ [] e .done).2.2).flatten.length, false⟩,
        (escapedEvents.map fun e ↦
          (WalWriter.stage crc32 ⟨0, 0, false⟩ [] e .done).2.2).flatten.length) := by
  have hread := (stage_round_trip crc32 escapedEvents (by decide +kernel)).2
    (BufReader.single _) (BufReader.rest_single _)
  rwa [BufReader.rest_single] at hread

end Vidarax.Timeline
