import Vidarax.Base.Matching
import Vidarax.Timeline.LogRecord

/-!
# Reading a log

Package `vidarax-core`, `crates/vidarax-core/src/timeline.rs:368–387,457–508,599–699`.
A scan reads a whole log and reports an incomplete last line. A cursor read returns
one page of events after a sequence number, and the byte offset to continue from.
-/

namespace Vidarax.Timeline

open Vidarax.Base

variable {crc : Bytes → UInt32} {os : Fills}

/-- Result of a scan; `timeline.rs:457`. -/
structure ScanResult where
  events : List TimelineEvent
  lastCompleteEnd : Nat
  incompleteTail : Bool
  deriving DecidableEq

/-- Loop of `scan_events`; the second component is the offset it ended at. -/
def scanLoop (crc : Bytes → UInt32) (collectEvents : Bool) (reader : BufReader)
    (offset lastCompleteEnd : Nat) (out : List TimelineEvent) :
    Except TimelineError (ScanResult × Nat) :=
  match _h : readBoundedLine reader offset with
  | .error err => .error err
  | .ok (bytes, terminated, reader') =>
    if _hb : bytes = [] then .ok (⟨out, lastCompleteEnd, false⟩, offset)
    else if terminated = false then .ok (⟨out, lastCompleteEnd, true⟩, offset + bytes.length)
    else
      match decodeRecord crc bytes.dropLast offset with
      | .error err => .error err
      | .ok event =>
        scanLoop crc collectEvents reader' (offset + bytes.length) (offset + bytes.length)
          (if collectEvents then out ++ [event] else out)
termination_by reader.rest.length
decreasing_by exact readBoundedLine_decreases _h _hb

/-- Rejection of a boundary inside a record. -/
def unalignedBoundary (offset boundary : Nat) : TimelineError :=
  .corrupt offset s!"published byte boundary {boundary} does not end at a complete record"

/-- Rejection of a boundary that the file does not reach. -/
def missingBoundary (offset boundary : Nat) : TimelineError :=
  .corrupt offset s!"file ends before published byte boundary {boundary}"

/-- Read a log up to a published boundary, or to its end; `timeline.rs:463`. -/
def scanEvents (crc : Bytes → UInt32) (os : Fills) (file : Bytes) (committedEnd : Option Nat)
    (collectEvents : Bool) : Except TimelineError ScanResult := do
  let reader := os.reader (file.take (committedEnd.getD u64Max))
  let (scan, offset) ← scanLoop crc collectEvents reader 0 0 []
  match committedEnd with
  | none => return scan
  | some expectedEnd =>
    if scan.incompleteTail ∨ offset ≠ expectedEnd then
      .error (unalignedBoundary offset expectedEnd)
    else return scan

/-- What opening the log file for reading gives. -/
inductive FileAccess where
  | notFound (message : String)
  | failed (message : String)
  | opened (contents : Bytes)

/-- All events up to a published boundary; `timeline.rs:372`. -/
def readAllEventsUpTo (crc : Bytes → UInt32) (os : Fills) (access : FileAccess)
    (committedEnd : Option Nat) : Except TimelineError (List TimelineEvent) :=
  match access with
  | .notFound message => if committedEnd.getD 0 = 0 then .ok [] else .error (.io message)
  | .failed message => .error (.io message)
  | .opened file => (scanEvents crc os file committedEnd true).map ScanResult.events

/-- Loop of `read_events_after_from_up_to`. -/
def pageLoop (crc : Bytes → UInt32) (committedEnd : Option Nat) (endOffset : Nat)
    (afterSeq : UInt64) (limit : Nat) (reader : BufReader) (nextOffset : Nat)
    (out : List TimelineEvent) : Except TimelineError (List TimelineEvent × Nat) :=
  if limit ≤ out.length then .ok (out, nextOffset)
  else
    match _h : readBoundedLine reader nextOffset with
    | .error err => .error err
    | .ok (bytes, terminated, reader') =>
      if _hb : bytes = [] then
        if nextOffset ≠ endOffset then .error (missingBoundary nextOffset endOffset)
        else .ok (out, nextOffset)
      else if terminated = false then
        if committedEnd.isSome then .error (unalignedBoundary nextOffset endOffset)
        else .ok (out, nextOffset)
      else
        match decodeRecord crc bytes.dropLast nextOffset with
        | .error err => .error err
        | .ok event =>
          pageLoop crc committedEnd endOffset afterSeq limit reader' (nextOffset + bytes.length)
            (if event.seq > afterSeq then out ++ [event] else out)
termination_by reader.rest.length
decreasing_by exact readBoundedLine_decreases _h _hb

/-- At most `limit` events newer than `afterSeq`, continuing at a byte offset that an earlier
call returned; `timeline.rs:639`. -/
def readEventsAfterFromUpTo (crc : Bytes → UInt32) (os : Fills) (access : FileAccess)
    (afterSeq : UInt64) (limit offset : Nat) (committedEnd : Option Nat) :
    Except TimelineError (List TimelineEvent × Nat) :=
  if limit = 0 then .ok ([], min offset (committedEnd.getD offset))
  else
    match access with
    | .notFound message =>
      if committedEnd.getD 0 = 0 then .ok ([], min offset (committedEnd.getD offset))
      else .error (.io message)
    | .failed message => .error (.io message)
    | .opened file =>
      let endOffset := committedEnd.getD file.length
      if endOffset > file.length then .error (missingBoundary file.length endOffset)
      else
        let start := if offset ≤ endOffset then offset else 0
        let reader := os.reader ((file.drop start).take (endOffset - start))
        pageLoop crc committedEnd endOffset afterSeq limit reader start []

/-- At most `limit` events newer than `afterSeq`; `timeline.rs:613`. -/
def readEventsAfterUpTo (crc : Bytes → UInt32) (os : Fills) (access : FileAccess)
    (afterSeq : UInt64) (limit : Nat) (committedEnd : Option Nat) :
    Except TimelineError (List TimelineEvent) :=
  (readEventsAfterFromUpTo crc os access afterSeq limit 0 committedEnd).map Prod.fst

/-! ### Scans -/

/-- The result of scanning records with a terminator-free rest behind them. -/
def scanned (collectEvents : Bool) (out : List TimelineEvent) (offset : Nat)
    (records : List (LogRecord crc)) (tail : Bytes) : ScanResult where
  events := if collectEvents then out ++ LogRecord.events records else out
  lastCompleteEnd := offset + (LogRecord.content records).length
  incompleteTail := tail ≠ []

/-- The scan loop reads every record and stops at the rest. -/
theorem scanLoop_eq (collectEvents : Bool) {records : List (LogRecord crc)} {tail : Bytes}
    (ht : newline ∉ tail) (hsize : tail.length ≤ MAX_LINE_BYTES) {reader : BufReader}
    (h : reader.rest = LogRecord.content records ++ tail) (offset : Nat)
    (out : List TimelineEvent) :
    scanLoop crc collectEvents reader offset offset out =
      .ok (scanned collectEvents out offset records tail,
        offset + reader.rest.length) := by
  induction records generalizing reader offset out with
  | nil =>
    have hr : reader.rest = tail := by simpa using h
    obtain ⟨reader', hread⟩ := readBoundedLine_tail (hr ▸ ht) (hr ▸ hsize) offset
    rw [scanLoop, hread]
    by_cases he : tail = []
    · simp [scanned, hr, he, LogRecord.events]
    · simp [scanned, hr, he, LogRecord.events]
  | cons r records ih =>
    rw [LogRecord.content_cons, List.append_assoc] at h
    obtain ⟨reader', hread, hrest⟩ := readBoundedLine_record r h offset
    rw [scanLoop, hread]
    simp only [r.frame.ne_nil, dite_false, Bool.true_eq_false, if_false, r.decodes offset]
    rw [ih hrest, hrest, h, List.length_append]
    cases collectEvents <;>
      simp [scanned, LogRecord.events, Nat.add_assoc]

/-- Whatever a scan accepts is a log with a terminator-free rest. -/
theorem exists_records_of_scanLoop {collectEvents : Bool} {reader : BufReader}
    {offset last : Nat} {out : List TimelineEvent} {res : ScanResult × Nat}
    (h : scanLoop crc collectEvents reader offset last out = .ok res) :
    ∃ (records : List (LogRecord crc)) (tail : Bytes), newline ∉ tail ∧
      tail.length ≤ MAX_LINE_BYTES ∧ reader.rest = LogRecord.content records ++ tail := by
  fun_induction scanLoop crc collectEvents reader offset last out with
  | case1 => cases h
  | case2 reader offset last out terminated reader' hread =>
    obtain ⟨-, hrest, ⟨-, hframe⟩ | ⟨-, -, hend⟩⟩ := readBoundedLine_cases hread
    · exact absurd rfl hframe.ne_nil
    · exact ⟨[], [], by simp, by simp, by simpa [hend] using hrest⟩
  | case3 reader offset last out bytes reader' hne hread =>
    obtain ⟨hsize, hrest, ⟨ht, -⟩ | ⟨-, hn, hend⟩⟩ := readBoundedLine_cases hread
    · cases ht
    · exact ⟨[], bytes, hn, hsize, by simpa [hend] using hrest⟩
  | case4 => cases h
  | case5 reader offset last out bytes terminated reader' hread hne hterm event hdec ih =>
    obtain ⟨records, tail, hn, htail, hcontent⟩ := ih (by simpa using h)
    obtain ⟨hsize, hrest, ⟨-, hframe⟩ | ⟨ht, -⟩⟩ := readBoundedLine_cases hread
    · let r : LogRecord crc := ⟨bytes, event, hframe, hsize, decodeRecord_offset hdec⟩
      refine ⟨r :: records, tail, hn, htail, ?_⟩
      rw [hrest, hcontent, LogRecord.content_cons, List.append_assoc]
    · exact absurd ht hterm

/-- Scanning a log without a boundary. -/
theorem scanEvents_none (os : Fills) (collectEvents : Bool) {file : Bytes} {records : List (LogRecord crc)}
    {tail : Bytes} (ht : newline ∉ tail) (hsize : tail.length ≤ MAX_LINE_BYTES)
    (hfile : file = LogRecord.content records ++ tail) (hlen : file.length ≤ u64Max) :
    scanEvents crc os file none collectEvents = .ok (scanned collectEvents [] 0 records tail) := by
  have hrest : (os.reader (file.take u64Max)).rest = LogRecord.content records ++ tail := by
    rw [os.rest_reader, List.take_of_length_le hlen, hfile]
  simp only [scanEvents, Option.getD_none, scanLoop_eq collectEvents ht hsize hrest, bind, Except.bind]
  rfl

/-- Scanning up to the end of a record reads the records before it, whatever follows. -/
theorem scanEvents_some {collectEvents : Bool} {file more : Bytes}
    {records : List (LogRecord crc)} (hfile : file = LogRecord.content records ++ more) :
    scanEvents crc os file (some (LogRecord.content records).length) collectEvents =
      .ok (scanned collectEvents [] 0 records []) := by
  have hrest : (os.reader (file.take (LogRecord.content records).length)).rest =
      LogRecord.content records ++ [] := by
    rw [os.rest_reader, hfile, List.take_left, List.append_nil]
  have hloop := scanLoop_eq collectEvents (by simp) (by simp) hrest 0 []
  simp only [scanEvents, Option.getD_some, hloop, bind, Except.bind]
  rw [if_neg (by simp [hrest, scanned])]
  rfl

/-- A file that a scan accepts is a log with a terminator-free rest. -/
theorem exists_records_of_scanEvents {collectEvents : Bool} {file : Bytes} {scan : ScanResult}
    (hlen : file.length ≤ u64Max) (h : scanEvents crc os file none collectEvents = .ok scan) :
    ∃ (records : List (LogRecord crc)) (tail : Bytes), newline ∉ tail ∧
      tail.length ≤ MAX_LINE_BYTES ∧ file = LogRecord.content records ++ tail := by
  simp only [scanEvents, Option.getD_none, bind, Except.bind] at h
  split at h
  · cases h
  · next res hloop =>
    have := exists_records_of_scanLoop hloop
    rwa [os.rest_reader, List.take_of_length_le hlen] at this

/-- Reading back a log whose published boundary ends its last complete record. -/
theorem readAllEventsUpTo_content {file more : Bytes} {records : List (LogRecord crc)}
    (hfile : file = LogRecord.content records ++ more) :
    readAllEventsUpTo crc os (.opened file) (some (LogRecord.content records).length) =
      .ok (LogRecord.events records) := by
  rw [readAllEventsUpTo, scanEvents_some hfile]
  simp [Except.map, scanned]

/-! ### Pages -/

/-- Records with a greater sequence number. -/
def LogRecord.newer (afterSeq : UInt64) (r : LogRecord crc) : Bool := r.event.seq > afterSeq

/-- The page loop collects the first newer events and stops behind the last record it read. -/
theorem pageLoop_eq {committedEnd : Option Nat} {records : List (LogRecord crc)} {tail : Bytes}
    (ht : newline ∉ tail) (hsize : tail.length ≤ MAX_LINE_BYTES)
    (hbound : committedEnd.isSome → tail = []) (afterSeq : UInt64) (limit : Nat)
    {reader : BufReader} (h : reader.rest = LogRecord.content records ++ tail)
    (nextOffset : Nat) (out : List TimelineEvent) :
    pageLoop crc committedEnd (nextOffset + reader.rest.length) afterSeq limit reader nextOffset
      out = .ok (out ++ LogRecord.events
          ((records.filter (LogRecord.newer afterSeq)).take (limit - out.length)),
        nextOffset + (LogRecord.content (takeMatching (LogRecord.newer afterSeq)
          (limit - out.length) records)).length) := by
  induction records generalizing reader nextOffset out with
  | nil =>
    have hr : reader.rest = tail := by simpa using h
    obtain ⟨reader', hread⟩ := readBoundedLine_tail (hr ▸ ht) (hr ▸ hsize) nextOffset
    rw [pageLoop, hread]
    by_cases hlimit : limit ≤ out.length
    · simp [hlimit, LogRecord.events]
    · by_cases he : tail = []
      · simp [hlimit, hr, he, LogRecord.events]
      · have hnone : committedEnd.isSome = false := by
          cases hc : committedEnd.isSome with
          | false => rfl
          | true => exact absurd (hbound hc) he
        simp [hlimit, hr, he, hnone, LogRecord.events]
  | cons r records ih =>
    rw [LogRecord.content_cons, List.append_assoc] at h
    obtain ⟨reader', hread, hrest⟩ := readBoundedLine_record r h nextOffset
    rw [pageLoop, hread]
    by_cases hlimit : limit ≤ out.length
    · simp [hlimit, Nat.sub_eq_zero_of_le hlimit, LogRecord.events]
    · simp only [hlimit, if_false, r.frame.ne_nil, dite_false, Bool.true_eq_false,
        r.decodes nextOffset]
      have hlen : nextOffset + reader.rest.length =
          nextOffset + r.bytes.length + reader'.rest.length := by
        rw [h, hrest, List.length_append, Nat.add_assoc]
      rw [hlen, ih hrest]
      obtain ⟨need, hneed⟩ : ∃ need, limit - out.length = need + 1 :=
        ⟨limit - out.length - 1, by omega⟩
      by_cases hnew : r.event.seq > afterSeq
      · have hneed' : limit - (out.length + 1) = need := by omega
        simp [hnew, LogRecord.newer, hneed, hneed', takeMatching, LogRecord.events, Nat.add_assoc]
      · simp [hnew, LogRecord.newer, hneed, takeMatching, Nat.add_assoc]

/-- A cursor read that starts behind some records returns the first newer events among the
visible records after them, and the offset behind the last record it read. -/
theorem readEventsAfterFromUpTo_eq (os : Fills) {file tail : Bytes} {committedEnd : Option Nat}
    {before after : List (LogRecord crc)} (ht : newline ∉ tail)
    (hsize : tail.length ≤ MAX_LINE_BYTES) (hbound : committedEnd.isSome → tail = [])
    (hend : committedEnd.getD file.length ≤ file.length)
    (hview : file.take (committedEnd.getD file.length) =
      LogRecord.content (before ++ after) ++ tail)
    {offset : Nat} (hstart : (if offset ≤ committedEnd.getD file.length then offset else 0) =
      (LogRecord.content before).length) (afterSeq : UInt64) {limit : Nat} (hlimit : 0 < limit) :
    readEventsAfterFromUpTo crc os (.opened file) afterSeq limit offset committedEnd =
      .ok (LogRecord.events ((after.filter (LogRecord.newer afterSeq)).take limit),
        (LogRecord.content
          (before ++ takeMatching (LogRecord.newer afterSeq) limit after)).length) := by
  generalize hstop : committedEnd.getD file.length = endOffset at *
  have hrest : (os.reader ((file.drop (LogRecord.content before).length).take
      (endOffset - (LogRecord.content before).length))).rest =
      LogRecord.content after ++ tail := by
    rw [os.rest_reader, ← List.drop_take, hview, LogRecord.content_append, List.append_assoc,
      List.drop_left]
  have hlen : endOffset =
      (LogRecord.content before).length + (LogRecord.content after ++ tail).length := by
    have := congrArg List.length hview
    rw [List.length_take_of_le hend, LogRecord.content_append, List.append_assoc,
      List.length_append] at this
    exact this
  have hpage := pageLoop_eq ht hsize hbound afterSeq limit hrest (LogRecord.content before).length []
  rw [hrest, ← hlen] at hpage
  simp only [readEventsAfterFromUpTo, Nat.ne_of_gt hlimit, if_false, hstop, gt_iff_lt,
    Nat.not_lt.mpr hend, hstart, hpage]
  simp

/-- Reading up to the end of a record gives the first newer events up to there. -/
theorem readEventsAfterUpTo_content (os : Fills) {file : Bytes} {seen : List (LogRecord crc)}
    (hseen : LogRecord.content seen <+: file) (afterSeq : UInt64) {limit : Nat}
    (hlimit : 0 < limit) :
    readEventsAfterUpTo crc os (.opened file) afterSeq limit (some (LogRecord.content seen).length) =
      .ok (((LogRecord.events seen).filter fun e ↦ afterSeq.toNat < e.seq.toNat).take limit) := by
  have hview : file.take ((some (LogRecord.content seen).length).getD file.length) =
      LogRecord.content ([] ++ seen) ++ [] := by
    rw [List.nil_append, List.append_nil]
    exact (List.prefix_iff_eq_take.mp hseen).symm
  have hend : (some (LogRecord.content seen).length).getD file.length ≤ file.length :=
    hseen.length_le
  have hstart : (if 0 ≤ (some (LogRecord.content seen).length).getD file.length then 0 else 0) =
      (LogRecord.content ([] : List (LogRecord crc))).length := if_pos (Nat.zero_le _)
  have hfilter : LogRecord.events (seen.filter (LogRecord.newer afterSeq)) =
      (LogRecord.events seen).filter fun e ↦ afterSeq.toNat < e.seq.toNat := by
    rw [LogRecord.events, LogRecord.events, List.filter_map]
    congr 2
  rw [readEventsAfterUpTo, readEventsAfterFromUpTo_eq os List.not_mem_nil (Nat.zero_le _)
    (fun _ ↦ rfl) hend hview hstart afterSeq hlimit]
  rw [Except.map, ← hfilter, LogRecord.events, LogRecord.events, List.map_take]

end Vidarax.Timeline
