import Vidarax.Base.Crc32
import Vidarax.Timeline.Reader

/-!
# Cursor reads of a growing log

Package `vidarax-core`, `crates/vidarax-core/src/timeline.rs:599–699`.
A reader polls the log with the sequence number of the last event it received and the
byte offset of the last call. Both cursors are kept consistent: every record before the
offset has been delivered or is older than the reader's start.
-/

namespace Vidarax.Timeline

open Vidarax.Base

variable {crc : Bytes → UInt32} {os : Fills}

/-! ### Complete records -/

/-- The records that end within the first `n` bytes of a log. -/
def completeRecords : Nat → List (LogRecord crc) → List (LogRecord crc)
  | _, [] => []
  | n, r :: records =>
    if r.bytes.length ≤ n then r :: completeRecords (n - r.bytes.length) records else []

/-- The complete records are the first ones. -/
theorem isPrefix_completeRecords (n : Nat) (records : List (LogRecord crc)) :
    completeRecords n records <+: records := by
  fun_induction completeRecords n records with
  | case1 => exact List.prefix_rfl
  | case2 n r records _ ih => exact List.cons_prefix_cons.mpr ⟨rfl, ih⟩
  | case3 => exact List.nil_prefix

/-- More bytes have more complete records. -/
theorem completeRecords_mono {m n : Nat} (h : m ≤ n) (records : List (LogRecord crc)) :
    completeRecords m records <+: completeRecords n records := by
  induction records generalizing m n with
  | nil => exact List.prefix_rfl
  | cons r records ih =>
    simp only [completeRecords]
    split
    · rw [if_pos (by omega)]
      exact List.cons_prefix_cons.mpr ⟨rfl, ih (by omega)⟩
    · exact List.nil_prefix

/-- Cutting behind a record leaves the records up to it. -/
theorem completeRecords_content (xs ys : List (LogRecord crc)) :
    completeRecords (LogRecord.content xs).length (xs ++ ys) = xs := by
  induction xs with
  | nil =>
    cases ys with
    | nil => rfl
    | cons r ys => exact if_neg (Nat.not_le.mpr r.length_pos)
  | cons r xs ih =>
    rw [LogRecord.content_cons, List.length_append, List.cons_append, completeRecords,
      if_pos (Nat.le_add_right _ _), Nat.add_sub_cancel_left, ih]

/-- The first bytes of a log are its complete records and a terminator-free rest. -/
theorem take_content {tail : Bytes} (ht : newline ∉ tail) (hsize : tail.length ≤ MAX_LINE_BYTES)
    (n : Nat) (records : List (LogRecord crc)) :
    ∃ rest, (LogRecord.content records ++ tail).take n =
      LogRecord.content (completeRecords n records) ++ rest ∧
      newline ∉ rest ∧ rest.length ≤ MAX_LINE_BYTES := by
  induction records generalizing n with
  | nil =>
    exact ⟨tail.take n, rfl, fun h ↦ ht (List.mem_of_mem_take h),
      Nat.le_trans (List.take_prefix n tail).length_le hsize⟩
  | cons r records ih =>
    rw [LogRecord.content_cons, List.append_assoc]
    by_cases hn : r.bytes.length ≤ n
    · obtain ⟨rest, htake, hfree, hlen⟩ := ih (n - r.bytes.length)
      refine ⟨rest, ?_, hfree, hlen⟩
      rw [List.take_append, List.take_of_length_le hn, htake, completeRecords, if_pos hn,
        LogRecord.content_cons, List.append_assoc]
    · refine ⟨r.bytes.take n, ?_, ?_, ?_⟩
      · rw [List.take_append_of_le_length (by omega), completeRecords, if_neg hn]
        rfl
      · apply r.frame.not_mem_prefix (List.take_prefix n _)
        intro he
        have := congrArg List.length he
        rw [List.length_take_of_le (by omega)] at this
        omega
      · exact Nat.le_trans (List.take_prefix n _).length_le r.size_le

/-! ### Polling -/

/-- One poll: the file it finds, its page limit, its byte limit, and the offset that is
passed instead of the one the previous call returned, if any. -/
structure Poll where
  file : Bytes
  limit : Nat
  committedEnd : Option Nat
  restart : Option Nat

/-- Where a poll stops reading. -/
def Poll.endOffset (p : Poll) : Nat := p.committedEnd.getD p.file.length

/-- The two cursors of a reader. -/
structure Cursor where
  seq : UInt64
  offset : Nat

/-- The sequence cursor after a page: the number of its last event. -/
def nextSeq (seq : UInt64) (page : List TimelineEvent) : UInt64 :=
  (page.getLast?.map TimelineEvent.seq).getD seq

/-- One poll, with the cursors for the next one. -/
def Cursor.poll (crc : Bytes → UInt32) (os : Fills) (c : Cursor) (p : Poll) :
    Except TimelineError (List TimelineEvent × Cursor) := do
  let (events, offset) ← readEventsAfterFromUpTo crc os (.opened p.file) c.seq p.limit
    (p.restart.getD c.offset) p.committedEnd
  return (events, ⟨nextSeq c.seq events, offset⟩)

/-- A schedule of polls, with the page of each. -/
def Cursor.pollAll (crc : Bytes → UInt32) (os : Fills) :
    Cursor → List Poll → Except TimelineError (List (List TimelineEvent) × Cursor)
  | c, [] => .ok ([], c)
  | c, p :: polls => do
    let (page, c) ← c.poll crc os p
    let (pages, c) ← pollAll crc os c polls
    return (page :: pages, c)

/-- A poll finds the log as far as it was written: the file is a prefix of it, a byte limit
ends a record that is in the file, and a replaced offset is zero or beyond the end. -/
structure Poll.Sees (records : List (LogRecord crc)) (tail : Bytes) (p : Poll) : Prop where
  file_le : p.file <+: LogRecord.content records ++ tail
  limit_pos : 0 < p.limit
  committedEnd_ends : ∀ n, p.committedEnd = some n →
    n ≤ p.file.length ∧ ∃ synced, synced <+: records ∧ n = (LogRecord.content synced).length
  restart_far : ∀ n, p.restart = some n → n = 0 ∨ p.endOffset < n

/-- The records a poll can read. -/
def Poll.visible (records : List (LogRecord crc)) (p : Poll) : List (LogRecord crc) :=
  completeRecords p.endOffset records

/-- The bytes a poll reads are its visible records and a terminator-free rest, which is empty
under a byte limit. -/
theorem Poll.Sees.view {records : List (LogRecord crc)} {tail : Bytes} {p : Poll}
    (h : p.Sees records tail) (ht : newline ∉ tail) (hsize : tail.length ≤ MAX_LINE_BYTES) :
    p.endOffset ≤ p.file.length ∧ ∃ rest, newline ∉ rest ∧ rest.length ≤ MAX_LINE_BYTES ∧
      (p.committedEnd.isSome → rest = []) ∧
      p.file.take p.endOffset = LogRecord.content (p.visible records) ++ rest := by
  have hend : p.endOffset ≤ p.file.length := by
    cases hc : p.committedEnd with
    | none => exact Nat.le_of_eq (by rw [endOffset, hc]; rfl)
    | some n =>
      rw [endOffset, hc]
      exact (h.committedEnd_ends n hc).1
  obtain ⟨rest, htake, hfree, hlen⟩ := take_content ht hsize p.endOffset records
  obtain ⟨more, hmore⟩ := h.file_le
  rw [← hmore, List.take_append_of_le_length hend] at htake
  refine ⟨hend, rest, hfree, hlen, fun hsome ↦ ?_, htake⟩
  obtain ⟨n, hn⟩ := Option.isSome_iff_exists.mp hsome
  obtain ⟨synced, ⟨later, rfl⟩, hsynced⟩ := (h.committedEnd_ends n hn).2
  have hoff : p.endOffset = (LogRecord.content synced).length := by
    rw [endOffset, hn]
    exact hsynced
  have := congrArg List.length htake
  rw [List.length_take_of_le hend, hoff, completeRecords_content, List.length_append] at this
  exact List.length_eq_zero_iff.mp (by omega)

/-! ### The two cursors -/

/-- The newer events that a poll can read, counted from the reader's start. -/
def Poll.visibleCount (records : List (LogRecord crc)) (start : UInt64) (p : Poll) : Nat :=
  ((p.visible records).filter (LogRecord.newer start)).length

/-- After `n` deliveries the sequence cursor separates the delivered events from the others,
and every record before the byte offset is at or below it. -/
structure Cursor.Inv (records : List (LogRecord crc)) (start : UInt64) (n : Nat) (c : Cursor) :
    Prop where
  behind : ∃ before, before <+: records ∧ c.offset = (LogRecord.content before).length ∧
    ∀ r ∈ before, r.event.seq ≤ c.seq
  start_le : start ≤ c.seq
  taken : ∀ r ∈ (records.filter (LogRecord.newer start)).take n, r.event.seq ≤ c.seq
  rest : ∀ r ∈ (records.filter (LogRecord.newer start)).drop n, c.seq < r.event.seq

/-- The offset a poll passes is the returned one, zero, or beyond the end. -/
theorem Poll.Sees.offset_cases {records : List (LogRecord crc)} {tail : Bytes} {p : Poll}
    (h : p.Sees records tail) (returned : Nat) :
    p.restart.getD returned = returned ∨ p.restart.getD returned = 0 ∨
      p.endOffset < p.restart.getD returned := by
  cases hr : p.restart with
  | none => exact Or.inl rfl
  | some offset => exact Or.inr (h.restart_far offset hr)

/-- A poll starts reading behind visible records that are at or below the cursor. -/
theorem Cursor.Inv.exists_start {records : List (LogRecord crc)} {start : UInt64} {n : Nat}
    {c : Cursor} (h : c.Inv records start n) {tail : Bytes} {p : Poll}
    (hp : p.Sees records tail) (ht : newline ∉ tail) (hsize : tail.length ≤ MAX_LINE_BYTES) :
    ∃ before after, p.visible records = before ++ after ∧
      (if p.restart.getD c.offset ≤ p.endOffset then p.restart.getD c.offset else 0) =
        (LogRecord.content before).length ∧
      ∀ r ∈ before, r.event.seq ≤ c.seq := by
  have hcases := hp.offset_cases c.offset
  generalize p.restart.getD c.offset = offset at hcases ⊢
  by_cases hpos : offset ≤ p.endOffset ∧ offset ≠ 0
  · have hreturned : offset = c.offset := by omega
    obtain ⟨before, hbefore, hoff, hseq⟩ := h.behind
    obtain ⟨hend, rest, hfree, -, -, hview⟩ := hp.view ht hsize
    -- the returned offset lies in what the poll reads, so its records are visible
    have hcontent : LogRecord.content before <+: p.file.take p.endOffset := by
      apply List.prefix_of_prefix_length_le
        ((LogRecord.content_mono hbefore).trans (List.prefix_append _ tail))
        ((List.take_prefix _ _).trans hp.file_le)
      rw [List.length_take_of_le hend, ← hoff, ← hreturned]
      exact hpos.1
    obtain ⟨after, hafter⟩ := LogRecord.prefix_of_content hfree (hview ▸ hcontent)
    exact ⟨before, after, hafter.symm, by rw [if_pos hpos.1, hreturned, hoff], hseq⟩
  · refine ⟨[], p.visible records, rfl, ?_, fun r hr ↦ absurd hr (by simp)⟩
    rw [LogRecord.content_nil, List.length_nil]
    split <;> omega

/-- Among first records the events above the cursor are the ones not delivered yet. -/
theorem Cursor.Inv.filter_newer {records : List (LogRecord crc)} {start : UInt64} {n : Nat}
    {c : Cursor} (h : c.Inv records start n) {xs : List (LogRecord crc)} (hxs : xs <+: records) :
    xs.filter (LogRecord.newer c.seq) = (xs.filter (LogRecord.newer start)).drop n := by
  have hsub : xs.filter (LogRecord.newer c.seq) =
      (xs.filter (LogRecord.newer start)).filter (LogRecord.newer c.seq) := by
    rw [List.filter_filter]
    apply List.filter_congr
    intro r _
    have hs := h.start_le
    simp only [LogRecord.newer, gt_iff_lt]
    by_cases hc : c.seq < r.event.seq
    · simp [hc, UInt64.lt_of_le_of_lt hs hc]
    · simp [hc]
  have hfilter := hxs.filter (LogRecord.newer start)
  have hold : ((xs.filter (LogRecord.newer start)).take n).filter (LogRecord.newer c.seq) = [] := by
    rw [List.filter_eq_nil_iff]
    intro r hr
    have hle := h.taken r ((hfilter.take n).mem hr)
    simpa [LogRecord.newer] using hle
  have hnew : ((xs.filter (LogRecord.newer start)).drop n).filter (LogRecord.newer c.seq) =
      (xs.filter (LogRecord.newer start)).drop n := by
    rw [List.filter_eq_self]
    intro r hr
    simpa [LogRecord.newer] using h.rest r ((hfilter.drop n).mem hr)
  rw [hsub]
  conv_lhs => rw [← List.take_append_drop n (xs.filter (LogRecord.newer start))]
  rw [List.filter_append, hold, hnew, List.nil_append]

/-- In a list of increasing sequence numbers above the cursor, the cursor after the first
page is at or above the page and below the rest. -/
theorem nextSeq_spec {seq : UInt64} {page rest : List TimelineEvent}
    (hseq : (page ++ rest).Pairwise fun a b ↦ a.seq < b.seq)
    (hnew : ∀ e ∈ page ++ rest, seq < e.seq) :
    seq ≤ nextSeq seq page ∧ (∀ e ∈ page, e.seq ≤ nextSeq seq page) ∧
      ∀ e ∈ rest, nextSeq seq page < e.seq := by
  rcases List.eq_nil_or_concat page with rfl | ⟨init, last, rfl⟩
  · exact ⟨UInt64.le_refl _, fun e he ↦ absurd he (by simp), fun e he ↦ hnew e (by simpa using he)⟩
  · rw [List.concat_eq_append] at *
    have hnext : nextSeq seq (init ++ [last]) = last.seq := by simp [nextSeq]
    rw [hnext]
    obtain ⟨hpage, -, hcross⟩ := List.pairwise_append.mp hseq
    refine ⟨UInt64.le_of_lt (hnew last (by simp)), fun e he ↦ ?_,
      fun e he ↦ hcross last (by simp) e he⟩
    rcases List.mem_append.mp he with he | he
    · exact UInt64.le_of_lt ((List.pairwise_append.mp hpage).2.2 e he last (by simp))
    · rw [List.mem_singleton.mp he]
      exact UInt64.le_refl _

/-- The page a poll delivers after `n` deliveries: the next events newer than the start, as
many as its limit and its view allow. -/
def Poll.page (records : List (LogRecord crc)) (start : UInt64) (n : Nat) (p : Poll) :
    List TimelineEvent :=
  LogRecord.events (((records.filter (LogRecord.newer start)).drop n).take
    (min p.limit (p.visibleCount records start - n)))

/-- What one poll delivers, and that it keeps the invariant. -/
theorem Cursor.Inv.poll (os : Fills) {records : List (LogRecord crc)} {start : UInt64} {n : Nat} {c : Cursor}
    (h : c.Inv records start n)
    (hseq : (LogRecord.events records).Pairwise fun a b ↦ a.seq < b.seq) {tail : Bytes} {p : Poll}
    (hp : p.Sees records tail) (ht : newline ∉ tail) (hsize : tail.length ≤ MAX_LINE_BYTES) :
    ∃ c', c.poll crc os p = .ok (p.page records start n, c') ∧
      c'.Inv records start (n + min p.limit (p.visibleCount records start - n)) := by
  obtain ⟨before, after, hvisible, hstart, hbefore⟩ := h.exists_start hp ht hsize
  obtain ⟨hend, rest, hfree, hlen, hbound, hview⟩ := hp.view ht hsize
  have hread := readEventsAfterFromUpTo_eq os hfree hlen hbound hend (hvisible ▸ hview)
    hstart c.seq hp.limit_pos
  unfold Poll.page
  generalize hm : min p.limit (p.visibleCount records start - n) = m
  generalize hW : records.filter (LogRecord.newer start) = wanted
  have hvis : p.visible records <+: records := isPrefix_completeRecords _ _
  -- the page is the next part of what is wanted
  have hafter : after.filter (LogRecord.newer c.seq) =
      ((p.visible records).filter (LogRecord.newer start)).drop n := by
    have hold : before.filter (LogRecord.newer c.seq) = [] :=
      List.filter_eq_nil_iff.mpr fun r hr ↦ by simpa [LogRecord.newer] using hbefore r hr
    rw [← h.filter_newer hvis, hvisible, List.filter_append, hold, List.nil_append]
  have hpage : (after.filter (LogRecord.newer c.seq)).take p.limit = (wanted.drop n).take m := by
    have hp' := (hvis.filter (LogRecord.newer start)).drop n
    rw [hafter, List.prefix_iff_eq_take.mp hp', List.take_take, List.length_drop, hW, ← hm]
    rfl
  rw [hpage] at hread
  have hsplit : wanted.drop n = (wanted.drop n).take m ++ wanted.drop (n + m) := by
    rw [← List.drop_drop, List.take_append_drop]
  have hsorted : (LogRecord.events (wanted.drop n)).Pairwise fun a b ↦ a.seq < b.seq := by
    apply List.Pairwise.sublist _ hseq
    rw [← hW]
    exact ((List.drop_sublist n _).trans List.filter_sublist).map _
  have hnew : ∀ e ∈ LogRecord.events (wanted.drop n), c.seq < e.seq := by
    intro e he
    obtain ⟨r, hr, rfl⟩ := List.mem_map.mp he
    exact h.rest r (hW ▸ hr)
  rw [hsplit, LogRecord.events_append] at hsorted hnew
  obtain ⟨hle, htaken, hrest⟩ := nextSeq_spec hsorted hnew
  refine ⟨⟨nextSeq c.seq (LogRecord.events ((wanted.drop n).take m)), (LogRecord.content
    (before ++ takeMatching (LogRecord.newer c.seq) p.limit after)).length⟩, ?_, ?_⟩
  · rw [Cursor.poll, hread]
    rfl
  · refine ⟨⟨_, ?_, rfl, ?_⟩, UInt64.le_trans h.start_le hle, ?_, ?_⟩
    · have hwalked := takeMatching_prefix (LogRecord.newer c.seq) p.limit after
      rw [hvisible] at hvis
      exact ((List.prefix_append_right_inj before).mpr hwalked).trans hvis
    · intro r hr
      rcases List.mem_append.mp hr with hr | hr
      · exact UInt64.le_trans (hbefore r hr) hle
      · by_cases hn : LogRecord.newer c.seq r
        · have hmem : r ∈ (wanted.drop n).take m := by
            rw [← hpage, ← filter_takeMatching]
            exact List.mem_filter.mpr ⟨hr, hn⟩
          exact htaken _ (List.mem_map_of_mem hmem)
        · exact UInt64.le_trans (by simpa [LogRecord.newer] using hn) hle
    · intro r hr
      rw [hW, List.take_add] at hr
      rcases List.mem_append.mp hr with hr | hr
      · exact UInt64.le_trans (h.taken r (hW ▸ hr)) hle
      · exact htaken _ (List.mem_map_of_mem hr)
    · intro r hr
      rw [hW] at hr
      exact hrest _ (List.mem_map_of_mem hr)

/-! ### Schedules -/

/-- The number of events delivered after a schedule: every poll delivers as many further ones
as its limit and its view of the log allow. -/
def deliveredCount (records : List (LogRecord crc)) (start : UInt64) (n : Nat)
    (polls : List Poll) : Nat :=
  polls.foldl (fun n p ↦ n + min p.limit (p.visibleCount records start - n)) n

theorem deliveredCount_concat (records : List (LogRecord crc)) (start : UInt64) (n : Nat)
    (polls : List Poll) (p : Poll) :
    deliveredCount records start n (polls ++ [p]) = deliveredCount records start n polls +
      min p.limit (p.visibleCount records start - deliveredCount records start n polls) := by
  simp [deliveredCount]

/-- A schedule never delivers more than its widest view. -/
theorem deliveredCount_le {records : List (LogRecord crc)} {start : UInt64} {bound : Nat}
    {polls : List Poll} (h : ∀ p ∈ polls, p.visibleCount records start ≤ bound) {n : Nat}
    (hn : n ≤ bound) : deliveredCount records start n polls ≤ bound := by
  induction polls generalizing n with
  | nil => exact hn
  | cons p polls ih =>
    have hp := h p (by simp)
    have hnext : n + min p.limit (p.visibleCount records start - n) ≤ bound := by omega
    exact ih (fun q hq ↦ h q (by simp [hq])) hnext

/-- A poll at the end of a schedule adds its page. -/
theorem Cursor.pollAll_concat {c c' c'' : Cursor} {polls : List Poll} {p : Poll}
    {pages : List (List TimelineEvent)} {page : List TimelineEvent}
    (h : c.pollAll crc os polls = .ok (pages, c')) (hp : c'.poll crc os p = .ok (page, c'')) :
    c.pollAll crc os (polls ++ [p]) = .ok (pages ++ [page], c'') := by
  induction polls generalizing c pages with
  | nil =>
    cases h
    simp only [List.nil_append, pollAll, hp, bind, Except.bind]
    rfl
  | cons q polls ih =>
    simp only [pollAll, List.cons_append, bind, Except.bind] at h ⊢
    cases hq : c.poll crc os q with
    | error err => simp [hq] at h
    | ok first =>
      simp only [hq] at h ⊢
      cases hr : first.2.pollAll crc os polls with
      | error err => simp [hr] at h
      | ok later =>
        obtain ⟨rest, c₁⟩ := later
        simp only [hr, pure, Except.pure, Except.ok.injEq, Prod.mk.injEq] at h
        obtain ⟨rfl, rfl⟩ := h
        rw [ih hr]
        rfl

/-- Every schedule keeps the invariant and delivers the first wanted events. -/
theorem Cursor.Inv.pollAll (os : Fills) {records : List (LogRecord crc)} {start : UInt64} {n : Nat} {c : Cursor}
    (h : c.Inv records start n)
    (hseq : (LogRecord.events records).Pairwise fun a b ↦ a.seq < b.seq) {tail : Bytes}
    (ht : newline ∉ tail) (hsize : tail.length ≤ MAX_LINE_BYTES) {polls : List Poll}
    (hp : ∀ p ∈ polls, p.Sees records tail) :
    ∃ pages c', c.pollAll crc os polls = .ok (pages, c') ∧
      c'.Inv records start (deliveredCount records start n polls) ∧
      LogRecord.events ((records.filter (LogRecord.newer start)).take n) ++ pages.flatten =
        LogRecord.events ((records.filter (LogRecord.newer start)).take
          (deliveredCount records start n polls)) := by
  induction polls generalizing n c with
  | nil => exact ⟨[], c, rfl, h, by rw [List.flatten_nil, List.append_nil]; rfl⟩
  | cons p polls ih =>
    obtain ⟨c₁, hpoll, hinv⟩ := h.poll os hseq (hp p (by simp)) ht hsize
    obtain ⟨pages, c₂, hrun, hinv', hflat⟩ := ih hinv fun q hq ↦ hp q (by simp [hq])
    refine ⟨p.page records start n :: pages, c₂, ?_, hinv', ?_⟩
    · simp only [Cursor.pollAll, hpoll, hrun, bind, Except.bind]
      rfl
    · rw [List.flatten_cons, ← List.append_assoc, Poll.page, ← LogRecord.events_append,
        ← List.take_add]
      exact hflat

/-- Repeated cursor reads of a growing log are exact. Whatever prefixes of the log the polls
find, with or without the published byte limit, and wherever an offset is replaced by zero
or by one beyond the end: the pages together are the first events newer than the start, in
log order; a page is short only when every newer event in view has been delivered. -/
theorem cursor_reads_exact (crc : Bytes → UInt32) (os : Fills) (records : List (LogRecord crc))
    (tail : Bytes) (htail : newline ∉ tail) (hsize : tail.length ≤ MAX_LINE_BYTES)
    (hseq : (LogRecord.events records).Pairwise fun a b ↦ a.seq < b.seq) (start : UInt64)
    (polls : List Poll) (last : Poll) (hsees : ∀ p ∈ polls ++ [last], p.Sees records tail) :
    ∃ pages page cursor,
      Cursor.pollAll crc os ⟨start, 0⟩ (polls ++ [last]) = .ok (pages ++ [page], cursor) ∧
      (pages ++ [page]).flatten = LogRecord.events ((records.filter (LogRecord.newer start)).take
        (deliveredCount records start 0 (polls ++ [last]))) ∧
      (page.length < last.limit →
        LogRecord.events ((last.visible records).filter (LogRecord.newer start)) <+:
          (pages ++ [page]).flatten) ∧
      (page.length < last.limit → (∀ p ∈ polls, p.endOffset ≤ last.endOffset) →
        (pages ++ [page]).flatten =
          LogRecord.events ((last.visible records).filter (LogRecord.newer start))) := by
  have hstart : Cursor.Inv records start 0 ⟨start, 0⟩ :=
    ⟨⟨[], List.nil_prefix, rfl, by simp⟩, UInt64.le_refl _, by simp, by
      simp [LogRecord.newer]⟩
  obtain ⟨pages, c, hrun, hinv, hflat⟩ := hstart.pollAll os hseq htail hsize
    fun p hp ↦ hsees p (List.mem_append_left _ hp)
  obtain ⟨cursor, hpoll, -⟩ := hinv.poll os hseq (hsees last (by simp)) htail hsize
  -- `d` events came before the last page, and `v` are in its view
  generalize hd : deliveredCount records start 0 polls = d at *
  have htotal : (pages ++ [last.page records start d]).flatten =
      LogRecord.events ((records.filter (LogRecord.newer start)).take
        (deliveredCount records start 0 (polls ++ [last]))) := by
    rw [List.take_zero] at hflat
    have hpages : pages.flatten =
        LogRecord.events ((records.filter (LogRecord.newer start)).take d) := hflat
    rw [List.flatten_append, List.flatten_singleton, hpages, Poll.page, ← LogRecord.events_append,
      ← List.take_add, deliveredCount_concat, hd]
  have hview : (last.visible records).filter (LogRecord.newer start) =
      (records.filter (LogRecord.newer start)).take (last.visibleCount records start) :=
    List.prefix_iff_eq_take.mp ((isPrefix_completeRecords _ _).filter _)
  have hshort (h : (last.page records start d).length < last.limit) :
      deliveredCount records start 0 (polls ++ [last]) =
        d + (last.visibleCount records start - d) := by
    have hle := ((isPrefix_completeRecords last.endOffset records).filter
      (LogRecord.newer start)).length_le
    rw [Poll.page, LogRecord.events, List.length_map, List.length_take, List.length_drop] at h
    rw [deliveredCount_concat, hd]
    unfold Poll.visibleCount Poll.visible at h ⊢
    omega
  refine ⟨pages, _, cursor, Cursor.pollAll_concat hrun hpoll, htotal, fun h ↦ ?_, fun h hall ↦ ?_⟩
  · rw [htotal, hshort h, hview]
    exact (List.take_prefix_take_left (by omega)).map _
  · have hbound : d ≤ last.visibleCount records start := by
      rw [← hd]
      exact deliveredCount_le (fun p hp ↦ ((completeRecords_mono (hall p hp) records).filter
        (LogRecord.newer start)).length_le) (Nat.zero_le _)
    rw [htotal, hshort h, hview, Nat.add_sub_cancel' hbound]

/-- Event of the sample log. -/
def sampleEvent (seq : UInt64) : TimelineEvent := ⟨seq, "run", "cam", 40, "tick", "a\tb"⟩

/-- A log with an old record and two new ones. -/
def sampleRecords : List (LogRecord crc32) :=
  [LogRecord.legacy crc32 (sampleEvent 3) (by decide +kernel),
    LogRecord.staged crc32 (sampleEvent 5) (by decide +kernel),
    LogRecord.staged crc32 (sampleEvent 9) (by decide +kernel)]

/-- The bytes of the sample log with the start of one more record. -/
def sampleFile : Bytes := LogRecord.content sampleRecords ++ [0x56, 0x32]

/-- Reads of the sample log: while its second record is being written, under the published
limit, and from zero with an incomplete record at the end. -/
theorem cursor_reads_exact_sample :
    ∃ pages cursor, Cursor.pollAll crc32 Fills.whole ⟨3, 0⟩
        ([⟨sampleFile.take 40, 1, none, none⟩,
          ⟨sampleFile, 1, some (LogRecord.content sampleRecords).length, some 4096⟩] ++
          [⟨sampleFile, 7, none, some 0⟩]) = .ok (pages, cursor) ∧
      pages.flatten = [sampleEvent 5, sampleEvent 9] := by
  have hsees : ∀ p ∈ ([⟨sampleFile.take 40, 1, none, none⟩,
      ⟨sampleFile, 1, some (LogRecord.content sampleRecords).length, some 4096⟩] ++
      [⟨sampleFile, 7, none, some 0⟩] : List Poll), p.Sees sampleRecords [0x56, 0x32] := by
    intro p hp
    simp only [List.cons_append, List.nil_append, List.mem_cons, List.not_mem_nil, or_false] at hp
    rcases hp with rfl | rfl | rfl
    · exact ⟨List.take_prefix _ _, by decide, nofun, nofun⟩
    · refine ⟨List.prefix_rfl, by decide, fun n hn ↦ ?_, fun n hn ↦ ?_⟩
      · cases hn
        exact ⟨by decide +kernel, sampleRecords, List.prefix_rfl, rfl⟩
      · cases hn
        exact Or.inr (by decide +kernel)
    · refine ⟨List.prefix_rfl, by decide, nofun, fun n hn ↦ ?_⟩
      cases hn
      exact Or.inl rfl
  obtain ⟨pages, page, cursor, hrun, hflat, -⟩ := cursor_reads_exact crc32 Fills.whole sampleRecords
    [0x56, 0x32] (by decide) (by decide) (by decide +kernel) 3 _ _ hsees
  exact ⟨pages ++ [page], cursor, hrun, hflat.trans (by decide +kernel)⟩

end Vidarax.Timeline
