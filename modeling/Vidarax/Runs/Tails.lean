import Mathlib.Data.List.Sort
import Vidarax.Base.Sequence
import Vidarax.Base.Table
import Vidarax.Timeline.Writer

/-!
# Event tails

Package `vidarax-api`, `crates/vidarax-api/src/state.rs:71–89,1327–1343,1579–1606,2048–2110,
2248–2294,2480–2502`. The last events of each warm run are kept in memory, where the run that was
appended to least recently gives way. A read that such a tail answers gets what a scan of the log
would give.
-/

namespace Vidarax.Runs

open Vidarax.Base Vidarax.Timeline

/-- How many events of a run are kept; `state.rs:76`. -/
def RUN_EVENT_TAIL_CAP : Nat := 256

/-- How many runs have a tail; `state.rs:89`. -/
def WARM_RUN_TAIL_CAP : Nat := 1024

/-- Tails of the warm runs. -/
abbrev Tails : Type := Table String (List TimelineEvent)

/-- Drop events at the front until the rest is short enough. -/
def trimTail (tail : List TimelineEvent) : List TimelineEvent :=
  tail.drop (tail.length - RUN_EVENT_TAIL_CAP)

/-- `insert_event_by_seq`; `state.rs:2253`. The search in a sorted tail stops at the first event
that is not older. -/
def insertEventBySeq (tail : List TimelineEvent) (event : TimelineEvent) : List TimelineEvent :=
  if tail.getLast?.all (·.seq < event.seq) then trimTail (tail ++ [event])
  else
    match tail.dropWhile (·.seq < event.seq) with
    | [] => trimTail (tail ++ [event])
    | held :: later =>
      if held.seq = event.seq then tail
      else trimTail (tail.takeWhile (·.seq < event.seq) ++ event :: held :: later)

/-- The tails and when each was touched last. -/
structure TailMaps where
  tails : Tails
  recency : Table String UInt64

namespace TailMaps

/-- `evict_least_recent_tail`; `state.rs:2281`. -/
def evictLeastRecentTail (m : TailMaps) : TailMaps :=
  match m.recency.leastKey UInt64.toNat with
  | none => m
  | some run => ⟨m.tails.erase run, m.recency.erase run⟩

/-- Make room for the tail of a run. -/
def makeRoom (m : TailMaps) (run : String) : TailMaps :=
  if ¬ m.tails.contains run ∧ WARM_RUN_TAIL_CAP ≤ m.tails.size then m.evictLeastRecentTail else m

/-- Put an event into the tail of its run, which is touched by it. -/
def append (m : TailMaps) (event : TimelineEvent) (touch : UInt64) : TailMaps :=
  let m := m.makeRoom event.runId
  let tail := insertEventBySeq (m.tails[event.runId]?.getD []) event
  ⟨m.tails.insert event.runId tail, m.recency.insert event.runId touch⟩

/-- Forget a run. -/
def forget (m : TailMaps) (run : String) : TailMaps := ⟨m.tails.erase run, m.recency.erase run⟩

/-- Step of `build_event_tails`; `state.rs:2485`. -/
def rebuildEvent (m : TailMaps) (event : TimelineEvent) : TailMaps :=
  if event.kind = "run_deleted" then m.forget event.runId else m.append event event.seq

/-- Fold of `build_event_tails`. -/
def rebuild (events : List TimelineEvent) : TailMaps :=
  (events.mergeSort fun a b ↦ a.seq ≤ b.seq).foldl rebuildEvent ⟨∅, ∅⟩

end TailMaps

/-- `build_event_tails`; `state.rs:2480`. -/
def buildEventTails (events : List TimelineEvent) : Tails := (TailMaps.rebuild events).tails

/-- Tails of a running timeline writer. -/
structure WarmTails where
  maps : TailMaps
  touchTick : UInt64

namespace WarmTails

/-- The tails that a timeline writer starts with; `state.rs:2085`. -/
def spawn (tails : Tails) (nextSeq : UInt64) : WarmTails :=
  ⟨⟨tails, tails.map fun _ tail ↦ tail.getLast?.elim 0 TimelineEvent.seq⟩, nextSeq⟩

/-- What `apply_committed_event` does to the tails; `state.rs:2048`. -/
def applyCommittedEvent (w : WarmTails) (event : TimelineEvent) : WarmTails :=
  if event.kind = "run_deleted" then ⟨w.maps.forget event.runId, w.touchTick⟩
  else ⟨w.maps.append event (satAdd w.touchTick 1), satAdd w.touchTick 1⟩

end WarmTails

/-- `events_since`; `state.rs:1593`. -/
def eventsSince (tails : Tails) (run : String) (fromSeq : UInt64) : Option (List TimelineEvent) := do
  let tail ← tails[run]?
  let oldest ← tail.head?
  if fromSeq < oldest.seq then none else some (tail.filter fun event ↦ event.seq ≥ fromSeq)

/-- The log scan of `read_run_events_from`; `state.rs:1339`. -/
def scanRunEventsFrom (crc : Bytes → UInt32) (os : Fills) (access : FileAccess) (committedEnd : Nat)
    (run : String) (fromSeq : UInt64) : Except TimelineError (List TimelineEvent) :=
  (readAllEventsUpTo crc os access (some committedEnd)).map fun events ↦
    ((events.filter (·.runId = run)).filter fun event ↦ event.seq ≥ fromSeq).mergeSort
      fun a b ↦ a.seq ≤ b.seq

/-! ### Events in order -/

/-- Events with the sequence numbers of a log, from a first one on. -/
def Sequenced (first : Nat) (events : List TimelineEvent) : Prop :=
  Numbered Nat.succ (·.seq.toNat) first events

/-- Sequenced events are in order. -/
theorem Sequenced.pairwise {first : Nat} {events : List TimelineEvent}
    (h : Sequenced first events) :
    events.Pairwise (·.seq < ·.seq) ∧ ∀ e ∈ events, first ≤ e.seq.toNat := by
  induction events generalizing first with
  | nil => exact ⟨List.Pairwise.nil, fun _ h ↦ absurd h List.not_mem_nil⟩
  | cons event events ih =>
    obtain ⟨hseq, hrest⟩ := h
    obtain ⟨hpairwise, hge⟩ := ih hrest
    refine ⟨List.Pairwise.cons (fun later hlater ↦ ?_) hpairwise, fun e he ↦ ?_⟩
    · have hfirst : event.seq.toNat = first := hseq
      have := hge later hlater
      rw [UInt64.lt_iff_toNat_lt]
      omega
    · rcases List.mem_cons.mp he with rfl | hmem
      · exact Nat.le_of_eq hseq.symm
      · have := hge e hmem
        omega

/-- The last of some sequenced events. -/
theorem Sequenced.concat {first : Nat} {events : List TimelineEvent} {event : TimelineEvent}
    (h : Sequenced first (events ++ [event])) :
    Sequenced first events ∧ event.seq.toNat = first + events.length := by
  obtain ⟨hfront, hlast⟩ := numbered_append.mp h
  refine ⟨hfront, hlast.1.trans ?_⟩
  rw [Nat.succ_iterate]

/-! ### What the tails hold -/

theorem trimTail_suffix (tail : List TimelineEvent) : trimTail tail <:+ tail :=
  List.drop_suffix _ tail

/-- The newest event goes to the end. -/
theorem insertEventBySeq_newest {tail : List TimelineEvent} {event : TimelineEvent}
    (h : ∀ e ∈ tail, e.seq < event.seq) :
    insertEventBySeq tail event = trimTail (tail ++ [event]) := by
  have hlast : tail.getLast?.all (·.seq < event.seq) = true := by
    rw [Option.all_eq_true]
    intro last hmem
    exact decide_eq_true (h last (List.mem_of_getLast? hmem))
  rw [insertEventBySeq, if_pos hlast]

/-- The newest event is the last of its tail. -/
theorem getLast?_trimTail_concat (tail : List TimelineEvent) (event : TimelineEvent) :
    (trimTail (tail ++ [event])).getLast? = some event := by
  have hroom : (tail ++ [event]).length - RUN_EVENT_TAIL_CAP ≤ tail.length := by
    rw [List.length_append, List.length_singleton, RUN_EVENT_TAIL_CAP]
    omega
  rw [trimTail, List.drop_append_of_le_length hroom, List.getLast?_concat]

/-- Each tail is a last part of the events of its run, with one event or more. -/
def Holds (events : List TimelineEvent) (tails : Tails) : Prop :=
  ∀ (run : String) (tail : List TimelineEvent), tails[run]? = some tail →
    tail ≠ [] ∧ tail <:+ events.filter (·.runId = run)

section Holds

variable {events : List TimelineEvent} {tails : Tails}

theorem holds_empty : Holds [] ∅ := fun run tail h ↦ by simp at h

theorem Holds.erase (h : Holds events tails) (run : String) : Holds events (tails.erase run) := by
  intro other tail htail
  by_cases hother : other = run
  · rw [hother, Std.ExtTreeMap.getElem?_erase_self] at htail
    contradiction
  · rw [Table.get?_erase_ne _ hother] at htail
    exact h other tail htail

/-- An event of another run does not matter to a tail. -/
theorem filter_concat_of_ne {event : TimelineEvent} {run : String} (h : run ≠ event.runId) :
    (events ++ [event]).filter (·.runId = run) = events.filter (·.runId = run) := by
  rw [List.filter_append, List.filter_singleton, decide_eq_false h.symm]
  exact List.append_nil _

/-- A deletion takes the tail of its run away. -/
theorem Holds.forget (h : Holds events tails) (event : TimelineEvent) :
    Holds (events ++ [event]) (tails.erase event.runId) := by
  intro run tail htail
  have hrun : run ≠ event.runId := by
    rintro rfl
    rw [Std.ExtTreeMap.getElem?_erase_self] at htail
    contradiction
  rw [filter_concat_of_ne hrun]
  exact h.erase event.runId run tail htail

/-- A newest event joins the tail of its run. -/
theorem Holds.insert (h : Holds events tails) {event : TimelineEvent}
    (hnew : ∀ e ∈ events, e.seq < event.seq) :
    Holds (events ++ [event]) (tails.insert event.runId
      (insertEventBySeq (tails[event.runId]?.getD []) event)) := by
  intro run tail htail
  by_cases hrun : run = event.runId
  · subst hrun
    let old := tails[event.runId]?.getD []
    have hold : old <:+ events.filter (·.runId = event.runId) := by
      cases hget : tails[event.runId]? with
      | none => simp [old, hget]
      | some found => simpa [old, hget] using (h event.runId found hget).2
    have holder : ∀ e ∈ old, e.seq < event.seq := fun e he ↦
      hnew e (List.mem_of_mem_filter (hold.subset he))
    rw [Std.ExtTreeMap.getElem?_insert_self, insertEventBySeq_newest holder] at htail
    rw [← Option.some.inj htail]
    constructor
    · intro hempty
      have hlast := getLast?_trimTail_concat old event
      rw [hempty, List.getLast?_nil] at hlast
      exact Option.some_ne_none event hlast.symm
    · apply (trimTail_suffix _).trans
      rw [List.filter_append, List.filter_singleton,
        decide_eq_true (rfl : event.runId = event.runId)]
      exact List.suffix_append_self_iff.mpr hold
  · rw [Table.get?_insert_ne _ _ hrun] at htail
    rw [filter_concat_of_ne hrun]
    exact h run tail htail

theorem Holds.makeRoom {m : TailMaps} (h : Holds events m.tails) (run : String) :
    Holds events (m.makeRoom run).tails := by
  rw [TailMaps.makeRoom]
  split
  · rw [TailMaps.evictLeastRecentTail]
    split
    · exact h
    · exact h.erase _
  · exact h

theorem Holds.append {m : TailMaps} (h : Holds events m.tails) {event : TimelineEvent}
    (hnew : ∀ e ∈ events, e.seq < event.seq) (touch : UInt64) :
    Holds (events ++ [event]) (m.append event touch).tails :=
  (h.makeRoom event.runId).insert hnew

end Holds

/-- What the tails of a run of a timeline writer hold. -/
theorem Holds.applyCommittedEvent {events : List TimelineEvent} {w : WarmTails}
    (h : Holds events w.maps.tails) {event : TimelineEvent}
    (hnew : ∀ e ∈ events, e.seq < event.seq) :
    Holds (events ++ [event]) (w.applyCommittedEvent event).maps.tails := by
  rw [WarmTails.applyCommittedEvent]
  split
  · exact h.forget event
  · exact h.append hnew _

theorem Holds.rebuildEvent {events : List TimelineEvent} {m : TailMaps}
    (h : Holds events m.tails) {event : TimelineEvent} (hnew : ∀ e ∈ events, e.seq < event.seq) :
    Holds (events ++ [event]) (m.rebuildEvent event).tails := by
  rw [TailMaps.rebuildEvent]
  split
  · exact h.forget event
  · exact h.append hnew _

/-- Sequenced events are rebuilt in the order in which they are. -/
theorem rebuild_sequenced {first : Nat} {events : List TimelineEvent}
    (h : Sequenced first events) :
    TailMaps.rebuild events = events.foldl TailMaps.rebuildEvent ⟨∅, ∅⟩ := by
  have hsorted : events.Pairwise fun a b ↦ decide (a.seq ≤ b.seq) = true :=
    h.pairwise.1.imp fun hlt ↦ decide_eq_true (UInt64.le_of_lt hlt)
  rw [TailMaps.rebuild, List.mergeSort_of_pairwise hsorted]

theorem rebuild_concat {first : Nat} {events : List TimelineEvent} {event : TimelineEvent}
    (h : Sequenced first (events ++ [event])) :
    TailMaps.rebuild (events ++ [event]) = (TailMaps.rebuild events).rebuildEvent event := by
  rw [rebuild_sequenced h, rebuild_sequenced h.concat.1, List.foldl_append]
  rfl

/-- The last of sequenced events is newer than the others. -/
theorem Sequenced.newest {first : Nat} {events : List TimelineEvent} {event : TimelineEvent}
    (h : Sequenced first (events ++ [event])) : ∀ e ∈ events, e.seq < event.seq := fun e he ↦
  (List.pairwise_append.mp h.pairwise.1).2.2 e he event (List.mem_singleton_self event)

/-- Rebuilt tails hold last events of the log. -/
theorem holds_rebuild {first : Nat} {events : List TimelineEvent} (h : Sequenced first events) :
    Holds events (TailMaps.rebuild events).tails := by
  induction events using List.reverseRecOn with
  | nil =>
    rw [rebuild_sequenced h]
    exact holds_empty
  | append_singleton events event ih =>
    rw [rebuild_concat h]
    exact (ih h.concat.1).rebuildEvent h.newest

/-- Tails of a server that was started on some events and has committed others. -/
def WarmTails.after (stored committed : List TimelineEvent) : WarmTails :=
  committed.foldl applyCommittedEvent
    (spawn (buildEventTails stored) (UInt64.ofNat stored.length))

theorem WarmTails.after_concat (stored committed : List TimelineEvent) (event : TimelineEvent) :
    after stored (committed ++ [event]) = (after stored committed).applyCommittedEvent event := by
  rw [after, List.foldl_append]
  rfl

theorem holds_after {stored committed : List TimelineEvent} {first : Nat}
    (h : Sequenced first (stored ++ committed)) :
    Holds (stored ++ committed) (WarmTails.after stored committed).maps.tails := by
  induction committed using List.reverseRecOn with
  | nil =>
    rw [List.append_nil] at h ⊢
    exact holds_rebuild h
  | append_singleton committed event ih =>
    rw [← List.append_assoc] at h ⊢
    rw [WarmTails.after_concat]
    exact (ih h.concat.1).applyCommittedEvent h.newest

/-! ### Warm and cold reads -/

/-- What a tail answers are the events that the log has from the sequence number on. -/
theorem Holds.eventsSince_eq {events : List TimelineEvent} {tails : Tails}
    (h : Holds events tails) (horder : events.Pairwise (·.seq < ·.seq)) {run : String}
    {fromSeq : UInt64} {answer : List TimelineEvent}
    (hanswer : eventsSince tails run fromSeq = some answer) :
    answer = (events.filter (·.runId = run)).filter fun event ↦ event.seq ≥ fromSeq := by
  rw [eventsSince] at hanswer
  cases htail : tails[run]? with
  | none =>
    rw [htail] at hanswer
    contradiction
  | some tail =>
    obtain ⟨-, front, hfront⟩ := h run tail htail
    cases holdest : tail.head? with
    | none =>
      simp [htail, holdest] at hanswer
    | some oldest =>
      simp only [htail, holdest, Option.bind_eq_bind, Option.bind_some] at hanswer
      split at hanswer
      · contradiction
      · next hcovered =>
        rw [← Option.some.inj hanswer, ← hfront, List.filter_append]
        have hrun := horder.filter fun event : TimelineEvent ↦ event.runId = run
        rw [← hfront] at hrun
        -- what the tail lacks is older than its first event
        have hnone : front.filter (fun event ↦ event.seq ≥ fromSeq) = [] := by
          rw [List.filter_eq_nil_iff]
          intro event hevent
          have holder : event.seq < oldest.seq :=
            (List.pairwise_append.mp hrun).2.2 event hevent oldest (List.mem_of_head? holdest)
          rw [UInt64.not_lt] at hcovered
          simpa using UInt64.lt_of_lt_of_le holder hcovered
        rw [hnone, List.nil_append]

/-- The scan answers the events of the run from the sequence number on. -/
theorem scanRunEventsFrom_content {crc : Bytes → UInt32} (os : Fills) {file more : Bytes}
    {records : List (LogRecord crc)} (hfile : file = LogRecord.content records ++ more)
    (horder : (LogRecord.events records).Pairwise (·.seq < ·.seq)) (run : String)
    (fromSeq : UInt64) :
    scanRunEventsFrom crc os (.opened file) (LogRecord.content records).length run fromSeq =
      .ok (((LogRecord.events records).filter (·.runId = run)).filter
        fun event ↦ event.seq ≥ fromSeq) := by
  rw [scanRunEventsFrom, readAllEventsUpTo_content hfile, Except.map]
  apply congrArg Except.ok
  apply List.mergeSort_of_pairwise
  apply List.Pairwise.imp _ ((horder.filter _).filter _)
  exact fun hlt ↦ decide_eq_true (UInt64.le_of_lt hlt)

/-- A server is started on the stored events of a log, if any, and commits others. Whatever the
tails answer is what a scan of the log would answer: all events of the run from the sequence
number on, in order. -/
theorem warm_reads_agree (crc : Bytes → UInt32) (os : Fills) (stored committed : List TimelineEvent)
    (hseq : Sequenced 1 (stored ++ committed)) (records : List (LogRecord crc)) (more : Bytes)
    (hrecords : LogRecord.events records = stored ++ committed) (run : String) (fromSeq : UInt64)
    (answer : List TimelineEvent)
    (hanswer : eventsSince (WarmTails.after stored committed).maps.tails run fromSeq =
      some answer) :
    scanRunEventsFrom crc os (.opened (LogRecord.content records ++ more))
        (LogRecord.content records).length run fromSeq = .ok answer ∧
      answer = ((stored ++ committed).filter (·.runId = run)).filter
        fun event ↦ event.seq ≥ fromSeq := by
  have horder := hseq.pairwise.1
  have hanswered := (holds_after hseq).eventsSince_eq horder hanswer
  rw [← hrecords] at horder
  rw [scanRunEventsFrom_content os rfl horder run fromSeq, hrecords, hanswered]
  exact ⟨rfl, rfl⟩

/-- An ordinary event of one run. -/
def tickEvent (seq : UInt64) : TimelineEvent := ⟨seq, "run", "cam", 40, "tick", "a\tb"⟩

theorem tickEvent_one_fits : (tickEvent 1).body.length ≤ MAX_RECORD_BYTES := by decide +kernel

theorem tickEvent_two_fits : (tickEvent 2).body.length ≤ MAX_RECORD_BYTES := by decide +kernel

theorem warm_reads_agree_ticks :
    let records := [LogRecord.staged crc32 (tickEvent 1) tickEvent_one_fits,
      LogRecord.staged crc32 (tickEvent 2) tickEvent_two_fits]
    scanRunEventsFrom crc32 Fills.whole (.opened (LogRecord.content records ++ [0x56]))
        (LogRecord.content records).length "run" 2 = .ok [tickEvent 2] :=
  (warm_reads_agree crc32 Fills.whole [tickEvent 1] [tickEvent 2] ⟨rfl, rfl, trivial⟩ _ [0x56] rfl
    "run" 2 [tickEvent 2] (by decide +kernel)).1

end Vidarax.Runs
