import Vidarax.Base.Window
import Vidarax.Delivery.Stream

/-!
# Streams without gaps and repetitions

What a client has received is always a first part of the committed events it asked for, however its
producer reads the log and notifications, whichever notifications are overwritten, and wherever the
connection is lost and opened again. A producer that waits has sent all that it was notified of.
-/

namespace Vidarax.Delivery

open Vidarax.Base Vidarax.Timeline Vidarax.Runs

/-! ### Numbers and messages -/

/-- Where an event of a log is. -/
theorem seq_of_getElem? {log : List TimelineEvent} (h : Sequenced 1 log) {i : Nat}
    {event : TimelineEvent} (hevent : log[i]? = some event) : event.seq.toNat = i + 1 := by
  rw [h.number_eq hevent, Nat.succ_iterate, Nat.add_comm]

theorem filter_newer {log : List TimelineEvent} (h : Sequenced 1 log) (n : Nat) :
    (log.filter fun event ↦ n < event.seq.toNat) = log.drop n := by
  rw [h.filter_eq_drop, Nat.add_sub_cancel]

/-- The id of a message is a cursor. -/
theorem headerCursor_decimal (seq : UInt64) : headerCursor (decimal seq.toNat) = some seq := by
  have hvisible : (decimal seq.toNat).all isVisibleAscii = true := by
    apply List.all_eq_true.mpr
    intro b hb
    obtain ⟨hlow, hhigh⟩ := decimal_range hb
    have h32 : (32 : UInt8) ≤ b := UInt8.le_iff_toNat_le.mpr (Nat.le_trans (by decide) hlow)
    have h127 : b < (127 : UInt8) :=
      UInt8.lt_iff_toNat_lt.mpr (Nat.lt_of_le_of_lt hhigh (by decide))
    simp [isVisibleAscii, h32, h127]
  rw [headerCursor, if_pos hvisible, parseUnsigned_decimal (toNat_le_u64Max seq)]
  exact congrArg some (UInt64.ofNat_toNat)

theorem timelineSseEvent_eq {event : TimelineEvent} {message : SseMessage}
    (h : timelineSseEvent event = some message) : message.event = event := by
  unfold timelineSseEvent at h
  split at h
  · cases h
  · cases h
    rfl

theorem StreamRequest.accept_eq_ok {request : StreamRequest} {snapshot : Option ApiError}
    {cursor : UInt64} (h : request.accept snapshot = .ok cursor) : request.cursor = .ok cursor := by
  unfold accept at h
  split at h
  · cases h
  · split at h
    · cases h
    · split at h
      · cases h
      · exact h

/-! ### Places of a stream -/

/-- Events that have been handed to the connection, and those received before. -/
def Client.handed (client : Client) (stream : Stream) : List TimelineEvent :=
  (client.received ++ stream.wire ++ stream.output).map SseMessage.event

/-- The events that were handed on are those asked for up to a place of the log. -/
structure Reached (log : List TimelineEvent) (start done : Nat) (request : StreamRequest)
    (handed : List TimelineEvent) : Prop where
  handed_eq : handed = window request.selects start done log
  start_le : start ≤ done
  done_le : done = start ∨ done ≤ log.length

/-- The event at the cursor waits in a message. -/
structure Holds (log : List TimelineEvent) (start : Nat) (request : StreamRequest)
    (handed : List TimelineEvent) (cursor : UInt64) (message : SseMessage) (done : Nat) : Prop where
  cursor_eq : cursor.toNat = done + 1
  reached : Reached log start done request handed
  event : log[done]? = some message.event
  selected : request.selects message.event = true

/-- Where the producer of a stream is in the log, of which the first `base` events and those before
the next notification need no notification. -/
def Follows (crc : Bytes → UInt32) (log : List TimelineEvent) (file : Bytes) (base start : Nat)
    (request : StreamRequest) (handed : List TimelineEvent) (stream : Stream) : Prop :=
  match stream.producer with
  | .replaying => Reached log start stream.cursor.toNat request handed
  | .reading committedEnd => Reached log start stream.cursor.toNat request handed ∧
      ∃ seen : List (LogRecord crc), committedEnd = (LogRecord.content seen).length ∧
        LogRecord.content seen <+: file ∧ LogRecord.events seen <+: log ∧
        base + stream.next ≤ seen.length
  | .sending rest full => Reached log start stream.cursor.toNat request handed ∧
      rest <+: log.drop stream.cursor.toNat ∧
      (full = false → base + stream.next ≤ stream.cursor.toNat + rest.length)
  | .offering message rest full =>
      (∃ done, Holds log start request handed stream.cursor message done) ∧
      rest <+: log.drop stream.cursor.toNat ∧
      (full = false → base + stream.next ≤ stream.cursor.toNat + rest.length)
  | .receiving => Reached log start stream.cursor.toNat request handed ∧
      base + stream.next ≤ stream.cursor.toNat
  | .forwarding message =>
      (∃ done, Holds log start request handed stream.cursor message done) ∧
      base + stream.next ≤ stream.cursor.toNat
  | .closed => handed <+: (log.drop start).filter request.selects

section Places

variable {crc : Bytes → UInt32} {log more handed : List TimelineEvent} {file rest : Bytes}
  {base start done : Nat} {request : StreamRequest} {cursor : UInt64} {stream : Stream}
  {message : SseMessage}

theorem Reached.front (h : Reached log start done request handed) :
    handed <+: (log.drop start).filter request.selects := by
  rw [h.handed_eq]
  exact window_front _ _ _ _

/-- The log grows. -/
theorem Reached.grow (h : Reached log start done request handed) :
    Reached (log ++ more) start done request handed := by
  refine ⟨?_, h.start_le, ?_⟩
  · rw [window_append h.done_le]
    exact h.handed_eq
  · apply h.done_le.imp_right
    intro hle
    rw [List.length_append]
    omega

/-- An event that is not wanted is passed. -/
theorem Reached.skip (h : Reached log start done request handed) {event : TimelineEvent}
    (hevent : log[done]? = some event) (hnot : ¬ request.selects event = true) :
    Reached log start (done + 1) request handed := by
  refine ⟨?_, Nat.le_succ_of_le h.start_le, .inr (List.getElem?_eq_some_iff.mp hevent).1⟩
  rw [window_succ hevent h.start_le, if_neg hnot, List.append_nil]
  exact h.handed_eq

/-- The message that waits is handed on. -/
theorem Holds.push (h : Holds log start request handed cursor message done) :
    Reached log start cursor.toNat request (handed ++ [message.event]) := by
  rw [h.cursor_eq]
  refine ⟨?_, Nat.le_succ_of_le h.reached.start_le,
    .inr (List.getElem?_eq_some_iff.mp h.event).1⟩
  rw [window_succ h.event h.reached.start_le, if_pos h.selected, h.reached.handed_eq]

theorem Holds.grow (h : Holds log start request handed cursor message done) :
    Holds (log ++ more) start request handed cursor message done := by
  refine ⟨h.cursor_eq, h.reached.grow, ?_, h.selected⟩
  rw [List.getElem?_append_left (List.getElem?_eq_some_iff.mp h.event).1]
  exact h.event

/-- What was handed on is a part of what is wanted. -/
theorem Follows.front (h : Follows crc log file base start request handed stream) :
    handed <+: (log.drop start).filter request.selects := by
  unfold Follows at h
  split at h
  · exact h.front
  · exact h.1.front
  · exact h.1.front
  · obtain ⟨⟨done, hholds⟩, -⟩ := h
    exact hholds.reached.front
  · exact h.1.front
  · obtain ⟨⟨done, hholds⟩, -⟩ := h
    exact hholds.reached.front
  · exact h

theorem drop_front_append (n : Nat) : log.drop n <+: (log ++ more).drop n := by
  rw [List.drop_append]
  exact List.prefix_append _ _

/-- The file and the log grow. -/
theorem Follows.grow (h : Follows crc log file base start request handed stream) :
    Follows crc (log ++ more) (file ++ rest) base start request handed stream := by
  unfold Follows at h ⊢
  split at h
  · exact h.grow
  · obtain ⟨hreached, seen, hend, hfile, hlog, hnext⟩ := h
    exact ⟨hreached.grow, seen, hend, hfile.trans (List.prefix_append _ _),
      hlog.trans (List.prefix_append _ _), hnext⟩
  · exact ⟨h.1.grow, h.2.1.trans (drop_front_append _), h.2.2⟩
  · obtain ⟨⟨done, hholds⟩, hrest, hnext⟩ := h
    exact ⟨⟨done, hholds.grow⟩, hrest.trans (drop_front_append _), hnext⟩
  · exact ⟨h.1.grow, h.2⟩
  · obtain ⟨⟨done, hholds⟩, hnext⟩ := h
    exact ⟨⟨done, hholds.grow⟩, hnext⟩
  · exact h.trans ((drop_front_append _).filter _)

end Places

/-! ### Steps of a producer -/

section Producers

variable {crc : Bytes → UInt32} {stored : List TimelineEvent} {server : Commit.System}
  {start : Nat} {client : Client} {stream : Stream}

theorem sequenced_log (h : server.Logged crc stored) : Sequenced 1 (stored ++ server.committed) :=
  (numbered_append.mp h.sequenced).1

/-- Where the event of a notification is. -/
theorem getElem?_notified (h : server.Logged crc stored) {i : Nat} {event : TimelineEvent}
    (hevent : server.notified[i]? = some event) :
    (stored ++ server.committed)[stored.length + i]? = some event := by
  rw [List.getElem?_append_right (Nat.le_add_right _ _), Nat.add_sub_cancel_left]
  obtain ⟨later, hlater⟩ := h.notified_front
  rw [← hlater, List.getElem?_append_left (List.getElem?_eq_some_iff.mp hevent).1]
  exact hevent

/-- The place of a stream follows its server. -/
abbrev Follows.At (crc : Bytes → UInt32) (stored : List TimelineEvent) (server : Commit.System)
    (start : Nat) (client : Client) (stream : Stream) : Prop :=
  Follows crc (stored ++ server.committed) server.w.file stored.length start client.request
    (client.handed stream) stream

/-- The boundary is loaded: everything notified so far is before it. -/
theorem follows_load (h : server.Logged crc stored)
    (hreached : Reached (stored ++ server.committed) start stream.cursor.toNat client.request
      (client.handed stream))
    (hnext : stream.next ≤ server.notified.length) :
    Follows.At crc stored server start client
      { stream with producer := .reading server.w.committedEnd } := by
  obtain ⟨records, hevents, hend, hfile, -⟩ := h.disk
  refine ⟨hreached, records, h.shared.trans hend, hfile, ?_, ?_⟩
  · rw [hevents]
  · have hlength := congrArg List.length hevents
    rw [LogRecord.events, List.length_map, List.length_append] at hlength
    have hsent := h.notified_front.length_le
    dsimp only
    omega

/-- A batch is read. -/
theorem follows_read (h : server.Logged crc stored) (os : Fills) {seen : List (LogRecord crc)}
    (hreached : Reached (stored ++ server.committed) start stream.cursor.toNat client.request
      (client.handed stream))
    (hfile : LogRecord.content seen <+: server.w.file)
    (hlog : LogRecord.events seen <+: stored ++ server.committed)
    (hnext : stored.length + stream.next ≤ seen.length) :
    ∃ batch, readEventsAfterUpTo crc os (.opened server.w.file) stream.cursor REPLAY_BATCH
        (some (LogRecord.content seen).length) = .ok batch ∧
      (batch = [] → stored.length + stream.next ≤ stream.cursor.toNat) ∧
      Follows.At crc stored server start client
        { stream with producer := .sending batch (batch.length = REPLAY_BATCH) } := by
  have hcap : 0 < REPLAY_BATCH := by decide
  have hsequenced : Sequenced 1 (LogRecord.events seen) := (sequenced_log h).of_front hlog
  have hlength : (LogRecord.events seen).length = seen.length := List.length_map _
  refine ⟨_, readEventsAfterUpTo_content os hfile stream.cursor hcap, fun hnone ↦ ?_,
    hreached, ?_, fun hshort ↦ ?_⟩
  · rw [filter_newer hsequenced, List.take_eq_nil_iff] at hnone
    have hdrop := List.drop_eq_nil_iff.mp (hnone.resolve_left (Nat.ne_of_gt hcap))
    omega
  · rw [filter_newer hsequenced]
    exact (List.take_prefix _ _).trans (hlog.drop _)
  · rw [filter_newer hsequenced] at hshort ⊢
    have hless := of_decide_eq_false hshort
    rw [List.length_take, List.length_drop] at hless ⊢
    dsimp only
    omega

/-- An event of a batch is taken. -/
theorem follows_take (h : server.Logged crc stored) {event : TimelineEvent}
    {rest : List TimelineEvent} {full : Bool}
    (hreached : Reached (stored ++ server.committed) start stream.cursor.toNat client.request
      (client.handed stream))
    (hrest : event :: rest <+: (stored ++ server.committed).drop stream.cursor.toNat)
    (hnext : full = false →
      stored.length + stream.next ≤ stream.cursor.toNat + (event :: rest).length) :
    (¬ client.request.selects event = true → Follows.At crc stored server start client
        { stream with cursor := event.seq, producer := .sending rest full }) ∧
      (client.request.selects event = true → ∀ message, message.event = event →
        Follows.At crc stored server start client
          { stream with cursor := event.seq, producer := .offering message rest full }) := by
  obtain ⟨behind, hbehind⟩ := hrest
  have hevent : (stored ++ server.committed)[stream.cursor.toNat]? = some event := by
    rw [← Nat.add_zero stream.cursor.toNat, ← List.getElem?_drop, ← hbehind]
    rfl
  have hseq : event.seq.toNat = stream.cursor.toNat + 1 := seq_of_getElem? (sequenced_log h) hevent
  have hleft : rest <+: (stored ++ server.committed).drop event.seq.toNat := by
    rw [hseq, ← List.drop_drop, ← hbehind]
    exact List.prefix_append _ _
  have hcount : full = false →
      stored.length + stream.next ≤ event.seq.toNat + rest.length := by
    intro hshort
    have := hnext hshort
    rw [List.length_cons] at this
    omega
  constructor
  · intro hnot
    refine ⟨?_, hleft, hcount⟩
    dsimp only
    rw [hseq]
    exact hreached.skip hevent hnot
  · rintro hselected message rfl
    exact ⟨⟨_, hseq, hreached, hevent, hselected⟩, hleft, hcount⟩

/-- A notification is taken that the log has not shown yet. -/
theorem follows_notified (h : server.Logged crc stored) {event : TimelineEvent}
    (hreached : Reached (stored ++ server.committed) start stream.cursor.toNat client.request
      (client.handed stream))
    (hevent : server.notified[stream.next]? = some event)
    (hnext : stored.length + stream.next ≤ stream.cursor.toNat)
    (hnew : ¬ event.seq ≤ stream.cursor) :
    (¬ client.request.selects event = true → Follows.At crc stored server start client
        { stream with next := stream.next + 1, cursor := event.seq, producer := .receiving }) ∧
      (client.request.selects event = true → ∀ message, message.event = event →
        Follows.At crc stored server start client
          { stream with
            next := stream.next + 1, cursor := event.seq, producer := .forwarding message }) := by
  have hplace := getElem?_notified h hevent
  have hseq := seq_of_getElem? (sequenced_log h) hplace
  have hcursor : stored.length + stream.next = stream.cursor.toNat := by
    rw [UInt64.le_iff_toNat_le, hseq] at hnew
    omega
  rw [hcursor] at hplace hseq
  have hcount : stored.length + (stream.next + 1) ≤ event.seq.toNat := by omega
  constructor
  · intro hnot
    refine ⟨?_, hcount⟩
    dsimp only
    rw [hseq]
    exact hreached.skip hplace hnot
  · rintro hselected message rfl
    exact ⟨⟨_, hseq, hreached, hplace, hselected⟩, hcount⟩

/-- A message goes to the output. -/
theorem handed_push (client : Client) (stream : Stream) (message : SseMessage)
    (producer : Producer) :
    client.handed { stream with output := stream.output ++ [message], producer := producer } =
      client.handed stream ++ [message.event] := by
  simp [Client.handed]

/-- A producer goes on. -/
theorem follows_produce (h : server.Logged crc stored) {oldest : Nat}
    (holdest : oldest ≤ server.notified.length) (hnext : stream.next ≤ server.notified.length)
    (hplace : Follows.At crc stored server start client stream) (os : Fills)
    (failure : Option String) :
    Follows.At crc stored server start client
        (client.produce server crc oldest os failure stream) ∧
      (client.produce server crc oldest os failure stream).next ≤ server.notified.length := by
  have hclosed (cursor : UInt64) (next : Nat) : Follows.At crc stored server start client
      { stream with cursor := cursor, next := next, producer := .closed } := hplace.front
  unfold Follows.At Follows at hplace
  unfold Client.produce
  split
  · next hproducer =>
    rw [hproducer] at hplace
    exact ⟨follows_load h hplace hnext, hnext⟩
  · next committedEnd hproducer =>
    rw [hproducer] at hplace
    obtain ⟨hreached, seen, rfl, hfile, hlog, hbehind⟩ := hplace
    cases failure with
    | some message => exact ⟨hclosed _ _, hnext⟩
    | none =>
      obtain ⟨batch, hbatch, hnone, hsending⟩ := follows_read h os hreached hfile hlog hbehind
      dsimp only [Option.elim]
      rw [hbatch]
      split
      · next hwrong => cases hwrong
      · next hempty => exact ⟨⟨hreached, hnone (Except.ok.inj hempty)⟩, hnext⟩
      · next batch' hsome =>
        cases hsome
        exact ⟨hsending, hnext⟩
  · next full hproducer =>
    rw [hproducer] at hplace
    refine ⟨?_, hnext⟩
    cases full with
    | true => exact hplace.1
    | false => exact ⟨hplace.1, hplace.2.2 rfl⟩
  · next event rest full hproducer =>
    rw [hproducer] at hplace
    obtain ⟨hskip, hoffer⟩ := follows_take h hplace.1 hplace.2.1 hplace.2.2
    split
    · next hselected =>
      split
      · exact ⟨hclosed _ _, hnext⟩
      · next message hmessage =>
        exact ⟨hoffer hselected message (timelineSseEvent_eq hmessage), hnext⟩
    · next hnot => exact ⟨hskip hnot, hnext⟩
  · next message rest full hproducer =>
    have hoffering := hplace
    rw [hproducer] at hplace
    obtain ⟨⟨done, hholds⟩, hrest, hcount⟩ := hplace
    split
    · refine ⟨⟨?_, hrest, hcount⟩, hnext⟩
      dsimp only
      rw [handed_push]
      exact hholds.push
    · exact ⟨hoffering, hnext⟩
  · next hproducer =>
    have hreceiving := hplace
    rw [hproducer] at hplace
    obtain ⟨hreached, hcount⟩ := hplace
    split
    · exact ⟨hreached, holdest⟩
    · split
      · exact ⟨hreceiving, hnext⟩
      · next event hevent =>
        have hmore : stream.next + 1 ≤ server.notified.length :=
          (List.getElem?_eq_some_iff.mp hevent).1
        split
        · next hold =>
          refine ⟨?_, hmore⟩
          have hseq := seq_of_getElem? (sequenced_log h) (getElem?_notified h hevent)
          rw [UInt64.le_iff_toNat_le, hseq] at hold
          unfold Follows.At Follows
          dsimp only
          rw [hproducer]
          exact ⟨hreached, hold⟩
        · next hnew =>
          obtain ⟨hskip, hforward⟩ := follows_notified h hreached hevent hcount hnew
          split
          · next hselected =>
            split
            · exact ⟨hclosed _ _, hmore⟩
            · next message hmessage =>
              exact ⟨hforward hselected message (timelineSseEvent_eq hmessage), hmore⟩
          · next hnot =>
            rw [hproducer]
            exact ⟨hskip hnot, hmore⟩
  · next message hproducer =>
    have hforwarding := hplace
    rw [hproducer] at hplace
    obtain ⟨⟨done, hholds⟩, hcount⟩ := hplace
    split
    · refine ⟨⟨?_, hcount⟩, hnext⟩
      dsimp only
      rw [handed_push]
      exact hholds.push
    · exact ⟨hforwarding, hnext⟩
  · exact ⟨hplace, hnext⟩

end Producers

/-! ### Runs -/

/-- A client that asked for the events behind a place of the log. -/
structure Exact (crc : Bytes → UInt32) (stored : List TimelineEvent) (request : StreamRequest)
    (start : Nat) (s : Service) : Prop where
  logged : s.server.Logged crc stored
  oldest : s.oldest ≤ s.server.notified.length
  asked : s.client.request = request
  received : s.client.received.map SseMessage.event <+:
    ((stored ++ s.server.committed).drop start).filter request.selects
  stream : ∀ stream ∈ s.client.stream, stream.next ≤ s.server.notified.length ∧
    Follows.At crc stored s.server start s.client stream

namespace Exact

variable {crc : Bytes → UInt32} {fromStr : String → Option Json} {stored : List TimelineEvent}
  {request : StreamRequest} {start : Nat} {s : Service}

theorem server (h : Exact crc stored request start s) (action : Commit.System.Action) :
    Exact crc stored request start (s.step crc fromStr (.server action)) := by
  have hgrows : s.server.Grows (s.server.step crc fromStr action) :=
    Commit.System.grows_step action
  have hnotified := hgrows.notified.length_le
  obtain ⟨more, hmore⟩ := hgrows.committed
  obtain ⟨rest, hrest⟩ := hgrows.file
  refine ⟨h.logged.step action, Nat.le_trans h.oldest hnotified, h.asked, ?_,
    fun stream hstream ↦ ?_⟩
  · show _ <+: ((stored ++ (s.server.step crc fromStr action).committed).drop start).filter _
    rw [← hmore, ← List.append_assoc]
    exact h.received.trans ((drop_front_append start).filter _)
  · obtain ⟨hnext, hplace⟩ := h.stream stream hstream
    refine ⟨Nat.le_trans hnext hnotified, ?_⟩
    show Follows crc (stored ++ (s.server.step crc fromStr action).committed)
      (s.server.step crc fromStr action).w.file stored.length start s.client.request
      (s.client.handed stream) stream
    rw [← hmore, ← hrest, ← List.append_assoc]
    exact hplace.grow

/-- The cursor of a request that is made again is the number of the last event received. -/
theorem reached_connect (h : Exact crc stored request start s)
    (hstart : ∀ cursor, request.cursor = .ok cursor → cursor.toNat = start) {cursor : UInt64}
    (hcursor : s.client.resume.cursor = .ok cursor) (next : Nat) (producer : Producer) :
    Reached (stored ++ s.server.committed) start cursor.toNat s.client.request
      (s.client.handed ⟨cursor, next, producer, [], []⟩) := by
  have hhanded : s.client.handed ⟨cursor, next, producer, [], []⟩ =
      s.client.received.map SseMessage.event := by simp [Client.handed]
  rcases List.eq_nil_or_concat' s.client.received with hnone | ⟨front, message, hlast⟩
  · rw [Client.resume, hnone, h.asked] at hcursor
    have heq := hstart cursor hcursor
    refine ⟨?_, Nat.le_of_eq heq.symm, .inl heq⟩
    rw [hhanded, hnone, heq, window_self]
    rfl
  · have hreceived := h.received
    rw [hlast, List.map_append] at hreceived
    obtain ⟨i, hevent, hi, hwindow⟩ := exists_window_of_front hreceived
    have hseq := seq_of_getElem? (sequenced_log h.logged) hevent
    have hid : s.client.resume.cursor = .ok message.event.seq := by
      rw [Client.resume, hlast, List.getLast?_concat]
      dsimp only [StreamRequest.cursor]
      rw [message.id_eq, headerCursor_decimal]
    rw [hcursor] at hid
    cases hid
    rw [hseq]
    refine ⟨?_, Nat.le_succ_of_le hi, .inr (List.getElem?_eq_some_iff.mp hevent).1⟩
    rw [hhanded, hlast, List.map_append, h.asked]
    exact hwindow

theorem connect (h : Exact crc stored request start s)
    (hstart : ∀ cursor, request.cursor = .ok cursor → cursor.toNat = start)
    (snapshot : Option ApiError) :
    Exact crc stored request start (s.step crc fromStr (.connect snapshot)) := by
  have hstep : s.step crc fromStr (.connect snapshot) =
      { s with client := s.client.connect s.server snapshot } := rfl
  rw [hstep, Client.connect]
  split
  · exact h
  · next hnone =>
    split
    · exact h
    · next cursor haccept =>
      have hreached := h.reached_connect hstart (StreamRequest.accept_eq_ok haccept)
        s.server.notified.length .replaying
      refine ⟨h.logged, h.oldest, h.asked, h.received, ?_⟩
      rintro stream ⟨⟩
      exact ⟨Nat.le_refl _, hreached⟩

/-- Messages move along, and those of the client stay first. -/
theorem move (h : Exact crc stored request start s) {stream : Stream}
    (hstream : s.client.stream = some stream) (received output wire : List SseMessage)
    (hsame : received ++ wire ++ output = s.client.received ++ stream.wire ++ stream.output) :
    Exact crc stored request start { s with client :=
      { s.client with
        received := received
        stream := some { stream with output := output, wire := wire } } } := by
  obtain ⟨hnext, hplace⟩ := h.stream stream hstream
  have hhanded : Client.handed { s.client with
        received := received, stream := some { stream with output := output, wire := wire } }
      { stream with output := output, wire := wire } = s.client.handed stream :=
    congrArg (List.map SseMessage.event) hsame
  refine ⟨h.logged, h.oldest, h.asked, ?_, ?_⟩
  · have hfront := hplace.front
    rw [h.asked, ← hhanded] at hfront
    refine List.IsPrefix.trans ?_ hfront
    unfold Client.handed
    rw [List.map_append, List.map_append, List.append_assoc]
    exact List.prefix_append _ _
  · rintro _ ⟨⟩
    refine ⟨hnext, ?_⟩
    unfold Follows.At
    rw [hhanded]
    exact hplace

theorem step (h : Exact crc stored request start s)
    (hstart : ∀ cursor, request.cursor = .ok cursor → cursor.toNat = start) (action : Action) :
    Exact crc stored request start (s.step crc fromStr action) := by
  cases action with
  | server action => exact h.server action
  | overwrite =>
    refine ⟨h.logged, Nat.min_le_right _ _, h.asked, h.received, h.stream⟩
  | produce os failure =>
    refine ⟨h.logged, h.oldest, h.asked, h.received, fun stream hstream ↦ ?_⟩
    obtain ⟨before, hbefore, rfl⟩ := Option.map_eq_some_iff.mp hstream
    obtain ⟨hnext, hplace⟩ := h.stream before hbefore
    obtain ⟨hplace', hnext'⟩ := follows_produce h.logged h.oldest hnext hplace os failure
    exact ⟨hnext', hplace'⟩
  | connect snapshot => exact h.connect hstart snapshot
  | flush =>
    have hstep : s.step crc fromStr .flush = { s with client := s.client.flush } := rfl
    rw [hstep, Client.flush]
    split
    · next cursor next producer message output wire hstream =>
      refine h.move hstream s.client.received output (wire ++ [message]) ?_
      simp
    · exact h
  | receive =>
    have hstep : s.step crc fromStr .receive = { s with client := s.client.receive } := rfl
    rw [hstep, Client.receive]
    split
    · next cursor next producer output message wire hstream =>
      refine h.move hstream (s.client.received ++ [message]) output wire ?_
      simp
    · exact h
  | disconnect => exact ⟨h.logged, h.oldest, h.asked, h.received, fun _ hstream ↦ by cases hstream⟩

theorem run (h : Exact crc stored request start s)
    (hstart : ∀ cursor, request.cursor = .ok cursor → cursor.toNat = start)
    (actions : List Action) :
    Exact crc stored request start (actions.foldl (Service.step crc fromStr) s) := by
  induction actions generalizing s with
  | nil => exact h
  | cons action actions ih => exact ih (h.step hstart action)

end Exact

/-- The committed events that a request asks for: those it selects, with a number beyond its
cursor. -/
def StreamRequest.wanted (request : StreamRequest) (log : List TimelineEvent) :
    List TimelineEvent :=
  log.filter fun event ↦ request.selects event &&
    request.cursor.toOption.any fun cursor ↦ cursor < event.seq

theorem StreamRequest.wanted_eq {request : StreamRequest} {cursor : UInt64}
    (hcursor : request.cursor = .ok cursor) {log : List TimelineEvent} (h : Sequenced 1 log) :
    request.wanted log = (log.drop cursor.toNat).filter request.selects := by
  rw [← filter_newer h, List.filter_filter, wanted, hcursor]
  rfl

/-- A request with a header that is no number asks for nothing. -/
theorem StreamRequest.wanted_eq_nil {request : StreamRequest} {err : ApiError}
    (hcursor : request.cursor = .error err) (log : List TimelineEvent) :
    request.wanted log = [] := by
  apply List.filter_eq_nil_iff.mpr
  intro event hevent
  rw [hcursor]
  simp [Except.toOption]

/-- Where the producer waits and nothing is left for it to take, it has sent what was notified. -/
theorem Exact.mem_handed {crc : Bytes → UInt32} {stored : List TimelineEvent}
    {request : StreamRequest} {cursor : UInt64} {s : Service}
    (h : Exact crc stored request cursor.toNat s) (hcursor : request.cursor = .ok cursor)
    {stream : Stream} (hstream : s.client.stream = some stream)
    (hwaits : stream.producer = .receiving) (hnext : stream.next = s.server.notified.length)
    {event : TimelineEvent} (hevent : event ∈ request.wanted s.server.notified) :
    event ∈ s.client.handed stream := by
  obtain ⟨-, hplace⟩ := h.stream stream hstream
  unfold Follows.At Follows at hplace
  rw [hwaits] at hplace
  obtain ⟨hreached, hcount⟩ := hplace
  obtain ⟨hmem, hwanted⟩ := List.mem_filter.mp hevent
  rw [hcursor, Bool.and_eq_true] at hwanted
  obtain ⟨i, hi, hplace⟩ := List.getElem_of_mem hmem
  have hget := getElem?_notified h.logged (List.getElem?_eq_some_iff.mpr ⟨hi, hplace⟩)
  have hseq := seq_of_getElem? (sequenced_log h.logged) hget
  have hnewer : cursor.toNat < event.seq.toNat :=
    UInt64.lt_iff_toNat_lt.mp (of_decide_eq_true hwanted.2)
  rw [hreached.handed_eq, h.asked]
  apply mem_window hget
  · omega
  · omega
  · exact hwanted.1

/-- A server is started on a log, and a client asks it for the events of a run. Callers and the
writer go on in any order, notifications are overwritten, the producer of the client reads the log
or fails to, and the connection is lost and made again with the id of the last message, any number
of times. What the client has received is always a first part of the committed events it asked for,
in order. So is this with what its connection holds, and where the producer waits and there is no
notification that it has not taken, it has sent all those that were notified. -/
theorem stream_exact (crc : Bytes → UInt32) (fromStr : String → Option Json)
    (records : List (LogRecord crc)) (hseq : Sequenced 1 (LogRecord.events records))
    (request : StreamRequest) (actions : List Action) :
    let s := actions.foldl (Service.step crc fromStr)
      (.start (.start (Commit.System.spawned fromStr records)) request)
    let wanted := request.wanted (LogRecord.events records ++ s.server.committed)
    s.client.received.map SseMessage.event <+: wanted ∧
      ∀ stream ∈ s.client.stream, s.client.handed stream <+: wanted ∧
        (stream.producer = .receiving → stream.next = s.server.notified.length →
          ∀ event ∈ request.wanted s.server.notified, event ∈ s.client.handed stream) := by
  intro s wanted
  have hrun {start : Nat} (hstart : ∀ cursor, request.cursor = .ok cursor → cursor.toNat = start) :
      Exact crc (LogRecord.events records) request start s := by
    have hbegin : Exact crc (LogRecord.events records) request start
        (.start (.start (Commit.System.spawned fromStr records)) request) :=
      ⟨Commit.System.logged_start fromStr hseq, Nat.le_refl _, rfl, List.nil_prefix,
        fun _ hstream ↦ by cases hstream⟩
    exact hbegin.run hstart actions
  cases hcursor : request.cursor with
  | error err =>
    have hexact : Exact crc (LogRecord.events records) request
        (LogRecord.events records ++ s.server.committed).length s :=
      hrun fun cursor hok ↦ by rw [hcursor] at hok; cases hok
    have hwanted (log : List TimelineEvent) : request.wanted log =
        (log.drop log.length).filter request.selects := by
      rw [StreamRequest.wanted_eq_nil hcursor, List.drop_length]
      rfl
    refine ⟨?_, fun stream hstream ↦ ⟨?_, fun _ _ event hevent ↦ ?_⟩⟩
    · rw [show wanted = _ from hwanted _]
      exact hexact.received
    · rw [show wanted = _ from hwanted _, ← hexact.asked]
      exact (hexact.stream stream hstream).2.front
    · rw [StreamRequest.wanted_eq_nil hcursor] at hevent
      cases hevent
  | ok cursor =>
    have hexact : Exact crc (LogRecord.events records) request cursor.toNat s :=
      hrun fun other hok ↦ by rw [hcursor] at hok; cases hok; rfl
    have hwanted : wanted = ((LogRecord.events records ++ s.server.committed).drop
        cursor.toNat).filter request.selects :=
      StreamRequest.wanted_eq hcursor (sequenced_log hexact.logged)
    refine ⟨?_, fun stream hstream ↦ ⟨?_, fun hwaits hnext event hevent ↦ ?_⟩⟩
    · rw [hwanted]
      exact hexact.received
    · rw [hwanted, ← hexact.asked]
      exact (hexact.stream stream hstream).2.front
    · exact hexact.mem_handed hcursor hstream hwaits hnext hevent

/-- An event of a run. -/
def frameEvent (seq : UInt64) : TimelineEvent :=
  ⟨seq, "run-00000000000000a1", "cam", 40, "frame", "\x7b\x7d"⟩

/-- A log with two events of the run. -/
def frameRecords : List (LogRecord crc32) :=
  [.staged crc32 (frameEvent 1) (by decide +kernel), .staged crc32 (frameEvent 2) (by decide +kernel)]

/-- A request for all frames of the run. -/
def frameRequest : StreamRequest := ⟨"run-00000000000000a1", ⟨none, some "frame"⟩, none⟩

/-- The first frame is received, then the connection is lost and opened again. -/
def frameActions : List Action :=
  [.connect none, .produce .whole none, .produce .whole none, .produce .whole none,
    .produce .whole none, .flush, .receive, .disconnect, .connect none, .produce .whole none,
    .produce .whole none, .produce .whole none, .produce .whole none, .produce .whole none]

theorem stream_exact_resumed :
    let s := frameActions.foldl (Service.step crc32 fun _ ↦ none)
      (.start (.start (Commit.System.spawned (fun _ ↦ none) frameRecords)) frameRequest)
    s.client.received.map (·.event.seq) = [1] ∧
      s.client.received.map SseMessage.event <+:
        frameRequest.wanted (LogRecord.events frameRecords ++ s.server.committed) ∧
      ∀ stream ∈ s.client.stream, s.client.handed stream <+:
        frameRequest.wanted (LogRecord.events frameRecords ++ s.server.committed) := by
  intro s
  obtain ⟨hreceived, hstream⟩ := stream_exact crc32 (fun _ ↦ none) frameRecords
    ⟨rfl, rfl, trivial⟩ frameRequest frameActions
  exact ⟨by decide +kernel, hreceived, fun stream hsome ↦ (hstream stream hsome).1⟩

end Vidarax.Delivery
