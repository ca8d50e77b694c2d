import Vidarax.Commit.Log

/-!
# Streams of events

Package `vidarax-api`, `crates/vidarax-api/src/delivery.rs:41–50,266–466`, `ids.rs:19`,
`response.rs:14–68`, `state.rs:1293`. A client opens a stream of the events of a run. A producer of
its own reads the log behind a cursor, then waits for notifications, and reads the log again when
some of these were overwritten before it came to them. A step is what a producer does between two
points where others can act, or one operation of the client, of its connection or of the server.
-/

namespace Vidarax.Delivery

open Vidarax.Base Vidarax.Timeline

/-- How many events wait for a slow connection; `delivery.rs:41`. -/
def SSE_OUTPUT_CAP : Nat := 16

/-- How many events are read from the log at once; `delivery.rs:42`. -/
def REPLAY_BATCH : Nat := 256

/-- How long an event filter is at most; `delivery.rs:48`. -/
def MAX_FILTER_LEN : Nat := 96

/-! ### Requests -/

/-- The field of a request that is refused; `models.rs:509`. -/
structure FieldError where
  field : String
  message : String
  deriving DecidableEq

/-- A refused request; `response.rs:14–68`. -/
structure ApiError where
  status : Nat
  code : String
  message : String
  details : List FieldError
  deriving DecidableEq

/-- `validation_error`; `response.rs:14`. -/
def validationError (message : String) (details : List FieldError) : ApiError :=
  ⟨422, "validation_error", message, details⟩

/-- `bad_request_error`; `response.rs:56`. -/
def badRequestError (message : String) (details : List FieldError) : ApiError :=
  ⟨400, "bad_request", message, details⟩

/-- `is_ascii_hexdigit`. -/
def isAsciiHexdigit (c : Char) : Bool :=
  c.isDigit || ('a' ≤ c && c ≤ 'f') || ('A' ≤ c && c ≤ 'F')

/-- `validate_run_id`; `ids.rs:19`. -/
def validateRunId (runId : String) : Bool :=
  ((utf8 runId).length = 20 || (utf8 runId).length = 36) && runId.toList.take 4 = "run-".toList &&
    (runId.toList.drop 4).all isAsciiHexdigit

/-- What a stream is asked for; `delivery.rs:267`. -/
structure EventStreamQuery where
  after : Option UInt64
  kind : Option String

/-- The run, the query and the `Last-Event-ID` header of a request. -/
structure StreamRequest where
  runId : String
  query : EventStreamQuery
  header : Option Bytes

namespace StreamRequest

/-- The event is wanted; `delivery.rs:372,424`. -/
def selects (request : StreamRequest) (event : TimelineEvent) : Bool :=
  event.runId = request.runId && request.query.kind.all (event.kind = ·)

end StreamRequest

/-- The bytes that `HeaderValue::to_str` accepts. -/
def isVisibleAscii (b : UInt8) : Bool := (32 ≤ b && b < 127) || b = 9

/-- The sequence number in a `Last-Event-ID` header; `delivery.rs:308`. -/
def headerCursor (raw : Bytes) : Option UInt64 :=
  if raw.all isVisibleAscii then (parseUnsigned 10 u64Max raw).map UInt64.ofNat else none

/-- The cursor of a request; `delivery.rs:307`. -/
def StreamRequest.cursor (request : StreamRequest) : Except ApiError UInt64 :=
  match request.header with
  | some raw =>
    match headerCursor raw with
    | some cursor => .ok cursor
    | none => .error (validationError "invalid event stream cursor"
        [⟨"Last-Event-ID", "must be an unsigned timeline sequence"⟩])
  | none => .ok (request.query.after.getD 0)

/-- The checks of `stream_events`, where the run may be refused to the client; `delivery.rs:278`. -/
def StreamRequest.accept (request : StreamRequest) (snapshot : Option ApiError) :
    Except ApiError UInt64 :=
  if ¬ validateRunId request.runId then
    .error (badRequestError "invalid event stream request" [⟨"run_id", "invalid run id"⟩])
  else
    match snapshot with
    | some err => .error err
    | none =>
      if request.query.kind.any fun kind ↦
          (utf8 kind).length = 0 || MAX_FILTER_LEN < (utf8 kind).length then
        .error (validationError "invalid event stream request"
          [⟨"kind", s!"kind must contain 1..={MAX_FILTER_LEN} bytes"⟩])
      else request.cursor

/-! ### Producers -/

/-- A message of an event, with its sequence number as id. -/
structure SseMessage where
  id : Bytes
  event : TimelineEvent
  id_eq : id = decimal event.seq.toNat

/-- `timeline_sse_event`, which panics on a kind with a line break; `delivery.rs:460`. -/
def timelineSseEvent (event : TimelineEvent) : Option SseMessage :=
  if event.kind.toList.any fun c ↦ c = '\n' || c = '\r' then none
  else some ⟨decimal event.seq.toNat, event, rfl⟩

/-- Where a producer stands. -/
inductive Producer where
  /-- `read_timeline_after` loads the published boundary next. -/
  | replaying
  /-- The log is read next, up to a boundary. -/
  | reading (committedEnd : Nat)
  /-- The first of `rest` is taken next, or the batch ends. -/
  | sending (rest : List TimelineEvent) (full : Bool)
  /-- A message of the log waits for room in the output. -/
  | offering (message : SseMessage) (rest : List TimelineEvent) (full : Bool)
  /-- A notification is awaited. -/
  | receiving
  /-- A message of a notification waits for room in the output. -/
  | forwarding (message : SseMessage)
  | closed

/-- A stream: the producer with its cursor and the number of its next notification, and the messages
in its output and on the wire. -/
structure Stream where
  cursor : UInt64
  next : Nat
  producer : Producer
  output : List SseMessage
  wire : List SseMessage

/-- A client, its first request and what it has received. -/
structure Client where
  request : StreamRequest
  received : List SseMessage
  stream : Option Stream

namespace Client

/-- The next request: the header has the id of the last message, if there is one. -/
def resume (client : Client) : StreamRequest :=
  match client.received.getLast? with
  | some message => { client.request with header := some message.id }
  | none => client.request

variable (client : Client) (server : Commit.System)

/-- A step of the producer, where `oldest` is the first notification that is not overwritten;
`delivery.rs:339,404`. -/
def produce (crc : Bytes → UInt32) (oldest : Nat) (os : Fills) (failure : Option String)
    (stream : Stream) : Stream :=
  match stream.producer with
  | .replaying => { stream with producer := .reading server.w.committedEnd }
  | .reading committedEnd =>
    let access := failure.elim (.opened server.w.file) .failed
    match readEventsAfterUpTo crc os access stream.cursor REPLAY_BATCH (some committedEnd) with
    | .error _ => { stream with producer := .closed }
    | .ok [] => { stream with producer := .receiving }
    | .ok batch => { stream with producer := .sending batch (batch.length = REPLAY_BATCH) }
  | .sending [] full => { stream with producer := if full then .replaying else .receiving }
  | .sending (event :: rest) full =>
    if client.request.selects event then
      match timelineSseEvent event with
      | none => { stream with cursor := event.seq, producer := .closed }
      | some message => { stream with cursor := event.seq, producer := .offering message rest full }
    else { stream with cursor := event.seq, producer := .sending rest full }
  | .offering message rest full =>
    if stream.output.length < SSE_OUTPUT_CAP then
      { stream with output := stream.output ++ [message], producer := .sending rest full }
    else stream
  | .receiving =>
    if stream.next < oldest then { stream with next := oldest, producer := .replaying }
    else
      match server.notified[stream.next]? with
      | none => stream
      | some event =>
        if event.seq ≤ stream.cursor then { stream with next := stream.next + 1 }
        else if client.request.selects event then
          match timelineSseEvent event with
          | none =>
            { stream with next := stream.next + 1, cursor := event.seq, producer := .closed }
          | some message =>
            { stream with
              next := stream.next + 1, cursor := event.seq, producer := .forwarding message }
        else { stream with next := stream.next + 1, cursor := event.seq }
  | .forwarding message =>
    if stream.output.length < SSE_OUTPUT_CAP then
      { stream with output := stream.output ++ [message], producer := .receiving }
    else stream
  | .closed => stream

/-- The client connects. The producer subscribes to notifications before it reads the log. -/
def connect (snapshot : Option ApiError) : Client :=
  match client.stream with
  | some _ => client
  | none =>
    match client.resume.accept snapshot with
    | .error _ => client
    | .ok cursor => { client with stream := some ⟨cursor, server.notified.length, .replaying, [], []⟩ }

/-- The connection takes a message from the output. -/
def flush : Client :=
  match client.stream with
  | some ⟨cursor, next, producer, message :: output, wire⟩ =>
    { client with stream := some ⟨cursor, next, producer, output, wire ++ [message]⟩ }
  | _ => client

/-- The client receives a message. -/
def receive : Client :=
  match client.stream with
  | some ⟨cursor, next, producer, output, message :: wire⟩ =>
    { client with
      received := client.received ++ [message]
      stream := some ⟨cursor, next, producer, output, wire⟩ }
  | _ => client

end Client

/-! ### Server and client -/

/-- A server and a client of it. Notifications before `oldest` are overwritten. -/
structure Service where
  server : Commit.System
  oldest : Nat
  client : Client

/-- What happens next. -/
inductive Action where
  | server (action : Commit.System.Action)
  | overwrite
  | produce (os : Fills) (failure : Option String)
  | connect (snapshot : Option ApiError)
  | flush
  | receive
  /-- The connection is lost with all that was on it. -/
  | disconnect

namespace Service

/-- A client that has not connected yet. -/
def start (server : Commit.System) (request : StreamRequest) : Service where
  server := server
  oldest := server.notified.length
  client := ⟨request, [], none⟩

/-- A step of anyone. -/
def step (crc : Bytes → UInt32) (fromStr : String → Option Json) (s : Service) : Action → Service
  | .server action => { s with server := s.server.step crc fromStr action }
  | .overwrite => { s with oldest := min (s.oldest + 1) s.server.notified.length }
  | .produce os failure =>
    { s with client := { s.client with
      stream := s.client.stream.map (s.client.produce s.server crc s.oldest os failure) } }
  | .connect snapshot => { s with client := s.client.connect s.server snapshot }
  | .flush => { s with client := s.client.flush }
  | .receive => { s with client := s.client.receive }
  | .disconnect => { s with client := { s.client with stream := none } }

end Service

end Vidarax.Delivery
