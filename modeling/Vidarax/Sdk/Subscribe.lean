import Vidarax.Base.Number
import Vidarax.Sdk.Sse

/-!
# Subscriptions of the SDK

Package `vidarax-sdk`, `packages/vidarax-sdk/src/client.ts:793–873`, `types.ts:103–130`. The
generator asks for the events of a run behind its cursor, yields those it receives, and asks again
when a response has ended. What happens to it is a list of attempts: the answer to a request, or
what was read of its body and how it ended. JSON texts are read by a parameter.
-/

namespace Vidarax.Sdk

open Vidarax.Base

/-! ### Values -/

/-- Values of JSON texts; the members of an object have different names. -/
inductive JsValue where
  | null
  | bool (b : Bool)
  | number (x : F64)
  | string (s : Utf16)
  | array (values : List JsValue)
  | object (members : List (Utf16 × JsValue))

/-- Member of a value, unless it is `undefined`. -/
def JsValue.member (name : String) : JsValue → Option JsValue
  | object members => members.lookup (units name)
  | _ => none

/-- `Number.MAX_SAFE_INTEGER`. -/
def MAX_SAFE_INTEGER : Nat := 2 ^ 53 - 1

/-- A number without sign and fraction, and the text that `String` gives for it. -/
structure WholeNumber where
  value : Nat
  text : String
  text_eq : value ≤ MAX_SAFE_INTEGER → text = toString value

/-- A safe integer. -/
def WholeNumber.safe (n : Nat) : WholeNumber := ⟨n, toString n, fun _ ↦ rfl⟩

/-- Value of a digit. -/
def digitUnit (u : UInt16) : Option Nat :=
  if 48 ≤ u.toNat ∧ u.toNat ≤ 57 then some (u.toNat - 48) else none

/-- `Number` of a text of digits when it is a safe integer; the ids of a stream are such texts. -/
def safeInteger (text : Utf16) : Option Nat :=
  ((text.mapM digitUnit).map (positional 10 0)).filter (· ≤ MAX_SAFE_INTEGER)

/-! ### Requests -/

/-- `EventSubscriptionOptions`; `types.ts:119`. -/
structure EventSubscriptionOptions where
  after : Option WholeNumber
  kind : Option String
  reconnect : Option Bool

/-- A request for a stream of events, with its cursors. -/
structure EventsRequest where
  runId : String
  after : Option WholeNumber
  kind : Option String
  lastEventId : Option WholeNumber

/-- `%` and the two digits of a byte. -/
def percentEncode (b : UInt8) : List Char :=
  ['%', Nat.digitChar (b.toNat / 16), Nat.digitChar (b.toNat % 16)].map Char.toUpper

/-- The bytes that stand for themselves among some others. -/
def isUnreserved (others : List Char) (b : UInt8) : Bool :=
  (Char.ofUInt8 b).isAlphanum && b < 0x80 || Char.ofUInt8 b ∈ others

/-- `encodeURIComponent`. -/
def encodeURIComponent (s : String) : List Char :=
  (utf8 s).flatMap fun b ↦
    if isUnreserved "-_.!~*'()".toList b then [Char.ofUInt8 b] else percentEncode b

/-- A value of `URLSearchParams`. -/
def formEncode (s : String) : List Char :=
  (utf8 s).flatMap fun b ↦
    if isUnreserved "*-._".toList b then [Char.ofUInt8 b]
    else if b = 32 then ['+'] else percentEncode b

/-- Path of a request; `client.ts:806`. -/
def EventsRequest.path (request : EventsRequest) : String :=
  let params := (request.after.map fun after ↦ "after=".toList ++ formEncode after.text).toList ++
    (request.kind.map fun kind ↦ "kind=".toList ++ formEncode kind).toList
  let query := ['&'].intercalate params
  String.ofList ("/v1/runs/".toList ++ encodeURIComponent request.runId ++ "/events/stream".toList ++
    if query = [] then [] else '?' :: query)

/-! ### Attempts -/

/-- How a body ends, with whether the signal is aborted then. -/
inductive Ending where
  /-- It may go on. -/
  | waiting
  | finished (aborted : Bool)
  /-- A read is rejected. -/
  | failed (message : String) (aborted : Bool)

/-- The values that were read of a body, and its end. -/
structure Body where
  values : List Bytes
  ending : Ending

/-- The answer to a request. -/
inductive Answer where
  /-- `fetch` is rejected. -/
  | rejected (message : String) (aborted : Bool)
  /-- A response, with the `error` of its body if it is not `ok`. -/
  | response (status : Nat) (error : Option ApiErrorBody) (body : Option Body)

/-- A pass of the loop, with whether the signal is aborted at its start. -/
structure Attempt where
  aborted : Bool
  answer : Answer

/-! ### The generator -/

/-- `AgentEvent`; `types.ts:104`. -/
structure AgentEvent where
  seq : Nat
  ptsMs : F64
  kind : Utf16
  payload : JsValue

/-- How a generator ends. -/
inductive End where
  | returned
  | threw (error : SdkError)

/-- A generator: its cursor, what it has yielded, and its end. -/
structure Subscription where
  cursor : WholeNumber
  yielded : List AgentEvent
  ended : Option End

/-- The event of a message, where JSON texts are read by `parse`; `client.ts:846`. -/
def agentEvent (parse : Utf16 → Except String JsValue) (sequence : Nat) (message : ParsedSseEvent) :
    Except SdkError AgentEvent :=
  match parse message.data with
  | .error err => .error (.parse s!"Failed to parse SSE event: {err}" message.data)
  | .ok .null => .error (.other "TypeError: cannot read properties of null")
  | .ok envelope =>
    match envelope.member "sequence", envelope.member "pts_ms" with
    | some (.number n), some (.number ptsMs) =>
      if n.eq (F64.ofNat sequence) then
        .ok ⟨sequence, ptsMs, message.event,
          match envelope.member "data" with
          | none | some .null => .object []
          | some data => data⟩
      else .error (.parse "SSE event identity did not match its envelope" message.data)
    | _, _ => .error (.parse "SSE event identity did not match its envelope" message.data)

namespace Subscription

/-- A generator that has not begun; `client.ts:801`. -/
def start (options : EventSubscriptionOptions) : Subscription :=
  ⟨options.after.getD (.safe 0), [], none⟩

/-- The request of the next attempt; `client.ts:804–818`. -/
def request (s : Subscription) (runId : String) (options : EventSubscriptionOptions) :
    EventsRequest :=
  ⟨runId, options.after, options.kind, if 0 < s.cursor.value then some s.cursor else none⟩

/-- The generator ends. -/
def finish (s : Subscription) (e : End) : Subscription := { s with ended := some e }

variable (parse : Utf16 → Except String JsValue)

/-- A message is received; `client.ts:838`. -/
def receive (s : Subscription) (message : ParsedSseEvent) : Subscription :=
  if s.ended.isSome then s
  else
    match safeInteger message.id with
    | none => s
    | some sequence =>
      if sequence ≤ s.cursor.value then s
      else
        match agentEvent parse sequence message with
        | .error err => s.finish (.threw err)
        | .ok event => { s with cursor := .safe sequence, yielded := s.yielded ++ [event] }

/-- Values are read one after another; `client.ts:838`. -/
def readValues (s : Subscription) (r : SseReader) : List Bytes → Subscription × SseReader
  | [] => (s, r)
  | value :: values =>
    if s.ended.isSome then (s, r)
    else
      match r.read value with
      | .error err => (s.finish (.threw err), r)
      | .ok (messages, r) => readValues (messages.foldl (receive parse) s) r values

/-- The end of a body, where the generator goes on if it is to `reconnect`; `client.ts:869`. -/
def endBody (s : Subscription) (r : SseReader) (reconnect : Bool) : Ending → Subscription
  | .waiting => s
  | .failed message _ => s.finish (.threw (.other message))
  | .finished aborted =>
    match r.readEnd with
    | .error err => s.finish (.threw err)
    | .ok (messages, _) =>
      let s := messages.foldl (receive parse) s
      if s.ended.isSome then s else if !reconnect || aborted then s.finish .returned else s

/-- A body is read; `client.ts:838`. -/
def readBody (s : Subscription) (reconnect : Bool) (body : Body) : Subscription :=
  let (s, r) := s.readValues parse .new body.values
  if s.ended.isSome then s else s.endBody parse r reconnect body.ending

/-- An attempt; `client.ts:813`. -/
def attempt (runId : String) (options : EventSubscriptionOptions) (s : Subscription) (a : Attempt) :
    Subscription :=
  let reconnect := options.reconnect.getD true
  if s.ended.isSome then s
  else if a.aborted then s.finish .returned
  else
    match a.answer with
    | .rejected message aborted =>
      if aborted then s.finish .returned
      else if !reconnect then
        s.finish (.threw (.network s!"Event subscription failed: {message}"))
      else s
    | .response status error body =>
      if ¬ (200 ≤ status ∧ status < 300) then
        let message := (error.map ApiErrorBody.message).getD
          s!"HTTP {status} on GET {(s.request runId options).path}"
        s.finish (.threw (.http status message error))
      else
        match body with
        | none => s.finish (.threw (.parse "Event subscription response had no body" []))
        | some body => s.readBody parse reconnect body

end Subscription

/-- `subscribeEvents`; `client.ts:793`. -/
def subscribeEvents (parse : Utf16 → Except String JsValue) (runId : String)
    (options : EventSubscriptionOptions) (attempts : List Attempt) : Subscription :=
  attempts.foldl (Subscription.attempt parse runId options) (.start options)

end Vidarax.Sdk
