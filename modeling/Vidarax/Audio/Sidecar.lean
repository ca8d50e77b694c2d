import Vidarax.Base.LittleEndian

/-!
# The protocol of the audio sidecar

Package `vidarax-core`, `audio_sidecar.rs` 14–66, 290–555, and the server of the protocol,
`scripts/audio_perception_server.py` 50–117, 953–1104. A client keeps one connection for many
requests, and drops it after every error. The server answers the requests of a connection one by
one. Writes and reads may end at any byte, and what is on its way on a connection is what the server
makes of the bytes it was sent.
-/

namespace Vidarax.Audio

open Base

/-! ### Requests -/

/-- `Operation`. -/
inductive Operation where
  | analyze
  | synthesize
  deriving DecidableEq

/-- `AudioProfile`. -/
inductive AudioProfile where
  | general
  | gameplay
  | screenRecording
  | physicalWorld
  deriving DecidableEq

/-- `SpeechEngine`. -/
inductive SpeechEngine where
  | none
  | auto
  | senseVoice
  | moonshine
  | qwen3Asr
  | lfm25Audio
  | whisper
  deriving DecidableEq

/-- `operation as u8`. -/
def Operation.code : Operation → UInt8
  | analyze => 1
  | synthesize => 2

namespace AudioProfile

/-- `profile as u8`. -/
def code : AudioProfile → UInt8
  | general => 0
  | gameplay => 1
  | screenRecording => 2
  | physicalWorld => 3

/-- `AudioProfile::as_str`. -/
def asStr : AudioProfile → String
  | general => "general"
  | gameplay => "gameplay"
  | screenRecording => "screen_recording"
  | physicalWorld => "physical_world"

end AudioProfile

namespace SpeechEngine

/-- `speech_engine as u8`. -/
def code : SpeechEngine → UInt8
  | none => 0
  | auto => 1
  | senseVoice => 2
  | moonshine => 3
  | qwen3Asr => 4
  | lfm25Audio => 5
  | whisper => 6

/-- `SpeechEngine::as_str`. -/
def asStr : SpeechEngine → String
  | none => "none"
  | auto => "auto"
  | senseVoice => "sensevoice"
  | moonshine => "moonshine"
  | qwen3Asr => "qwen3_asr"
  | lfm25Audio => "lfm2_5_audio"
  | whisper => "whisper"

end SpeechEngine

def MAX_AUDIO_BYTES : Nat := 4 * 1024 * 1024

def MAX_TEXT_BYTES : Nat := 16 * 1024

def MAX_AUDIO_METADATA_BYTES : Nat := 512 * 1024

def MAX_SYNTHESIZED_AUDIO_BYTES : Nat := 16 * 1024 * 1024

def PROTOCOL_VERSION : UInt8 := 1

/-- `VXAU`. -/
def REQUEST_MAGIC : Bytes := [0x56, 0x58, 0x41, 0x55]

/-- `VXAR`. -/
def RESPONSE_MAGIC : Bytes := [0x56, 0x58, 0x41, 0x52]

def REQUEST_HEADER_BYTES : Nat := 32

def RESPONSE_HEADER_BYTES : Nat := 16

/-- What `exchange` is called with. -/
structure Exchange where
  operation : Operation
  profile : AudioProfile
  speech_engine : SpeechEngine
  flags : UInt16
  source_start_ms : UInt64
  threshold : UInt16
  max_events : UInt16
  audio : Bytes
  text : Bytes

namespace Exchange

variable (e : Exchange)

/-- The fields of the header; two bytes stay zero. -/
def headerFields : List Bytes :=
  [REQUEST_MAGIC, [PROTOCOL_VERSION], [e.operation.code], [e.profile.code], [e.speech_engine.code],
    beBytes 2 e.flags.toNat, [0, 0], beBytes 8 e.source_start_ms.toNat, beBytes 4 e.audio.length,
    beBytes 4 e.text.length, beBytes 2 e.max_events.toNat, beBytes 2 e.threshold.toNat]

/-- The bytes that a request writes. -/
def wire : Bytes := e.headerFields.flatten ++ (e.audio ++ e.text)

end Exchange

/-! ### The server -/

/-- `REQUEST_HEADER`. -/
def REQUEST_HEADER : List Nat := [4, 1, 1, 1, 1, 2, 2, 8, 4, 4, 2, 2]

/-- `RESPONSE_HEADER`. -/
def RESPONSE_HEADER : List Nat := [4, 1, 1, 2, 4, 4]

/-- `PROFILE_NAMES`. -/
def profileName : Nat → Option String
  | 0 => some "general"
  | 1 => some "gameplay"
  | 2 => some "screen_recording"
  | 3 => some "physical_world"
  | _ => none

/-- `ENGINE_NAMES`. -/
def engineName : Nat → Option String
  | 0 => some "none"
  | 1 => some "auto"
  | 2 => some "sensevoice"
  | 3 => some "moonshine"
  | 4 => some "qwen3_asr"
  | 5 => some "lfm2_5_audio"
  | 6 => some "whisper"
  | _ => none

/-- A header as the server unpacks it. -/
structure RequestHeader where
  magic : Bytes
  version : Nat
  operation : Nat
  profile_id : Nat
  engine_id : Nat
  flags : Nat
  reserved : Nat
  source_start_ms : Nat
  audio_len : Nat
  text_len : Nat
  max_events : Nat
  threshold : Nat

/-- `REQUEST_HEADER.unpack`. -/
def RequestHeader.unpack (raw : Bytes) : RequestHeader :=
  let field (i : Nat) : Bytes := (fields REQUEST_HEADER raw).getD i []
  { magic := field 0
    version := ofBe (field 1)
    operation := ofBe (field 2)
    profile_id := ofBe (field 3)
    engine_id := ofBe (field 4)
    flags := ofBe (field 5)
    reserved := ofBe (field 6)
    source_start_ms := ofBe (field 7)
    audio_len := ofBe (field 8)
    text_len := ofBe (field 9)
    max_events := ofBe (field 10)
    threshold := ofBe (field 11) }

/-- What the engine is asked. -/
inductive Task where
  | analyze (audio : Bytes) (profile engine : String) (threshold max_events source_start_ms : Nat)
  | synthesize (text : Bytes)
  deriving DecidableEq

namespace RequestHeader

variable (h : RequestHeader)

/-- Why a header is refused. -/
def refusal : Option String :=
  if h.magic ≠ REQUEST_MAGIC ∨ h.version ≠ 1 ∨ h.reserved ≠ 0 ∨ h.flags ≠ 0 ∨
      profileName h.profile_id = none ∨ engineName h.engine_id = none then
    some "invalid request header"
  else if h.audio_len > MAX_AUDIO_BYTES ∨ h.text_len > MAX_TEXT_BYTES ∨ h.max_events = 0 ∨
      h.max_events > 64 then
    some "request payload exceeds limits"
  else if h.operation = 1 ∧ (h.audio_len = 0 ∨ h.text_len ≠ 0) then some "analyze requires WAV only"
  else if h.operation = 2 ∧ (h.audio_len ≠ 0 ∨ h.text_len = 0) then
    some "synthesize requires text only"
  else if h.operation ≠ 1 ∧ h.operation ≠ 2 then some "unknown operation"
  else none

/-- The call of the engine for an accepted header. -/
def task (audio text : Bytes) : Task :=
  if h.operation = 1 then
    .analyze audio ((profileName h.profile_id).getD "") ((engineName h.engine_id).getD "")
      h.threshold h.max_events h.source_start_ms
  else .synthesize text

end RequestHeader

/-- Statuses of errors. -/
inductive Status where
  | badRequest
  | inferenceError
  | overloaded

/-- `STATUS_BAD_REQUEST`, `STATUS_INFERENCE_ERROR`, `STATUS_OVERLOADED`. -/
def Status.code : Status → UInt8
  | badRequest => 1
  | inferenceError => 2
  | overloaded => 3

/-- A result within the limits of `_respond`; one beyond them is an inference error. -/
structure Output where
  metadata : Bytes
  audio : Bytes
  le_metadata : metadata.length ≤ MAX_AUDIO_METADATA_BYTES
  le_audio : audio.length ≤ MAX_SYNTHESIZED_AUDIO_BYTES

/-- How the server answers a request. -/
inductive Reply where
  | respond (output : Output)
  /-- `_respond_error`, after which the connection may be closed. -/
  | fail (status : Status) (payload : Bytes) (closes : Bool)
  /-- `sendall` timed out after some bytes of the response, and the error is reported behind
  them. -/
  | cut (output : Output) (sent : Nat) (payload : Bytes)

/-- The fields of the header of a response. -/
def responseFields (status : UInt8) (metadata audio : Bytes) : List Bytes :=
  [RESPONSE_MAGIC, [PROTOCOL_VERSION], [status], beBytes 2 0, beBytes 4 metadata.length,
    beBytes 4 audio.length]

/-- The bytes of a response. -/
def response (status : UInt8) (metadata audio : Bytes) : Bytes :=
  (responseFields status metadata audio).flatten ++ (metadata ++ audio)

namespace Reply

/-- The bytes of an answer. -/
def bytes : Reply → Bytes
  | respond output => response 0 output.metadata output.audio
  | fail status payload _ => response status.code payload []
  | cut output sent payload =>
    (response 0 output.metadata output.audio).take sent ++
      response Status.inferenceError.code payload []

/-- Nothing is read after the answer. -/
def closes : Reply → Bool
  | fail _ _ closes => closes
  | respond _ | cut .. => false

end Reply

/-- What the server did with a request. -/
inductive Served where
  | refused (message : String)
  | answered (task : Task) (reply : Reply)

/-- The server: its answers by connection and number of the request, and the encoding of its
refusals. -/
structure Server where
  answers : Nat → Nat → Task → Reply
  pack : String → Bytes

namespace Server

variable (server : Server)

/-- The bytes that are sent for a request. -/
def emitted : Served → Bytes
  | .refused message => response Status.badRequest.code (server.pack message) []
  | .answered _ reply => reply.bytes

/-- `handle`, on all bytes that a connection brought from a request on. -/
def handle (connection k : Nat) (bytes : Bytes) : List Served :=
  if bytes.length < REQUEST_HEADER_BYTES then []
  else
    let h := RequestHeader.unpack (bytes.take REQUEST_HEADER_BYTES)
    match h.refusal with
    | some message => [.refused message]
    | none =>
      let body := bytes.drop REQUEST_HEADER_BYTES
      if body.length < h.audio_len + h.text_len then []
      else
        let task := h.task (body.take h.audio_len) ((body.drop h.audio_len).take h.text_len)
        let reply := server.answers connection k task
        .answered task reply ::
          if reply.closes then []
          else handle connection (k + 1) (body.drop (h.audio_len + h.text_len))
termination_by bytes.length
decreasing_by
  simp only [REQUEST_HEADER_BYTES, List.length_drop] at *
  omega

/-- All that a connection brings the client after these bytes were sent on it. -/
def responses (connection : Nat) (sent : Bytes) : Bytes :=
  (server.handle connection 0 sent).flatMap server.emitted

end Server

/-! ### The client -/

/-- `AudioSidecarError`, as far as an exchange has it. -/
inductive SidecarError where
  | backingOff
  | audioTooLarge (bytes : Nat)
  | textTooLarge (bytes : Nat)
  | io
  | reconnectFailed
  | protocol (message : String)
  | sidecarStatus (status : Nat) (metadata : Bytes)
  deriving DecidableEq

/-- A connection: what was sent on it, and how much was read from it. -/
structure Connection where
  id : Nat
  sent : Bytes
  read : Nat

/-- `AudioSidecarClient`; the connections it makes are counted from zero. -/
structure Client where
  stream : Option Connection
  consecutive_failures : Nat
  retry_after : Option Nat
  connections : Nat

/-- What an exchange meets: the time before and after it, whether it can connect, and how many bytes
can be written and read. -/
structure Conditions where
  now : Nat
  later : Nat
  connects : Bool
  written : Nat
  arrived : Nat

def INITIAL_BACKOFF_MS : Nat := 100

def MAX_BACKOFF_MS : Nat := 5000

/-- `backoff_ms` after so many failures. -/
def backoffMs (failures : Nat) : Nat :=
  min (INITIAL_BACKOFF_MS * 2 ^ min (failures - 1) 6) MAX_BACKOFF_MS

/-- Read a response from the bytes that arrive: its metadata, its audio and its length. -/
def readResponse (arriving : Bytes) : Except SidecarError (Bytes × Bytes × Nat) :=
  if arriving.length < RESPONSE_HEADER_BYTES then .error .io
  else
    let field (i : Nat) : Bytes := (fields RESPONSE_HEADER arriving).getD i []
    let status := ofBe (field 2)
    let metadata_len := ofBe (field 4)
    let audio_len := ofBe (field 5)
    if field 0 ≠ RESPONSE_MAGIC then .error (.protocol "bad response magic")
    else if field 1 ≠ [PROTOCOL_VERSION] then .error (.protocol "unsupported version")
    else if metadata_len > MAX_AUDIO_METADATA_BYTES then
      .error (.protocol "metadata exceeds limit")
    else if audio_len > MAX_SYNTHESIZED_AUDIO_BYTES then
      .error (.protocol "audio response exceeds limit")
    else
      let body := arriving.drop RESPONSE_HEADER_BYTES
      if body.length < metadata_len + audio_len then .error .io
      else if status ≠ 0 then .error (.sidecarStatus status (body.take metadata_len))
      else .ok (body.take metadata_len, (body.drop metadata_len).take audio_len,
        RESPONSE_HEADER_BYTES + (metadata_len + audio_len))

namespace Client

/-- `AudioSidecarClient::new`. -/
def new : Client := ⟨none, 0, none, 0⟩

/-- `connection`. -/
def connection (c : Client) (w : Conditions) : Except SidecarError Connection :=
  match c.stream with
  | some stream => .ok stream
  | none =>
    if w.connects then .ok ⟨c.connections, [], 0⟩
    else .error (if c.consecutive_failures > 0 then .reconnectFailed else .io)

/-- `exchange_inner`: the connection it leaves, with the metadata and the audio. -/
def exchangeInner (server : Server) (c : Client) (e : Exchange) (w : Conditions) :
    Except SidecarError (Connection × Bytes × Bytes) :=
  if e.audio.length ≥ 2 ^ 32 then throw (.audioTooLarge e.audio.length)
  else if e.text.length ≥ 2 ^ 32 then throw (.textTooLarge e.text.length)
  else do
    let stream ← c.connection w
    if w.written < e.wire.length then throw .io
    else do
      let sent := stream.sent ++ e.wire
      let arriving := ((server.responses stream.id sent).drop stream.read).take w.arrived
      let (metadata, audio, length) ← readResponse arriving
      return (⟨stream.id, sent, stream.read + length⟩, metadata, audio)

/-- `exchange`. -/
def exchange (server : Server) (c : Client) (e : Exchange) (w : Conditions) :
    Client × Except SidecarError (Bytes × Bytes) :=
  if c.retry_after.any (w.now < ·) then (c, .error .backingOff)
  else
    let connections := c.connections + if c.stream.isNone ∧ w.connects then 1 else 0
    match c.exchangeInner server e w with
    | .ok (stream, metadata, audio) => (⟨some stream, 0, none, connections⟩, .ok (metadata, audio))
    | .error error =>
      let failures := min (c.consecutive_failures + 1) (2 ^ 32 - 1)
      (⟨none, failures, some (w.later + backoffMs failures), connections⟩, .error error)

end Client

end Vidarax.Audio
