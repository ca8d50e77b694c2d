import Mathlib.Logic.Relation
import Vidarax.Base.FloatCast
import Vidarax.Base.JsonObject
import Vidarax.Base.Machine

/-!
# Chunk events of realtime reason requests

Package `vidarax-api`, `semantic_infer.rs:213–281,524–660` and `handlers.rs:1464–1626,1664–1757`.
Several requests journal on one run. Each appends an event for a chunk when its inference is done,
in any order, and one event more for every chunk in the end. The timeline writer stamps an event
with its clock. Payloads are taken as the values that their texts are read back to.
-/

namespace Vidarax.Interactions

open Base

/-- What the journal reads of a `ChunkPrep`. -/
structure ChunkPrep where
  ptsStartMs : UInt64
  ptsEndMs : UInt64
  chunkLen : UInt64

/-- `TokenUsage`. -/
structure TokenUsage where
  promptTokens : UInt64
  completionTokens : UInt64
  thinkingTokens : UInt64
  totalTokens : UInt64

/-- `TokenUsage::default`. -/
def TokenUsage.none : TokenUsage := ⟨0, 0, 0, 0⟩

/-- `SemanticOverlay`, with the bits that its confidence is written with. -/
structure SemanticOverlay where
  eventType : String
  objectLabel : String
  summary : String
  description : String
  confidence : UInt64

/-- What the journal reads of `SemanticMediaEvidence`, with the evidence that was stored. -/
structure SemanticMediaEvidence where
  mode : String
  resolution : String
  sourceStartMs : UInt64
  sourceEndMs : UInt64
  bytes : UInt64
  extractionMs : UInt64
  audioStreams : Json
  audioChannels : Json
  audioMixed : Json
  evidence : Option Json

/-- What the journal reads of a `ChunkSemanticResult`. -/
structure ChunkSemanticResult where
  overlay : Option SemanticOverlay
  rawOutput : Option Json
  provider : Option String
  providerFallbackUsed : Bool
  usedFallback : Bool
  error : Option String
  attempted : Bool
  finishReason : Option String
  responseChars : Option UInt64
  usage : TokenUsage
  inferenceLatencyMs : UInt64
  moments : List Json
  media : Option SemanticMediaEvidence
  localAudio : Option Json
  localAudioError : Option String
  feedbackAudio : Option Json

/-- `ChunkSemanticResult::default`. -/
def ChunkSemanticResult.none : ChunkSemanticResult where
  overlay := .none
  rawOutput := .none
  provider := .none
  providerFallbackUsed := false
  usedFallback := false
  error := .none
  attempted := false
  finishReason := .none
  responseChars := .none
  usage := .none
  inferenceLatencyMs := 0
  moments := []
  media := .none
  localAudio := .none
  localAudioError := .none
  feedbackAudio := .none

/-- A request on the run with the chunks that it has prepared; validation bounds the frames. -/
structure Request where
  requestId : String
  streamId : String
  indexName : Option String
  chunks : List ChunkPrep
  few : chunks.length ≤ 500000

open Json

/-- `ChunkSemanticResult::event_payload`. -/
def eventPayload (result : ChunkSemanticResult) (chunkIdx : Nat) (requestId streamId : String) :
    Option Json :=
  if result.attempted then
    some (object [
      ("request_id", string requestId),
      ("stream_id", string streamId),
      ("chunk_index", whole (.ofNat chunkIdx)),
      ("provider", nullable string result.provider),
      ("provider_fallback_used", bool result.providerFallbackUsed),
      ("semantic_fallback_used", bool result.usedFallback),
      ("semantic_error", nullable string result.error),
      ("finish_reason", nullable string result.finishReason),
      ("response_chars", nullable whole result.responseChars),
      ("event_type", nullable (string ·.eventType) result.overlay),
      ("object_label", nullable (string ·.objectLabel) result.overlay),
      ("summary", nullable (string ·.summary) result.overlay),
      ("description", nullable (string ·.description) result.overlay),
      ("confidence", nullable (number <| .float ·.confidence) result.overlay),
      ("raw_output", nullable id result.rawOutput),
      ("prompt_tokens", whole result.usage.promptTokens),
      ("completion_tokens", whole result.usage.completionTokens),
      ("thinking_tokens", whole result.usage.thinkingTokens),
      ("total_tokens", whole result.usage.totalTokens),
      ("inference_latency_ms", whole result.inferenceLatencyMs),
      ("moments", array result.moments),
      ("local_audio", nullable id result.localAudio),
      ("local_audio_error", nullable string result.localAudioError)])
  else .none

/-- Resolution of the timestamps of a provider. -/
def timestampResolution (provider : Option String) : Json :=
  whole (if provider = some "gemini" then 1000 else 1)

/-- The members that a media clip adds; `handlers.rs:1562`. -/
def insertMedia (provider : Option String) (details : Json) (media : SemanticMediaEvidence) :
    Json :=
  let details := details
    |>.insert "media_mode" (string media.mode)
    |>.insert "media_resolution" (string media.resolution)
    |>.insert "pts_start_ms" (whole media.sourceStartMs)
    |>.insert "pts_end_ms" (whole media.sourceEndMs)
    |>.insert "timestamp_resolution_ms" (timestampResolution provider)
    |>.insert "clip_bytes" (whole media.bytes)
    |>.insert "extraction_ms" (whole media.extractionMs)
    |>.insert "audio_streams" media.audioStreams
    |>.insert "audio_channels" media.audioChannels
    |>.insert "audio_mixed" media.audioMixed
  match media.evidence with
  | some evidence => details.insert "evidence" evidence
  | .none => details

/-- A member for a value that may be there. -/
def insertSome (details : Json) (key : String) : Option Json → Json
  | some value => details.insert key value
  | .none => details

/-- Payload of the event that `append_semantic_chunk_event` appends. -/
def inferredPayload (result : ChunkSemanticResult) (chunkIdx : Nat) (request : Request) :
    Option Json :=
  (eventPayload result chunkIdx request.requestId request.streamId).map fun details ↦
    let details := match result.media with
      | some media => insertMedia result.provider details media
      | .none => details
    let details := insertSome details "feedback_audio" result.feedbackAudio
    insertSome details "index_name" (request.indexName.map string)

/-- Payload of the event that `assemble_realtime_reason_response` appends for a chunk. -/
def generatedPayload (request : Request) (chunkIdx : Nat) (prep : ChunkPrep)
    (result : ChunkSemanticResult) (processMs : UInt64) : Json :=
  let sourceSpanMs := satSub prep.ptsEndMs prep.ptsStartMs
  object [
    ("request_id", string request.requestId),
    ("stream_id", string request.streamId),
    ("chunk_index", whole (.ofNat chunkIdx)),
    ("chunk_frames", whole prep.chunkLen),
    ("process_ms", whole processMs),
    ("source_span_ms", whole sourceSpanMs),
    ("lag_ms", whole (satSub processMs sourceSpanMs)),
    ("index_name", nullable string request.indexName),
    ("prompt_tokens", whole result.usage.promptTokens),
    ("completion_tokens", whole result.usage.completionTokens),
    ("thinking_tokens", whole result.usage.thinkingTokens),
    ("total_tokens", whole result.usage.totalTokens),
    ("inference_latency_ms", whole result.inferenceLatencyMs)]

/-- Kinds of the events of chunks, and of the others. -/
inductive Kind where
  | semanticChunkInferred
  | semanticChunkGenerated
  | other
  deriving DecidableEq

/-- `TimelineEvent`, in the order of the journal. -/
structure TimelineEvent where
  kind : Kind
  ptsMs : UInt64
  payload : Json

/-- An event with the chunk that it is about, which is kept for statements only. -/
structure Entry where
  event : TimelineEvent
  chunk : Option (Nat × ChunkPrep)

/-- How far a request has come. -/
structure Progress where
  request : Request
  /-- `semantic_results`. -/
  results : List (Option ChunkSemanticResult)
  generated : Nat

/-- The requests on a run and its events. -/
structure Run where
  requests : List Progress
  entries : List Entry

namespace Run

/-- One step of a request, or another event of the run. The writer's clock shows any time. A request
whose append fails goes no further. -/
inductive Step (s : Run) : Run → Prop where
  | begin (request : Request) :
      Step s { s with
        requests := s.requests ++ [⟨request, request.chunks.map fun _ ↦ none, 0⟩] }
  /-- The result of a chunk is journaled when an inference was attempted. Without a provider no
  inference is, and the result is the default one. -/
  | infer (i chunkIdx : Nat) (p : Progress) (prep : ChunkPrep) (result : ChunkSemanticResult)
      (nowMs : UInt64) (hrequest : s.requests[i]? = some p)
      (hprep : p.request.chunks[chunkIdx]? = some prep)
      (hfirst : p.results[chunkIdx]? = some none) :
      Step s {
        requests := s.requests.set i { p with results := p.results.set chunkIdx (some result) }
        entries := s.entries ++ match inferredPayload result chunkIdx p.request with
          | some payload =>
            [⟨⟨.semanticChunkInferred, nowMs, payload⟩, some (chunkIdx, prep)⟩]
          | none => [] }
  /-- All results are there, and the next chunk is assembled. -/
  | generate (i : Nat) (p : Progress) (prep : ChunkPrep) (processMs nowMs : UInt64)
      (hrequest : s.requests[i]? = some p) (hdone : none ∉ p.results)
      (hprep : p.request.chunks[p.generated]? = some prep) :
      Step s {
        requests := s.requests.set i { p with generated := p.generated + 1 }
        entries := s.entries ++ [⟨⟨.semanticChunkGenerated, nowMs,
          generatedPayload p.request p.generated prep
            ((p.results[p.generated]?.join).getD .none) processMs⟩,
          some (p.generated, prep)⟩] }
  | other (nowMs : UInt64) (payload : Json) :
      Step s { s with entries := s.entries ++ [⟨⟨.other, nowMs, payload⟩, none⟩] }

/-- States of any run. -/
def Reachable (s : Run) : Prop := Relation.ReflTransGen Step ⟨[], []⟩ s

/-- The events of the run. -/
def events (s : Run) : List TimelineEvent := s.entries.map (·.event)

end Run

end Vidarax.Interactions
