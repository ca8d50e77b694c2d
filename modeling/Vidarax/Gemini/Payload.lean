import Vidarax.Base.FloatCast
import Vidarax.Base.JsonObject
import Vidarax.Base.Machine
import Vidarax.Base.Text
import Vidarax.Base.Utf8

/-!
# Requests to Gemini and its answers

Package `vidarax-core`, `gemini.rs:99–221,521–541,661–684` and `provider.rs:37–250`. A request is
turned into the JSON of a `generateContent` call, which is changed for a second call, and an answer
is read. The JSON printer and parser and the base64 decoder are given.
-/

namespace Vidarax.Gemini

open Base Json

/-- `GEMINI_THINKING_HEADROOM`. -/
def GEMINI_THINKING_HEADROOM : Nat := 2048

/-- `INLINE_SIZE_LIMIT`. -/
def INLINE_SIZE_LIMIT : Nat := 20 * 1024 * 1024

/-- `InferenceImage`. -/
structure InferenceImage where
  mediaType : String
  dataBase64 : String

/-- `MediaResolution`. -/
inductive MediaResolution where
  | low
  | medium
  | high

/-- The key of `max_by_key`; `gemini.rs:197`. -/
def MediaResolution.rank : MediaResolution → Nat
  | .low => 0
  | .medium => 1
  | .high => 2

/-- `MediaResolution::as_gemini_value`. -/
def MediaResolution.asGeminiValue : MediaResolution → String
  | .low => "MEDIA_RESOLUTION_LOW"
  | .medium => "MEDIA_RESOLUTION_MEDIUM"
  | .high => "MEDIA_RESOLUTION_HIGH"

/-- `InferenceVideo`. -/
structure InferenceVideo where
  mediaType : String
  rawBytes : Option Bytes
  dataBase64 : String
  mediaResolution : Option MediaResolution

/-- What the provider reads of an `InferenceRequest`; the deadline is in nanoseconds. -/
structure InferenceRequest where
  model : String
  prompt : String
  inputImages : List InferenceImage
  inputVideos : List InferenceVideo
  maxTokens : UInt32
  temperature : F32
  timeoutMs : UInt64
  guidedJson : Option String
  deadlineAt : Nat

/-- The errors of `ProviderError` that this provider answers. -/
inductive ProviderError where
  | httpStatus (code : Nat)
  | transport (message : String)
  | invalidResponse (message : String)
  | deadlineMissed
  deriving DecidableEq

/-- `TokenUsage`. -/
@[ext]
structure TokenUsage where
  promptTokens : Nat
  completionTokens : Nat
  thinkingTokens : Nat
  totalTokens : Nat
  deriving DecidableEq

/-- `TokenUsage::default`. -/
def TokenUsage.zero : TokenUsage := ⟨0, 0, 0, 0⟩

/-- `u32::saturating_add`. -/
def satAdd32 (a b : Nat) : Nat := min (a + b) u32Max

/-- `TokenUsage::accumulate`. -/
def TokenUsage.accumulate (usage other : TokenUsage) : TokenUsage where
  promptTokens := satAdd32 usage.promptTokens other.promptTokens
  completionTokens := satAdd32 usage.completionTokens other.completionTokens
  thinkingTokens := satAdd32 usage.thinkingTokens other.thinkingTokens
  totalTokens := satAdd32 usage.totalTokens other.totalTokens

/-- What a caller reads of an `InferenceResult` of this provider. -/
structure InferenceResult where
  model : String
  outputText : String
  finishReason : Option String
  inferenceLatencyMs : Nat
  usage : TokenUsage

/-- `serde_json::from_str` and `Value::to_string`, and the base64 decoder. -/
structure Codec where
  parse : String → Except String Json
  print : Json → String
  decodeBase64 : String → Except String Bytes

/-- Reading a printed object back, if it is read, gives an object, and its members that were objects
are objects. -/
def Codec.ReadsObjects (codec : Codec) : Prop :=
  ∀ json read, json.IsObject → codec.parse (codec.print json) = .ok read →
    read.IsObject ∧ ∀ key value, json.get key = some value → value.IsObject →
      ∃ value', read.get key = some value' ∧ value'.IsObject

/-! ### The payload -/

/-- `supports_sampling_parameters`. -/
def supportsSamplingParameters (model : String) : Bool :=
  ¬ "gemini-3.".toList <+: model.toList

/-- The last resolution of the greatest rank. -/
def greatestResolution (videos : List InferenceVideo) : Option MediaResolution :=
  (videos.filterMap (·.mediaResolution)).foldl (fun greatest resolution ↦
    match greatest with
    | some other => if resolution.rank < other.rank then some other else some resolution
    | none => some resolution) none

/-- A part with inline data. -/
def inlinePart (mediaType data : String) : Json :=
  object [("inlineData", object [("mimeType", string mediaType), ("data", string data)])]

/-- A part with the URI of a file. -/
def filePart (mediaType uri : String) : Json :=
  object [("fileData", object [("mimeType", string mediaType), ("fileUri", string uri)])]

/-- `gen_config` without the schema; `gemini.rs:186`. -/
def generationConfig (request : InferenceRequest) (maxTokens : Nat) (model : String) : Json :=
  let config := object [("maxOutputTokens", whole (.ofNat maxTokens))]
  let config := if supportsSamplingParameters model then
      config.insert "temperature" (Json.ofF32 request.temperature)
    else config
  match greatestResolution request.inputVideos with
  | some resolution => config.insert "mediaResolution" (string resolution.asGeminiValue)
  | none => config

/-- The body of the call from the parts of the media; `gemini.rs:183–218`. -/
def payload (codec : Codec) (request : InferenceRequest) (maxTokens : Nat) (model : String)
    (parts : List Json) : Except ProviderError Json :=
  let parts := parts ++ [object [("text", string request.prompt)]]
  let body (config : Json) : Json :=
    object [("contents", array [object [("parts", array parts)]]), ("generationConfig", config)]
  let config := generationConfig request maxTokens model
  match request.guidedJson with
  | none => .ok (body config)
  | some schema =>
    match codec.parse schema with
    | .error e => .error (.invalidResponse ("guided_json is not valid JSON: " ++ e))
    | .ok schema => .ok (body (config
        |>.insert "responseMimeType" (string "application/json")
        |>.insert "responseSchema" schema))

/-- Assignment to a member that is indexed; `none` is a panic, which neither an object nor null
causes. -/
def assign (json : Json) (key : String) (f : Json → Option Json) : Option Json :=
  match json with
  | object members =>
    (f ((members.lookup key).getD null)).map fun value ↦ (object members).insert key value
  | null => (f null).map fun value ↦ object [(key, value)]
  | _ => none

/-- `payload_with_max_output_tokens`; `none` is a panic. -/
def payloadWithMaxOutputTokens (codec : Codec) (body : String) (maxTokens : Nat) :
    Option (Except ProviderError String) :=
  match codec.parse body with
  | .error e =>
    some (.error (.invalidResponse ("failed to reuse Gemini request payload: " ++ e)))
  | .ok payload =>
    (assign payload "generationConfig" fun config ↦
      assign config "maxOutputTokens" fun _ ↦ some (whole (.ofNat maxTokens))).map
        fun payload ↦ .ok (codec.print payload)

/-- `reserved_output_tokens`. -/
def reservedOutputTokens (request : InferenceRequest) : Nat :=
  satAdd32 request.maxTokens.toNat GEMINI_THINKING_HEADROOM

/-- Output tokens that a payload asks for. -/
def maxOutputTokens (payload : Json) : Option Nat :=
  ((payload.get "generationConfig").bind (·.get "maxOutputTokens")).bind asU64

/-! ### The answer -/

/-- The element of an array or the member of an object; the paths here have the index zero only. -/
def step (json : Json) (token : String) : Option Json :=
  match json with
  | array values => if token = "0" then values.head? else none
  | json => json.get token

/-- `Value::pointer`, with the tokens of the path. -/
def pointer (json : Json) (path : List String) : Option Json :=
  path.foldl (fun json token ↦ json.bind (step · token)) (some json)

/-- `map_finish_reason`. -/
def mapFinishReason (raw : String) : String :=
  if raw = "STOP" then "stop"
  else if raw = "MAX_TOKENS" then "length"
  else if raw = "SAFETY" then "content_filter"
  else String.ofList (raw.toList.map Char.toLower)

/-- A token count of `usageMetadata`. -/
def tokenCount (metadata : Json) (key : String) : Nat :=
  match (pointer metadata [key]).bind asU64 with
  | some n => min n u32Max
  | none => 0

/-- The usage of an answer; `gemini.rs:496`. -/
def answerUsage (json : Json) : TokenUsage :=
  match pointer json ["usageMetadata"] with
  | some metadata =>
    { promptTokens := tokenCount metadata "promptTokenCount"
      completionTokens := tokenCount metadata "candidatesTokenCount"
      thinkingTokens := tokenCount metadata "thoughtsTokenCount"
      totalTokens := tokenCount metadata "totalTokenCount" }
  | none => .zero

/-- `parse_response` with the latency. -/
def parseResponse (codec : Codec) (raw model : String) (latencyMs : Nat) :
    Except ProviderError InferenceResult :=
  match codec.parse raw with
  | .error e => .error (.invalidResponse ("invalid JSON from Gemini: " ++ e))
  | .ok json =>
    match pointer json ["candidates", "0"] with
    | none => .error (.invalidResponse "Gemini response missing candidates[0]")
    | some candidate =>
      .ok {
        model := model
        outputText := ((pointer candidate ["content", "parts", "0", "text"]).bind asStr).getD ""
        finishReason := ((pointer candidate ["finishReason"]).bind asStr).map mapFinishReason
        inferenceLatencyMs := latencyMs
        usage := answerUsage json }

/-- `is_thinking_starved`. -/
def isThinkingStarved (result : InferenceResult) : Bool :=
  result.finishReason = some "length" ∧ 0 < result.usage.thinkingTokens ∧
    trim result.outputText.toList = []

/-! ### Error reports -/

/-- `str::is_char_boundary` within a text. -/
def isCharBoundary : Nat → List Char → Bool
  | 0, _ => true
  | _ + 1, [] => false
  | n + 1, c :: text => c.utf8Size ≤ n + 1 && isCharBoundary (n + 1 - c.utf8Size) text

/-- The message of a rejected call, without line breaks; `gemini.rs:454`. -/
def providerMessage (codec : Codec) (body : Except String String) : List Char :=
  let text := match body with
    | .ok text => text
    | .error _ => ""
  let message := match codec.parse text with
    | .ok json => ((pointer json ["error", "message"]).bind asStr).getD "request rejected"
    | .error _ => "request rejected"
  message.toList.map fun c ↦ if c = '\r' ∨ c = '\n' then ' ' else c

/-- `truncate(512)` does not panic: the text has at most 512 bytes, or a character ends there. -/
def TruncatesAt512 (message : List Char) : Prop :=
  (message.map Char.utf8Size).sum ≤ 512 ∨ isCharBoundary 512 message

instance (message : List Char) : Decidable (TruncatesAt512 message) :=
  inferInstanceAs (Decidable (_ ∨ _))

end Vidarax.Gemini
