import Vidarax.Base.Transcript
import Vidarax.Gemini.Payload

/-!
# The Gemini provider

Package `vidarax-core`, `gemini.rs:145–183,225–459,546–659,667–680`. A call uploads videos, waits
for them, calls `generateContent` at most twice and deletes what it has uploaded. Whatever the HTTP
client and the clock answer is an answer to an operation. The loop that waits has fuel.
-/

namespace Vidarax.Gemini

open Base Json

/-- Operations of a call. Times are in nanoseconds. -/
inductive Op where
  /-- `Instant::now`. -/
  | now
  | sleep (nanos : Nat)
  /-- The upload of a file begins. -/
  | uploadStart (byteCount : Nat) (mediaType : String) (timeout : Nat)
  | uploadPut (url mediaType : String) (bytes : Bytes) (timeout : Nat)
  | pollGet (fileName : String) (timeout : Nat)
  /-- `generateContent`. -/
  | generate (model body : String) (timeout : Nat)
  | delete (fileName : String)
  /-- `learn_thinking`. -/
  | learn (model : String)

/-- A response with its body, whose reading may fail. -/
structure Response where
  status : Nat
  body : Except String String

/-- The response that begins an upload; its header may be missing or no text. -/
structure StartResponse where
  status : Nat
  uploadUrl : Option (Option String)

/-- Answers; errors of the client have their text without the URL. -/
abbrev Answer : Op → Type
  | .now => Nat
  | .sleep _ => Unit
  | .uploadStart .. => Except String StartResponse
  | .uploadPut .. => Except String Response
  | .pollGet .. => Except String Response
  | .generate .. => Except String Response
  | .delete _ => Except String Nat
  | .learn _ => Unit

/-- Why a function does not return a value. -/
inductive Stop where
  | error (e : ProviderError)
  | panicked
  /-- The fuel of the model is used up. -/
  | unfinished

/-- An error that the caller gets to see, which a panic is not. -/
def Stop.catchable : Stop → Option ProviderError
  | .error e => some e
  | _ => none

/-- Programs of the provider. -/
abbrev Call (α : Type) : Type := Program Op Answer Stop α

/-- A function that is called without `?`. -/
abbrev Call.catching {α : Type} (call : Call α) : Call (Except ProviderError α) :=
  Program.catching Stop.catchable call

/-- `Err(error)?`. -/
def reject {α : Type} (e : ProviderError) : Call α := Program.fail (.error e)

/-- `result?`. -/
def liftResult {α : Type} : Except ProviderError α → Call α
  | .ok a => pure a
  | .error e => reject e

/-- `StatusCode::is_success`. -/
def isSuccess (status : Nat) : Prop := 200 ≤ status ∧ status < 300

instance (status : Nat) : Decidable (isSuccess status) := inferInstanceAs (Decidable (_ ∧ _))

/-- Half a second. -/
def POLL_INTERVAL : Nat := 500 * 10 ^ 6

/-- `remaining_upload_time`. -/
def remainingUploadTime (deadline : Nat) : Call Nat :=
  Program.perform .now fun now ↦
    if now < deadline then pure (deadline - now) else reject .deadlineMissed

/-- `remaining_timeout_ms` at a time. -/
def remainingTimeoutMs (request : InferenceRequest) (now : Nat) : Nat :=
  min request.timeoutMs.toNat ((request.deadlineAt - now) / 10 ^ 6)

/-- `request_deadline`; the clock is far from its end. -/
def requestDeadline (request : InferenceRequest) : Call Nat :=
  Program.perform .now fun start ↦ Program.perform .now fun now ↦
    let timeoutMs := remainingTimeoutMs request now
    if timeoutMs = 0 then reject .deadlineMissed else pure (start + timeoutMs * 10 ^ 6)

section

variable (codec : Codec)

/-- `Response::json`. -/
def readJson (body : Except String String) : Except String Json := body.bind codec.parse

/-- The text between the first two places of a pattern; `split(pattern).nth(1)`. -/
def afterFirst (pattern : List Char) : List Char → Option (List Char)
  | [] => none
  | c :: text =>
    if pattern <+: c :: text then some (beforeNext ((c :: text).drop pattern.length))
    else afterFirst pattern text
where
  /-- The text up to the next place of the pattern. -/
  beforeNext : List Char → List Char
    | [] => []
    | c :: text => if pattern <+: c :: text then [] else c :: beforeNext text

/-- The name of an uploaded file; `gemini.rs:315`. -/
def fileNameOf (response : Json) (uri : String) : String :=
  match ((response.get "file").bind (·.get "name")).bind asStr with
  | some name => name
  | none =>
    match afterFirst "/v1beta/".toList uri.toList with
    | some name => String.ofList name
    | none => "files/" ++ String.ofList (uri.toList.reverse.takeWhile (· ≠ '/')).reverse

/-- URI and name of the file that an upload answers with. -/
def uploadedFile (json : Json) : Except ProviderError (String × String) :=
  match ((json.get "file").bind (·.get "uri")).bind asStr with
  | none => .error (.invalidResponse "file API response missing file.uri")
  | some uri => .ok (uri, fileNameOf json uri)

/-- `poll_file_active`. -/
def pollFileActive (fileName : String) (deadline : Nat) : Nat → Call Unit
  | 0 => Program.fail .unfinished
  | fuel + 1 => do
    let timeout ← remainingUploadTime deadline
    Program.perform (.pollGet fileName timeout) fun answer ↦
      match answer with
      | .error e => reject (.transport ("file poll failed: " ++ e))
      | .ok response =>
        if ¬ isSuccess response.status then reject (.httpStatus response.status)
        else
          match readJson codec response.body with
          | .error e => reject (.transport ("file poll JSON: " ++ e))
          | .ok json =>
            let state := ((json.get "state").bind asStr).getD ""
            if state = "ACTIVE" then pure ()
            else if state = "FAILED" then
              reject (.invalidResponse "File API upload entered FAILED state")
            else do
              let remaining ← remainingUploadTime deadline
              Program.perform (.sleep (min remaining POLL_INTERVAL)) fun _ ↦
                pollFileActive fileName deadline fuel

/-- `delete_uploaded_files`. -/
def deleteUploadedFiles : List String → Call Unit
  | [] => pure ()
  | fileName :: fileNames =>
    Program.perform (.delete fileName) fun _ ↦ deleteUploadedFiles fileNames

/-- The bytes of a video; `gemini.rs:230`. -/
def uploadBody (video : InferenceVideo) : Except ProviderError Bytes :=
  match video.rawBytes with
  | some bytes => .ok bytes
  | none =>
    match codec.decodeBase64 video.dataBase64 with
    | .ok bytes => .ok bytes
    | .error e => .error (.transport ("base64 decode failed: " ++ e))

/-- The URL of an upload; `gemini.rs:246–284`. -/
def startUpload (byteCount : Nat) (mediaType : String) (deadline : Nat) : Call String := do
  let timeout ← remainingUploadTime deadline
  Program.perform (.uploadStart byteCount mediaType timeout) fun answer ↦
    match answer with
    | .error e => reject (.transport ("file API init failed: " ++ e))
    | .ok response =>
      if ¬ isSuccess response.status then reject (.httpStatus response.status)
      else
        match response.uploadUrl with
        | none => reject (.invalidResponse
            "file API init response missing x-goog-upload-url header")
        | some none => reject (.invalidResponse "x-goog-upload-url header is not valid UTF-8")
        | some (some url) => pure url

/-- What the response to an upload tells; `gemini.rs:298–333`. -/
def readUpload (response : Response) : Except ProviderError (String × String) :=
  if ¬ isSuccess response.status then .error (.httpStatus response.status)
  else
    match readJson codec response.body with
    | .error e => .error (.transport ("file API upload JSON parse: " ++ e))
    | .ok json => uploadedFile json

/-- Upload of the bytes; `gemini.rs:286–333`. -/
def finishUpload (url mediaType : String) (bytes : Bytes) (deadline : Nat) :
    Call (String × String) := do
  let timeout ← remainingUploadTime deadline
  Program.perform (.uploadPut url mediaType bytes timeout) fun answer ↦
    match answer with
    | .error e => reject (.transport ("file API upload failed: " ++ e))
    | .ok response => liftResult (readUpload codec response)

/-- `upload_file`. -/
def uploadFile (fuel : Nat) (video : InferenceVideo) (deadline : Nat) :
    Call (String × String) := do
  let bytes ← liftResult (uploadBody codec video)
  let url ← startUpload bytes.length video.mediaType deadline
  let (uri, fileName) ← finishUpload codec url video.mediaType bytes deadline
  match ← (pollFileActive codec fileName deadline fuel).catching with
  | .ok () => pure (uri, fileName)
  | .error e => do
    deleteUploadedFiles [fileName]
    reject e

/-- The video is uploaded and not sent inline; `gemini.rs:170–174`. -/
def isUploaded (video : InferenceVideo) : Prop :=
  video.rawBytes.isSome ∨ INLINE_SIZE_LIMIT ≤ video.dataBase64.utf8ByteSize * 3 / 4

instance (video : InferenceVideo) : Decidable (isUploaded video) :=
  inferInstanceAs (Decidable (_ ∨ _))

/-- The parts of the videos, with the files that have been uploaded. -/
def videoParts (fuel deadline : Nat) : List InferenceVideo → List String →
    Call (Except ProviderError (List Json) × List String)
  | [], uploadedFiles => pure (.ok [], uploadedFiles)
  | video :: videos, uploadedFiles => do
    if isUploaded video then
      match ← (uploadFile codec fuel video deadline).catching with
      | .error e => pure (.error e, uploadedFiles)
      | .ok (uri, fileName) => do
        let (parts, uploadedFiles) ← videoParts fuel deadline videos (uploadedFiles ++ [fileName])
        pure (parts.map (filePart video.mediaType uri :: ·), uploadedFiles)
    else do
      let (parts, uploadedFiles) ← videoParts fuel deadline videos uploadedFiles
      pure (parts.map (inlinePart video.mediaType video.dataBase64 :: ·), uploadedFiles)

/-- `build_payload_with_max_tokens`, with the files that have been uploaded. -/
def buildPayloadWithMaxTokens (fuel : Nat) (request : InferenceRequest) (maxTokens : Nat)
    (model : String) (deadline : Nat) : Call (Except ProviderError String × List String) := do
  let (parts, uploadedFiles) ← videoParts codec fuel deadline request.inputVideos []
  let images := request.inputImages.map fun image ↦ inlinePart image.mediaType image.dataBase64
  let body := parts.bind fun parts ↦ payload codec request maxTokens model (images ++ parts)
  pure (body.map codec.print, uploadedFiles)

/-- A call that was rejected; the message is cut for the log. -/
def rejectCall (response : Response) : Call InferenceResult :=
  if TruncatesAt512 (providerMessage codec response.body) then
    reject (.httpStatus response.status)
  else Program.fail .panicked

/-- `attempt`. -/
def attempt (model body : String) (start deadline : Nat) : Call InferenceResult := do
  let timeout ← remainingUploadTime deadline
  Program.perform (.generate model body timeout) fun answer ↦
    match answer with
    | .error e => reject (.transport e)
    | .ok response =>
      if ¬ isSuccess response.status then rejectCall codec response
      else
        match response.body with
        | .error e => reject (.transport e)
        | .ok text =>
          match parseResponse codec text model 0 with
          | .error e => reject e
          | .ok result =>
            Program.perform .now fun now ↦
              pure { result with inferenceLatencyMs := (now - start) / 10 ^ 6 }

/-- The second call for an answer that its thinking has starved; `gemini.rs:591–609`. -/
def retry (request : InferenceRequest) (model body : String) (deadline : Nat)
    (result : InferenceResult) : Call (Except ProviderError InferenceResult) :=
  Program.perform (.learn model) fun _ ↦
    Program.perform .now fun retryStarted ↦
      match payloadWithMaxOutputTokens codec body (reservedOutputTokens request) with
      | none => Program.fail .panicked
      | some (.error e) => pure (.error e)
      | some (.ok retryBody) => do
        let retry ← (attempt codec model retryBody retryStarted deadline).catching
        pure (retry.map fun retry ↦
          { retry with
            usage := retry.usage.accumulate result.usage
            inferenceLatencyMs := min (retry.inferenceLatencyMs + result.inferenceLatencyMs)
              u64Max })

/-- The calls with a body; `gemini.rs:585–615`. -/
def attempts (request : InferenceRequest) (model body : String) (reserve : Bool)
    (started deadline : Nat) : Call (Except ProviderError InferenceResult) := do
  match ← (attempt codec model body started deadline).catching with
  | .ok result =>
    if ¬ reserve ∧ isThinkingStarved result then retry codec request model body deadline result
    else pure (.ok result)
  | .error e => pure (.error e)

/-- `infer`, with the models that have been seen to think. -/
def infer (fuel : Nat) (defaultModel : String) (learnedThinking : List String)
    (request : InferenceRequest) : Call InferenceResult := do
  let model := if request.model = "" then defaultModel else request.model
  let deadline ← requestDeadline request
  let reserve := learnedThinking.contains model
  Program.perform .now fun started ↦ do
    let maxTokens := if reserve then reservedOutputTokens request else request.maxTokens.toNat
    let (body, uploadedFiles) ←
      buildPayloadWithMaxTokens codec fuel request maxTokens model deadline
    match body with
    | .error e => do
      deleteUploadedFiles uploadedFiles
      reject e
    | .ok body => do
      let outcome ← attempts codec request model body reserve started deadline
      deleteUploadedFiles uploadedFiles
      liftResult outcome

end

end Vidarax.Gemini
