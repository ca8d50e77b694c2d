import Mathlib.Data.List.Infix
import Vidarax.Base.FloatCast
import Vidarax.Base.Text
import Vidarax.Base.Utf8
import Vidarax.Reason.Extract

/-!
# Moments and observations of a media window

Packages `vidarax-api`, `semantic_infer.rs` 97–109 and 1667–1805, and `vidarax-core`,
`audio_sidecar.rs` 77–98 and 570–617: what a provider says about a window, as it is read from its
answer, and what the local audio analysis observed there, as it is checked.
-/

namespace Vidarax.Reason

open Base

/-! ### Texts -/

/-- `str::trim`. -/
def trimText (text : String) : String := String.ofList (trim text.toList)

/-- `truncate_context`. -/
def truncateContext (text : String) (max_chars : Nat) : String :=
  String.ofList (text.toList.take max_chars)

/-- `str::to_ascii_lowercase`. -/
def asciiLowercase (text : String) : String := String.ofList (text.toList.map Char.toLower)

/-- `str::contains` of a text. -/
def containsText (text part : String) : Bool := part.toList <:+: text.toList

/-! ### Observations -/

/-- `AudioObservation`. -/
structure AudioObservation where
  start_offset_ms : Nat
  end_offset_ms : Nat
  kind : String
  label : String
  confidence : F32
  model : String
  transcript : Option String
  language : Option String
  emotion : Option String

/-- `AudioAnalysis`, as far as it is checked and read. -/
structure AudioAnalysis where
  models : List String
  observations : List AudioObservation

/-- `MAX_FEEDBACK_TEXT_BYTES`. -/
def MAX_FEEDBACK_TEXT_BYTES : Nat := 16 * 1024

/-- `validate_metadata_text`; the text of an `AudioSidecarError::Metadata`. -/
def validateMetadataText (value : String) (max_bytes : Nat) (field : String) : Except String Unit :=
  if value = "" ∨ max_bytes < (utf8 value).length then
    .error s!"{field} must be 1..={max_bytes} bytes"
  else .ok ()

/-- Body of the loop of `validate_analysis`. -/
def validateObservation (observation : AudioObservation) : Except String Unit := do
  if observation.end_offset_ms ≤ observation.start_offset_ms ∨ 60000 < observation.end_offset_ms ∨
      ¬ observation.confidence.isFinite ∨
      ¬ (F32.zero.le observation.confidence ∧ observation.confidence.le F32.one) then
    .error "observation has invalid time or confidence"
  else
    validateMetadataText observation.kind 128 "observation kind"
    validateMetadataText observation.label 128 "observation label"
    validateMetadataText observation.model 256 "observation model"
    observation.transcript.forM fun transcript ↦
      validateMetadataText transcript MAX_FEEDBACK_TEXT_BYTES "transcript"
    observation.language.forM fun language ↦ validateMetadataText language 64 "language"
    observation.emotion.forM fun emotion ↦ validateMetadataText emotion 64 "emotion"

/-- `validate_analysis`. -/
def validateAnalysis (analysis : AudioAnalysis) : Except String Unit :=
  if 16 < analysis.models.length ∨ 64 < analysis.observations.length then
    .error "collection exceeds protocol limit"
  else do
    analysis.models.forM fun model ↦ validateMetadataText model 256 "model"
    analysis.observations.forM validateObservation

/-! ### Moments -/

/-- The kinds that `normalize_moment_kind` and `audio_moment_kind` give. -/
inductive MomentKind where
  | speech
  | soundEffect
  | music
  | ambient
  | interaction
  | mechanical
  | other
  deriving DecidableEq

/-- A kind as it is written. -/
def MomentKind.asStr : MomentKind → String
  | speech => "speech"
  | soundEffect => "sound_effect"
  | music => "music"
  | ambient => "ambient"
  | interaction => "interaction"
  | mechanical => "mechanical"
  | other => "other"

/-- The modalities of a moment. -/
inductive Modality where
  | video
  | audio
  deriving DecidableEq

/-- `SemanticMoment`. -/
structure SemanticMoment where
  start_offset_ms : Nat
  end_offset_ms : Nat
  start_pts_ms : Nat
  end_pts_ms : Nat
  modalities : List Modality
  kind : MomentKind
  description : String
  intent : Option String
  audio_visual_relation : Option String
  confidence : F32
  deriving DecidableEq

/-- `u64::MAX`. -/
def U64_MAX : Nat := 2 ^ 64 - 1

/-- `u64::saturating_add`. -/
def saturatingAdd (a b : Nat) : Nat := min (a + b) U64_MAX

/-- A stretch of the source; its ends are numbers of 64 bits. -/
structure MediaWindow where
  source_start_ms : Nat
  source_end_ms : Nat
  start_le : source_start_ms ≤ U64_MAX
  end_le : source_end_ms ≤ U64_MAX

/-- `source_end_ms.saturating_sub(source_start_ms)`. -/
def MediaWindow.duration_ms (window : MediaWindow) : Nat :=
  window.source_end_ms - window.source_start_ms

/-- `MAX_MULTIMODAL_MOMENTS`. -/
def MAX_MULTIMODAL_MOMENTS : Nat := 32

/-- `normalize_moment_kind`. -/
def normalizeMomentKind (raw : String) : MomentKind :=
  let kind := String.ofList
    ((asciiLowercase (trimText raw)).toList.map fun c ↦ if c = ' ' ∨ c = '-' then '_' else c)
  if kind = "speech" ∨ containsText kind "dialog" ∨ containsText kind "voice" ∨
      containsText kind "spoken" then .speech
  else if kind = "sound_effect" ∨ containsText kind "effect" ∨ containsText kind "beep" ∨
      containsText kind "tone" ∨ containsText kind "impact" then .soundEffect
  else if containsText kind "music" then .music
  else if containsText kind "ambient" ∨ containsText kind "background" then .ambient
  else if containsText kind "interaction" then .interaction
  else if containsText kind "mechanical" ∨ containsText kind "machine" then .mechanical
  else .other

/-- The modality that a text names; `semantic_infer.rs:1705`. -/
def mapModality (modality : String) : Option Modality :=
  let normalized := asciiLowercase (trimText modality)
  if normalized = "video" ∨ normalized = "visual" ∨ containsText normalized "picture" then
    some .video
  else if normalized = "audio" ∨ containsText normalized "speech" ∨
      containsText normalized "sound" ∨ containsText normalized "voice" ∨
      containsText normalized "music" then some .audio
  else none

/-- The kinds of sounds. -/
def MomentKind.isAudio : MomentKind → Bool
  | speech | soundEffect | music | ambient | mechanical => true
  | interaction | other => false

/-- A field that has to be there. -/
def required {α : Type} (field : Option α) : Except SemanticParseError α :=
  match field with
  | some value => .ok value
  | none => .error .SchemaMismatch

/-- Modalities of a moment, each once, in the order of their names; `semantic_infer.rs:1696`. -/
def parseModalities (values : List Json) : Except SemanticParseError (List Modality) :=
  values.foldlM (fun modalities value ↦ do
    let modality ← required value.asStr
    match mapModality modality with
    | some mapped => pure (if mapped ∈ modalities then modalities else modalities ++ [mapped])
    | none => pure modalities) []

/-- Moments of sounds that name no modality are of audio; `semantic_infer.rs:1724`. -/
def defaultModalities (kind : MomentKind) (modalities : List Modality) :
    Except SemanticParseError (List Modality) :=
  if modalities = [] then if kind.isAudio then .ok [.audio] else .error .SchemaMismatch
  else .ok modalities

/-- `optional_text`. -/
def optionalText (value : Json) (field : String) : Option String :=
  (((value.get field).bind Json.asStr).map trimText).bind fun text ↦
    if text = "" then none else some (truncateContext text 1024)

/-- Body of the loop of `parse_semantic_moments`; nothing for a moment that is skipped. -/
def parseMoment (source_start_ms duration_ms : Nat) (value : Json) :
    Except SemanticParseError (Option SemanticMoment) := do
  let start_offset_ms := min (← required ((value.get "start_offset_ms").bind Json.asU64)) duration_ms
  let end_offset_ms := min (max (← required ((value.get "end_offset_ms").bind Json.asU64))
    start_offset_ms) duration_ms
  if end_offset_ms ≤ start_offset_ms then pure none
  else do
    let modalities ← parseModalities (← required ((value.get "modalities").bind Json.asArray))
    let kind := normalizeMomentKind (← required ((value.get "kind").bind Json.asStr))
    let modalities ← defaultModalities kind modalities
    let description := trimText (← required ((value.get "description").bind Json.asStr))
    if description = "" then .error .SchemaMismatch
    else do
      let confidence ← required (((value.get "confidence").bind Json.asF64).filter F64.isFinite)
      pure (some {
        start_offset_ms := start_offset_ms
        end_offset_ms := end_offset_ms
        start_pts_ms := saturatingAdd source_start_ms start_offset_ms
        end_pts_ms := saturatingAdd source_start_ms end_offset_ms
        modalities := modalities
        kind := kind
        description := truncateContext description 1024
        intent := optionalText value "intent"
        audio_visual_relation := optionalText value "audio_visual_relation"
        confidence := (confidence.clamp F64.zero F64.one).toF32 })

/-- `parse_semantic_moments`. -/
def parseSemanticMoments (value : Json) (source_start_ms duration_ms : Nat) :
    Except SemanticParseError (List SemanticMoment) := do
  let values ← required ((value.get "moments").bind Json.asArray)
  let moments ← (values.take MAX_MULTIMODAL_MOMENTS).mapM (parseMoment source_start_ms duration_ms)
  pure ((moments.filterMap id).mergeSort fun a b ↦ decide
    (a.start_offset_ms < b.start_offset_ms ∨
      a.start_offset_ms = b.start_offset_ms ∧ a.end_offset_ms ≤ b.end_offset_ms))

end Vidarax.Reason
