import Vidarax.Reason.Moments

/-!
# Grounding moments in local audio

Package `vidarax-api`, `semantic_infer.rs` 1179–1401: moments of the local analysis and of the
provider are put together, those of the provider that need audio only with the support of a local
observation, and duplicates are merged.
-/

namespace Vidarax.Reason

open Base

/-! ### Local moments -/

/-- `audio_moment_kind`. -/
def audioMomentKind (observation : AudioObservation) : MomentKind :=
  if observation.kind = "speech" then .speech
  else if observation.label = "music" then .music
  else if observation.label ∈ ["silence", "inside_small_room", "outside_urban_or_manmade",
      "outside_rural_or_natural"] then .ambient
  else if observation.label ∈ ["engine", "engine_starting", "idling", "mechanisms", "tools",
      "vehicle"] then .mechanical
  else .soundEffect

/-- A transcript that is not blank. -/
def spokenText (observation : AudioObservation) : Option String :=
  observation.transcript.filter fun text ↦ trimText text ≠ ""

/-- The moment of an observation, unless nothing of it is in the window. -/
def audioMoment (source_start_ms duration_ms : Nat) (observation : AudioObservation) :
    Option SemanticMoment :=
  let start_offset_ms := min observation.start_offset_ms duration_ms
  let end_offset_ms := min (max observation.end_offset_ms start_offset_ms) duration_ms
  if end_offset_ms ≤ start_offset_ms then none
  else some {
    start_offset_ms := start_offset_ms
    end_offset_ms := end_offset_ms
    start_pts_ms := saturatingAdd source_start_ms start_offset_ms
    end_pts_ms := saturatingAdd source_start_ms end_offset_ms
    modalities := [.audio]
    kind := audioMomentKind observation
    description := match spokenText observation with
      | none => observation.label
      | some transcript => "Speaker: " ++ transcript
    intent := observation.transcript
    audio_visual_relation := none
    confidence := observation.confidence.clamp F32.zero F32.one }

/-- `audio_moments`. -/
def audioMoments (analysis : AudioAnalysis) (source_start_ms source_end_ms : Nat) :
    List SemanticMoment :=
  let duration_ms := source_end_ms - source_start_ms
  (analysis.observations.filter fun observation ↦ observation.kind ≠ "voice_activity").filterMap
    (audioMoment source_start_ms duration_ms)

/-! ### Support -/

/-- `intervals_overlap`. -/
def intervalsOverlap (left_start left_end right_start right_end tolerance_ms : Nat) : Bool :=
  left_start ≤ saturatingAdd right_end tolerance_ms ∧
    right_start ≤ saturatingAdd left_end tolerance_ms

/-- `moment_requires_audio`. -/
def momentRequiresAudio (moment : SemanticMoment) : Bool :=
  Modality.audio ∈ moment.modalities ∨ moment.kind.isAudio

/-- `i32` bits of `f32::total_cmp`. -/
def totalKey (x : F32) : Int := if x.negative then -(x.magnitude : Int) - 1 else x.magnitude

/-- `Iterator::max_by`: the last of the largest. -/
def maxBy {α : Type} (cmp : α → α → Ordering) : List α → Option α
  | [] => none
  | x :: xs => some (xs.foldl (fun best y ↦ if cmp best y = .gt then best else y) x)

/-- Observations near an interval of the sort that supports a moment; `semantic_infer.rs:1265`. -/
def supportedBy (analysis : AudioAnalysis) (is_speech : Bool) (start_offset_ms end_offset_ms : Nat) :
    List AudioObservation :=
  let matching := analysis.observations.filter fun observation ↦
    observation.kind ≠ "voice_activity" ∧ intervalsOverlap start_offset_ms end_offset_ms
      observation.start_offset_ms observation.end_offset_ms 500
  matching.filter fun observation ↦
    if is_speech then observation.kind = "speech" ∧ (spokenText observation).isSome
    else observation.kind = "audio_event"

/-- The speech that overlaps an interval most, and of those the most confident; nothing where no
speech supports it. -/
def speechFor (analysis : AudioAnalysis) (start_offset_ms end_offset_ms : Nat) :
    Option AudioObservation :=
  let overlap (observation : AudioObservation) : Nat :=
    min end_offset_ms observation.end_offset_ms -
      max start_offset_ms observation.start_offset_ms
  maxBy (fun left right ↦ (compare (overlap left) (overlap right)).then
      (compare (totalKey left.confidence) (totalKey right.confidence)))
    ((supportedBy analysis true start_offset_ms end_offset_ms).filter fun observation ↦
      observation.kind = "speech" ∧ (spokenText observation).isSome)

/-- Body of `ground_provider_moments` with an analysis. -/
def groundMoment (analysis : AudioAnalysis) (moment : SemanticMoment) : Option SemanticMoment :=
  if ¬ momentRequiresAudio moment then some moment
  else
    let is_speech : Bool := moment.kind = .speech
    let supported := supportedBy analysis is_speech moment.start_offset_ms moment.end_offset_ms
    if supported.isEmpty then none
    else
      let modalities :=
        if Modality.audio ∈ moment.modalities then moment.modalities
        else moment.modalities ++ [.audio]
      if is_speech then
        let source_start_ms := moment.start_pts_ms - moment.start_offset_ms
        (speechFor analysis moment.start_offset_ms moment.end_offset_ms).bind fun observation ↦
          observation.transcript.map fun transcript ↦
            let transcript := trimText transcript
            { moment with
              start_offset_ms := observation.start_offset_ms
              end_offset_ms := observation.end_offset_ms
              start_pts_ms := saturatingAdd source_start_ms observation.start_offset_ms
              end_pts_ms := saturatingAdd source_start_ms observation.end_offset_ms
              modalities := modalities
              description := "Speaker: " ++ truncateContext transcript 1000
              intent := some (truncateContext transcript 1000)
              audio_visual_relation :=
                if modalities.length = 1 then none else moment.audio_visual_relation }
      else
        let labels := ", ".intercalate (supported.map AudioObservation.label)
        some { moment with
          modalities := modalities
          description :=
            if Modality.video ∈ modalities then
              "Visible activity overlaps local audio event: " ++ labels
            else "Local audio event: " ++ labels
          intent := none
          audio_visual_relation := none }

/-- `ground_provider_moments`. -/
def groundProviderMoments (moments : List SemanticMoment) (analysis : Option AudioAnalysis)
    (local_audio_required : Bool) : List SemanticMoment :=
  match analysis with
  | none =>
    if local_audio_required then moments.filter fun moment ↦ ¬ momentRequiresAudio moment
    else moments
  | some analysis => moments.filterMap (groundMoment analysis)

/-! ### Duplicates -/

/-- The order of `deduplicate_moments`. -/
def momentLe (a b : SemanticMoment) : Bool :=
  a.start_offset_ms < b.start_offset_ms ∨ a.start_offset_ms = b.start_offset_ms ∧
    (a.end_offset_ms < b.end_offset_ms ∨ a.end_offset_ms = b.end_offset_ms ∧
      a.kind.asStr ≤ b.kind.asStr)

/-- A moment that is one with an earlier one. -/
def isDuplicate (previous moment : SemanticMoment) : Bool :=
  previous.kind = moment.kind ∧
    intervalsOverlap previous.start_offset_ms previous.end_offset_ms moment.start_offset_ms
      moment.end_offset_ms 250 ∧
    (previous.description = moment.description ∨ moment.kind = .speech)

/-- Body of the loop of `deduplicate_moments`. -/
def deduplicateStep (deduplicated : List SemanticMoment) (moment : SemanticMoment) :
    List SemanticMoment :=
  match deduplicated.findIdx? (isDuplicate · moment) with
  | some index =>
    if ∃ previous ∈ deduplicated[index]?, previous.modalities.length < moment.modalities.length then
      deduplicated.set index moment
    else deduplicated
  | none => deduplicated ++ [moment]

/-- `deduplicate_moments`. -/
def deduplicateMoments (moments : List SemanticMoment) : List SemanticMoment :=
  (moments.mergeSort momentLe).foldl deduplicateStep []

/-- The moments of a window, from the local analysis and the provider; `semantic_infer.rs:933` and
`semantic_infer.rs:1145`. -/
def semanticMoments (window : MediaWindow) (analysis : Option AudioAnalysis)
    (local_audio_required : Bool) (provider : List SemanticMoment) : List SemanticMoment :=
  let moments := analysis.elim [] fun analysis ↦
    audioMoments analysis window.source_start_ms window.source_end_ms
  deduplicateMoments (moments ++ groundProviderMoments provider analysis local_audio_required)

/-! ### What is asked of moments -/

/-- A moment lies in its window and carries the times of the source. -/
structure InWindow (window : MediaWindow) (moment : SemanticMoment) : Prop where
  start_lt : moment.start_offset_ms < moment.end_offset_ms
  end_le : moment.end_offset_ms ≤ window.duration_ms
  start_pts : moment.start_pts_ms = saturatingAdd window.source_start_ms moment.start_offset_ms
  end_pts : moment.end_pts_ms = saturatingAdd window.source_start_ms moment.end_offset_ms

/-- An observation of the sort that a claim needs, within 500 ms of it. -/
structure Supports (claim : SemanticMoment) (observation : AudioObservation) : Prop where
  before : claim.start_offset_ms ≤ observation.end_offset_ms + 500
  after : observation.start_offset_ms ≤ claim.end_offset_ms + 500
  sort : if claim.kind = .speech then observation.kind = "speech" ∧
      ∃ transcript, observation.transcript = some transcript ∧ trimText transcript ≠ ""
    else observation.kind = "audio_event"

/-- A moment that is left of a claim of the provider. -/
structure Grounds (analysis : AudioAnalysis) (claim moment : SemanticMoment) : Prop where
  kind_eq : moment.kind = claim.kind
  supported : momentRequiresAudio moment → ∃ o ∈ analysis.observations, Supports claim o
  spoken : moment.kind = .speech → ∃ o ∈ analysis.observations, Supports claim o ∧
    ∃ transcript text, o.transcript = some transcript ∧ moment.intent = some text ∧
      moment.description = "Speaker: " ++ text ∧ text.toList <+: (trimText transcript).toList

end Vidarax.Reason
