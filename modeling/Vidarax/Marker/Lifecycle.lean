import Vidarax.Base.Hex
import Vidarax.Marker.Segments

/-!
# Markers of one call

Package `vidarax-api`, `semantic.rs:10–39,81–139`. Each segment becomes a marker, and a provisional
one that its like follows closely is finalized by a second marker. Within the call every identifier
is used once.
-/

namespace Vidarax.Marker

open Base

/-- Values of `SemanticMarker::status`. -/
inductive MarkerStatus where
  | exact
  | provisional
  | finalized
  deriving DecidableEq

/-- `SemanticMarker`. -/
structure SemanticMarker where
  markerId : List Char
  runId : String
  streamId : String
  eventType : String
  status : MarkerStatus
  startFrame : UInt64
  endFrame : UInt64
  startPtsMs : UInt64
  endPtsMs : UInt64
  confidence : F32
  supersedesMarkerId : Option (List Char)
  deriving DecidableEq

/-- `MarkerConfig`. -/
structure MarkerConfig where
  correctionWindowFrames : UInt64
  provisionalConfidenceThreshold : F32

/-- `MarkerConfig::default`. -/
def MarkerConfig.default : MarkerConfig where
  correctionWindowFrames := 3
  provisionalConfidenceThreshold := ⟨0x3F333333⟩

/-- `format!("mk-{idx:08x}")`. -/
def markerId (idx : Nat) : List Char := 'm' :: 'k' :: '-' :: hex 8 idx

/-- `format!("mkf-{idx:08x}")`. -/
def finalizedId (idx : Nat) : List Char := 'm' :: 'k' :: 'f' :: '-' :: hex 8 idx

section Build

variable (runId streamId : String) (config : MarkerConfig)

/-- Status of the marker of a segment. -/
def segmentStatus (segment : MarkerSegment) : MarkerStatus :=
  if config.provisionalConfidenceThreshold.le segment.confidence ∨
      segment.eventType = "scene_cut" then .exact
  else .provisional

/-- The marker of a segment. -/
def segmentMarker (idx : Nat) (segment : MarkerSegment) : SemanticMarker where
  markerId := markerId idx
  runId := runId
  streamId := streamId
  eventType := segment.eventType
  status := segmentStatus config segment
  startFrame := segment.startFrame
  endFrame := segment.endFrame
  startPtsMs := segment.startPtsMs
  endPtsMs := segment.endPtsMs
  confidence := segment.confidence
  supersedesMarkerId := none

/-- The marker that finalizes the marker of a segment with the next segment. -/
def finalizedMarker (idx : Nat) (segment next : MarkerSegment) : SemanticMarker where
  markerId := finalizedId idx
  runId := runId
  streamId := streamId
  eventType := segment.eventType
  status := .finalized
  startFrame := segment.startFrame
  endFrame := next.endFrame
  startPtsMs := segment.startPtsMs
  endPtsMs := next.endPtsMs
  confidence := ((segment.confidence.add next.confidence).div (F32.ofInt 2)).clamp F32.zero F32.one
  supersedesMarkerId := some (markerId idx)

/-- The next segment is of the same event type and begins within the correction window. -/
def Corrects (segment next : MarkerSegment) : Prop :=
  next.eventType = segment.eventType ∧
    satSub next.startFrame segment.endFrame ≤ config.correctionWindowFrames

instance (segment next : MarkerSegment) : Decidable (Corrects config segment next) :=
  inferInstanceAs (Decidable (_ ∧ _))

/-- What the loop pushes for a segment; `semantic.rs:90`. -/
def segmentMarkers (idx : Nat) (segment : MarkerSegment) (next : Option MarkerSegment) :
    List SemanticMarker :=
  segmentMarker runId streamId config idx segment ::
    match segmentStatus config segment, next with
    | .provisional, some next =>
      if Corrects config segment next then [finalizedMarker runId streamId idx segment next] else []
    | _, _ => []

/-- `build_marker_lifecycle`. -/
def buildMarkerLifecycle (inputs : List MarkerInput) : List SemanticMarker :=
  let segments := segmentInputs inputs
  segments.zipIdx.flatMap fun (segment, idx) ↦
    segmentMarkers runId streamId config idx segment segments[idx + 1]?

end Build

/-- Markers that are not finalized ones. -/
def unfinalized (markers : List SemanticMarker) : List SemanticMarker :=
  markers.filter (·.status ≠ .finalized)

/-! ### Identifiers -/

theorem markerId_injective : Function.Injective markerId := by
  intro i j h
  simp only [markerId, List.cons.injEq, true_and] at h
  exact hex_injective 8 h

theorem finalizedId_injective : Function.Injective finalizedId := by
  intro i j h
  simp only [finalizedId, List.cons.injEq, true_and] at h
  exact hex_injective 8 h

theorem markerId_ne_finalizedId (i j : Nat) : markerId i ≠ finalizedId j := by
  intro h
  have hthird := congrArg (·[2]?) h
  exact absurd hthird (by decide : some '-' ≠ some 'f')

/-! ### Markers of a segment -/

section Build

variable {runId streamId : String} {config : MarkerConfig} {idx : Nat} {segment : MarkerSegment}
  {next : Option MarkerSegment} {inputs : List MarkerInput} {m : SemanticMarker}

theorem segmentStatus_ne_finalized (config : MarkerConfig) (segment : MarkerSegment) :
    segmentStatus config segment ≠ .finalized := by
  unfold segmentStatus
  split
  · exact MarkerStatus.noConfusion
  · exact MarkerStatus.noConfusion

/-- A segment has its own marker, and a finalized one only after a provisional one. -/
theorem segmentMarkers_cases (runId streamId : String) (config : MarkerConfig) (idx : Nat)
    (segment : MarkerSegment) (next : Option MarkerSegment) :
    segmentMarkers runId streamId config idx segment next =
        [segmentMarker runId streamId config idx segment] ∨
      ∃ after, next = some after ∧ segmentStatus config segment = .provisional ∧
        segmentMarkers runId streamId config idx segment next =
          [segmentMarker runId streamId config idx segment,
            finalizedMarker runId streamId idx segment after] := by
  unfold segmentMarkers
  split
  · next after hstatus =>
    split
    · exact .inr ⟨after, rfl, hstatus, rfl⟩
    · exact .inl rfl
  · exact .inl rfl

theorem id_of_mem_segmentMarkers (h : m ∈ segmentMarkers runId streamId config idx segment next) :
    m.markerId = markerId idx ∨ m.markerId = finalizedId idx := by
  rcases segmentMarkers_cases runId streamId config idx segment next with hone | ⟨after, -, -, htwo⟩
  · rw [hone, List.mem_singleton] at h
    exact .inl (congrArg SemanticMarker.markerId h)
  · rw [htwo, List.mem_pair] at h
    rcases h with rfl | rfl
    · exact .inl rfl
    · exact .inr rfl

theorem nodup_segmentMarkers :
    ((segmentMarkers runId streamId config idx segment next).map (·.markerId)).Nodup := by
  rcases segmentMarkers_cases runId streamId config idx segment next with hone | ⟨after, -, -, htwo⟩
  · rw [hone]
    exact List.nodup_singleton _
  · rw [htwo]
    exact List.nodup_cons.mpr ⟨fun h ↦ markerId_ne_finalizedId idx idx (List.mem_singleton.mp h),
      List.nodup_singleton _⟩

theorem unfinalized_segmentMarkers :
    unfinalized (segmentMarkers runId streamId config idx segment next) =
      [segmentMarker runId streamId config idx segment] := by
  have hkept : (segmentMarker runId streamId config idx segment).status ≠ .finalized :=
    segmentStatus_ne_finalized config segment
  rcases segmentMarkers_cases runId streamId config idx segment next with hone | ⟨after, -, -, htwo⟩
  · rw [hone]
    exact List.filter_cons_of_pos (decide_eq_true hkept)
  · rw [htwo, unfinalized, List.filter_cons, if_pos (decide_eq_true hkept), List.filter_cons,
      if_neg (by simp [finalizedMarker]), List.filter_nil]

/-! ### Markers of a call -/

theorem nodup_buildMarkerLifecycle (runId streamId : String) (config : MarkerConfig)
    (inputs : List MarkerInput) :
    ((buildMarkerLifecycle runId streamId config inputs).map (·.markerId)).Nodup := by
  rw [buildMarkerLifecycle, List.map_flatMap, List.nodup_flatMap]
  refine ⟨fun _ _ ↦ nodup_segmentMarkers, ?_⟩
  have hidx : ((segmentInputs inputs).zipIdx.map Prod.snd).Nodup := by
    rw [List.zipIdx_map_snd]
    exact List.nodup_range'
  refine (List.pairwise_map.mp hidx).imp fun {a b} hne ↦ List.disjoint_left.mpr fun id ha hb ↦ ?_
  obtain ⟨m, hm, rfl⟩ := List.mem_map.mp ha
  obtain ⟨m', hm', hid⟩ := List.mem_map.mp hb
  rcases id_of_mem_segmentMarkers hm with h | h <;> rcases id_of_mem_segmentMarkers hm' with h' | h'
  · exact hne (markerId_injective (h.symm.trans (hid.symm.trans h')))
  · exact markerId_ne_finalizedId _ _ (h.symm.trans (hid.symm.trans h'))
  · exact markerId_ne_finalizedId _ _ (h'.symm.trans (hid.trans h))
  · exact hne (finalizedId_injective (h.symm.trans (hid.symm.trans h')))

/-- The marker supersedes a provisional one of its event type and start frame. -/
def Supersedes (m earlier : SemanticMarker) : Prop :=
  m.supersedesMarkerId = some earlier.markerId ∧ earlier.status = .provisional ∧
    earlier.eventType = m.eventType ∧ earlier.startFrame = m.startFrame

/-- A member of the joined lists stands in one of them. -/
private theorem flatMap_split {α β : Type} {f : α → List β} {xs : List α} {before after : List β}
    {b : β} (h : xs.flatMap f = before ++ b :: after) :
    ∃ x ∈ xs, ∃ first rest, f x = first ++ b :: rest ∧ first ⊆ before := by
  induction xs generalizing before with
  | nil => exact absurd h (by simp)
  | cons x xs ih =>
    rw [List.flatMap_cons, List.append_eq_append_iff] at h
    rcases h with ⟨tail, rfl, htail⟩ | ⟨tail, hx, htail⟩
    · obtain ⟨y, hy, first, rest, hsplit, hsub⟩ := ih htail
      exact ⟨y, List.mem_cons_of_mem x hy, first, rest, hsplit,
        fun _ h ↦ List.mem_append_right _ (hsub h)⟩
    · cases tail with
      | nil =>
        obtain ⟨y, hy, first, rest, hsplit, hsub⟩ := @ih [] htail.symm
        exact ⟨y, List.mem_cons_of_mem x hy, first, rest, hsplit,
          fun _ h ↦ absurd (hsub h) List.not_mem_nil⟩
      | cons c tail =>
        obtain ⟨rfl, -⟩ := List.cons.inj htail
        exact ⟨x, List.mem_cons_self, before, tail, hx, List.Subset.refl _⟩

/-- The provisional marker stands before the marker that supersedes it. -/
theorem exists_superseded {before after : List SemanticMarker}
    (h : buildMarkerLifecycle runId streamId config inputs = before ++ m :: after)
    (hstatus : m.status = .finalized) : ∃ earlier ∈ before, Supersedes m earlier := by
  obtain ⟨⟨segment, idx⟩, -, first, rest, hsplit, hsub⟩ := flatMap_split h
  have hbase : (segmentMarker runId streamId config idx segment).status ≠ .finalized :=
    segmentStatus_ne_finalized config segment
  rcases segmentMarkers_cases runId streamId config idx segment (segmentInputs inputs)[idx + 1]?
    with hone | ⟨after', -, hprovisional, htwo⟩
  · replace hsplit := hone.symm.trans hsplit
    have hm : m ∈ [segmentMarker runId streamId config idx segment] := hsplit ▸ by simp
    rw [List.mem_singleton.mp hm] at hstatus
    exact absurd hstatus hbase
  · replace hsplit := htwo.symm.trans hsplit
    cases first with
    | nil =>
      rw [List.nil_append, List.cons.injEq] at hsplit
      exact absurd (hsplit.1 ▸ hstatus) hbase
    | cons earlier first =>
      rw [List.cons_append, List.cons.injEq] at hsplit
      obtain ⟨rfl, hsplit⟩ := hsplit
      have hm : m ∈ [finalizedMarker runId streamId idx segment after'] := hsplit ▸ by simp
      rw [List.mem_singleton.mp hm]
      exact ⟨_, hsub List.mem_cons_self, rfl, hprovisional, rfl, rfl⟩

/-- The markers that are not finalized are those of the segments. -/
theorem unfinalized_buildMarkerLifecycle (runId streamId : String) (config : MarkerConfig)
    (inputs : List MarkerInput) :
    unfinalized (buildMarkerLifecycle runId streamId config inputs) =
      (segmentInputs inputs).zipIdx.map fun (segment, idx) ↦
        segmentMarker runId streamId config idx segment := by
  rw [unfinalized, buildMarkerLifecycle, List.filter_flatMap, List.map_eq_flatMap]
  exact congrArg (List.flatMap · _) (funext fun _ ↦ unfinalized_segmentMarkers)

/-- A marker has the event type of a block and reaches from its first to its last input. -/
structure Spans (m : SemanticMarker) (block : List MarkerInput) : Prop where
  first : ∃ first ∈ block.head?, m.eventType = first.eventType ∧
    m.startFrame = first.frameIndex ∧ m.startPtsMs = first.ptsMs
  last : ∃ last ∈ block.getLast?, m.eventType = last.eventType ∧
    m.endFrame = last.frameIndex ∧ m.endPtsMs = last.ptsMs

theorem spans_segmentMarkers {segments : List MarkerSegment} {blocks : List (List MarkerInput)}
    (h : List.Forall₂ SegmentOf segments blocks) (idx : Nat) :
    List.Forall₂ Spans ((segments.zipIdx idx).map fun (segment, idx) ↦
      segmentMarker runId streamId config idx segment) blocks := by
  induction h generalizing idx with
  | nil => exact .nil
  | cons hsegment _ ih => exact .cons ⟨hsegment.first, hsegment.last⟩ (ih (idx + 1))

/-- The markers that are not finalized cut the inputs into maximal blocks. -/
theorem unfinalized_blocks (runId streamId : String) (config : MarkerConfig)
    (hordered : inputs.Pairwise (·.frameIndex ≤ ·.frameIndex)) :
    ∃ blocks, MaximalBlocks inputs blocks ∧
      List.Forall₂ Spans (unfinalized (buildMarkerLifecycle runId streamId config inputs))
        blocks := by
  obtain ⟨blocks, hblocks, hsegments⟩ := segmentInputs_blocks hordered
  refine ⟨blocks, hblocks, ?_⟩
  rw [unfinalized_buildMarkerLifecycle]
  exact spans_segmentMarkers hsegments 0

theorem segmentInputs_ne_nil (hinputs : inputs ≠ [])
    (hordered : inputs.Pairwise (·.frameIndex ≤ ·.frameIndex)) : segmentInputs inputs ≠ [] := by
  intro hnil
  obtain ⟨blocks, hblocks, hsegments⟩ := segmentInputs_blocks hordered
  rw [hnil, List.forall₂_nil_left_iff] at hsegments
  subst hsegments
  exact hinputs hblocks.joined.symm

/-- No marker comes of no frames. -/
theorem buildMarkerLifecycle_nil (runId streamId : String) (config : MarkerConfig) :
    buildMarkerLifecycle runId streamId config [] = [] := rfl

/-- The first marker of every call over some frames has the same identifier. -/
theorem head_buildMarkerLifecycle (runId streamId : String) (config : MarkerConfig)
    (hinputs : inputs ≠ []) (hordered : inputs.Pairwise (·.frameIndex ≤ ·.frameIndex)) :
    ∃ m ∈ buildMarkerLifecycle runId streamId config inputs, m.markerId = markerId 0 := by
  obtain ⟨segment, rest, hsegments⟩ :=
    List.exists_cons_of_ne_nil (segmentInputs_ne_nil hinputs hordered)
  refine ⟨segmentMarker runId streamId config 0 segment, ?_, rfl⟩
  refine List.mem_flatMap.mpr ⟨(segment, 0), ?_, List.mem_cons_self⟩
  rw [hsegments]
  exact List.mem_cons_self

end Build

end Vidarax.Marker
