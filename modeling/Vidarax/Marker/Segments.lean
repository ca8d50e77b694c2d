import Mathlib.Data.List.Chain
import Mathlib.Data.List.Forall2
import Vidarax.Base.FloatArith
import Vidarax.Base.Machine

/-!
# Segments of marker inputs

Package `vidarax-api`, `semantic.rs:3–79,141–170`. Consecutive inputs of one event type are merged
into a segment as long as no frame is skipped. The segments are the maximal blocks of such inputs.
-/

namespace Vidarax.Marker

open Base

/-- `MarkerInput`. -/
structure MarkerInput where
  frameIndex : UInt64
  ptsMs : UInt64
  eventType : String
  confidence : F32
  deriving DecidableEq

/-- `MarkerSegment`. -/
structure MarkerSegment where
  eventType : String
  startFrame : UInt64
  endFrame : UInt64
  startPtsMs : UInt64
  endPtsMs : UInt64
  confidenceSum : F32
  count : Nat

namespace MarkerSegment

/-- `MarkerSegment::new`. -/
def new (input : MarkerInput) : MarkerSegment where
  eventType := input.eventType
  startFrame := input.frameIndex
  endFrame := input.frameIndex
  startPtsMs := input.ptsMs
  endPtsMs := input.ptsMs
  confidenceSum := input.confidence
  count := 1

/-- `MarkerSegment::extend`. -/
def extend (segment : MarkerSegment) (input : MarkerInput) : MarkerSegment :=
  { segment with
    endFrame := input.frameIndex
    endPtsMs := input.ptsMs
    confidenceSum := segment.confidenceSum.add input.confidence
    count := segment.count + 1 }

/-- `MarkerSegment::confidence`. -/
def confidence (segment : MarkerSegment) : F32 :=
  if segment.count = 0 then F32.zero
  else (segment.confidenceSum.div (F32.ofInt segment.count)).clamp F32.zero F32.one

end MarkerSegment

/-- The segments so far and the current one, after one more input; `semantic.rs:145`. -/
def segmentStep : List MarkerSegment × Option MarkerSegment → MarkerInput →
    List MarkerSegment × Option MarkerSegment
  | (segments, some segment), input =>
    if segment.eventType = input.eventType ∧ input.frameIndex ≤ satAdd segment.endFrame 1 then
      (segments, some (segment.extend input))
    else (segments ++ [segment], some (.new input))
  | (segments, none), input => (segments, some (.new input))

/-- `segment_inputs`. -/
def segmentInputs (inputs : List MarkerInput) : List MarkerSegment :=
  let (segments, current) := inputs.foldl segmentStep ([], none)
  segments ++ current.toList

/-! ### Blocks -/

/-- Two inputs of one event type with no skipped frame between them. -/
def Consecutive (a b : MarkerInput) : Prop :=
  a.eventType = b.eventType ∧
    a.frameIndex.toNat ≤ b.frameIndex.toNat ∧ b.frameIndex.toNat ≤ a.frameIndex.toNat + 1

/-- The list of inputs is cut into blocks of consecutive ones, and no two neighbours can be
joined. -/
structure MaximalBlocks (inputs : List MarkerInput) (blocks : List (List MarkerInput)) : Prop where
  joined : blocks.flatten = inputs
  nonempty : ∀ block ∈ blocks, block ≠ []
  consecutive : ∀ block ∈ blocks, block.IsChain Consecutive
  maximal : blocks.IsChain fun block next ↦
    ∃ last ∈ block.getLast?, ∃ first ∈ next.head?, ¬ Consecutive last first

/-- A segment has the event type of a block and reaches from its first to its last input. -/
structure SegmentOf (segment : MarkerSegment) (block : List MarkerInput) : Prop where
  first : ∃ first ∈ block.head?, segment.eventType = first.eventType ∧
    segment.startFrame = first.frameIndex ∧ segment.startPtsMs = first.ptsMs
  last : ∃ last ∈ block.getLast?, segment.eventType = last.eventType ∧
    segment.endFrame = last.frameIndex ∧ segment.endPtsMs = last.ptsMs

theorem segmentOf_new (input : MarkerInput) : SegmentOf (.new input) [input] :=
  ⟨⟨input, rfl, rfl, rfl, rfl⟩, ⟨input, rfl, rfl, rfl, rfl⟩⟩

theorem SegmentOf.extend {segment : MarkerSegment} {block : List MarkerInput}
    (h : SegmentOf segment block) {input : MarkerInput}
    (htype : segment.eventType = input.eventType) :
    SegmentOf (segment.extend input) (block ++ [input]) := by
  obtain ⟨first, hfirst, hstart⟩ := h.first
  constructor
  · refine ⟨first, ?_, hstart⟩
    rw [Option.mem_def] at hfirst ⊢
    rw [List.head?_append, hfirst, Option.some_or]
  · exact ⟨input, List.getLast?_concat, htype, rfl, rfl⟩

namespace MaximalBlocks

variable {inputs block : List MarkerInput} {done : List (List MarkerInput)}
  {last input : MarkerInput}

/-- The next input joins the last block. -/
theorem extend (h : MaximalBlocks inputs (done ++ [block])) (hlast : last ∈ block.getLast?)
    (hnext : Consecutive last input) :
    MaximalBlocks (inputs ++ [input]) (done ++ [block ++ [input]]) := by
  have hblock : block ≠ [] := h.nonempty block (List.mem_append_right _ (List.mem_singleton_self _))
  constructor
  · rw [← h.joined]
    simp
  · intro b hb
    rcases List.mem_append.mp hb with hb | hb
    · exact h.nonempty b (List.mem_append_left _ hb)
    · rw [List.mem_singleton.mp hb]
      exact List.concat_ne_nil input block
  · intro b hb
    rcases List.mem_append.mp hb with hb | hb
    · exact h.consecutive b (List.mem_append_left _ hb)
    · rw [List.mem_singleton.mp hb, List.isChain_append]
      refine ⟨h.consecutive block (List.mem_append_right _ (List.mem_singleton_self _)),
        List.isChain_singleton _, fun x hx y hy ↦ ?_⟩
      obtain rfl := Option.mem_unique hx hlast
      obtain rfl := Option.mem_unique hy rfl
      exact hnext
  · have hmaximal := List.isChain_append.mp h.maximal
    refine List.isChain_append.mpr ⟨hmaximal.1, List.isChain_singleton _, fun x hx y hy ↦ ?_⟩
    -- the block keeps its first input
    obtain ⟨l, hl, first, hfirst, hnot⟩ := hmaximal.2.2 x hx block rfl
    obtain rfl := Option.mem_unique hy rfl
    refine ⟨l, hl, first, ?_, hnot⟩
    rw [Option.mem_def] at hfirst ⊢
    rw [List.head?_append, hfirst, Option.some_or]

/-- The next input begins a block. -/
theorem cut (h : MaximalBlocks inputs (done ++ [block])) (hlast : last ∈ block.getLast?)
    (hnext : ¬ Consecutive last input) :
    MaximalBlocks (inputs ++ [input]) (done ++ [block] ++ [[input]]) := by
  constructor
  · rw [List.flatten_append, h.joined]
    simp
  · intro b hb
    rcases List.mem_append.mp hb with hb | hb
    · exact h.nonempty b hb
    · rw [List.mem_singleton.mp hb]
      exact List.cons_ne_nil input []
  · intro b hb
    rcases List.mem_append.mp hb with hb | hb
    · exact h.consecutive b hb
    · rw [List.mem_singleton.mp hb]
      exact List.isChain_singleton input
  · refine List.isChain_append.mpr ⟨h.maximal, List.isChain_singleton _, fun x hx y hy ↦ ?_⟩
    rw [List.getLast?_concat] at hx
    obtain rfl := Option.mem_unique hx rfl
    obtain rfl := Option.mem_unique hy rfl
    exact ⟨last, hlast, input, rfl, hnext⟩

end MaximalBlocks

theorem maximalBlocks_nil : MaximalBlocks [] [] :=
  ⟨rfl, fun _ h ↦ absurd h List.not_mem_nil, fun _ h ↦ absurd h List.not_mem_nil, List.isChain_nil⟩

theorem maximalBlocks_singleton (input : MarkerInput) : MaximalBlocks [input] [[input]] := by
  refine ⟨rfl, ?_, ?_, List.isChain_singleton _⟩
  · intro block hblock
    rw [List.mem_singleton.mp hblock]
    exact List.cons_ne_nil input []
  · intro block hblock
    rw [List.mem_singleton.mp hblock]
    exact List.isChain_singleton input

/-! ### The fold -/

/-- The segments so far stand for maximal blocks of the inputs so far. -/
def Segmented (inputs : List MarkerInput) :
    List MarkerSegment × Option MarkerSegment → Prop
  | (segments, none) => segments = [] ∧ inputs = []
  | (segments, some segment) => ∃ done block, MaximalBlocks inputs (done ++ [block]) ∧
      List.Forall₂ SegmentOf segments done ∧ SegmentOf segment block

/-- One more input, not before the others. -/
theorem Segmented.step {inputs : List MarkerInput}
    {state : List MarkerSegment × Option MarkerSegment} (h : Segmented inputs state)
    {input : MarkerInput} (hordered : ∀ earlier ∈ inputs, earlier.frameIndex ≤ input.frameIndex) :
    Segmented (inputs ++ [input]) (segmentStep state input) := by
  match state, h with
  | (segments, none), h =>
    obtain ⟨rfl, rfl⟩ := h
    exact ⟨[], [input], maximalBlocks_singleton input, .nil, segmentOf_new input⟩
  | (segments, some segment), h =>
    obtain ⟨done, block, hblocks, hdone, hsegment⟩ := h
    obtain ⟨last, hlast, htype, hframe, -⟩ := hsegment.last
    have hmem : last ∈ inputs := by
      rw [← hblocks.joined]
      exact List.mem_flatten.mpr ⟨block, List.mem_append_right _ (List.mem_singleton_self _),
        List.mem_of_getLast? hlast⟩
    have hle : last.frameIndex.toNat ≤ input.frameIndex.toNat := hordered last hmem
    have hnear : input.frameIndex ≤ satAdd segment.endFrame 1 ↔
        input.frameIndex.toNat ≤ last.frameIndex.toNat + 1 := by
      have hbound := toNat_le_u64Max input.frameIndex
      rw [UInt64.le_iff_toNat_le, toNat_satAdd, hframe, le_min_iff]
      exact and_iff_left hbound
    rw [segmentStep]
    split
    · next hjoin =>
      exact ⟨done, block ++ [input],
        hblocks.extend hlast ⟨htype.symm.trans hjoin.1, hle, hnear.mp hjoin.2⟩, hdone,
        hsegment.extend hjoin.1⟩
    · next hjoin =>
      refine ⟨done ++ [block], [input], hblocks.cut hlast fun hnext ↦ hjoin ?_,
        List.rel_append hdone (.cons hsegment .nil), segmentOf_new input⟩
      exact ⟨htype.trans hnext.1, hnear.mpr hnext.2.2⟩

theorem segmented_foldl {inputs : List MarkerInput}
    (hordered : inputs.Pairwise (·.frameIndex ≤ ·.frameIndex)) :
    Segmented inputs (inputs.foldl segmentStep ([], none)) := by
  induction inputs using List.reverseRecOn with
  | nil => exact ⟨rfl, rfl⟩
  | append_singleton inputs input ih =>
    obtain ⟨hbefore, -, hlast⟩ := List.pairwise_append.mp hordered
    rw [List.foldl_append]
    exact (ih hbefore).step fun earlier hmem ↦ hlast earlier hmem input (List.mem_singleton_self _)

/-- The segments are those of the maximal blocks of the inputs. -/
theorem segmentInputs_blocks {inputs : List MarkerInput}
    (hordered : inputs.Pairwise (·.frameIndex ≤ ·.frameIndex)) :
    ∃ blocks, MaximalBlocks inputs blocks ∧
      List.Forall₂ SegmentOf (segmentInputs inputs) blocks := by
  have h := segmented_foldl hordered
  rw [segmentInputs]
  match hstate : inputs.foldl segmentStep ([], none), h with
  | (segments, none), h =>
    obtain ⟨rfl, rfl⟩ := h
    exact ⟨[], maximalBlocks_nil, .nil⟩
  | (segments, some segment), h =>
    obtain ⟨done, block, hblocks, hdone, hsegment⟩ := h
    exact ⟨done ++ [block], hblocks, List.rel_append hdone (.cons hsegment .nil)⟩

end Vidarax.Marker
