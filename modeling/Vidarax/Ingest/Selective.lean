import Mathlib.Data.List.Destutter
import Mathlib.Data.List.Sort
import Vidarax.Base.Utf8

/-!
# Selective decoding

Packages `vidarax-core`, `crates/vidarax-core/src/ingest/ffmpeg.rs:273,839–955,1488–1568`, and
`vidarax-api`, `crates/vidarax-api/src/semantic_infer.rs:432–456,1555–1581`, `handlers.rs:2021–2039`.
Only the frames that inference will look at are decoded. Their numbers are computed in advance, the
decoder is run for them, its output is split into images, and these are numbered by their places.
Sizes are natural numbers: what a reservation of memory asks for is left out.
-/

namespace Vidarax.Ingest

open Vidarax.Base

/-- A decoded image; `ffmpeg.rs:273`. -/
structure DecodedJpegFrame where
  frameIndex : Nat
  jpegBytes : Bytes
  deriving DecidableEq

/-! ### Image streams -/

/-- Offset of the first `0xFF` in front of a code. -/
def findMarker (code : UInt8) : Bytes → Option Nat
  | [] => none
  | b :: rest =>
    if b = 0xFF ∧ rest.head? = some code then some 0 else (findMarker code rest).map (· + 1)

/-- What the splitter returns at the end of the stream. -/
def foundFrames (frames : List DecodedJpegFrame) : Except String (List DecodedJpegFrame) :=
  if frames = [] then .error "no jpeg frames decoded from source" else .ok frames

/-- A marker is found before the end. -/
theorem findMarker_lt {code : UInt8} {raw : Bytes} {i : Nat} (h : findMarker code raw = some i) :
    i + 1 < raw.length := by
  induction raw generalizing i with
  | nil => cases h
  | cons b rest ih =>
    rw [findMarker] at h
    split at h
    · next hmarker =>
      cases h
      cases rest with
      | nil => cases hmarker.2
      | cons c rest => simp
    · obtain ⟨j, hj, rfl⟩ := Option.map_eq_some_iff.mp h
      have := ih hj
      rw [List.length_cons]
      omega

/-- Loop of `parse_jpeg_stream_to_frames` on what is left of the stream. -/
def parseLoop (maxFrames : Nat) (raw : Bytes) (frames : List DecodedJpegFrame) :
    Except String (List DecodedJpegFrame) :=
  if raw.length ≤ 1 ∨ maxFrames ≤ frames.length then foundFrames frames
  else
    match _hstart : findMarker 0xD8 raw with
    | none => foundFrames frames
    | some start =>
      match _hstop : findMarker 0xD9 (raw.drop (start + 2)) with
      | none => .error "mjpeg stream ended with an incomplete frame"
      | some size =>
        let stop := start + 2 + size + 2
        parseLoop maxFrames (raw.drop stop)
          (frames ++ [⟨frames.length, (raw.take stop).drop start⟩])
termination_by raw.length
decreasing_by
  have := findMarker_lt _hstart
  simp only [List.length_drop]
  omega

/-- Split a stream into at most `maxFrames` images; `ffmpeg.rs:839`. -/
def parseJpegStreamToFrames (raw : Bytes) (maxFrames : Nat) :
    Except String (List DecodedJpegFrame) := parseLoop maxFrames raw []

/-- An image starts with one marker and ends with another that is not in it before. -/
structure IsJpeg (image : Bytes) : Prop where
  start : [0xFF, 0xD8] <+: image
  stop : [0xFF, 0xD9] <:+ image
  once : ∀ i, i + 2 < image.length → ¬ [0xFF, 0xD9] <+: image.drop i

theorem findMarker_eq_some {code : UInt8} {raw : Bytes} {i : Nat}
    (hat : [0xFF, code] <+: raw.drop i) (hbefore : ∀ j < i, ¬ [0xFF, code] <+: raw.drop j) :
    findMarker code raw = some i := by
  induction raw generalizing i with
  | nil =>
    rw [List.drop_nil] at hat
    cases List.prefix_nil.mp hat
  | cons b rest ih =>
    have hfirst : (b = 0xFF ∧ rest.head? = some code) ↔ [0xFF, code] <+: b :: rest := by
      cases rest with
      | nil => simp [List.cons_prefix_cons]
      | cons c rest => simp [List.cons_prefix_cons, eq_comm]
    rw [findMarker]
    cases i with
    | zero => rw [if_pos (hfirst.mpr hat)]
    | succ i =>
      rw [if_neg (fun h ↦ hbefore 0 (Nat.succ_pos i) (hfirst.mp h))]
      rw [ih hat fun j hj ↦ hbefore (j + 1) (Nat.succ_lt_succ hj)]
      rfl

/-- The parts of an image. -/
theorem IsJpeg.exists_body {image : Bytes} (h : IsJpeg image) :
    ∃ body, image = 0xFF :: 0xD8 :: (body ++ [0xFF, 0xD9]) := by
  obtain ⟨tail, htail⟩ := h.start
  obtain ⟨front, hfront⟩ := h.stop
  have hboth : front ++ [0xFF, 0xD9] = [0xFF, 0xD8] ++ tail := hfront.trans htail.symm
  rcases List.append_eq_append_iff.mp hboth with ⟨rest, hstart, -⟩ | ⟨body, hbody, -⟩
  · match front, hstart with
    | [], _ =>
      rw [List.nil_append] at hboth
      cases hboth
    | [_], _ =>
      cases hboth
    | [a, b], hstart =>
      refine ⟨[], ?_⟩
      rw [← hfront]
      cases hstart
      rfl
    | _ :: _ :: _ :: _, hstart => simp at hstart
  · refine ⟨body, ?_⟩
    rw [← hfront, hbody]
    rfl

/-- The first image of a stream. -/
theorem IsJpeg.findMarker {image : Bytes} (h : IsJpeg image) (rest : Bytes) :
    Ingest.findMarker 0xD8 (image ++ rest) = some 0 ∧
      ∃ size, Ingest.findMarker 0xD9 ((image ++ rest).drop 2) = some size ∧
        image.length = 2 + size + 2 := by
  obtain ⟨body, rfl⟩ := h.exists_body
  constructor
  · exact if_pos ⟨rfl, rfl⟩
  · refine ⟨body.length, ?_, ?_⟩
    · apply findMarker_eq_some
      · simp
      · intro j hj hmarker
        apply h.once (j + 2)
        · simp only [List.length_cons, List.length_append, List.length_nil]
          omega
        · rw [List.cons_append, List.cons_append, List.drop_succ_cons, List.drop_succ_cons,
            List.drop_zero, List.append_assoc, List.drop_append_of_le_length (by omega)] at hmarker
          rw [List.drop_succ_cons, List.drop_succ_cons, List.drop_append_of_le_length (by omega)]
          -- the marker lies in the image, whatever follows it
          have hlength : 1 ≤ (body.drop j).length := by
            rw [List.length_drop]
            omega
          match hdrop : body.drop j with
          | [] => rw [hdrop] at hlength; cases hlength
          | [a] =>
            rw [hdrop] at hmarker
            simp at hmarker
          | a :: b :: more =>
            rw [hdrop] at hmarker
            simpa [List.cons_prefix_cons] using hmarker
    · simp only [List.length_cons, List.length_append, List.length_nil]
      omega

/-- Images numbered from a place on. -/
def numbered : Nat → List Bytes → List DecodedJpegFrame
  | _, [] => []
  | n, image :: images => ⟨n, image⟩ :: numbered (n + 1) images

/-- A stream of images is split into them. -/
theorem parseLoop_flatten {maxFrames : Nat} {images : List Bytes}
    (himages : ∀ image ∈ images, IsJpeg image) (frames : List DecodedJpegFrame)
    (hmax : frames.length + images.length ≤ maxFrames) :
    parseLoop maxFrames images.flatten frames =
      foundFrames (frames ++ numbered frames.length images) := by
  induction images generalizing frames with
  | nil =>
    rw [parseLoop, if_pos (.inl (by simp)), numbered, List.append_nil]
  | cons image images ih =>
    have hjpeg := himages image List.mem_cons_self
    obtain ⟨hstart, size, hstop, hsize⟩ := hjpeg.findMarker images.flatten
    rw [List.length_cons] at hmax
    have hgo : ¬ ((image ++ images.flatten).length ≤ 1 ∨ maxFrames ≤ frames.length) := by
      rw [List.length_append]
      omega
    rw [List.flatten_cons, parseLoop, if_neg hgo]
    split
    · next hnone =>
      rw [hstart] at hnone
      cases hnone
    · next start hsome =>
      rw [hstart] at hsome
      cases hsome
      split
      · next hnone =>
        rw [Nat.zero_add, hstop] at hnone
        cases hnone
      · next found hfound =>
        rw [Nat.zero_add, hstop] at hfound
        cases hfound
        have hend : 0 + 2 + size + 2 = image.length := by omega
        have hnext := ih (fun other hother ↦ himages other (List.mem_cons_of_mem image hother))
          (frames ++ [⟨frames.length, image⟩])
          (by rw [List.length_append, List.length_singleton]; omega)
        dsimp only
        rw [hend, List.drop_left, List.take_left, List.drop_zero, hnext, List.length_append,
          List.length_singleton, List.append_assoc]
        rfl

/-! ### Numbers of frames -/

/-- Offsets of `k` frames of a chunk that are spread over it, where one that repeats the last is
left out; `ffmpeg.rs:940`, `semantic_infer.rs:1573`. -/
def spreadOffsets (chunkLen k : Nat) : List Nat :=
  ((List.range k).foldl (fun (out, last) i ↦
    let offset := i * (chunkLen - 1) / (k - 1)
    if some offset ≠ last then (out ++ [offset], some offset) else (out, last))
    (([], none) : List Nat × Option Nat)).1

/-- How many chunks there are. -/
def divCeil (total chunkSize : Nat) : Nat := (total + chunkSize - 1) / chunkSize

/-- Numbers of the frames of a chunk that inference will look at. -/
def chunkIndices (start chunkLen framesPerChunk : Nat) : List Nat :=
  if framesPerChunk ≥ chunkLen then (List.range chunkLen).map (start + ·)
  else if framesPerChunk = 1 then [start + chunkLen / 2]
  else (spreadOffsets chunkLen framesPerChunk).map (start + ·)

/-- `compute_semantic_frame_indices`; `ffmpeg.rs:918`. -/
def computeSemanticFrameIndices (totalFrames chunkSize framesPerChunk : Nat) : List Nat :=
  if totalFrames = 0 ∨ chunkSize = 0 ∨ framesPerChunk = 0 then []
  else
    ((List.range (divCeil totalFrames chunkSize)).flatMap fun chunkIdx ↦
      let start := chunkIdx * chunkSize
      let stop := min (start + chunkSize) totalFrames
      chunkIndices start (stop - start) framesPerChunk).destutter (· ≠ ·)

/-- `select_semantic_images`; `semantic_infer.rs:1555`. -/
def selectSemanticImages (chunkJpegs : List DecodedJpegFrame) (framesPerChunk : Nat) :
    List DecodedJpegFrame :=
  if chunkJpegs = [] then []
  else if framesPerChunk ≥ chunkJpegs.length then chunkJpegs
  else if framesPerChunk = 1 then (chunkJpegs[chunkJpegs.length / 2]?).toList
  else (spreadOffsets chunkJpegs.length framesPerChunk).filterMap (chunkJpegs[·]?)

/-! ### Decoding -/

/-- `decode_selective_jpeg_frames_inner`, where the checks of the sampling rate and of the crop, and
what `ffmpeg` writes for the sorted numbers, are inputs; `ffmpeg.rs:1488`. -/
def decodeSelectiveJpegFrames (checks : Except String Unit) (ffmpeg : List Nat → Except String Bytes)
    (frameIndices : List Nat) : Except String (List DecodedJpegFrame) :=
  if frameIndices = [] then .ok []
  else do
    checks
    let indices := (frameIndices.mergeSort fun a b ↦ a ≤ b).destutter (· ≠ ·)
    let stdout ← ffmpeg indices
    let parsed ← parseJpegStreamToFrames stdout indices.length
    let usable := min parsed.length indices.length
    return (parsed.take usable).zipWith (fun frame idx ↦ { frame with frameIndex := idx }) indices

/-- Frames by their numbers; `handlers.rs:2035`. -/
def lookupOf (jpegs : List DecodedJpegFrame) : Std.HashMap Nat DecodedJpegFrame :=
  .ofList (jpegs.map fun frame ↦ (frame.frameIndex, frame))

/-- First and last place of each chunk; `semantic_infer.rs:433`. -/
def chunkRanges (total chunkSize : Nat) : List (Nat × Nat) :=
  (List.range (divCeil total chunkSize)).map fun chunkIdx ↦
    (chunkIdx * chunkSize, min (chunkIdx * chunkSize + chunkSize) total)

/-- The decoded frames of a chunk; `semantic_infer.rs:448`. -/
def chunkJpegs (lookup : Std.HashMap Nat DecodedJpegFrame) (range : Nat × Nat) :
    List DecodedJpegFrame :=
  ((List.range' range.1 (range.2 - range.1)).filterMap (lookup[·]?)).mergeSort
    fun a b ↦ a.frameIndex ≤ b.frameIndex

/-! ### What is picked -/

/-- Offsets in a chunk of the frames that inference will look at. -/
def picks (chunkLen k : Nat) : List Nat :=
  if k ≥ chunkLen then List.range chunkLen
  else if k = 1 then [chunkLen / 2]
  else (List.range k).map fun i ↦ i * (chunkLen - 1) / (k - 1)

theorem spread_lt_succ {n d i : Nat} (hd : 0 < d) (hn : d ≤ n) : i * n / d < (i + 1) * n / d := by
  have hstep : i * n / d + 1 ≤ (i * n + n) / d := by
    rw [← Nat.add_div_right _ hd]
    exact Nat.div_le_div_right (Nat.add_le_add_left hn _)
  rw [Nat.succ_mul]
  exact hstep

theorem spread_lt {n d i j : Nat} (hd : 0 < d) (hn : d ≤ n) (hij : i < j) :
    i * n / d < j * n / d := by
  induction hij with
  | refl => exact spread_lt_succ hd hn
  | step _ ih => exact Nat.lt_trans ih (spread_lt_succ hd hn)

/-- No offset repeats the last where the chunk has more frames than are picked. -/
theorem spreadOffsets_eq {chunkLen k : Nat} (hk : 1 < k) (hlen : k < chunkLen) :
    spreadOffsets chunkLen k = (List.range k).map fun i ↦ i * (chunkLen - 1) / (k - 1) := by
  have hd : 0 < k - 1 := Nat.sub_pos_of_lt hk
  have hn : k - 1 ≤ chunkLen - 1 := Nat.sub_le_sub_right (Nat.le_of_lt hlen) 1
  suffices hloop : ∀ m, (List.range m).foldl (fun (out, last) i ↦
      let offset := i * (chunkLen - 1) / (k - 1)
      if some offset ≠ last then (out ++ [offset], some offset) else (out, last))
      (([], none) : List Nat × Option Nat) =
        ((List.range m).map fun i ↦ i * (chunkLen - 1) / (k - 1),
          if m = 0 then none else some ((m - 1) * (chunkLen - 1) / (k - 1))) by
    rw [spreadOffsets, hloop]
  intro m
  induction m with
  | zero => rfl
  | succ m ih =>
    have hnew : some (m * (chunkLen - 1) / (k - 1)) ≠
        if m = 0 then none else some ((m - 1) * (chunkLen - 1) / (k - 1)) := by
      split
      · exact Option.some_ne_none _
      · next hm =>
        intro heq
        have := spread_lt hd hn (Nat.sub_lt (Nat.pos_of_ne_zero hm) Nat.one_pos)
        rw [Option.some.inj heq] at this
        exact Nat.lt_irrefl _ this
    rw [List.range_succ, List.foldl_append, ih, List.foldl_cons, List.foldl_nil]
    dsimp only
    rw [if_pos hnew, if_neg (Nat.succ_ne_zero m), List.map_append]
    rfl

/-- The numbers that are computed for a chunk are the picked ones. -/
theorem chunkIndices_eq {start chunkLen k : Nat} (hk : 0 < k) :
    chunkIndices start chunkLen k = (picks chunkLen k).map (start + ·) := by
  unfold chunkIndices picks
  split
  · rfl
  · next hlen =>
    split
    · rfl
    · next hone => rw [spreadOffsets_eq (by omega) (by omega)]

theorem pairwise_picks (chunkLen k : Nat) : (picks chunkLen k).Pairwise (· < ·) := by
  unfold picks
  split
  · exact List.pairwise_lt_range
  · next hlen =>
    split
    · exact List.pairwise_singleton _ _
    · next hone =>
      apply List.pairwise_map.mpr
      apply List.pairwise_lt_range.imp_of_mem
      intro i j hi hj hij
      have hj := List.mem_range.mp hj
      exact spread_lt (by omega) (by omega) hij

theorem lt_of_mem_picks {chunkLen k i : Nat} (hchunk : 0 < chunkLen) (h : i ∈ picks chunkLen k) :
    i < chunkLen := by
  unfold picks at h
  split at h
  · exact List.mem_range.mp h
  · next hlen =>
    split at h
    · rw [List.mem_singleton.mp h]
      exact Nat.div_lt_self hchunk (by omega)
    · obtain ⟨j, hj, rfl⟩ := List.mem_map.mp h
      have hj := List.mem_range.mp hj
      have hle : j * (chunkLen - 1) / (k - 1) ≤ chunkLen - 1 := by
        apply Nat.div_le_of_le_mul
        exact Nat.mul_le_mul_right _ (by omega)
      omega

theorem length_picks_le {chunkLen k : Nat} (hk : 0 < k) : (picks chunkLen k).length ≤ k := by
  unfold picks
  split
  · next hlen =>
    rw [List.length_range]
    exact hlen
  · split
    · exact hk
    · rw [List.length_map, List.length_range]

theorem filterMap_range {α : Type} (xs : List α) :
    (List.range xs.length).filterMap (xs[·]?) = xs := by
  induction xs using List.reverseRecOn with
  | nil => rfl
  | append_singleton xs x ih =>
    have hfront : (List.range xs.length).filterMap ((xs ++ [x])[·]?) = xs := by
      conv_rhs => rw [← ih]
      apply List.filterMap_congr
      intro i hi
      exact List.getElem?_append_left (List.mem_range.mp hi)
    rw [List.length_append, List.length_singleton, List.range_succ, List.filterMap_append, hfront]
    simp

/-- What is selected from a whole chunk is what was picked. -/
theorem selectSemanticImages_full {chunk : List DecodedJpegFrame} {k : Nat} (hk : 0 < k) :
    selectSemanticImages chunk k = (picks chunk.length k).filterMap (chunk[·]?) := by
  unfold selectSemanticImages picks
  by_cases hnil : chunk = []
  · subst hnil
    simp
  · rw [if_neg hnil]
    split
    · exact (filterMap_range chunk).symm
    · next hlen =>
      split
      · rw [List.filterMap_cons]
        cases chunk[chunk.length / 2]? <;> rfl
      · next hone => rw [spreadOffsets_eq (by omega) (by omega)]

/-- Nothing is left out of a chunk that has no more frames than are wanted. -/
theorem selectSemanticImages_short {chunk : List DecodedJpegFrame} {k : Nat}
    (h : chunk.length ≤ k) : selectSemanticImages chunk k = chunk := by
  unfold selectSemanticImages
  rw [if_pos h]
  split
  · next hnil => exact hnil.symm
  · rfl

/-! ### Chunks -/

section Chunks

variable {total size k : Nat}

/-- First place and number of frames of a chunk. -/
def chunkStart (size c : Nat) : Nat := c * size

def chunkLen (total size c : Nat) : Nat := min (chunkStart size c + size) total - chunkStart size c

theorem chunkStart_lt (hsize : 0 < size) {c : Nat} (hc : c < divCeil total size) :
    chunkStart size c < total := by
  have hle := (Nat.le_div_iff_mul_le hsize).mp (Nat.succ_le_of_lt hc)
  rw [Nat.succ_mul] at hle
  unfold chunkStart
  omega

theorem chunkLen_pos (hsize : 0 < size) {c : Nat} (hc : c < divCeil total size) :
    0 < chunkLen total size c := by
  have := chunkStart_lt hsize hc
  unfold chunkLen
  omega

/-- A chunk ends before the next ones start. -/
theorem chunk_le_of_lt {c d : Nat} (hcd : c < d) :
    chunkStart size c + chunkLen total size c ≤ chunkStart size d := by
  have hnext : chunkStart size c + size ≤ chunkStart size d := by
    unfold chunkStart
    rw [← Nat.succ_mul]
    exact Nat.mul_le_mul_right size hcd
  unfold chunkLen
  omega

/-- Chunks do not overlap. -/
theorem chunk_eq {c d i : Nat} (hc : chunkStart size c ≤ i)
    (hc' : i < chunkStart size c + chunkLen total size c) (hd : chunkStart size d ≤ i)
    (hd' : i < chunkStart size d + chunkLen total size d) : c = d := by
  rcases Nat.lt_trichotomy c d with hlt | heq | hgt
  · have : chunkStart size c + chunkLen total size c ≤ chunkStart size d := chunk_le_of_lt hlt
    omega
  · exact heq
  · have : chunkStart size d + chunkLen total size d ≤ chunkStart size c := chunk_le_of_lt hgt
    omega

/-- Numbers of the frames that are picked in a chunk. -/
def picked (total size k c : Nat) : List Nat :=
  (picks (chunkLen total size c) k).map (chunkStart size c + ·)

theorem pairwise_picked (c : Nat) : (picked total size k c).Pairwise (· < ·) :=
  List.pairwise_map.mpr ((pairwise_picks _ k).imp fun h ↦ Nat.add_lt_add_left h _)

theorem mem_picked (hsize : 0 < size) {c : Nat} (hc : c < divCeil total size) {i : Nat}
    (h : i ∈ picked total size k c) :
    chunkStart size c ≤ i ∧ i < chunkStart size c + chunkLen total size c := by
  obtain ⟨offset, hoffset, rfl⟩ := List.mem_map.mp h
  have := lt_of_mem_picks (chunkLen_pos hsize hc) hoffset
  omega

/-- The picked numbers of all chunks are ascending. -/
theorem pairwise_flatMap_picked (hsize : 0 < size) :
    ((List.range (divCeil total size)).flatMap (picked total size k)).Pairwise (· < ·) := by
  apply List.pairwise_flatMap.mpr
  refine ⟨fun c _ ↦ pairwise_picked c, ?_⟩
  apply List.pairwise_lt_range.imp_of_mem
  intro c d hc hd hcd i hi j hj
  have hi := mem_picked hsize (List.mem_range.mp hc) hi
  have hj := mem_picked hsize (List.mem_range.mp hd) hj
  have : chunkStart size c + chunkLen total size c ≤ chunkStart size d := chunk_le_of_lt hcd
  omega

/-- The numbers that are computed are the picked ones of all chunks. -/
theorem computeSemanticFrameIndices_eq (hsize : 0 < size) (hk : 0 < k) :
    computeSemanticFrameIndices total size k =
      (List.range (divCeil total size)).flatMap (picked total size k) := by
  have hchain : ((List.range (divCeil total size)).flatMap (picked total size k)).IsChain
      (· ≠ ·) :=
    ((pairwise_flatMap_picked hsize).imp Nat.ne_of_lt).isChain
  unfold computeSemanticFrameIndices
  by_cases htotal : total = 0
  · subst htotal
    have hnone : divCeil 0 size = 0 := Nat.div_eq_of_lt (by omega)
    rw [if_pos (.inl rfl), hnone]
    rfl
  · rw [if_neg (by omega), ← List.destutter_of_isChain _ _ hchain]
    congr 2
    funext c
    exact chunkIndices_eq hk

/-- Of the places of a chunk the computed numbers have those that were picked in it. -/
theorem filter_chunk (hsize : 0 < size) (hk : 0 < k) {c : Nat} (hc : c < divCeil total size) :
    (List.range' (chunkStart size c) (chunkLen total size c)).filter
      (· ∈ computeSemanticFrameIndices total size k) = picked total size k c := by
  rw [computeSemanticFrameIndices_eq hsize hk]
  apply List.Pairwise.eq_of_mem_iff (r := (· < ·))
  · exact List.Pairwise.filter _ (List.pairwise_lt_range' 1)
  · exact pairwise_picked c
  · intro i
    rw [List.mem_filter, List.mem_range'_1, decide_eq_true_iff, List.mem_flatMap]
    constructor
    · rintro ⟨⟨hlow, hhigh⟩, d, hd, hi⟩
      obtain ⟨hlow', hhigh'⟩ := mem_picked hsize (List.mem_range.mp hd) hi
      rwa [chunk_eq hlow hhigh hlow' hhigh']
    · intro hi
      exact ⟨mem_picked hsize hc hi, c, List.mem_range.mpr hc, hi⟩

end Chunks

/-! ### Decoding a selection -/

/-- The decoded images of some frames. -/
def framesOf (jpeg : Nat → Bytes) (indices : List Nat) : List DecodedJpegFrame :=
  indices.map fun i ↦ ⟨i, jpeg i⟩

theorem zipWith_numbered (jpeg : Nat → Bytes) (indices : List Nat) (n : Nat) :
    (numbered n (indices.map jpeg)).zipWith (fun frame idx ↦ { frame with frameIndex := idx })
      indices = framesOf jpeg indices := by
  induction indices generalizing n with
  | nil => rfl
  | cons i indices ih => exact congrArg (_ :: ·) (ih (n + 1))

theorem length_numbered (n : Nat) (images : List Bytes) :
    (numbered n images).length = images.length := by
  induction images generalizing n with
  | nil => rfl
  | cons image images ih => exact congrArg (· + 1) (ih (n + 1))

/-- Images that are emitted for ascending numbers get these numbers. -/
theorem decodeSelectiveJpegFrames_eq {jpeg : Nat → Bytes} {indices : List Nat}
    (hsorted : indices.Pairwise (· < ·)) (himages : ∀ i ∈ indices, IsJpeg (jpeg i)) :
    decodeSelectiveJpegFrames (.ok ()) (fun sorted ↦ .ok (sorted.map jpeg).flatten) indices =
      .ok (framesOf jpeg indices) := by
  unfold decodeSelectiveJpegFrames
  split
  · next hnil =>
    subst hnil
    rfl
  · next hsome =>
    have hsort : (indices.mergeSort fun a b ↦ a ≤ b) = indices := by
      apply List.mergeSort_of_pairwise
      exact hsorted.imp fun h ↦ decide_eq_true (Nat.le_of_lt h)
    have hdedup : indices.destutter (· ≠ ·) = indices :=
      List.destutter_of_isChain _ _ (hsorted.imp Nat.ne_of_lt).isChain
    have hparsed : parseJpegStreamToFrames (indices.map jpeg).flatten indices.length =
        .ok (numbered 0 (indices.map jpeg)) := by
      have hall : ∀ image ∈ indices.map jpeg, IsJpeg image := by
        intro image himage
        obtain ⟨i, hi, rfl⟩ := List.mem_map.mp himage
        exact himages i hi
      have hne : numbered 0 (indices.map jpeg) ≠ [] := by
        intro hnone
        have := length_numbered 0 (indices.map jpeg)
        rw [hnone, List.length_map] at this
        exact hsome (List.length_eq_zero_iff.mp this.symm)
      rw [parseJpegStreamToFrames, parseLoop_flatten hall [] (by simp), foundFrames]
      exact if_neg hne
    simp only [bind, Except.bind, hsort, hdedup, hparsed]
    rw [length_numbered, List.length_map, Nat.min_self, List.take_of_length_le
      (by rw [length_numbered, List.length_map]), zipWith_numbered]
    rfl

/-- What the lookup has is what was decoded. -/
theorem getElem?_lookupOf {jpeg : Nat → Bytes} {indices : List Nat}
    (hsorted : indices.Pairwise (· < ·)) (i : Nat) :
    (lookupOf (framesOf jpeg indices))[i]? = if i ∈ indices then some ⟨i, jpeg i⟩ else none := by
  unfold lookupOf framesOf
  rw [List.map_map]
  split
  · next hi =>
    apply Std.HashMap.getElem?_ofList_of_mem (k := i) (beq_self_eq_true i)
    · apply List.pairwise_map.mpr
      exact hsorted.imp fun h ↦ beq_false_of_ne (Nat.ne_of_lt h)
    · exact List.mem_map.mpr ⟨i, hi, rfl⟩
  · next hi =>
    apply Std.HashMap.getElem?_ofList_of_contains_eq_false
    rw [List.map_map, List.contains_eq_mem]
    simpa using hi

/-- The frames of a chunk are those of the picked numbers. -/
theorem chunkJpegs_lookupOf {jpeg : Nat → Bytes} {indices : List Nat}
    (hsorted : indices.Pairwise (· < ·)) (first last : Nat) :
    chunkJpegs (lookupOf (framesOf jpeg indices)) (first, last) =
      framesOf jpeg ((List.range' first (last - first)).filter (· ∈ indices)) := by
  have hframes : (List.range' first (last - first)).filterMap
      ((lookupOf (framesOf jpeg indices))[·]?) =
        framesOf jpeg ((List.range' first (last - first)).filter (· ∈ indices)) := by
    conv => rhs; rw [framesOf, ← List.filterMap_eq_map, List.filterMap_filter]
    apply List.filterMap_congr
    intro i _
    simp only [getElem?_lookupOf hsorted i, decide_eq_true_eq, Function.comp_apply]
  unfold chunkJpegs
  rw [hframes]
  apply List.mergeSort_of_pairwise
  apply List.pairwise_map.mpr
  have hrange : ((List.range' first (last - first)).filter (· ∈ indices)).Pairwise (· < ·) :=
    List.Pairwise.filter _ (List.pairwise_lt_range' 1)
  exact hrange.imp fun h ↦ decide_eq_true (Nat.le_of_lt h)

/-- The frames that are selected from the decoded ones of a chunk are those that are selected when
all frames of the chunk are decoded. The numbers of the decoded frames are ascending, without
repetition, and those of frames. -/
theorem selective_decode_exact (jpeg : Nat → Bytes) (totalFrames chunkSize framesPerChunk : Nat)
    (hchunk : 1 ≤ chunkSize) (hframes : 1 ≤ framesPerChunk)
    (himages : ∀ i ∈ computeSemanticFrameIndices totalFrames chunkSize framesPerChunk,
      IsJpeg (jpeg i)) :
    let indices := computeSemanticFrameIndices totalFrames chunkSize framesPerChunk
    indices.Pairwise (· < ·) ∧ (∀ i ∈ indices, i < totalFrames) ∧
      ∃ jpegs, decodeSelectiveJpegFrames (.ok ()) (fun sorted ↦ .ok (sorted.map jpeg).flatten)
          indices = .ok jpegs ∧
        ∀ range ∈ chunkRanges totalFrames chunkSize,
          selectSemanticImages (chunkJpegs (lookupOf jpegs) range) framesPerChunk =
            selectSemanticImages (framesOf jpeg (List.range' range.1 (range.2 - range.1)))
              framesPerChunk := by
  intro indices
  have hindices : indices = (List.range (divCeil totalFrames chunkSize)).flatMap
      (picked totalFrames chunkSize framesPerChunk) :=
    computeSemanticFrameIndices_eq hchunk hframes
  have hsorted : indices.Pairwise (· < ·) := by
    rw [hindices]
    exact pairwise_flatMap_picked hchunk
  refine ⟨hsorted, fun i hi ↦ ?_, framesOf jpeg indices,
    decodeSelectiveJpegFrames_eq hsorted himages, ?_⟩
  · rw [hindices] at hi
    obtain ⟨c, hc, hi⟩ := List.mem_flatMap.mp hi
    have hc := List.mem_range.mp hc
    have := mem_picked hchunk hc hi
    have := chunkStart_lt hchunk hc
    unfold chunkLen at *
    omega
  · intro range hrange
    obtain ⟨c, hc, rfl⟩ := List.mem_map.mp hrange
    have hc := List.mem_range.mp hc
    have hpicked := filter_chunk (k := framesPerChunk) hchunk hframes hc
    have hlength : (framesOf jpeg (List.range' (chunkStart chunkSize c)
        (chunkLen totalFrames chunkSize c))).length = chunkLen totalFrames chunkSize c := by
      rw [framesOf, List.length_map, List.length_range']
    rw [chunkJpegs_lookupOf hsorted]
    show selectSemanticImages (framesOf jpeg ((List.range' (chunkStart chunkSize c)
      (chunkLen totalFrames chunkSize c)).filter (· ∈ indices))) framesPerChunk =
        selectSemanticImages (framesOf jpeg (List.range' (chunkStart chunkSize c)
          (chunkLen totalFrames chunkSize c))) framesPerChunk
    have hshort : (framesOf jpeg (picked totalFrames chunkSize framesPerChunk c)).length ≤
        framesPerChunk := by
      rw [framesOf, List.length_map, picked, List.length_map]
      exact length_picks_le hframes
    rw [hpicked, selectSemanticImages_short hshort, selectSemanticImages_full hframes, hlength]
    unfold framesOf picked
    rw [List.map_map, ← List.filterMap_eq_map]
    apply List.filterMap_congr
    intro offset hoffset
    have hlt := lt_of_mem_picks (chunkLen_pos hchunk hc) hoffset
    simp [hlt]

/-- Five frames in chunks of three, where two are looked at. -/
theorem selective_decode_exact_five :
    let jpeg : Nat → Bytes := fun i ↦ [0xFF, 0xD8, UInt8.ofNat i, 0xFF, 0xD9]
    let indices := computeSemanticFrameIndices 5 3 2
    indices.Pairwise (· < ·) ∧ (∀ i ∈ indices, i < 5) ∧
      ∃ jpegs, decodeSelectiveJpegFrames (.ok ()) (fun sorted ↦ .ok (sorted.map jpeg).flatten)
          indices = .ok jpegs ∧
        ∀ range ∈ chunkRanges 5 3,
          selectSemanticImages (chunkJpegs (lookupOf jpegs) range) 2 =
            selectSemanticImages (framesOf jpeg (List.range' range.1 (range.2 - range.1))) 2 := by
  apply selective_decode_exact (fun i ↦ [0xFF, 0xD8, UInt8.ofNat i, 0xFF, 0xD9]) 5 3 2
  · decide
  · decide
  · intro i _
    constructor
    · exact ⟨[UInt8.ofNat i, 0xFF, 0xD9], rfl⟩
    · exact ⟨[0xFF, 0xD8, UInt8.ofNat i], rfl⟩
    · intro j hj
      match j with
      | 0 => simp
      | 1 => simp
      | 2 => simp
      | j + 3 =>
        rw [List.length_cons] at hj
        simp at hj
        omega

end Vidarax.Ingest
