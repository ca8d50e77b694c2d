import Mathlib.Data.List.Chain
import Vidarax.Audio.Ogg

/-!
# What the Ogg stream holds

Package `vidarax-api`, `live_audio.rs:438–533`. Read by the grammar of Ogg pages, the stream holds the
head and the frames, a packet on each page, with granule positions that increase. Page numbers go on
as long as there are any: the last one repeats.
-/

namespace Vidarax.Audio

open Base

/-! ### What is said about a stream -/

/-- How far timestamps lie from those before them, modulo `2 ^ 32`. -/
def gaps (frames : List LiveAudioFrame) : List UInt32 :=
  frames.zipWith (fun frame next ↦ next.rtpTimestamp - frame.rtpTimestamp) frames.tail

/-- The audio comes in frames of a fit size, at timestamps that strictly increase modulo `2 ^ 32` and
do not come around. -/
structure Framable (frames : List LiveAudioFrame) : Prop where
  nonempty : frames ≠ []
  sizes : ∀ frame ∈ frames, 1 ≤ frame.data.length ∧ frame.data.length ≤ 65024
  increasing : ∀ gap ∈ gaps frames, 0 < gap.toNat
  span : ((gaps frames).map UInt32.toNat).sum < 2 ^ 32

/-- A stream holds the head and the frames, one packet on each page. -/
structure Framed (frames : List LiveAudioFrame) (output : Bytes) (pages : List OggPage) : Prop where
  parsed : parsePages output = some pages
  packets : joinSegments [] (pages.flatMap OggPage.segments) =
    (opusHead :: opusTags :: frames.map LiveAudioFrame.data, [])
  onePacket : pages.map (fun page ↦ joinSegments [] page.segments) =
    (opusHead :: opusTags :: frames.map LiveAudioFrame.data).map fun packet ↦ ([packet], [])
  sequence : pages.map OggPage.sequence = List.range pages.length
  serial : ∃ serial, ∀ page ∈ pages, page.serial = serial
  checksum : ∀ page ∈ pages,
    page.checksum = (checksum oggPolynomial (withoutChecksum page.raw)).toNat
  firstPage : ∀ i page, pages[i]? = some page → (page.isFirst = true ↔ i = 0)
  lastPage : ∀ i page, pages[i]? = some page → (page.isLast = true ↔ i + 1 = pages.length)
  granules : ((pages.drop 2).map OggPage.granule).Pairwise (· < ·)

/-! ### The pages that are built -/

variable {frames : List LiveAudioFrame} {first : LiveAudioFrame} {output : Bytes}

/-- A page is put at the end of a stream. -/
theorem appendOggPage_eq (output packet : Bytes) (h : packet.length ≤ 65024)
    (granule : UInt64) (serial sequence : UInt32) (flags : UInt8) :
    appendOggPage output packet granule serial sequence flags = .ok (output ++
      PacketPage.bytes crcValue ⟨packet, granule.toNat, serial.toNat, sequence.toNat, flags⟩) := by
  unfold appendOggPage
  dsimp only
  rw [if_neg (by omega)]
  have hfront := PacketPage.length_front
    ⟨packet, granule.toNat, serial.toNat, sequence.toNat, flags⟩
  have hbytes : output ++ oggCapture ++ [0] ++ [flags] ++ leBytes 8 granule.toNat ++
      leBytes 4 serial.toNat ++ leBytes 4 sequence.toNat ++ leBytes 4 0 ++
      [UInt8.ofNat (packet.length / 255 + 1)] ++ List.replicate (packet.length / 255) 255 ++
      [UInt8.ofNat (packet.length % 255)] ++ packet = output ++
      (PacketPage.front ⟨packet, granule.toNat, serial.toNat, sequence.toNat, flags⟩ ++
        ([0, 0, 0, 0] ++ PacketPage.back
          ⟨packet, granule.toNat, serial.toNat, sequence.toNat, flags⟩)) := by
    have hzero : leBytes 4 0 = [0, 0, 0, 0] := rfl
    rw [PacketPage.front, PacketPage.back, PacketPage.lacing, hzero]
    simp only [List.append_assoc, List.cons_append, List.nil_append]
  rw [hbytes, List.drop_left, List.take_length_add_append, List.drop_length_add_append,
    List.take_left' hfront, PacketPage.bytes]
  have hdrop : (PacketPage.front ⟨packet, granule.toNat, serial.toNat, sequence.toNat, flags⟩ ++
      ([0, 0, 0, 0] ++ PacketPage.back
        ⟨packet, granule.toNat, serial.toNat, sequence.toNat, flags⟩)).drop 26 =
      PacketPage.back ⟨packet, granule.toNat, serial.toNat, sequence.toNat, flags⟩ := by
    rw [← List.append_assoc, List.drop_left' (by rw [List.length_append, hfront]; rfl)]
  rw [hdrop]
  simp only [List.append_assoc]
  rfl

/-- The number of the page with an index. -/
def pageNumber (index : Nat) : Nat := min index (2 ^ 32 - 1)

theorem nextSequence_pageNumber (index : Nat) :
    nextSequence (UInt32.ofNat (pageNumber index)) = UInt32.ofNat (pageNumber (index + 1)) := by
  unfold nextSequence pageNumber
  rw [UInt32.toNat_ofNat']
  congr 1
  omega

/-- The page of a frame. -/
def dataPage (frames : List LiveAudioFrame) (first : LiveAudioFrame) (entry : LiveAudioFrame × Nat) :
    PacketPage :=
  ⟨entry.1.data, (granule frames first.rtpTimestamp entry.2 entry.1).toNat, serial.toNat,
    pageNumber (entry.2 + 2), if entry.2 + 1 = frames.length then 0x04 else 0⟩

/-- All pages of a stream. -/
def streamPages (frames : List LiveAudioFrame) (first : LiveAudioFrame) : List PacketPage :=
  ⟨opusHead, 0, serial.toNat, 0, 0x02⟩ :: ⟨opusTags, 0, serial.toNat, 1, 0⟩ ::
    frames.zipIdx.map (dataPage frames first)

/-- Frames are put at the end of a stream one after another. -/
theorem foldlM_appendFrame (frames : List LiveAudioFrame) (first : LiveAudioFrame)
    (rest : List LiveAudioFrame) (index : Nat) (output : Bytes)
    (hsizes : ∀ frame ∈ rest, 1 ≤ frame.data.length ∧ frame.data.length ≤ 65024) :
    (rest.zipIdx index).foldlM (appendFrame frames first.rtpTimestamp)
        (output, UInt32.ofNat (pageNumber (index + 2))) =
      .ok (output ++ ((rest.zipIdx index).map (dataPage frames first)).flatMap
        (PacketPage.bytes crcValue), UInt32.ofNat (pageNumber (index + rest.length + 2))) := by
  induction rest generalizing index output with
  | nil => simp; rfl
  | cons frame rest ih =>
    obtain ⟨hpos, hle⟩ := hsizes frame List.mem_cons_self
    have hne : frame.data ≠ [] := List.ne_nil_of_length_pos hpos
    have hnumber : (UInt32.ofNat (pageNumber (index + 2))).toNat = pageNumber (index + 2) := by
      rw [UInt32.toNat_ofNat', pageNumber]
      omega
    have happend := appendOggPage_eq output frame.data hle (granule frames first.rtpTimestamp index frame) serial
      (UInt32.ofNat (pageNumber (index + 2))) (if index + 1 = frames.length then 0x04 else 0)
    have hstep : appendFrame frames first.rtpTimestamp
        (output, UInt32.ofNat (pageNumber (index + 2))) (frame, index) =
        .ok (output ++ (dataPage frames first (frame, index)).bytes crcValue,
          UInt32.ofNat (pageNumber (index + 1 + 2))) := by
      rw [appendFrame]
      dsimp only
      rw [if_neg hne, happend, ok_bind, nextSequence_pageNumber, hnumber]
      rfl
    rw [List.zipIdx_cons, List.foldlM_cons, hstep, ok_bind,
      ih (index + 1) _ fun frame hframe ↦ hsizes frame (List.mem_cons_of_mem _ hframe), List.map_cons,
      List.flatMap_cons, List.append_assoc, List.length_cons]
    congr 4
    omega

/-- The stream that is built. -/
theorem buildOggOpus_eq (h : Framable frames) (hfirst : frames.head? = some first) :
    buildOggOpus frames = .ok ((streamPages frames first).flatMap (PacketPage.bytes crcValue)) := by
  have hhead := appendOggPage_eq [] opusHead (by decide) 0 serial 0 0x02
  have htags := appendOggPage_eq (PacketPage.bytes crcValue ⟨opusHead, 0, serial.toNat, 0, 0x02⟩)
    opusTags (by decide) 0 serial (nextSequence 0) 0
  have hloop := foldlM_appendFrame frames first frames 0
    (PacketPage.bytes crcValue ⟨opusHead, 0, serial.toNat, 0, 0x02⟩ ++
      PacketPage.bytes crcValue ⟨opusTags, 0, serial.toNat, 1, 0⟩) h.sizes
  unfold buildOggOpus
  dsimp only
  rw [hhead, ok_bind]
  refine (congrArg (fun x : Except OggFailure Bytes ↦ x >>= _) htags).trans ?_
  rw [ok_bind, hfirst]
  dsimp only
  refine (congrArg (fun x : Except OggFailure (Bytes × UInt32) ↦ x >>= _) hloop).trans ?_
  rw [ok_bind, streamPages, List.flatMap_cons, List.flatMap_cons, List.append_assoc]

/-! ### Granule positions -/

/-- What lies between the first frame and another one. -/
def elapsed (frames : List LiveAudioFrame) (index : Nat) : Nat :=
  (((gaps frames).take index).map UInt32.toNat).sum

theorem elapsed_lt (h : Framable frames) (index : Nat) : elapsed frames index < 2 ^ 32 := by
  refine Nat.lt_of_le_of_lt ?_ h.span
  conv_rhs => rw [← List.take_append_drop index (gaps frames), List.map_append, List.sum_append_nat]
  exact Nat.le_add_right _ _

/-- A gap between two frames. -/
theorem elapsed_succ {index : Nat} {frame next : LiveAudioFrame} (hframe : frames[index]? = some frame)
    (hnext : frames[index + 1]? = some next) :
    next.rtpTimestamp - frame.rtpTimestamp ∈ gaps frames ∧
      elapsed frames (index + 1) =
        elapsed frames index + (next.rtpTimestamp - frame.rtpTimestamp).toNat := by
  have hgap : (gaps frames)[index]? = some (next.rtpTimestamp - frame.rtpTimestamp) := by
    rw [gaps, List.getElem?_zipWith, hframe, List.getElem?_tail, hnext]
  refine ⟨List.mem_of_getElem? hgap, ?_⟩
  rw [elapsed, List.take_add_one, hgap, List.map_append, List.sum_append_nat]
  rfl

/-- Timestamps modulo `2 ^ 32` tell how far a frame lies from the first one. -/
theorem toNat_timestamp_sub (h : Framable frames) (hfirst : frames.head? = some first) {index : Nat}
    {frame : LiveAudioFrame} (hframe : frames[index]? = some frame) :
    (frame.rtpTimestamp - first.rtpTimestamp).toNat = elapsed frames index := by
  induction index generalizing frame with
  | zero =>
    rw [List.head?_eq_getElem?, hframe] at hfirst
    cases hfirst
    rw [UInt32.sub_self]
    rfl
  | succ index ih =>
    cases hprevious : frames[index]? with
    | none =>
      rw [List.getElem?_eq_none_iff] at hprevious
      rw [List.getElem?_eq_none (by omega)] at hframe
      cases hframe
    | some previous =>
      obtain ⟨-, hsucc⟩ := elapsed_succ hprevious hframe
      have hlt := elapsed_lt h (index + 1)
      have hsum : frame.rtpTimestamp - first.rtpTimestamp =
          (previous.rtpTimestamp - first.rtpTimestamp) +
            (frame.rtpTimestamp - previous.rtpTimestamp) := by
        rw [UInt32.sub_eq_add_neg, UInt32.sub_eq_add_neg, UInt32.sub_eq_add_neg]
        rw [UInt32.add_comm previous.rtpTimestamp, UInt32.add_assoc,
          UInt32.add_comm frame.rtpTimestamp (-previous.rtpTimestamp), ← UInt32.add_assoc
          previous.rtpTimestamp, UInt32.add_right_neg, UInt32.zero_add, UInt32.add_comm]
      rw [hsum, UInt32.toNat_add, ih hprevious, hsucc, Nat.mod_eq_of_lt (by omega)]

/-- A duration is cut off at both ends. -/
theorem clampDuration_bounds (duration : UInt32) : 120 ≤ (clampDuration duration).toNat ∧
    (clampDuration duration).toNat ≤ 5760 ∧
      (clampDuration duration).toNat ≤ max 120 duration.toNat := by
  unfold clampDuration
  split
  · exact ⟨Nat.le_refl 120, by decide, Nat.le_max_left _ _⟩
  · next hlow =>
    have hlow := UInt32.le_iff_toNat_le.mp (UInt32.not_lt.mp hlow)
    split
    · next hhigh =>
      have hhigh := UInt32.lt_iff_toNat_lt.mp hhigh
      exact ⟨by decide, Nat.le_refl 5760, Nat.le_trans (Nat.le_of_lt hhigh) (Nat.le_max_right _ _)⟩
    · next hhigh =>
      have hhigh := UInt32.le_iff_toNat_le.mp (UInt32.not_lt.mp hhigh)
      exact ⟨hlow, hhigh, Nat.le_max_right _ _⟩

/-- The estimate for a frame is at most what comes until the next one, or the least estimate. -/
theorem nextDuration_le {index : Nat} {frame next : LiveAudioFrame}
    (hnext : frames[index + 1]? = some next) : (nextDuration frames index frame).toNat ≤
      max 120 (next.rtpTimestamp - frame.rtpTimestamp).toNat := by
  rw [nextDuration, hnext, Option.map_some, Option.some_or, Option.getD_some]
  exact (clampDuration_bounds _).2.2

theorem toNat_granule (h : Framable frames) (hfirst : frames.head? = some first) {index : Nat}
    {frame : LiveAudioFrame} (hframe : frames[index]? = some frame) :
    (granule frames first.rtpTimestamp index frame).toNat =
      312 + elapsed frames index + (nextDuration frames index frame).toNat := by
  have hlt := elapsed_lt h index
  have hle : (nextDuration frames index frame).toNat ≤ 5760 := (clampDuration_bounds _).2.1
  have helapsed := toNat_timestamp_sub h hfirst hframe
  unfold granule
  rw [toNat_satAdd, toNat_satAdd, UInt32.toNat_toUInt64, UInt32.toNat_toUInt64, helapsed]
  change min (min (312 + _) u64Max + _) u64Max = _
  unfold u64Max
  omega

/-- Granule positions increase from frame to frame. -/
theorem granule_lt (h : Framable frames) (hfirst : frames.head? = some first) {index : Nat}
    {frame next : LiveAudioFrame} (hframe : frames[index]? = some frame)
    (hnext : frames[index + 1]? = some next) :
    (granule frames first.rtpTimestamp index frame).toNat <
      (granule frames first.rtpTimestamp (index + 1) next).toNat := by
  obtain ⟨hmem, hsucc⟩ := elapsed_succ hframe hnext
  have hpos := h.increasing _ hmem
  have hle : (nextDuration frames index frame).toNat ≤ _ := nextDuration_le hnext
  have hleast : 120 ≤ (nextDuration frames (index + 1) next).toNat := (clampDuration_bounds _).1
  rw [toNat_granule h hfirst hframe, toNat_granule h hfirst hnext, hsucc]
  omega

/-! ### The stream -/

theorem fits_streamPages (h : Framable frames) (first : LiveAudioFrame) :
    ∀ page ∈ streamPages frames first, page.Fits := by
  intro page hpage
  have hserial : serial.toNat < 256 ^ 4 := by decide
  rcases List.mem_cons.mp hpage with rfl | hpage
  · exact ⟨by decide, by decide, hserial, by decide⟩
  rcases List.mem_cons.mp hpage with rfl | hpage
  · exact ⟨by decide, by decide, hserial, by decide⟩
  obtain ⟨⟨frame, index⟩, hentry, rfl⟩ := List.mem_map.mp hpage
  have hsize := (h.sizes frame (List.fst_mem_of_mem_zipIdx hentry)).2
  refine ⟨hsize, UInt64.toNat_lt _, hserial, ?_⟩
  change pageNumber (index + 2) < 2 ^ 32
  unfold pageNumber
  omega

theorem packets_streamPages (frames : List LiveAudioFrame) (first : LiveAudioFrame) :
    (streamPages frames first).map PacketPage.packet =
      opusHead :: opusTags :: frames.map LiveAudioFrame.data := by
  have hdata : (frames.zipIdx.map (dataPage frames first)).map PacketPage.packet =
      (frames.zipIdx.map Prod.fst).map LiveAudioFrame.data := by
    rw [List.map_map, List.map_map]
    rfl
  rw [streamPages, List.map_cons, List.map_cons, hdata, List.zipIdx_map_fst]

theorem sequence_streamPages (frames : List LiveAudioFrame) (first : LiveAudioFrame) :
    (streamPages frames first).map PacketPage.sequence =
      (List.range (frames.length + 2)).map pageNumber := by
  have hdata : (frames.zipIdx.map (dataPage frames first)).map PacketPage.sequence =
      (frames.zipIdx.map Prod.snd).map fun index ↦ pageNumber (index + 2) := by
    rw [List.map_map, List.map_map]
    rfl
  rw [streamPages, List.map_cons, List.map_cons, hdata, List.zipIdx_map_snd, List.range_succ_eq_map,
    List.range_succ_eq_map, List.range_eq_range']
  simp only [List.map_cons, List.map_map]
  rfl

theorem getElem?_streamPages (frames : List LiveAudioFrame) (first : LiveAudioFrame) (index : Nat) :
    (streamPages frames first)[index + 2]? =
      frames[index]?.map fun frame ↦ dataPage frames first (frame, index) := by
  change (frames.zipIdx.map (dataPage frames first))[index]? = _
  rw [List.getElem?_map, List.getElem?_zipIdx, Option.map_map]
  simp only [Nat.zero_add]
  rfl

theorem length_streamPages (frames : List LiveAudioFrame) (first : LiveAudioFrame) :
    (streamPages frames first).length = frames.length + 2 := by
  rw [streamPages, List.length_cons, List.length_cons, List.length_map, List.length_zipIdx]

theorem granules_streamPages (h : Framable frames) (hfirst : frames.head? = some first) :
    (((streamPages frames first).drop 2).map PacketPage.granule).Pairwise (· < ·) := by
  have hgranule (index : Nat) : (((streamPages frames first).drop 2).map PacketPage.granule)[index]? =
      frames[index]?.map fun frame ↦ (granule frames first.rtpTimestamp index frame).toNat := by
    rw [List.getElem?_map, List.getElem?_drop, Nat.add_comm, getElem?_streamPages, Option.map_map]
    rfl
  rw [← List.isChain_iff_pairwise, List.isChain_iff_getElem]
  intro index hindex
  have hnext := hgranule (index + 1)
  have hframe := hgranule index
  rw [List.getElem?_eq_getElem hindex] at hnext
  rw [List.getElem?_eq_getElem (Nat.lt_of_succ_lt hindex)] at hframe
  obtain ⟨next, hnext, hnextGranule⟩ := Option.map_eq_some_iff.mp hnext.symm
  obtain ⟨frame, hframe, hframeGranule⟩ := Option.map_eq_some_iff.mp hframe.symm
  rw [← hnextGranule, ← hframeGranule]
  exact granule_lt h hfirst hframe hnext

/-- The stream of at most `2 ^ 32 - 2` frames holds the head and the frames. -/
theorem buildOggOpus_framed (h : Framable frames) (hcount : frames.length ≤ 2 ^ 32 - 2) :
    ∃ output pages, buildOggOpus frames = .ok output ∧ Framed frames output pages := by
  cases hfirst : frames.head? with
  | none => exact absurd (List.head?_eq_none_iff.mp hfirst) h.nonempty
  | some first =>
    have hlength := length_streamPages frames first
    have hpos := List.length_pos_of_ne_nil h.nonempty
    refine ⟨_, (streamPages frames first).map (PacketPage.parsed crcValue), buildOggOpus_eq h hfirst, ?_⟩
    refine ⟨PacketPage.parsePages_flatMap crcValue_lt _ (fits_streamPages h first), ?_, ?_, ?_,
      ⟨serial.toNat, ?_⟩, ?_, ?_, ?_, ?_⟩
    · rw [joinSegments_parsed_pages, packets_streamPages]
    · rw [List.map_map, ← packets_streamPages frames first, List.map_map]
      exact List.map_congr_left fun page _ ↦ page.joinSegments_parsed
    · rw [List.map_map, List.length_map, hlength]
      refine (sequence_streamPages frames first).trans ?_
      refine (List.map_congr_left fun index hindex ↦ ?_).trans (List.map_id _)
      have hlt := List.mem_range.mp hindex
      exact Nat.min_eq_left (by omega)
    · intro page hpage
      obtain ⟨built, hbuilt, rfl⟩ := List.mem_map.mp hpage
      rcases List.mem_cons.mp hbuilt with rfl | hbuilt
      · rfl
      rcases List.mem_cons.mp hbuilt with rfl | hbuilt
      · rfl
      obtain ⟨entry, -, rfl⟩ := List.mem_map.mp hbuilt
      rfl
    · intro page hpage
      obtain ⟨page, -, rfl⟩ := List.mem_map.mp hpage
      have hraw : withoutChecksum (page.parsed crcValue).raw =
          page.front ++ [0, 0, 0, 0] ++ page.back := page.withoutChecksum_bytes
      rw [hraw, ← crcValue_eq]
      rfl
    · intro index page hpage
      rw [List.getElem?_map, Option.map_eq_some_iff] at hpage
      obtain ⟨page, hpage, rfl⟩ := hpage
      rcases index with - | - | index
      · cases hpage
        exact iff_of_true rfl rfl
      · cases hpage
        exact iff_of_false (by decide) (by decide)
      · rw [getElem?_streamPages, Option.map_eq_some_iff] at hpage
        obtain ⟨frame, -, rfl⟩ := hpage
        refine iff_of_false ?_ (Nat.succ_ne_zero _)
        unfold OggPage.isFirst PacketPage.parsed dataPage
        dsimp only
        split <;> decide
    · intro index page hpage
      rw [List.getElem?_map, Option.map_eq_some_iff] at hpage
      obtain ⟨page, hpage, rfl⟩ := hpage
      rw [List.length_map, hlength]
      rcases index with - | - | index
      · cases hpage
        exact iff_of_false (by decide) (by omega)
      · cases hpage
        exact iff_of_false (by decide) (by omega)
      · rw [getElem?_streamPages, Option.map_eq_some_iff] at hpage
        obtain ⟨frame, -, rfl⟩ := hpage
        unfold OggPage.isLast PacketPage.parsed dataPage
        dsimp only
        split
        · exact iff_of_true (by decide) (by omega)
        · exact iff_of_false (by decide) (by omega)
    · rw [← List.map_drop, List.map_map]
      exact granules_streamPages h hfirst

/-- A frame of three bytes. -/
def sampleOpusFrame (timestamp : UInt32) : LiveAudioFrame :=
  ⟨0, timestamp, OPUS_CLOCK_RATE, some 1, [0xF8, 0xFF, 0xFE]⟩

theorem buildOggOpus_framed_sample : ∃ output pages,
    buildOggOpus [sampleOpusFrame 0xFFFFFF00, sampleOpusFrame 704] = .ok output ∧
      Framed [sampleOpusFrame 0xFFFFFF00, sampleOpusFrame 704] output pages := by
  have hgaps : gaps [sampleOpusFrame 0xFFFFFF00, sampleOpusFrame 704] = [960] := rfl
  exact buildOggOpus_framed
    ⟨List.cons_ne_nil _ _, by decide, by rw [hgaps]; simp, by rw [hgaps]; simp⟩ (by decide)

/-- So many frames, each one tick after the one before it. -/
def everyTick (count : Nat) : List LiveAudioFrame :=
  (List.range count).map fun index ↦ sampleOpusFrame (UInt32.ofNat index)

theorem length_everyTick (count : Nat) : (everyTick count).length = count := by
  rw [everyTick, List.length_map, List.length_range]

theorem getElem?_everyTick {count index : Nat} (h : index < count) :
    (everyTick count)[index]? = some (sampleOpusFrame (UInt32.ofNat index)) := by
  rw [everyTick, List.getElem?_map, List.getElem?_range h, Option.map_some]

theorem gaps_everyTick (count : Nat) : gaps (everyTick count) = List.replicate (count - 1) 1 := by
  refine List.ext_getElem? fun index ↦ ?_
  rcases Nat.lt_or_ge index (count - 1) with hlt | hge
  · rw [gaps, List.getElem?_zipWith, List.getElem?_tail, getElem?_everyTick (by omega),
      getElem?_everyTick (by omega), List.getElem?_replicate_of_lt hlt]
    change some (UInt32.ofNat (index + 1) - UInt32.ofNat index) = some 1
    rw [UInt32.ofNat_add, UInt32.add_comm, UInt32.add_sub_cancel]
    rfl
  · rw [List.getElem?_eq_none, List.getElem?_eq_none]
    · rwa [List.length_replicate]
    · rw [gaps, List.length_zipWith, List.length_tail, length_everyTick]
      omega

theorem framable_everyTick {count : Nat} (hpos : 0 < count) (hle : count ≤ 2 ^ 32) :
    Framable (everyTick count) where
  nonempty h := by
    have hlength := length_everyTick count
    rw [h, List.length_nil] at hlength
    omega
  sizes frame hframe := by
    obtain ⟨index, -, rfl⟩ := List.mem_map.mp hframe
    exact ⟨(by decide : 1 ≤ 3), (by decide : 3 ≤ 65024)⟩
  increasing gap hgap := by
    rw [gaps_everyTick] at hgap
    rw [List.eq_of_mem_replicate hgap]
    decide
  span := by
    rw [gaps_everyTick, List.map_replicate, List.sum_replicate_nat]
    change (count - 1) * 1 < _
    omega

/-- The number of the last page repeats when there are too many frames. -/
theorem not_framed_everyTick {count : Nat} (hmany : 2 ^ 32 - 1 ≤ count) (hle : count ≤ 2 ^ 32)
    (output : Bytes) (pages : List OggPage) (hbuild : buildOggOpus (everyTick count) = .ok output) :
    ¬Framed (everyTick count) output pages := by
  intro hframed
  have hframable := framable_everyTick (by omega) hle
  cases hfirst : (everyTick count).head? with
  | none => exact absurd (List.head?_eq_none_iff.mp hfirst) hframable.nonempty
  | some first =>
    rw [buildOggOpus_eq hframable hfirst] at hbuild
    cases hbuild
    have hparsed := hframed.parsed
    rw [PacketPage.parsePages_flatMap crcValue_lt _ (fits_streamPages hframable first)] at hparsed
    cases hparsed
    have hsequence := hframed.sequence
    have hnumbers := sequence_streamPages (everyTick count) first
    rw [List.map_map, List.length_map, length_streamPages] at hsequence
    have hsame := hnumbers.symm.trans hsequence
    rw [length_everyTick] at hsame
    have hlast := congrArg (fun numbers : List Nat ↦ numbers[count + 1]?) hsame
    simp only [List.getElem?_map, List.getElem?_range (show count + 1 < count + 2 by omega),
      Option.map_some, Option.some.injEq] at hlast
    unfold pageNumber at hlast
    omega

/-- With a frame at each of `2 ^ 32 - 1` ticks the last two pages have one number. -/
theorem page_number_repeats : Framable (everyTick (2 ^ 32 - 1)) ∧ ¬∃ output pages,
    buildOggOpus (everyTick (2 ^ 32 - 1)) = .ok output ∧
      Framed (everyTick (2 ^ 32 - 1)) output pages := by
  refine ⟨framable_everyTick (by decide) (by decide), ?_⟩
  rintro ⟨output, pages, hbuild, hframed⟩
  exact not_framed_everyTick (Nat.le_refl _) (by decide) output pages hbuild hframed

end Vidarax.Audio
