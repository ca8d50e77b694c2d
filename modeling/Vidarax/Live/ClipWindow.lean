import Vidarax.Base.FloatArith
import Vidarax.Live.Clip

/-!
# Clips of an accumulator

Package `vidarax-core`, `crates/vidarax-core/src/webrtc/clip.rs:51–286,549–598`. Accepted frames are
buffered until they cover a window, and thinned out when there are too many of them. Frames that lie
apart stay so, and the first and the last one stay. The clock is read twice where a clip may be
emitted: once for the time that is kept, and once for the time that has passed.
-/

namespace Vidarax.Live

open Vidarax.Base

/-! ### Configurations -/

/-- `MAX_CLIP_TARGET_FPS`. -/
def MAX_CLIP_TARGET_FPS : UInt32 := 30

/-- `MAX_CLIP_LENGTH_SECONDS`. -/
def MAX_CLIP_LENGTH_SECONDS : Nat := 60

/-- `ClipConfig`; `clip.rs:86`. -/
structure ClipConfig where
  targetFps : UInt32
  clipLengthSeconds : F32
  delaySeconds : F32

/-- What a configuration is refused for, with the values that the message names. -/
inductive ClipConfigError where
  | targetFps (got : UInt32)
  | clipLengthSeconds (got : F32)
  | delaySeconds (got : F32)
  | tooFewFrames (fps : UInt32) (clipLengthSeconds : F32) (got : Nat)

namespace ClipConfig

/-- `ClipConfig::validate`. The product is cut off the same with and without `floor`;
`clip.rs:97`. -/
def validate (config : ClipConfig) : Except ClipConfigError Unit :=
  let minFrames := ((F32.ofInt config.targetFps.toNat).mul config.clipLengthSeconds).toU32
  if config.targetFps < 1 ∨ MAX_CLIP_TARGET_FPS < config.targetFps then
    .error (.targetFps config.targetFps)
  else if !config.clipLengthSeconds.isFinite ∨ config.clipLengthSeconds.lt ⟨0x3DCCCCCD⟩ ∨
      (F32.ofInt MAX_CLIP_LENGTH_SECONDS).lt config.clipLengthSeconds then
    .error (.clipLengthSeconds config.clipLengthSeconds)
  else if !config.delaySeconds.isFinite ∨ config.delaySeconds.lt .zero ∨
      (F32.ofInt 60).lt config.delaySeconds then
    .error (.delaySeconds config.delaySeconds)
  else if minFrames < 3 then
    .error (.tooFewFrames config.targetFps config.clipLengthSeconds minFrames)
  else .ok ()

/-- `window_ms`; `clip.rs:249`. -/
def windowMs (config : ClipConfig) : UInt64 := (config.clipLengthSeconds.mul (.ofInt 1000)).toU64

/-- `delay_ms`; `clip.rs:260`. -/
def delayMs (config : ClipConfig) : UInt64 := (config.delaySeconds.mul (.ofInt 1000)).toU64

/-- `1000 / target_fps`. -/
def intervalMs (config : ClipConfig) : Nat := 1000 / config.targetFps.toNat

end ClipConfig

/-! ### Pushing with two readings of the clock -/

/-- Nanoseconds of a millisecond. -/
def NANOS_PER_MILLI : Nat := 1000000

namespace ClipAccumulator

/-- An accumulator for a configuration. -/
def ofConfig (config : ClipConfig) : ClipAccumulator :=
  .new config.targetFps config.windowMs config.delayMs

/-- The delay has not passed at a reading of the clock, in nanoseconds. -/
def tooSoon (acc : ClipAccumulator) (reading : Nat) : Prop :=
  0 < acc.delayMs ∧ acc.lastEmit.any fun last ↦ (reading - last) / NANOS_PER_MILLI < acc.delayMs.toNat

instance (acc : ClipAccumulator) (reading : Nat) : Decidable (acc.tooSoon reading) :=
  inferInstanceAs (Decidable (_ ∧ _))

/-- The frame is buffered, thinned out if there are too many; `clip.rs:226`. -/
def buffered (acc : ClipAccumulator) (ptsMs : UInt64) (jpeg : Bytes) : ClipAccumulator :=
  let windowStartPts := acc.windowStartPts.getD ptsMs
  let buffer := acc.buffer ++ [⟨ptsMs, jpeg⟩]
  { acc with
    rateGate := acc.rateGate.commit ptsMs
    windowStartPts := some windowStartPts
    buffer := if buffer.length > maxClipFramesPerRequest then
      downsampleClipBuffer buffer windowStartPts acc.windowMs else buffer }

/-- The first frame goes; `clip.rs:266`. -/
def slid (acc : ClipAccumulator) : ClipAccumulator :=
  let buffer := acc.buffer.drop 1
  { acc with buffer := buffer, windowStartPts := buffer.head?.map ClipFrame.ptsMs }

/-- A clip is made of the buffer at a time; `clip.rs:272`. -/
def emit (acc : ClipAccumulator) (now : Nat) : ClipWork × ClipAccumulator :=
  let ptsStart := (acc.buffer.head?.map ClipFrame.ptsMs).getD 0
  (⟨acc.buffer, ptsStart, (acc.buffer.getLast?.map ClipFrame.ptsMs).getD ptsStart⟩,
    { acc with buffer := [], lastEmit := some now, windowStartPts := none })

/-- `ClipAccumulator::push`, where the clock reads `now` and then `later`; `clip.rs:225`. -/
def pushAt (acc : ClipAccumulator) (now later : Nat) (frame : StreamFrame) :
    Option ClipWork × ClipAccumulator :=
  if !acc.rateGate.shouldKeep frame.ptsMs then (none, acc)
  else
    match usable frame.jpeg with
    | none => (none, acc)
    | some jpeg =>
      let acc := acc.buffered frame.ptsMs jpeg
      if satSub frame.ptsMs (acc.windowStartPts.getD frame.ptsMs) < acc.windowMs then (none, acc)
      else if acc.tooSoon later then (none, acc.slid)
      else
        let (work, acc) := acc.emit now
        (some work, acc)

/-- The emission kept in nanoseconds. -/
def scaled (acc : ClipAccumulator) : ClipAccumulator :=
  { acc with lastEmit := acc.lastEmit.map (· * NANOS_PER_MILLI) }

end ClipAccumulator

/-! ### Thinning out -/

variable {slots : List (Option ClipFrame)} {seen : List ClipFrame} {frame : ClipFrame}
  {windowStartPts windowMs : UInt64}

/-- A later frame does not come into an earlier slot. -/
theorem clipSlot_mono {a b : UInt64} (h : a ≤ b) :
    clipSlot a windowStartPts windowMs ≤ clipSlot b windowStartPts windowMs := by
  have hmin (x y : UInt64) : (min x y).toNat = min x.toNat y.toNat := by
    change (if x ≤ y then x else y).toNat = _
    split
    · next hle => exact (Nat.min_eq_left hle).symm
    · next hle => exact (Nat.min_eq_right (Nat.le_of_lt (Nat.lt_of_not_le hle))).symm
  unfold clipSlot
  dsimp only
  split
  · exact Nat.le_refl _
  · have helapsed : (min (satSub a windowStartPts) windowMs).toNat ≤
        (min (satSub b windowStartPts) windowMs).toNat := by
      have hle : a.toNat ≤ b.toNat := h
      rw [hmin, hmin, toNat_satSub, toNat_satSub]
      omega
    have hslot := Nat.div_le_div_right (c := windowMs.toNat)
      (Nat.add_le_add_right (Nat.mul_le_mul_right 63 helapsed) (windowMs.toNat / 2))
    omega

theorem clipSlot_pos (ptsMs windowStartPts windowMs : UInt64) :
    1 ≤ clipSlot ptsMs windowStartPts windowMs ∧ clipSlot ptsMs windowStartPts windowMs ≤ 62 := by
  unfold clipSlot maxClipFramesPerRequest
  dsimp only
  omega

/-- Frames in slots up to some one, in their order; the first one is in the first slot. -/
structure Placed (first : ClipFrame) (bound : Nat) (seen : List ClipFrame)
    (slots : List (Option ClipFrame)) : Prop where
  length_eq : slots.length = maxClipFramesPerRequest
  first : slots[0]? = some (some first)
  empty : ∀ x ∈ slots.drop (bound + 1), x = none
  sublist : (slots.filterMap id).Sublist seen

theorem filterMap_eq_nil_of_empty {xs : List (Option ClipFrame)} (h : ∀ x ∈ xs, x = none) :
    xs.filterMap id = [] :=
  List.filterMap_eq_nil_iff.mpr h

/-- A frame that is put behind the others. -/
theorem Placed.set {first : ClipFrame} {bound : Nat} (h : Placed first bound seen slots)
    (frame : ClipFrame) {slot : Nat} (hslot : bound ≤ slot) (hpos : 1 ≤ slot) (hlt : slot < maxClipFramesPerRequest) :
    Placed first slot (seen ++ [frame]) (slots.set slot (some frame)) ∧
      ((slots.set slot (some frame)).filterMap id).getLast? = some frame := by
  have hrest : ∀ x ∈ slots.drop (slot + 1), x = none := by
    intro x hx
    apply h.empty x
    rw [show slot + 1 = bound + 1 + (slot - bound) by omega, ← List.drop_drop] at hx
    exact List.mem_of_mem_drop hx
  have hframes : (slots.set slot (some frame)).filterMap id =
      (slots.take slot).filterMap id ++ [frame] := by
    rw [List.set_eq_take_append_cons_drop, if_pos (h.length_eq ▸ hlt), List.filterMap_append,
      List.filterMap_cons, filterMap_eq_nil_of_empty hrest]
    rfl
  refine ⟨⟨List.length_set.trans h.length_eq, ?_, ?_, ?_⟩, ?_⟩
  · rw [List.getElem?_set_ne (by omega)]
    exact h.first
  · rw [List.drop_set_of_lt (Nat.lt_succ_self slot)]
    exact hrest
  · rw [hframes]
    exact (((List.take_sublist slot slots).filterMap id).trans h.sublist).append (List.Sublist.refl _)
  · rw [hframes]
    exact List.getLast?_concat

/-- A frame that comes behind the others is put there, or the one in its slot stays. -/
theorem Placed.placeInSlot {first : ClipFrame} {bound : Nat} (h : Placed first bound seen slots)
    (hslot : bound ≤ clipSlot frame.ptsMs windowStartPts windowMs) :
    Placed first (clipSlot frame.ptsMs windowStartPts windowMs) (seen ++ [frame])
      (placeInSlot windowStartPts windowMs slots frame) := by
  obtain ⟨hpos, hle⟩ := clipSlot_pos frame.ptsMs windowStartPts windowMs
  have hset := (h.set frame hslot hpos (Nat.lt_of_le_of_lt hle (by decide))).1
  unfold Live.placeInSlot
  dsimp only
  split
  · split
    · refine ⟨h.length_eq, h.first, fun x hx ↦ h.empty x ?_,
        h.sublist.trans (List.sublist_append_left _ _)⟩
      rw [show clipSlot frame.ptsMs windowStartPts windowMs + 1 =
        bound + 1 + (clipSlot frame.ptsMs windowStartPts windowMs - bound) by omega,
        ← List.drop_drop] at hx
      exact List.mem_of_mem_drop hx
    · exact hset
  · exact hset

/-- Frames in the order of their times are put in this order. -/
theorem Placed.foldl (windowStartPts windowMs : UInt64) {first : ClipFrame} {bound : Nat}
    (h : Placed first bound seen slots) (hle : bound ≤ 62) (frames : List ClipFrame)
    (hsorted : frames.Pairwise fun a b ↦ a.ptsMs ≤ b.ptsMs)
    (hbound : ∀ f ∈ frames, bound ≤ clipSlot f.ptsMs windowStartPts windowMs) :
    ∃ bound' ≤ 62, Placed first bound' (seen ++ frames)
      (frames.foldl (Live.placeInSlot windowStartPts windowMs) slots) := by
  induction frames generalizing bound seen slots with
  | nil => exact ⟨bound, hle, by rwa [List.append_nil]⟩
  | cons f frames ih =>
    obtain ⟨hf, hsorted⟩ := List.pairwise_cons.mp hsorted
    have hnext := h.placeInSlot (hbound f List.mem_cons_self)
    rw [List.append_cons]
    exact ih hnext (clipSlot_pos _ _ _).2 hsorted fun g hg ↦ clipSlot_mono (hf g hg)

/-- What the first slot holds comes first. -/
theorem Placed.head? {first : ClipFrame} {bound : Nat} (h : Placed first bound seen slots) :
    (slots.filterMap id).head? = some first := by
  have hfirst := h.first
  cases slots with
  | nil => cases hfirst
  | cons slot slots =>
    obtain rfl : slot = some first := Option.some.inj hfirst
    rfl

theorem placed_start (first : ClipFrame) :
    Placed first 0 [first] ((List.replicate maxClipFramesPerRequest none).set 0 (some first)) where
  length_eq := by rw [List.length_set, List.length_replicate]
  first := rfl
  empty x hx := by
    rw [List.drop_set_of_lt Nat.zero_lt_one] at hx
    exact List.eq_of_mem_replicate (List.mem_of_mem_drop hx)
  sublist := List.Sublist.refl [first]

/-- A buffer that is not too long stays. -/
theorem downsampleClipBuffer_of_le (buffer : List ClipFrame)
    (h : buffer.length ≤ maxClipFramesPerRequest) (windowStartPts windowMs : UInt64) :
    downsampleClipBuffer buffer windowStartPts windowMs = buffer := by
  cases buffer with
  | nil => rfl
  | cons first rest => exact if_pos h

/-- Thinned out, a buffer keeps its first and its last frame and the order of all, and is not too
long. -/
theorem downsampleClipBuffer_spec (buffer : List ClipFrame)
    (hsorted : buffer.Pairwise fun a b ↦ a.ptsMs ≤ b.ptsMs) (windowStartPts windowMs : UInt64) :
    (downsampleClipBuffer buffer windowStartPts windowMs).Sublist buffer ∧
      (downsampleClipBuffer buffer windowStartPts windowMs).length ≤ maxClipFramesPerRequest ∧
      (downsampleClipBuffer buffer windowStartPts windowMs).head? = buffer.head? ∧
      (downsampleClipBuffer buffer windowStartPts windowMs).getLast? = buffer.getLast? := by
  cases buffer with
  | nil => exact ⟨List.Sublist.refl _, Nat.zero_le _, rfl, rfl⟩
  | cons first rest =>
    unfold downsampleClipBuffer
    dsimp only
    split
    · next hle => exact ⟨List.Sublist.refl _, hle, rfl, rfl⟩
    · next hlong =>
      rcases List.eq_nil_or_concat rest with rfl | ⟨middle, last, rfl⟩
      · exact absurd (show 1 ≤ maxClipFramesPerRequest by decide) hlong
      · rw [List.concat_eq_append] at hsorted ⊢
        have hmiddle : middle.Pairwise fun a b ↦ a.ptsMs ≤ b.ptsMs :=
          (List.pairwise_append.mp (List.pairwise_cons.mp hsorted).2).1
        obtain ⟨bound, hbound, hplaced⟩ := (placed_start first).foldl windowStartPts windowMs
          (Nat.zero_le _) middle hmiddle fun _ _ ↦ Nat.zero_le _
        rw [List.dropLast_concat, List.getLast?_concat]
        obtain ⟨hlast, hgetLast⟩ := hplaced.set last
          (show bound ≤ maxClipFramesPerRequest - 1 from Nat.le_succ_of_le hbound)
          (by decide) (by decide)
        refine ⟨hlast.sublist, ?_, hlast.head?, ?_⟩
        · exact (List.length_filterMap_le _ _).trans hlast.length_eq.le
        · rw [hgetLast, ← List.cons_append, List.getLast?_concat]

end Vidarax.Live
