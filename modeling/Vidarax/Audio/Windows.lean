import Vidarax.Audio.TrackTime

/-!
# Where the windows of a track lie

Package `vidarax-api`, `live_audio.rs:38–107,127–162`. Windows hold disjoint runs of the frames of
their track, in order. Their time is measured from the first frame of their part of the track, with
the 32 bits of the timestamps.
-/

namespace Vidarax.Audio

open Base TrackAccumulator

/-- Ticks in milliseconds. -/
def toMs (ticks : Nat) (clockRate : UInt32) : Nat := ticks * 1000 / clockRate.toNat

theorem ticksMs_eq (ticks clockRate : UInt32) :
    ticksMs ticks clockRate = toMs ticks.toNat clockRate := by
  have hbound := ticks.toNat_lt
  rw [ticksMs, toMs, Nat.min_eq_left]
  unfold u64Max
  omega

/-- The window holds the frames of a track from a position on, which follow one another. -/
structure WindowAt (track : List LiveAudioFrame) (window : LiveAudioWindow) (start : Nat) :
    Prop where
  nonempty : window.frames ≠ []
  frames : window.frames <+: track.drop start
  follow : ∀ n, start ≤ n → n + 1 < start + window.frames.length → FollowedAt track n
  /-- What the source computes for the time of the window. -/
  time : ∃ first ∈ track[start]?, window.sourceStartMs =
    toMs ((advance track start - advance track (partStart track start)) % 2 ^ 32) first.clockRate

/-- The windows lie one after another before a limit, each at its position. -/
structure Placed (track : List LiveAudioFrame) (windows : List LiveAudioWindow) (limit : Nat)
    (placed : List (LiveAudioWindow × Nat)) : Prop where
  windows : placed.map (·.1) = windows
  windowAt : ∀ p ∈ placed, WindowAt track p.1 p.2
  ordered : placed.Pairwise fun p q ↦ p.2 + p.1.frames.length ≤ q.2
  bounded : ∀ p ∈ placed, p.2 + p.1.frames.length ≤ limit

/-- The accumulator holds the frames of the track from a position on. -/
structure Collected (track : List LiveAudioFrame) (start : Nat) (acc : TrackAccumulator) :
    Prop where
  frames : acc.frames = track.drop start
  start_le : start ≤ track.length
  last : ∃ last ∈ track[track.length - 1]?,
    acc.clockRate = last.clockRate ∧ acc.lastSequenceNumber = last.sequenceNumber
  anchor : ∃ first ∈ track[partStart track (track.length - 1)]?,
    acc.anchorTimestamp = first.rtpTimestamp
  window : ∀ first ∈ track[start]?, acc.windowStartTimestamp = first.rtpTimestamp
  part : partStart track (track.length - 1) ≤ start

/-- What holds of a track, its accumulator and its windows. -/
def TrackInv (track : List LiveAudioFrame) (windows : List LiveAudioWindow) :
    Option TrackAccumulator → Prop
  | none => track = [] ∧ windows = []
  | some acc => ∃ start placed, Collected track start acc ∧ Placed track windows start placed

variable {track more : List LiveAudioFrame} {window : LiveAudioWindow}
  {windows : List LiveAudioWindow} {placed : List (LiveAudioWindow × Nat)}
  {acc : TrackAccumulator} {frame : LiveAudioFrame} {start limit n : Nat}

/-! ### Windows -/

theorem WindowAt.lt (h : WindowAt track window start) : start < track.length := by
  obtain ⟨first, hfirst, -⟩ := h.time
  exact (List.getElem?_eq_some_iff.mp hfirst).1

theorem WindowAt.end_le (h : WindowAt track window start) :
    start + window.frames.length ≤ track.length := by
  have hlength := h.frames.length_le
  have hlt := h.lt
  rw [List.length_drop] at hlength
  omega

/-- A window keeps its place while the track grows. -/
theorem WindowAt.append (h : WindowAt track window start) (more : List LiveAudioFrame) :
    WindowAt (track ++ more) window start := by
  have hlt := h.lt
  refine ⟨h.nonempty, ?_, fun n hle hn ↦ ?_, ?_⟩
  · rw [List.drop_append_of_le_length hlt.le]
    exact h.frames.trans (List.prefix_append _ _)
  · exact (followedAt_append (hn.trans_le h.end_le)).mpr (h.follow n hle hn)
  · obtain ⟨first, hfirst, htime⟩ := h.time
    refine ⟨first, ?_, ?_⟩
    · rw [Option.mem_def, List.getElem?_append_left hlt]
      exact hfirst
    · rw [advance_append hlt, partStart_append hlt,
        advance_append ((partStart_le track start).trans_lt hlt)]
      exact htime

theorem Placed.append (h : Placed track windows limit placed) (more : List LiveAudioFrame) :
    Placed (track ++ more) windows limit placed :=
  ⟨h.windows, fun p hp ↦ (h.windowAt p hp).append more, h.ordered, h.bounded⟩

theorem Placed.mono (h : Placed track windows limit placed) {limit' : Nat} (hle : limit ≤ limit') :
    Placed track windows limit' placed :=
  ⟨h.windows, h.windowAt, h.ordered, fun p hp ↦ (h.bounded p hp).trans hle⟩

theorem Placed.concat (h : Placed track windows limit placed)
    (hwindow : WindowAt track window limit) :
    Placed track (windows ++ [window]) track.length (placed ++ [(window, limit)]) := by
  constructor
  · rw [List.map_append, h.windows]
    rfl
  · intro p hp
    rcases List.mem_append.mp hp with hp | hp
    · exact h.windowAt p hp
    · rw [List.mem_singleton.mp hp]
      exact hwindow
  · refine List.pairwise_append.mpr ⟨h.ordered, List.pairwise_singleton _ _, fun p hp q hq ↦ ?_⟩
    rw [List.mem_singleton.mp hq]
    exact h.bounded p hp
  · intro p hp
    rcases List.mem_append.mp hp with hp | hp
    · exact (h.windowAt p hp).end_le
    · rw [List.mem_singleton.mp hp]
      exact hwindow.end_le

/-! ### Accumulators -/

theorem Collected.ne_nil (h : Collected track start acc) : track ≠ [] := by
  rintro rfl
  obtain ⟨last, hlast, -⟩ := h.last
  exact absurd hlast (by simp)

/-- The accumulator accepts the frames that follow. -/
theorem Collected.accepts_iff (h : Collected track start acc) :
    acc.accepts frame ↔ FollowedAt (track ++ [frame]) (track.length - 1) := by
  obtain ⟨last, hlast, hrate, hsequence⟩ := h.last
  have hpos := List.length_pos_iff.mpr h.ne_nil
  have hnext : track.length - 1 + 1 = track.length := Nat.sub_add_cancel hpos
  have hfollowed : FollowedAt (track ++ [frame]) (track.length - 1) ↔ Follows last frame := by
    rw [FollowedAt, hnext, List.getElem?_concat_length,
      List.getElem?_append_left (Nat.sub_lt hpos Nat.one_pos)]
    rw [Option.mem_def] at hlast
    simp [hlast]
  rw [hfollowed, accepts, hrate, hsequence, Follows]
  cases last.sequenceNumber <;> cases frame.sequenceNumber <;> simp

/-- A frame that begins a part. -/
theorem collected_new (h : ∀ n, n + 1 = track.length → ¬ FollowedAt (track ++ [frame]) n) :
    Collected (track ++ [frame]) track.length (.new frame) := by
  have hlength : (track ++ [frame]).length - 1 = track.length := by simp
  have hpart : partStart (track ++ [frame]) track.length = track.length := by
    cases hn : track.length with
    | zero => rfl
    | succ n => rw [partStart_succ, if_neg (h n hn.symm)]
  constructor
  · rw [List.drop_left]
    rfl
  · simp
  · rw [hlength, List.getElem?_concat_length]
    exact ⟨frame, rfl, rfl, rfl⟩
  · rw [hlength, hpart, List.getElem?_concat_length]
    exact ⟨frame, rfl, rfl⟩
  · rw [List.getElem?_concat_length]
    intro first hfirst
    rw [← Option.mem_unique hfirst rfl]
    rfl
  · rw [hlength, hpart]

theorem Collected.push (h : Collected track start acc) (haccepts : acc.accepts frame) :
    Collected (track ++ [frame]) start (acc.push frame) := by
  have hpos := List.length_pos_iff.mpr h.ne_nil
  have hlength : (track ++ [frame]).length - 1 = track.length - 1 + 1 := by
    rw [List.length_append, List.length_singleton, Nat.add_sub_cancel, Nat.sub_add_cancel hpos]
  have hlt : track.length - 1 < track.length := Nat.sub_lt hpos Nat.one_pos
  have hpart : partStart (track ++ [frame]) ((track ++ [frame]).length - 1) =
      partStart track (track.length - 1) := by
    rw [hlength, partStart_succ, if_pos (h.accepts_iff.mp haccepts), partStart_append hlt]
  constructor
  · rw [List.drop_append_of_le_length h.start_le, ← h.frames]
    rfl
  · exact h.start_le.trans (by simp)
  · rw [hlength, Nat.sub_add_cancel hpos, List.getElem?_concat_length]
    have hrate : acc.clockRate = frame.clockRate := by
      rw [accepts, Bool.and_eq_true] at haccepts
      exact of_decide_eq_true haccepts.1
    exact ⟨frame, rfl, hrate, rfl⟩
  · obtain ⟨first, hfirst, hanchor⟩ := h.anchor
    rw [hpart, List.getElem?_append_left ((partStart_le _ _).trans_lt hlt)]
    exact ⟨first, hfirst, hanchor⟩
  · intro first hfirst
    rw [TrackAccumulator.push]
    dsimp only
    have hnil : acc.frames = [] ↔ track.length ≤ start := by
      rw [h.frames, List.drop_eq_nil_iff]
    split
    · next hempty =>
      obtain rfl := Nat.le_antisymm h.start_le (hnil.mp hempty)
      rw [List.getElem?_concat_length] at hfirst
      rw [Option.mem_unique hfirst rfl]
    · next hframes =>
      have hstart : start < track.length := Nat.lt_of_not_le (mt hnil.mpr hframes)
      rw [List.getElem?_append_left hstart] at hfirst
      exact h.window first hfirst
  · rw [hpart]
    exact h.part

theorem Collected.taken (h : Collected track start acc) :
    Collected track track.length acc.taken := by
  refine ⟨List.drop_length.symm, Nat.le_refl _, h.last, h.anchor, fun first hfirst ↦ ?_, ?_⟩
  · rw [List.getElem?_eq_none (Nat.le_refl _)] at hfirst
    exact absurd hfirst (Option.not_mem_none first)
  · exact (partStart_le _ _).trans (Nat.sub_le _ _)

/-- The window of an accumulator with frames. -/
theorem Collected.windowAt (h : Collected track start acc) (hframes : acc.frames ≠ []) :
    WindowAt track acc.window start := by
  have hlt : start < track.length := by
    rw [h.frames] at hframes
    exact Nat.lt_of_not_le (mt List.drop_eq_nil_iff.mpr hframes)
  have hle : start ≤ track.length - 1 := Nat.le_sub_one_of_lt hlt
  have hpart : partStart track start = partStart track (track.length - 1) :=
    partStart_eq h.part hle
  refine ⟨hframes, ?_, fun n hn hnext ↦ ?_, ?_⟩
  · exact h.frames ▸ List.prefix_rfl
  · refine followedAt_of_part (h.part.trans hn) ?_
    have hlength : acc.window.frames.length = track.length - start := by
      rw [← List.length_drop, ← h.frames]
      rfl
    omega
  · obtain ⟨last, hlast, hrate, -⟩ := h.last
    obtain ⟨anchor, hanchor, htimestamp⟩ := h.anchor
    have hfirst : track[start] ∈ track[start]? := List.getElem?_eq_getElem hlt
    refine ⟨track[start], hfirst, ?_⟩
    have hticks := toNat_sub_timestamp hanchor hfirst h.part
    have hclock := clockRate_eq h.part hle hfirst hlast
    change acc.sourceStartMs = _
    rw [sourceStartMs, ticksMs_eq, h.window _ hfirst, htimestamp, hticks, hpart, hclock, ← hrate]
    split
    · next hzero =>
      rw [hzero, toMs]
      exact (Nat.div_zero _).symm
    · rfl

/-- The accumulator hands over its window while the queue has room or has none. -/
theorem Placed.sent (h : Placed track windows start placed) (hcollected : Collected track start acc)
    (hframes : acc.frames ≠ []) (room : Bool) :
    ∃ placed', Placed track (windows ++ if room then [acc.window] else []) track.length
      placed' := by
  cases room with
  | false =>
    rw [if_neg Bool.false_ne_true, List.append_nil]
    exact ⟨placed, h.mono hcollected.start_le⟩
  | true => exact ⟨_, h.concat (hcollected.windowAt hframes)⟩

end Vidarax.Audio
