import Vidarax.Audio.Windows

/-!
# The time of live audio windows

Package `vidarax-api`, `live_audio.rs:24–162`, and `audio.md:181`. The windows of every track lie
in order on it, whatever the other tracks do and whatever windows the queue refuses. Their times are
measured anew after each gap and wrap with the timestamps, so that they are the times of the track
exactly as long as this loses no whole millisecond.
-/

namespace Vidarax.Audio

open Base TrackAccumulator

namespace Aggregation

variable {windowMs : Nat} {s s' : Aggregation} {inputs : List Input} {trackId : UInt64}
  {acc : TrackAccumulator} {frame : LiveAudioFrame}

/-! ### Effects on the tracks -/

theorem windowsOf_trySend (s : Aggregation) (window : LiveAudioWindow) (room : Bool) :
    (s.trySend window room).windowsOf window.trackId =
      s.windowsOf window.trackId ++ if room then [window] else [] := by
  rw [trySend]
  split
  · rw [windowsOf, List.filter_append, ← windowsOf, List.filter_cons,
      if_pos (decide_eq_true rfl), List.filter_nil]
  · rw [List.append_nil]
    rfl

theorem windowsOf_trySend_ne {window : LiveAudioWindow} (h : window.trackId ≠ trackId)
    (room : Bool) : (s.trySend window room).windowsOf trackId = s.windowsOf trackId := by
  rw [trySend]
  split
  · rw [windowsOf, List.filter_append, List.filter_cons, if_neg (by simpa using h),
      List.filter_nil, List.append_nil, windowsOf]
  · rfl

theorem tracks_trySend (s : Aggregation) (window : LiveAudioWindow) (room : Bool) :
    (s.trySend window room).tracks = s.tracks := by
  rw [trySend]
  split
  · rfl
  · rfl

/-- One track has a new accumulator and more windows, the others are unchanged. -/
structure Effect (s s' : Aggregation) (trackId : UInt64) (acc : TrackAccumulator)
    (windows : List LiveAudioWindow) : Prop where
  acc : s'.tracks[trackId]? = some acc
  windows : s'.windowsOf trackId = s.windowsOf trackId ++ windows
  others : ∀ other ≠ trackId,
    s'.tracks[other]? = s.tracks[other]? ∧ s'.windowsOf other = s.windowsOf other

theorem effect_insert (s : Aggregation) (trackId : UInt64) (acc : TrackAccumulator) :
    Effect s (s.insert trackId acc) trackId acc [] :=
  ⟨Std.ExtTreeMap.getElem?_insert_self, (List.append_nil _).symm,
    fun _ hne ↦ ⟨Table.get?_insert_ne s.tracks acc hne, rfl⟩⟩

theorem effect_trySend {window : LiveAudioWindow} (h : window.trackId = trackId) (room : Bool)
    (acc : TrackAccumulator) :
    Effect s ((s.trySend window room).insert trackId acc) trackId acc
      (if room then [window] else []) := by
  subst h
  refine ⟨Std.ExtTreeMap.getElem?_insert_self, windowsOf_trySend s window room,
    fun other hne ↦ ⟨?_, windowsOf_trySend_ne hne.symm room⟩⟩
  rw [← tracks_trySend s window room]
  exact Table.get?_insert_ne _ acc hne

/-! ### The invariant -/

theorem framesOf_concat (trackId : UInt64) (inputs : List Input) (input : Input) :
    framesOf trackId (inputs ++ [input]) = framesOf trackId inputs ++ framesOf trackId [input] :=
  List.filterMap_append ..

theorem trackId_of_mem_framesOf (h : frame ∈ framesOf trackId inputs) :
    frame.trackId = trackId ∧ frame.clockRate ≠ 0 := by
  obtain ⟨input, -, hinput⟩ := List.mem_filterMap.mp h
  cases input with
  | frame frame' room =>
    dsimp only at hinput
    split at hinput
    · next hkept =>
      obtain rfl := Option.some.inj hinput
      exact ⟨hkept.1, hkept.2.1⟩
    · exact absurd hinput (Option.some_ne_none _).symm
  | ended => exact absurd hinput (Option.some_ne_none _).symm

/-- What holds of all tracks after some inputs. -/
def Inv (inputs : List Input) (s : Aggregation) : Prop :=
  ∀ trackId, TrackInv (framesOf trackId inputs) (s.windowsOf trackId) s.tracks[trackId]?

theorem trackId_window {start : Nat} (h : Collected (framesOf trackId inputs) start acc)
    (hframes : acc.frames ≠ []) : acc.window.trackId = trackId := by
  obtain ⟨first, rest, hsplit⟩ := List.exists_cons_of_ne_nil hframes
  have hmem : first ∈ framesOf trackId inputs :=
    List.mem_of_mem_drop (h.frames ▸ hsplit ▸ List.mem_cons_self)
  rw [window, hsplit]
  exact (trackId_of_mem_framesOf hmem).1

theorem Inv.effect (h : Inv inputs s) {more : List Input} {windows : List LiveAudioWindow}
    (heffect : Effect s s' trackId acc windows)
    (hmore : ∀ other ≠ trackId, framesOf other more = framesOf other inputs)
    (htrack : TrackInv (framesOf trackId more) (s.windowsOf trackId ++ windows) (some acc)) :
    Inv more s' := by
  intro other
  by_cases hother : other = trackId
  · subst hother
    rw [heffect.acc, heffect.windows]
    exact htrack
  · rw [(heffect.others other hother).1, (heffect.others other hother).2, hmore other hother]
    exact h other

/-- Another frame arrives. -/
theorem Inv.receive (h : Inv inputs s) (frame : LiveAudioFrame) (room : Bool) :
    Inv (inputs ++ [.frame frame room]) (s.receive windowMs frame room) := by
  rw [Aggregation.receive]
  split
  · next hdropped =>
    intro other
    have hnone : framesOf other [.frame frame room] = [] := by
      rw [framesOf, List.filterMap_cons_none, List.filterMap_nil]
      exact if_neg fun hkept ↦ hdropped.elim hkept.2.1 hkept.2.2
    rw [framesOf_concat, hnone, List.append_nil]
    exact h other
  next hkept =>
  obtain ⟨hrate, hdata⟩ := not_or.mp hkept
  have hown : framesOf frame.trackId (inputs ++ [.frame frame room]) =
      framesOf frame.trackId inputs ++ [frame] := by
    rw [framesOf_concat]
    exact congrArg _ (List.filterMap_cons_some (if_pos ⟨rfl, hrate, hdata⟩))
  have hothers : ∀ other ≠ frame.trackId,
      framesOf other (inputs ++ [.frame frame room]) = framesOf other inputs := by
    intro other hother
    rw [framesOf_concat]
    have hnone : framesOf other [.frame frame room] = [] := by
      rw [framesOf, List.filterMap_cons_none, List.filterMap_nil]
      exact if_neg fun hkept ↦ hother hkept.1.symm
    rw [hnone, List.append_nil]
  have htrack := h frame.trackId
  split
  · next hacc =>
    rw [hacc] at htrack
    refine h.effect (effect_insert s frame.trackId _) hothers ?_
    rw [hown, htrack.1, htrack.2]
    exact ⟨_, [], collected_new fun n hn ↦ absurd hn (Nat.succ_ne_zero n), rfl,
      fun _ hp ↦ absurd hp List.not_mem_nil, .nil, fun _ hp ↦ absurd hp List.not_mem_nil⟩
  next acc hacc =>
  rw [hacc] at htrack
  obtain ⟨start, placed, hcollected, hplaced⟩ := htrack
  split
  · next hrefused =>
    -- a gap: the frames before it may be handed over, and the next part begins
    have hnew : Collected (framesOf frame.trackId inputs ++ [frame])
        (framesOf frame.trackId inputs).length (.new frame) := by
      refine collected_new fun n hn hfollowed ↦ hrefused (hcollected.accepts_iff.mpr ?_)
      rwa [← hn, Nat.add_sub_cancel]
    dsimp only
    split
    · next hlong =>
      have hframes : acc.frames ≠ [] := by
        intro hnil
        rw [hnil] at hlong
        exact absurd hlong (by decide)
      obtain ⟨placed', hsent⟩ := hplaced.sent hcollected hframes room
      refine h.effect (effect_trySend (trackId_window hcollected hframes) room _) hothers ?_
      rw [hown]
      exact ⟨_, placed', hnew, hsent.append [frame]⟩
    · refine h.effect (effect_insert s frame.trackId _) hothers ?_
      rw [hown, List.append_nil]
      exact ⟨_, placed, hnew, (hplaced.mono hcollected.start_le).append [frame]⟩
  · next haccepted =>
    have hpush := hcollected.push (not_not.mp haccepted)
    have hframes : (acc.push frame).frames ≠ [] := List.concat_ne_nil frame acc.frames
    dsimp only
    split
    · obtain ⟨placed', hsent⟩ := (hplaced.append [frame]).sent hpush hframes room
      refine h.effect (effect_trySend (trackId_window (hown ▸ hpush) hframes) room _) hothers ?_
      rw [hown]
      exact ⟨_, placed', hpush.taken, hsent⟩
    · refine h.effect (effect_insert s frame.trackId _) hothers ?_
      rw [hown, List.append_nil]
      exact ⟨_, placed, hpush, hplaced.append [frame]⟩

theorem frames_ne_nil_of_durationMs (h : MIN_LIVE_AUDIO_WINDOW_MS ≤ acc.durationMs) :
    acc.frames ≠ [] := by
  intro hnil
  rw [durationMs, hnil] at h
  exact absurd (show MIN_LIVE_AUDIO_WINDOW_MS ≤ 0 from h) (Nat.not_le.mpr (by decide))

/-- The frames have ended. -/
theorem Inv.flush (h : Inv inputs s) (trackId : UInt64) (room : Bool) :
    Inv (inputs ++ [.ended trackId room]) (s.flush trackId room) := by
  have hsame (other : UInt64) : framesOf other (inputs ++ [.ended trackId room]) =
      framesOf other inputs := (framesOf_concat ..).trans (List.append_nil _)
  have hrest : Inv (inputs ++ [.ended trackId room]) s := fun other ↦ hsame other ▸ h other
  rw [Aggregation.flush]
  split
  · exact hrest
  next acc hacc =>
  split
  · next hlong =>
    have hframes := frames_ne_nil_of_durationMs hlong
    have htrack := hrest trackId
    rw [hacc] at htrack
    obtain ⟨start, placed, hcollected, hplaced⟩ := htrack
    obtain ⟨placed', hsent⟩ := hplaced.sent hcollected hframes room
    exact hrest.effect (effect_trySend (trackId_window hcollected hframes) room _) (fun _ _ ↦ rfl)
      ⟨_, placed', hcollected.taken, hsent⟩
  · exact hrest

theorem inv_run (windowMs : Nat) (inputs : List Input) : Inv inputs (run windowMs inputs) := by
  induction inputs using List.reverseRecOn with
  | nil => exact fun _ ↦ ⟨rfl, rfl⟩
  | append_singleton inputs input ih =>
    rw [run, List.foldl_append]
    cases input with
    | frame frame room => exact ih.receive frame room
    | ended trackId room => exact ih.flush trackId room

end Aggregation

/-! ### Times -/

/-- Windows lie one after another on the track, and the frames in each follow one another. -/
structure InOrder (track : List LiveAudioFrame) (windows : List LiveAudioWindow)
    (placed : List (LiveAudioWindow × Nat)) : Prop where
  windows : placed.map (·.1) = windows
  frames : ∀ p ∈ placed, p.1.frames ≠ [] ∧ p.1.frames <+: track.drop p.2
  follow : ∀ p ∈ placed, ∀ n, p.2 ≤ n → n + 1 < p.2 + p.1.frames.length → FollowedAt track n
  ordered : placed.Pairwise fun p q ↦ p.2 + p.1.frames.length ≤ q.2

/-- Every window has the time of its first frame since the first frame of the track, and times do
not decrease. -/
def TimeKept (track : List LiveAudioFrame) (clockRate : UInt32)
    (placed : List (LiveAudioWindow × Nat)) : Prop :=
  (∀ p ∈ placed, p.1.sourceStartMs = toMs (advance track p.2) clockRate) ∧
    placed.Pairwise fun p q ↦ p.1.sourceStartMs ≤ q.1.sourceStartMs

/-- Ticks before a frame that its timestamp does not tell: those before its part of the track, and
whole wraps of the 32 bits since then. -/
def lost (track : List LiveAudioFrame) (n : Nat) : Nat :=
  advance track n - (advance track n - advance track (partStart track n)) % 2 ^ 32

/-- What is lost before a frame is less than what the frame lies after a whole millisecond. -/
def NothingLost (track : List LiveAudioFrame) (clockRate : UInt32) (n : Nat) : Prop :=
  lost track n * 1000 ≤ advance track n * 1000 % clockRate.toNat

/-- The track has no gap and does not reach 2^32 ticks. -/
def Unbroken (track : List LiveAudioFrame) : Prop :=
  (∀ n, n + 1 < track.length → FollowedAt track n) ∧ advance track (track.length - 1) < 2 ^ 32

section Times

variable {track : List LiveAudioFrame} {windows : List LiveAudioWindow} {limit n : Nat}
  {placed : List (LiveAudioWindow × Nat)} {clockRate : UInt32}

theorem sub_div_eq_iff {a b m : Nat} (hm : 0 < m) (h : b ≤ a) :
    (a - b) / m = a / m ↔ b ≤ a % m := by
  have hsplit := Nat.div_add_mod a m
  have hmod := Nat.mod_lt a hm
  constructor
  · intro heq
    have hle := Nat.div_mul_le_self (a - b) m
    rw [heq, Nat.mul_comm] at hle
    omega
  · intro hle
    apply Nat.div_eq_of_lt_le
    · rw [Nat.mul_comm]
      omega
    · rw [Nat.succ_mul, Nat.mul_comm]
      omega

/-- The time of a window is the one since the first frame of the track exactly when nothing is
lost. -/
theorem WindowAt.time_iff {window : LiveAudioWindow} (h : WindowAt track window n)
    (hclock : ∀ frame ∈ track, frame.clockRate = clockRate) (hpos : 0 < clockRate.toNat) :
    window.sourceStartMs = toMs (advance track n) clockRate ↔ NothingLost track clockRate n := by
  obtain ⟨first, hfirst, htime⟩ := h.time
  have hmod := Nat.mod_le (advance track n - advance track (partStart track n)) (2 ^ 32)
  have hknown : (advance track n - advance track (partStart track n)) % 2 ^ 32 =
      advance track n - lost track n := by
    rw [lost]
    omega
  have hle : lost track n * 1000 ≤ advance track n * 1000 :=
    Nat.mul_le_mul_right 1000 (Nat.sub_le _ _)
  rw [htime, hclock first (List.mem_of_getElem? hfirst), hknown, toMs, toMs, Nat.sub_mul,
    sub_div_eq_iff hpos hle]
  rfl

/-- A track that is not broken loses nothing. -/
theorem Unbroken.nothingLost (h : Unbroken track) (hn : n < track.length) :
    NothingLost track clockRate n := by
  have hpart : partStart track n = 0 :=
    partStart_eq_zero fun k hk ↦ h.1 k (Nat.lt_of_le_of_lt hk hn)
  have hlt := (advance_mono track (Nat.le_sub_one_of_lt hn)).trans_lt h.2
  have hnone : lost track n = 0 := by
    rw [lost, hpart, advance, Nat.sub_zero, Nat.mod_eq_of_lt hlt, Nat.sub_self]
  rw [NothingLost, hnone, Nat.zero_mul]
  exact Nat.zero_le _

theorem Placed.inOrder (h : Placed track windows limit placed) : InOrder track windows placed :=
  ⟨h.windows, fun p hp ↦ ⟨(h.windowAt p hp).nonempty, (h.windowAt p hp).frames⟩,
    fun p hp ↦ (h.windowAt p hp).follow, h.ordered⟩

/-- Times are kept when they are right, since the track goes on. -/
theorem Placed.timeKept_iff (h : Placed track windows limit placed)
    (hclock : ∀ frame ∈ track, frame.clockRate = clockRate) (hpos : 0 < clockRate.toNat) :
    TimeKept track clockRate placed ↔ ∀ p ∈ placed, NothingLost track clockRate p.2 := by
  constructor
  · intro hkept p hp
    exact ((h.windowAt p hp).time_iff hclock hpos).mp (hkept.1 p hp)
  · intro hlost
    have htime (p) (hp : p ∈ placed) : p.1.sourceStartMs = toMs (advance track p.2) clockRate :=
      ((h.windowAt p hp).time_iff hclock hpos).mpr (hlost p hp)
    refine ⟨htime, h.ordered.imp_of_mem fun {p q} hp hq hle ↦ ?_⟩
    rw [htime p hp, htime q hq]
    have hmono := advance_mono track ((Nat.le_add_right _ _).trans hle)
    exact Nat.div_le_div_right (Nat.mul_le_mul_right 1000 hmono)

end Times

/-- The windows of a track lie in order on it, and they keep the time of the track exactly when
nothing is lost before their first frames, as in a track that is not broken. -/
theorem windows_keep_time (windowMs : Nat) (inputs : List Aggregation.Input) (trackId : UInt64)
    (clockRate : UInt32) (hpos : 0 < clockRate.toNat)
    (hclock : ∀ frame ∈ framesOf trackId inputs, frame.clockRate = clockRate) :
    ∃ placed,
      InOrder (framesOf trackId inputs) ((Aggregation.run windowMs inputs).windowsOf trackId)
        placed ∧
      (TimeKept (framesOf trackId inputs) clockRate placed ↔
        ∀ p ∈ placed, NothingLost (framesOf trackId inputs) clockRate p.2) ∧
      (Unbroken (framesOf trackId inputs) →
        TimeKept (framesOf trackId inputs) clockRate placed) := by
  have hinv := Aggregation.inv_run windowMs inputs trackId
  have hplaced : ∃ limit placed, Placed (framesOf trackId inputs)
      ((Aggregation.run windowMs inputs).windowsOf trackId) limit placed := by
    match hacc : (Aggregation.run windowMs inputs).tracks[trackId]? with
    | none =>
      rw [hacc] at hinv
      rw [hinv.2]
      exact ⟨0, [], rfl, fun _ hp ↦ absurd hp List.not_mem_nil, .nil,
        fun _ hp ↦ absurd hp List.not_mem_nil⟩
    | some acc =>
      rw [hacc] at hinv
      obtain ⟨start, placed, -, hplaced⟩ := hinv
      exact ⟨start, placed, hplaced⟩
  obtain ⟨limit, placed, hplaced⟩ := hplaced
  have hiff := hplaced.timeKept_iff hclock hpos
  refine ⟨placed, hplaced.inOrder, hiff, fun hunbroken ↦ hiff.mpr fun p hp ↦ ?_⟩
  exact hunbroken.nothingLost (hplaced.windowAt p hp).lt

/-- A frame of 20 milliseconds. -/
def sampleFrame (sequence : UInt16) (timestamp : UInt32) : LiveAudioFrame :=
  ⟨1, timestamp, 48000, some sequence, [0]⟩

/-- Two frames without a gap. -/
def joinedInputs : List Aggregation.Input :=
  [.frame (sampleFrame 65535 0) true, .frame (sampleFrame 0 960) true]

theorem unbroken_joinedInputs : Unbroken (framesOf 1 joinedInputs) := by
  refine ⟨fun n hn ↦ ?_, by decide⟩
  obtain rfl : n = 0 := Nat.le_zero.mp (Nat.le_of_lt_succ (Nat.lt_of_succ_lt_succ hn))
  decide

theorem windows_keep_time_joined :
    ∃ placed, InOrder (framesOf 1 joinedInputs)
      ((Aggregation.run 20 joinedInputs).windowsOf 1) placed ∧
        (∀ p ∈ placed, NothingLost (framesOf 1 joinedInputs) 48000 p.2) ∧
        TimeKept (framesOf 1 joinedInputs) 48000 placed := by
  obtain ⟨placed, hordered, hiff, hkept⟩ :=
    windows_keep_time 20 joinedInputs 1 48000 (by decide) (by decide)
  have htime := hkept unbroken_joinedInputs
  exact ⟨placed, hordered, hiff.mp htime, htime⟩

/-- Two seconds are lost after the first frame. -/
def gapInputs : List Aggregation.Input :=
  [.frame (sampleFrame 0 0) true, .frame (sampleFrame 2 96000) true,
    .frame (sampleFrame 3 96960) true]

theorem framesOf_gapInputs :
    framesOf 1 gapInputs = [sampleFrame 0 0, sampleFrame 2 96000, sampleFrame 3 96960] := by
  decide

theorem windowsOf_gapInputs :
    (Aggregation.run 20 gapInputs).windowsOf 1 =
      [⟨1, 0, [sampleFrame 2 96000, sampleFrame 3 96960]⟩] := by
  decide +kernel

theorem clockRate_gapInputs : ∀ frame ∈ framesOf 1 gapInputs, frame.clockRate = 48000 := by
  decide

/-- The window after the gap holds the frames from the second one on, two seconds later. -/
theorem not_sample_time (start : Nat)
    (hframes : [sampleFrame 2 96000, sampleFrame 3 96960] <+:
      [sampleFrame 0 0, sampleFrame 2 96000, sampleFrame 3 96960].drop start) :
    0 ≠ toMs (advance [sampleFrame 0 0, sampleFrame 2 96000, sampleFrame 3 96960] start)
      48000 := by
  match start with
  | 0 => exact absurd hframes (by decide)
  | 1 => decide
  | 2 => exact absurd hframes (by decide)
  | start + 3 =>
    have hlength := hframes.length_le
    simp at hlength

/-- The window after the gap is timed from the gap. -/
theorem gap_restarts_time :
    ¬ ∀ (windowMs : Nat) (inputs : List Aggregation.Input) (trackId : UInt64) (clockRate : UInt32),
      0 < clockRate.toNat → (∀ frame ∈ framesOf trackId inputs, frame.clockRate = clockRate) →
        (∀ n, increment (framesOf trackId inputs) n < 2 ^ 31) →
          ∃ placed, InOrder (framesOf trackId inputs)
            ((Aggregation.run windowMs inputs).windowsOf trackId) placed ∧
              TimeKept (framesOf trackId inputs) clockRate placed := by
  intro h
  have hincrement (n : Nat) : increment (framesOf 1 gapInputs) n < 2 ^ 31 := by
    rw [framesOf_gapInputs]
    match n with
    | 0 => decide
    | 1 => decide
    | n + 2 =>
      rw [increment, List.getElem?_eq_none (i := n + 2 + 1) (by simp)]
      split
      · next hnone => exact absurd hnone (by simp)
      · exact Nat.two_pow_pos 31
  obtain ⟨placed, hordered, htime, -⟩ := h 20 gapInputs 1 48000 (by decide) clockRate_gapInputs
    hincrement
  have hwindows := hordered.windows
  rw [windowsOf_gapInputs, List.map_eq_singleton_iff] at hwindows
  obtain ⟨⟨window, start⟩, rfl, hwindow⟩ := hwindows
  have hframes := (hordered.frames _ (List.mem_singleton_self _)).2
  have htime := htime _ (List.mem_singleton_self _)
  obtain rfl : window = _ := hwindow
  rw [framesOf_gapInputs] at hframes htime
  exact not_sample_time start hframes htime

end Vidarax.Audio
