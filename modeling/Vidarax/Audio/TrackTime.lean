import Mathlib.Data.List.Chain
import Vidarax.Audio.Aggregate

/-!
# Time along a track

Package `vidarax-api`, `live_audio.rs:59–92`. The time of a frame is the sum of the increments of
the timestamps up to it. A track falls into parts whose frames follow one another, and timestamps
tell the time since the first frame of the part only modulo 2^32 ticks.
-/

namespace Vidarax.Audio

open Base

/-- The next frame follows this one: same clock, and the next sequence number where both are
known. -/
def Follows (a b : LiveAudioFrame) : Prop :=
  a.clockRate = b.clockRate ∧
    ∀ previous ∈ a.sequenceNumber, ∀ next ∈ b.sequenceNumber, previous + 1 = next

/-- Ticks from a frame of the track to the next one. -/
def increment (track : List LiveAudioFrame) (n : Nat) : Nat :=
  match track[n]?, track[n + 1]? with
  | some a, some b => (b.rtpTimestamp - a.rtpTimestamp).toNat
  | _, _ => 0

/-- Ticks from the first frame of the track to another one. -/
def advance (track : List LiveAudioFrame) : Nat → Nat
  | 0 => 0
  | n + 1 => advance track n + increment track n

/-- The next frame of the track follows the one at a position. -/
def FollowedAt (track : List LiveAudioFrame) (n : Nat) : Prop :=
  ∃ a ∈ track[n]?, ∃ b ∈ track[n + 1]?, Follows a b

-- the instances over 16-bit numbers would go through all of them
instance (a b : LiveAudioFrame) : Decidable (Follows a b) :=
  have (previous : UInt16) : Decidable (∀ next ∈ b.sequenceNumber, previous + 1 = next) :=
    Option.decidableForallMem _
  have : Decidable (∀ previous ∈ a.sequenceNumber, ∀ next ∈ b.sequenceNumber,
      previous + 1 = next) := Option.decidableForallMem _
  inferInstanceAs (Decidable (_ ∧ _))

instance (track : List LiveAudioFrame) (n : Nat) : Decidable (FollowedAt track n) :=
  inferInstanceAs (Decidable (∃ a ∈ track[n]?, ∃ b ∈ track[n + 1]?, Follows a b))

/-- Position of the first frame of the part in which a frame is. -/
def partStart (track : List LiveAudioFrame) : Nat → Nat
  | 0 => 0
  | n + 1 => if FollowedAt track n then partStart track n else n + 1

variable {track more : List LiveAudioFrame} {m n : Nat}

theorem advance_succ (track : List LiveAudioFrame) (n : Nat) :
    advance track (n + 1) = advance track n + increment track n := rfl

theorem partStart_succ (track : List LiveAudioFrame) (n : Nat) :
    partStart track (n + 1) = if FollowedAt track n then partStart track n else n + 1 := rfl

/-! ### Growing tracks -/

theorem increment_append (hn : n + 1 < track.length) :
    increment (track ++ more) n = increment track n := by
  rw [increment, increment, List.getElem?_append_left (Nat.lt_of_succ_lt hn),
    List.getElem?_append_left hn]

/-- Later frames do not change the time of a frame. -/
theorem advance_append (hn : n < track.length) :
    advance (track ++ more) n = advance track n := by
  induction n with
  | zero => rfl
  | succ n ih => rw [advance_succ, advance_succ, ih (Nat.lt_of_succ_lt hn), increment_append hn]

theorem followedAt_append (hn : n + 1 < track.length) :
    FollowedAt (track ++ more) n ↔ FollowedAt track n := by
  rw [FollowedAt, FollowedAt, List.getElem?_append_left (Nat.lt_of_succ_lt hn),
    List.getElem?_append_left hn]

theorem partStart_append (hn : n < track.length) :
    partStart (track ++ more) n = partStart track n := by
  induction n with
  | zero => rfl
  | succ n ih =>
    rw [partStart_succ, partStart_succ, ih (Nat.lt_of_succ_lt hn)]
    exact if_congr (followedAt_append hn) rfl rfl

/-! ### Parts -/

theorem partStart_le (track : List LiveAudioFrame) (n : Nat) : partStart track n ≤ n := by
  induction n with
  | zero => exact Nat.le_refl 0
  | succ n ih =>
    rw [partStart_succ]
    split
    · exact Nat.le_succ_of_le ih
    · exact Nat.le_refl _

/-- Frames of one part follow one another. -/
theorem followedAt_of_part (hstart : partStart track n ≤ m) (hlt : m < n) :
    FollowedAt track m := by
  induction n with
  | zero => exact absurd hlt (Nat.not_lt_zero m)
  | succ n ih =>
    rw [partStart_succ] at hstart
    split at hstart
    · next hfollowed =>
      rcases Nat.lt_succ_iff_lt_or_eq.mp hlt with hm | rfl
      · exact ih hstart hm
      · exact hfollowed
    · exact absurd hlt (Nat.not_lt_of_le hstart)

/-- Frames of one part have one first frame. -/
theorem partStart_eq (hstart : partStart track n ≤ m) (hle : m ≤ n) :
    partStart track m = partStart track n := by
  induction n with
  | zero =>
    obtain rfl := Nat.le_zero.mp hle
    rfl
  | succ n ih =>
    rw [partStart_succ] at hstart ⊢
    split at hstart
    · next hfollowed =>
      rw [if_pos hfollowed]
      rcases Nat.le_succ_iff.mp hle with hm | rfl
      · exact ih hstart hm
      · rw [partStart_succ, if_pos hfollowed]
    · next hnot =>
      obtain rfl := Nat.le_antisymm hle hstart
      rw [partStart_succ, if_neg hnot]

/-- Frames of one part have one clock. -/
theorem clockRate_eq {a b : LiveAudioFrame} (hstart : partStart track n ≤ m) (hle : m ≤ n)
    (ha : a ∈ track[m]?) (hb : b ∈ track[n]?) : a.clockRate = b.clockRate := by
  induction n generalizing b with
  | zero =>
    obtain rfl := Nat.le_zero.mp hle
    rw [Option.mem_unique ha hb]
  | succ n ih =>
    rcases Nat.le_succ_iff.mp hle with hm | rfl
    · obtain ⟨c, hc, b', hb', hfollows⟩ :=
        followedAt_of_part (hstart.trans hm) (Nat.lt_succ_self n)
      obtain rfl := Option.mem_unique hb hb'
      exact (ih (partStart_eq (hstart.trans hm) n.le_succ ▸ hstart) hm hc).trans hfollows.1
    · rw [Option.mem_unique ha hb]

/-- A track without a gap is one part. -/
theorem partStart_eq_zero (h : ∀ k < n, FollowedAt track k) : partStart track n = 0 := by
  induction n with
  | zero => rfl
  | succ n ih =>
    rw [partStart_succ, if_pos (h n (Nat.lt_succ_self n))]
    exact ih fun k hk ↦ h k (Nat.lt_succ_of_lt hk)

/-! ### Timestamps -/

theorem advance_mono (track : List LiveAudioFrame) (h : m ≤ n) :
    advance track m ≤ advance track n := by
  induction h with
  | refl => exact Nat.le_refl _
  | step _ ih => exact Nat.le_trans ih (Nat.le_add_right _ _)

/-- Timestamps are the time modulo 2^32 ticks. -/
theorem timestamp_eq {first frame : LiveAudioFrame} (hfirst : track[0]? = some first)
    (hframe : track[n]? = some frame) :
    frame.rtpTimestamp.toNat = (first.rtpTimestamp.toNat + advance track n) % 2 ^ 32 := by
  induction n generalizing frame with
  | zero =>
    rw [hfirst, Option.some.injEq] at hframe
    subst hframe
    exact (Nat.mod_eq_of_lt first.rtpTimestamp.toNat_lt).symm
  | succ n ih =>
    have hlt : n < track.length := Nat.lt_of_succ_lt (List.getElem?_eq_some_iff.mp hframe).1
    have hbefore := ih (List.getElem?_eq_getElem hlt)
    have hbound := frame.rtpTimestamp.toNat_lt
    have hbound' := track[n].rtpTimestamp.toNat_lt
    rw [advance_succ, increment, List.getElem?_eq_getElem hlt, hframe]
    simp only [UInt32.toNat_sub]
    omega

/-- Differences of timestamps are the time between two frames modulo 2^32 ticks. -/
theorem toNat_sub_timestamp {a b : LiveAudioFrame} (ha : track[m]? = some a)
    (hb : track[n]? = some b) (hle : m ≤ n) :
    (b.rtpTimestamp - a.rtpTimestamp).toNat = (advance track n - advance track m) % 2 ^ 32 := by
  have hlt : 0 < track.length :=
    Nat.lt_of_le_of_lt (Nat.zero_le m) (List.getElem?_eq_some_iff.mp ha).1
  have htimea := timestamp_eq (List.getElem?_eq_getElem hlt) ha
  have htimeb := timestamp_eq (List.getElem?_eq_getElem hlt) hb
  have hmono := advance_mono track hle
  rw [UInt32.toNat_sub]
  omega

end Vidarax.Audio
