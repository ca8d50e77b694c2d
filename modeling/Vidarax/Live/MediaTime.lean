import Vidarax.Live.Clip
import Vidarax.Trigger.Cooldown

/-!
# Media time

What the presentation times of a session say about the time of the media. Senders start at any
timestamp and advance it modulo `2 ^ 32`; the sums of these increments are the time of the media.
-/

namespace Vidarax.Live

open Vidarax.Base Vidarax.Trigger

/-- An unbounded sequence of access units. -/
structure MediaStream where
  start : UInt32
  advance : Nat → Nat
  data : Nat → Bytes

namespace MediaStream

variable (s : MediaStream)

/-- Increments between two access units, in units of 90 kHz. -/
def ticks (i j : Nat) : Nat := ((List.range' i (j - i)).map s.advance).sum

/-- The timestamp of an access unit. -/
def rtpTimestamp : Nat → UInt32
  | 0 => s.start
  | k + 1 => rtpTimestamp k + UInt32.ofNat (s.advance k)

/-- An access unit. -/
def frame (k : Nat) : VideoFrame := ⟨s.data k, s.rtpTimestamp k⟩

/-- The session does not drop the access unit for its size. -/
def Attached (k : Nat) : Prop := (s.data k).length ≤ maxRtpAccessUnitBytes

/-- The time that is attached to an access unit. -/
def ptsMs (k : Nat) : UInt64 := (s.rtpTimestamp k).toUInt64 / 90

/-- Differences of attached times are within a millisecond of the time of the media, and not
negative. -/
def KeepsTime : Prop :=
  ∀ (nals : Bytes → List Bytes) (seq seq' : UInt64) (i j : Nat) (a b : RtpFrame), i ≤ j →
    (onVideo nals seq (s.frame i)).1 = some a → (onVideo nals seq' (s.frame j)).1 = some b →
    a.ptsMs ≤ b.ptsMs ∧ 90 * b.ptsMs.toNat ≤ 90 * a.ptsMs.toNat + s.ticks i j + 90 ∧
      90 * a.ptsMs.toNat + s.ticks i j ≤ 90 * b.ptsMs.toNat + 90

/-- The timestamp does not pass `2 ^ 32` between two access units that get a time. -/
def NoWrap : Prop :=
  ∀ i j, i ≤ j → s.Attached i → s.Attached j → (s.rtpTimestamp i).toNat + s.ticks i j < 2 ^ 32

/-! ### Attached times -/

theorem onVideo_eq_some {nals : Bytes → List Bytes} {seq : UInt64} {k : Nat} {a : RtpFrame}
    (h : (onVideo nals seq (s.frame k)).1 = some a) : s.Attached k ∧ a.ptsMs = s.ptsMs k := by
  unfold onVideo at h
  split at h
  · cases h
  · next hshort =>
    cases h
    exact ⟨Nat.le_of_not_lt hshort, rfl⟩

theorem onVideo_of_attached {k : Nat} (h : s.Attached k) :
    ∃ a, (onVideo (fun _ ↦ []) 0 (s.frame k)).1 = some a := by
  have hshort : ¬ (s.frame k).data.length > maxRtpAccessUnitBytes := Nat.not_lt_of_le h
  rw [onVideo, if_neg hshort]
  exact ⟨_, rfl⟩

theorem ticks_succ {i j : Nat} (h : i ≤ j) : s.ticks i (j + 1) = s.ticks i j + s.advance j := by
  have hrange : List.range' i (j + 1 - i) = List.range' i (j - i) ++ [j] := by
    rw [Nat.succ_sub h, List.range'_concat]
    congr 2
    omega
  rw [ticks, hrange, List.map_append, List.sum_append]
  simp [ticks]

/-- Timestamps advance modulo `2 ^ 32`. -/
theorem toNat_rtpTimestamp {i j : Nat} (h : i ≤ j) :
    (s.rtpTimestamp j).toNat = ((s.rtpTimestamp i).toNat + s.ticks i j) % 2 ^ 32 := by
  induction j, h using Nat.le_induction with
  | base =>
    rw [ticks, Nat.sub_self]
    exact (Nat.mod_eq_of_lt (s.rtpTimestamp i).toNat_lt).symm
  | succ j hij ih =>
    rw [rtpTimestamp, UInt32.toNat_add, ih, s.ticks_succ hij, UInt32.toNat_ofNat']
    omega

theorem toNat_ptsMs (k : Nat) : (s.ptsMs k).toNat = (s.rtpTimestamp k).toNat / 90 := by
  rw [ptsMs, UInt64.toNat_div, UInt32.toNat_toUInt64]
  rfl

/-- Attached times keep the time of the media exactly as long as the timestamp does not wrap. -/
theorem keepsTime_iff : s.KeepsTime ↔ s.NoWrap := by
  constructor
  · intro h i j hij hi hj
    obtain ⟨a, ha⟩ := s.onVideo_of_attached hi
    obtain ⟨b, hb⟩ := s.onVideo_of_attached hj
    obtain ⟨-, -, hlow⟩ := h _ _ _ i j a b hij ha hb
    rw [(s.onVideo_eq_some ha).2, (s.onVideo_eq_some hb).2, s.toNat_ptsMs, s.toNat_ptsMs,
      s.toNat_rtpTimestamp hij] at hlow
    have := (s.rtpTimestamp i).toNat_lt
    omega
  · intro h nals seq seq' i j a b hij ha hb
    obtain ⟨hi, ha⟩ := s.onVideo_eq_some ha
    obtain ⟨hj, hb⟩ := s.onVideo_eq_some hb
    have hlt := h i j hij hi hj
    rw [UInt64.le_iff_toNat_le, ha, hb, s.toNat_ptsMs, s.toNat_ptsMs, s.toNat_rtpTimestamp hij,
      Nat.mod_eq_of_lt hlt]
    omega

/-- Without a wrap no whole millisecond of the media is lost. -/
theorem le_satSub {s : MediaStream} (h : s.NoWrap) {i j n : Nat} (hij : i ≤ j) (hi : s.Attached i)
    (hj : s.Attached j) (hn : 90 * n ≤ s.ticks i j) : n ≤ (satSub (s.ptsMs j) (s.ptsMs i)).toNat := by
  have hlt := h i j hij hi hj
  have hle : (s.ptsMs j).toNat - (s.ptsMs i).toNat ≤ u64Max :=
    Nat.le_trans (Nat.sub_le _ _) (toNat_le_u64Max _)
  rw [satSub, toNat_ofNat_of_le hle, s.toNat_ptsMs, s.toNat_ptsMs, s.toNat_rtpTimestamp hij,
    Nat.mod_eq_of_lt hlt]
  omega

end MediaStream

/-! ### Sampling by the attached time -/

/-- A decoded access unit on the clip path: what the encoder yields, whether the frame gets through
to the accumulator, and when it does. -/
structure Offered where
  index : Nat
  wellFormed : Bool
  encode : Option Bytes
  forwarded : Bool
  now : Nat

/-- Both gates of the clip path, with the access unit that each of them accepted last. The
accumulator sees the frames in the order in which they are sent; that it lags behind makes no
difference to what either gate decides. -/
structure ClipPath where
  gate : ClipRateGate
  sampled : Option Nat
  accumulator : ClipAccumulator
  buffered : Option Nat

namespace ClipPath

/-- The path before its first frame. -/
def new (targetFps : UInt32) (windowMs delayMs : UInt64) : ClipPath :=
  ⟨.new targetFps, none, .new targetFps windowMs delayMs, none⟩

/-- A frame goes through the decode worker. -/
def sample (s : MediaStream) (p : ClipPath) (o : Offered) : Option StreamFrame × ClipPath :=
  let (sent, gate) := buildClipStreamFrame p.gate o.wellFormed (s.ptsMs o.index) o.encode
  (sent, { p with
    gate := gate
    sampled := if (sent.bind StreamFrame.jpeg).isSome then some o.index else p.sampled })

/-- A frame that was sent gets to the accumulator. -/
def forward (p : ClipPath) (o : Offered) (sent : Option StreamFrame) : ClipPath :=
  match sent with
  | none => p
  | some frame =>
    if o.forwarded then
      { p with
        accumulator := (p.accumulator.push o.now frame).2
        buffered := if p.accumulator.accepts frame then some o.index else p.buffered }
    else p

/-- A frame goes along the path. -/
def step (s : MediaStream) (p : ClipPath) (o : Offered) : ClipPath :=
  (p.sample s o).2.forward o (p.sample s o).1

/-- The path after some frames. -/
def run (s : MediaStream) (p : ClipPath) (offered : List Offered) : ClipPath :=
  offered.foldl (step s) p

end ClipPath

/-- Access units that are decoded in their order. -/
structure Decoded (s : MediaStream) (offered : List Offered) : Prop where
  ascending : offered.Pairwise fun a b ↦ a.index < b.index
  attached : ∀ o ∈ offered, s.Attached o.index

/-- No gate of the clip path rejects a frame that comes at least `1000 / targetFps` ms of media
time after the one it accepted last. -/
def MediaStream.SamplesTime (s : MediaStream) : Prop :=
  ∀ (targetFps : UInt32) (windowMs delayMs : UInt64) (offered : List Offered) (j : Nat),
    Decoded s offered → (∀ o ∈ offered, o.index < j) → s.Attached j →
    let p := ClipPath.run s (.new targetFps windowMs delayMs) offered
    ((∀ i, p.sampled = some i → 90 * 1000 ≤ s.ticks i j * targetFps.toNat) →
      p.gate.shouldKeep (s.ptsMs j) = true) ∧
    ((∀ i, p.buffered = some i → 90 * 1000 ≤ s.ticks i j * targetFps.toNat) →
      p.accumulator.rateGate.shouldKeep (s.ptsMs j) = true)

/-- A gate holds the attached time of the access unit that it accepted last. -/
structure Holds (s : MediaStream) (targetFps : UInt32) (gate : ClipRateGate) (last : Option Nat) :
    Prop where
  interval : gate.sampleIntervalMs = (ClipRateGate.new targetFps).sampleIntervalMs
  pts : gate.lastAcceptedPts = last.map s.ptsMs

theorem Holds.commit {s : MediaStream} {targetFps : UInt32} {gate : ClipRateGate}
    {last : Option Nat} (h : Holds s targetFps gate last) (accepted : Bool) (k : Nat) :
    Holds s targetFps (if accepted then gate.commit (s.ptsMs k) else gate)
      (if accepted then some k else last) := by
  cases accepted with
  | true => exact ⟨h.interval, rfl⟩
  | false => exact h

/-- One frame along the path. -/
theorem holds_step {s : MediaStream} {targetFps : UInt32} {p : ClipPath} (o : Offered)
    (hgate : Holds s targetFps p.gate p.sampled)
    (hacc : Holds s targetFps p.accumulator.rateGate p.buffered) :
    Holds s targetFps (p.step s o).gate (p.step s o).sampled ∧
      Holds s targetFps (p.step s o).accumulator.rateGate (p.step s o).buffered ∧
      (∀ i, (p.step s o).sampled = some i → p.sampled = some i ∨ i = o.index) ∧
      (∀ i, (p.step s o).buffered = some i → p.buffered = some i ∨ i = o.index) := by
  have hsampled : Holds s targetFps (p.sample s o).2.gate (p.sample s o).2.sampled := by
    have := gate_buildClipStreamFrame p.gate o.wellFormed (s.ptsMs o.index) o.encode
    rw [ClipPath.sample]
    dsimp only
    rw [this]
    exact hgate.commit _ o.index
  have hwhich {b : Bool} {last : Option Nat} {i : Nat}
      (h : (if b then some o.index else last) = some i) : last = some i ∨ i = o.index := by
    cases b with
    | true => exact .inr (Option.some.inj h).symm
    | false => exact .inl h
  unfold ClipPath.step ClipPath.forward
  split
  · exact ⟨hsampled, hacc, fun i hi ↦ hwhich hi, fun i hi ↦ .inl hi⟩
  · next frame hframe =>
    split
    · refine ⟨hsampled, ?_, fun i hi ↦ hwhich hi, fun i hi ↦ hwhich hi⟩
      dsimp only
      rw [ClipAccumulator.rateGate_push, ptsMs_buildClipStreamFrame hframe]
      exact hacc.commit _ o.index
    · exact ⟨hsampled, hacc, fun i hi ↦ hwhich hi, fun i hi ↦ .inl hi⟩

/-- After a run both gates hold the attached times of frames of the run. -/
theorem holds_run {s : MediaStream} {targetFps : UInt32} (offered : List Offered) {p : ClipPath}
    (hgate : Holds s targetFps p.gate p.sampled)
    (hacc : Holds s targetFps p.accumulator.rateGate p.buffered) :
    Holds s targetFps (p.run s offered).gate (p.run s offered).sampled ∧
      Holds s targetFps (p.run s offered).accumulator.rateGate (p.run s offered).buffered ∧
      (∀ i, (p.run s offered).sampled = some i → p.sampled = some i ∨
        ∃ o ∈ offered, o.index = i) ∧
      (∀ i, (p.run s offered).buffered = some i → p.buffered = some i ∨
        ∃ o ∈ offered, o.index = i) := by
  induction offered generalizing p with
  | nil => exact ⟨hgate, hacc, fun i hi ↦ .inl hi, fun i hi ↦ .inl hi⟩
  | cons o offered ih =>
    obtain ⟨hgate', hacc', hsampled, hbuffered⟩ := holds_step o hgate hacc
    obtain ⟨hgate'', hacc'', hsampled', hbuffered'⟩ := ih hgate' hacc'
    refine ⟨hgate'', hacc'', fun i hi ↦ ?_, fun i hi ↦ ?_⟩
    · rcases hsampled' i hi with hi | ⟨o', ho', hi⟩
      · rcases hsampled i hi with hi | rfl
        · exact .inl hi
        · exact .inr ⟨o, List.mem_cons_self, rfl⟩
      · exact .inr ⟨o', List.mem_cons_of_mem o ho', hi⟩
    · rcases hbuffered' i hi with hi | ⟨o', ho', hi⟩
      · rcases hbuffered i hi with hi | rfl
        · exact .inl hi
        · exact .inr ⟨o, List.mem_cons_self, rfl⟩
      · exact .inr ⟨o', List.mem_cons_of_mem o ho', hi⟩

/-- The interval of a gate. -/
theorem toNat_sampleIntervalMs (targetFps : UInt32) :
    (ClipRateGate.new targetFps).sampleIntervalMs.toNat = 1000 / max targetFps.toNat 1 := by
  have hmax : (max targetFps.toUInt64 1).toNat = max targetFps.toNat 1 := by
    have hone : (1 : UInt64).toNat = 1 := rfl
    rw [UInt64.max_def]
    split
    · next h =>
      rw [UInt64.le_iff_toNat_le, UInt32.toNat_toUInt64] at h
      omega
    · next h =>
      rw [UInt64.le_iff_toNat_le, UInt32.toNat_toUInt64] at h
      rw [UInt32.toNat_toUInt64]
      omega
  rw [ClipRateGate.new, UInt64.toNat_div, hmax]
  rfl

/-- A gate keeps what comes late enough. -/
theorem Holds.shouldKeep {s : MediaStream} {targetFps : UInt32} {gate : ClipRateGate}
    {last : Option Nat} (h : Holds s targetFps gate last) (hwrap : s.NoWrap) {j : Nat}
    (hj : s.Attached j) (hlast : ∀ i, last = some i → i ≤ j ∧ s.Attached i ∧
      90 * 1000 ≤ s.ticks i j * targetFps.toNat) : gate.shouldKeep (s.ptsMs j) = true := by
  unfold ClipRateGate.shouldKeep
  rw [h.pts]
  cases last with
  | none => rfl
  | some i =>
    obtain ⟨hij, hi, hticks⟩ := hlast i rfl
    apply decide_eq_true
    rw [UInt64.le_iff_toNat_le, h.interval, toNat_sampleIntervalMs]
    apply MediaStream.le_satSub hwrap hij hi hj
    have hfps : 0 < targetFps.toNat := by
      apply Nat.pos_of_ne_zero
      intro hzero
      rw [hzero] at hticks
      omega
    apply Nat.le_of_mul_le_mul_right _ hfps
    rw [Nat.max_eq_left hfps]
    have := Nat.div_mul_le_self 1000 targetFps.toNat
    calc 90 * (1000 / targetFps.toNat) * targetFps.toNat
        = 90 * (1000 / targetFps.toNat * targetFps.toNat) := Nat.mul_assoc _ _ _
      _ ≤ 90 * 1000 := Nat.mul_le_mul_left 90 this
      _ ≤ s.ticks i j * targetFps.toNat := hticks

/-- Without a wrap the clip path samples by the time of the media. -/
theorem samplesTime_of_noWrap {s : MediaStream} (hwrap : s.NoWrap) : s.SamplesTime := by
  intro targetFps windowMs delayMs offered j hdecoded hbefore hj
  obtain ⟨hgate, hacc, hsampled, hbuffered⟩ :=
    @holds_run s targetFps offered (.new targetFps windowMs delayMs) ⟨rfl, rfl⟩ ⟨rfl, rfl⟩
  have hearlier {i : Nat} (h : ∃ o ∈ offered, o.index = i) : i ≤ j ∧ s.Attached i := by
    obtain ⟨o, ho, rfl⟩ := h
    exact ⟨Nat.le_of_lt (hbefore o ho), hdecoded.attached o ho⟩
  constructor
  · intro hlate
    apply hgate.shouldKeep hwrap hj
    intro i hi
    obtain ⟨hij, hattached⟩ := hearlier ((hsampled i hi).resolve_left (by simp [ClipPath.new]))
    exact ⟨hij, hattached, hlate i hi⟩
  · intro hlate
    apply hacc.shouldKeep hwrap hj
    intro i hi
    obtain ⟨hij, hattached⟩ := hearlier ((hbuffered i hi).resolve_left (by simp [ClipPath.new]))
    exact ⟨hij, hattached, hlate i hi⟩

/-! ### Cooldowns by the attached time -/

/-- No cooldown of `durationMs` blocks a condition at a frame that comes at least as much media time
after the frame at which its slot last fired. -/
def MediaStream.CoolsByTime (s : MediaStream) : Prop :=
  ∀ (program : TriggerProgram) (vm vm' : TriggerVm) (last : UInt8 → Option Nat) (j : Nat)
    (sample : TriggerSample) (f f' : Frame) (slot : UInt8) (durationMs : UInt64) (value : F32),
    Reached s.ptsMs s.Attached program vm last j sample f → f.top = .ok value →
    truthy value = true → vm.exec sample f (.cooldownMs slot durationMs) = .ok (vm', f') →
    (∀ i, last slot = some i → 90 * durationMs.toNat ≤ s.ticks i j) → f'.fires = true

/-- Without a wrap cooldowns go by the time of the media. -/
theorem coolsByTime_of_noWrap {s : MediaStream} (hwrap : s.NoWrap) : s.CoolsByTime := by
  intro program vm vm' last j sample f f' slot durationMs value hreached htop htrue hexec hlate
  apply hreached.fires htop htrue hexec
  intro i hi hij hattached
  rw [UInt64.le_iff_toNat_le]
  exact MediaStream.le_satSub hwrap hij hattached hreached.remembers.2.1 (hlate i hi)

/-- Attached times keep the time of the media, and with it the sampling of the clip path and the
cooldowns, exactly as long as the timestamp does not wrap between two access units that get a
time. -/
theorem media_time_iff (s : MediaStream) :
    (s.KeepsTime ∧ s.SamplesTime ∧ s.CoolsByTime) ↔ s.NoWrap := by
  constructor
  · intro h
    exact s.keepsTime_iff.mp h.1
  · intro h
    exact ⟨s.keepsTime_iff.mpr h, samplesTime_of_noWrap h, coolsByTime_of_noWrap h⟩

/-- A sender that starts a third of a second before `2 ^ 32` loses the time of the media at the
next frame: the attached time falls, and the clip path rejects the frame. -/
theorem media_time_lost_at_wrap :
    ¬ (⟨4294937296, fun _ ↦ 60000, fun _ ↦ []⟩ : MediaStream).KeepsTime ∧
    ¬ (⟨4294937296, fun _ ↦ 60000, fun _ ↦ []⟩ : MediaStream).SamplesTime := by
  constructor
  · intro h
    have hwrap := (MediaStream.keepsTime_iff _).mp h 0 1 (Nat.zero_le 1) (Nat.zero_le _)
      (Nat.zero_le _)
    exact absurd hwrap (by decide)
  · intro h
    have hrun := (h 6 500 500 [⟨0, true, some [0xFF], true, 0⟩] 1
      ⟨List.pairwise_singleton _ _, fun _ _ ↦ Nat.zero_le _⟩
      (fun o ho ↦ by rw [List.mem_singleton.mp ho]; exact Nat.one_pos) (Nat.zero_le _)).1
    have hkeep := hrun fun i hi ↦ by
      cases hi
      decide
    exact absurd hkeep (by decide)

end Vidarax.Live
