import Mathlib.Data.List.Chain
import Vidarax.Base.Result
import Vidarax.Base.Run
import Vidarax.Base.Transducer
import Vidarax.Live.ClipWindow

/-!
# What clips guarantee

Package `vidarax-core`, `crates/vidarax-core/src/webrtc/clip.rs:153–286`. The invariant of an
accumulator, one push at a time, and what follows for the clips of every run. Two clips are the delay
apart unless it passes between the two readings of the clock in one push.
-/

namespace Vidarax.Live

open Vidarax.Base

/-- A frame that is pushed, and what the clock reads then. -/
structure Pushed where
  frame : StreamFrame
  now : Nat
  later : Nat

/-- The clock does not run backwards. -/
def Clocked (pushes : List Pushed) : Prop :=
  (pushes.flatMap fun p ↦ [p.now, p.later]).Pairwise (· ≤ ·)

/-- A frame with an image, as it is buffered. -/
def Pushed.clipFrame (p : Pushed) : Option ClipFrame :=
  (usable p.frame.jpeg).map fun jpeg ↦ ⟨p.frame.ptsMs, jpeg⟩

namespace ClipAccumulator

/-- One push. -/
def step (acc : ClipAccumulator) (p : Pushed) : ClipAccumulator × Option ClipWork :=
  ((acc.pushAt p.now p.later p.frame).2, (acc.pushAt p.now p.later p.frame).1)

/-- A push that comes to the question whether the delay has passed. -/
def Covers (acc : ClipAccumulator) (p : Pushed) : Prop :=
  acc.accepts p.frame = true ∧ acc.windowMs.toNat ≤
    (satSub p.frame.ptsMs (acc.windowStartPts.getD p.frame.ptsMs)).toNat

/-- The delay passes between the two readings of a push that asks for it. -/
def Straddles (acc : ClipAccumulator) (p : Pushed) : Prop :=
  acc.Covers p ∧ acc.tooSoon p.now ∧ ¬acc.tooSoon p.later

end ClipAccumulator

/-- The accumulator after some pushes. -/
def accumulated (config : ClipConfig) (pushes : List Pushed) : ClipAccumulator :=
  stateAfter ClipAccumulator.step (.ofConfig config) pushes

/-- The clips of a run, each with the push that returned it. -/
def clips (config : ClipConfig) (pushes : List Pushed) : List (Pushed × ClipWork) :=
  (pushes.zip (outputs ClipAccumulator.step (.ofConfig config) pushes)).filterMap fun (p, work) ↦
    work.map (p, ·)

/-- The frames of all clips, in order. -/
def clipped (config : ClipConfig) (pushes : List Pushed) : List ClipFrame :=
  (clips config pushes).flatMap (·.2.frames)

/-- One frame comes so much later than another. -/
def Apart (n : Nat) (a b : ClipFrame) : Prop := a.ptsMs.toNat + n ≤ b.ptsMs.toNat

/-- What holds of a clip and the push that returned it. -/
structure Sound (config : ClipConfig) (c : Pushed × ClipWork) : Prop where
  nonempty : 1 ≤ c.2.frames.length
  bounded : c.2.frames.length ≤ maxClipFramesPerRequest
  spaced : c.2.frames.IsChain (Apart config.intervalMs)
  starts : c.2.frames.head?.map ClipFrame.ptsMs = some c.2.ptsStart
  ends : c.2.frames.getLast?.map ClipFrame.ptsMs = some c.2.ptsEnd
  window : c.2.ptsStart.toNat + config.windowMs.toNat ≤ c.2.ptsEnd.toNat
  last : c.1.clipFrame.isSome ∧ c.2.frames.getLast? = c.1.clipFrame

/-- What holds of every run, however the clock reads. -/
structure Clips (config : ClipConfig) (pushes : List Pushed) : Prop where
  sound : ∀ c ∈ clips config pushes, Sound config c
  subsequence : (clipped config pushes).Sublist (pushes.filterMap Pushed.clipFrame)
  disjoint : (clipped config pushes).Nodup
  bounded : ∀ front, front <+: pushes →
    (accumulated config front).buffer.length ≤ maxClipFramesPerRequest

/-- Two clips in a row are emitted the delay apart. -/
def Delayed (config : ClipConfig) (pushes : List Pushed) : Prop :=
  (clips config pushes).IsChain fun a b ↦
    a.1.now + config.delayMs.toNat * NANOS_PER_MILLI ≤ b.1.now

/-! ### Runs -/

variable {config : ClipConfig} {pushes : List Pushed} {p : Pushed}

theorem accumulated_concat (config : ClipConfig) (pushes : List Pushed) (p : Pushed) :
    accumulated config (pushes ++ [p]) = ((accumulated config pushes).step p).1 :=
  stateAfter_append _ _ _ _

theorem clips_concat (config : ClipConfig) (pushes : List Pushed) (p : Pushed) :
    clips config (pushes ++ [p]) = clips config pushes ++
      (((accumulated config pushes).step p).2.map (p, ·)).toList := by
  rw [clips, outputs_append, List.zip_append (length_outputs _ _ _).symm, List.filterMap_append]
  change _ ++ List.filterMap _ [(p, ((accumulated config pushes).step p).2)] = _
  cases ((accumulated config pushes).step p).2 <;> rfl

theorem clipped_concat (config : ClipConfig) (pushes : List Pushed) (p : Pushed) :
    clipped config (pushes ++ [p]) = clipped config pushes ++
      (((accumulated config pushes).step p).2.map ClipWork.frames).getD [] := by
  rw [clipped, clips_concat, List.flatMap_append]
  congr 1
  cases ((accumulated config pushes).step p).2 <;> simp

/-! ### One push -/

namespace ClipAccumulator

variable {acc : ClipAccumulator}

/-- What a push does. -/
theorem step_cases (acc : ClipAccumulator) (p : Pushed) :
    (acc.accepts p.frame = false ∧ acc.step p = (acc, none)) ∨
    ∃ frame, p.clipFrame = some frame ∧ acc.rateGate.shouldKeep p.frame.ptsMs = true ∧
      ((¬acc.Covers p ∧ acc.step p = (acc.buffered frame.ptsMs frame.jpeg, none)) ∨
      (acc.Covers p ∧ acc.tooSoon p.later ∧
        acc.step p = ((acc.buffered frame.ptsMs frame.jpeg).slid, none)) ∨
      (acc.Covers p ∧ ¬acc.tooSoon p.later ∧
        acc.step p = (((acc.buffered frame.ptsMs frame.jpeg).emit p.now).2,
          some ((acc.buffered frame.ptsMs frame.jpeg).emit p.now).1))) := by
  unfold step pushAt accepts
  cases hkeep : acc.rateGate.shouldKeep p.frame.ptsMs with
  | false => exact .inl ⟨rfl, rfl⟩
  | true =>
    cases husable : usable p.frame.jpeg with
    | none => exact .inl ⟨rfl, rfl⟩
    | some jpeg =>
      have haccepts : acc.accepts p.frame = true := by rw [accepts, hkeep, husable]; rfl
      refine .inr ⟨⟨p.frame.ptsMs, jpeg⟩, by rw [Pushed.clipFrame, husable]; rfl, rfl, ?_⟩
      dsimp only
      by_cases hwindow : satSub p.frame.ptsMs (acc.windowStartPts.getD p.frame.ptsMs) < acc.windowMs
      · refine .inl ⟨fun hcovers ↦ absurd hcovers.2 (Nat.not_le.mpr hwindow), ?_⟩
        simp only [Bool.not_true, Bool.false_eq_true, if_false]
        rw [if_pos (show satSub p.frame.ptsMs ((acc.buffered p.frame.ptsMs jpeg).windowStartPts.getD
          p.frame.ptsMs) < (acc.buffered p.frame.ptsMs jpeg).windowMs from hwindow)]
      · have hcovers : acc.Covers p := ⟨haccepts, Nat.not_lt.mp hwindow⟩
        simp only [Bool.not_true, Bool.false_eq_true, if_false]
        rw [if_neg (show ¬satSub p.frame.ptsMs ((acc.buffered p.frame.ptsMs jpeg).windowStartPts.getD
          p.frame.ptsMs) < (acc.buffered p.frame.ptsMs jpeg).windowMs from hwindow)]
        by_cases hsoon : acc.tooSoon p.later
        · refine .inr (.inl ⟨hcovers, hsoon, ?_⟩)
          rw [if_pos (show (acc.buffered p.frame.ptsMs jpeg).tooSoon p.later from hsoon)]
        · refine .inr (.inr ⟨hcovers, hsoon, ?_⟩)
          rw [if_neg (show ¬(acc.buffered p.frame.ptsMs jpeg).tooSoon p.later from hsoon)]

/-- Accepted frames, of which some are in clips and some in the buffer. -/
structure Filled (accepted done : List ClipFrame) (acc : ClipAccumulator) : Prop where
  sublist : (done ++ acc.buffer).Sublist accepted
  start : acc.windowStartPts = acc.buffer.head?.map ClipFrame.ptsMs
  bounded : acc.buffer.length ≤ maxClipFramesPerRequest

variable {accepted done : List ClipFrame} {frame : ClipFrame} {n : Nat}

/-- A frame that is buffered comes last. -/
theorem Filled.buffered (h : Filled accepted done acc)
    (hspaced : (accepted ++ [frame]).Pairwise (Apart n)) :
    Filled (accepted ++ [frame]) done (acc.buffered frame.ptsMs frame.jpeg) ∧
      (acc.buffered frame.ptsMs frame.jpeg).buffer.getLast? = some frame := by
  have hall : (done ++ (acc.buffer ++ [frame])).Sublist (accepted ++ [frame]) := by
    rw [← List.append_assoc]
    exact h.sublist.append (List.Sublist.refl _)
  have hsorted : (acc.buffer ++ [frame]).Pairwise fun a b ↦ a.ptsMs ≤ b.ptsMs :=
    (hspaced.sublist ((List.sublist_append_right _ _).trans hall)).imp
      fun hapart ↦ Nat.le_trans (Nat.le_add_right _ n) hapart
  have hstart : some (acc.windowStartPts.getD frame.ptsMs) =
      (acc.buffer ++ [frame]).head?.map ClipFrame.ptsMs := by
    rw [h.start]
    cases acc.buffer <;> rfl
  obtain ⟨hsublist, hlength, hhead, hlast⟩ := downsampleClipBuffer_spec (acc.buffer ++ [frame])
    hsorted (acc.windowStartPts.getD frame.ptsMs) acc.windowMs
  have hbuffer : (acc.buffered frame.ptsMs frame.jpeg).buffer =
      downsampleClipBuffer (acc.buffer ++ [frame]) (acc.windowStartPts.getD frame.ptsMs)
        acc.windowMs := by
    unfold ClipAccumulator.buffered
    dsimp only
    split
    · rfl
    · next hle => exact (downsampleClipBuffer_of_le _ (Nat.not_lt.mp hle) _ _).symm
  refine ⟨⟨?_, ?_, ?_⟩, ?_⟩
  · rw [hbuffer]
    exact ((List.Sublist.refl _).append hsublist).trans hall
  · rw [hbuffer, hhead]
    exact hstart
  · rw [hbuffer]
    exact hlength
  · rw [hbuffer, hlast, List.getLast?_concat]

theorem Filled.slid (h : Filled accepted done acc) : Filled accepted done acc.slid where
  sublist := ((List.Sublist.refl _).append (List.drop_sublist _ _)).trans h.sublist
  start := rfl
  bounded := Nat.le_trans (List.drop_sublist _ _).length_le h.bounded

theorem Filled.emit (h : Filled accepted done acc) (now : Nat) :
    Filled accepted (done ++ acc.buffer) (acc.emit now).2 where
  sublist := by
    change (done ++ acc.buffer ++ []).Sublist accepted
    rw [List.append_nil]
    exact h.sublist
  start := rfl
  bounded := Nat.zero_le _

/-- The clip that is made of a buffer. -/
theorem Filled.work (h : Filled accepted done acc) (hlast : acc.buffer.getLast? = some frame)
    (now : Nat) : (acc.emit now).1.frames = acc.buffer ∧
      acc.windowStartPts = some (acc.emit now).1.ptsStart ∧
      acc.buffer.head?.map ClipFrame.ptsMs = some (acc.emit now).1.ptsStart ∧
      (acc.emit now).1.ptsEnd = frame.ptsMs := by
  have hhead : acc.buffer.head?.map ClipFrame.ptsMs = some (acc.emit now).1.ptsStart := by
    unfold ClipAccumulator.emit
    cases hbuffer : acc.buffer with
    | nil => rw [hbuffer] at hlast; cases hlast
    | cons first rest => rfl
  refine ⟨rfl, h.start.trans hhead, hhead, ?_⟩
  unfold ClipAccumulator.emit
  dsimp only
  rw [hlast]
  rfl

end ClipAccumulator

/-! ### Every run -/

/-- What an accumulator and its clips have come to, with the frames accepted so far. -/
structure Inv (config : ClipConfig) (pushes : List Pushed) (accepted : List ClipFrame) : Prop where
  windowMs_eq : (accumulated config pushes).windowMs = config.windowMs
  delayMs_eq : (accumulated config pushes).delayMs = config.delayMs
  interval_eq : (accumulated config pushes).rateGate.sampleIntervalMs.toNat = config.intervalMs
  sublist : accepted.Sublist (pushes.filterMap Pushed.clipFrame)
  spaced : accepted.Pairwise (Apart config.intervalMs)
  lastAccepted : (accumulated config pushes).rateGate.lastAcceptedPts =
    accepted.getLast?.map ClipFrame.ptsMs
  filled : (accumulated config pushes).Filled accepted (clipped config pushes)
  lastEmit : (accumulated config pushes).lastEmit = (clips config pushes).getLast?.map (·.1.now)
  sound : ∀ c ∈ clips config pushes, Sound config c

/-- Frame rates of a valid configuration. -/
theorem targetFps_of_validate (h : config.validate = .ok ()) :
    1 ≤ config.targetFps.toNat ∧ config.targetFps.toNat ≤ 30 := by
  obtain ⟨hfps, -⟩ := guard_eq_ok h
  rw [not_or] at hfps
  exact ⟨Nat.not_lt.mp hfps.1, Nat.not_lt.mp hfps.2⟩

theorem intervalMs_pos (h : config.validate = .ok ()) : 0 < config.intervalMs := by
  obtain ⟨hpos, hle⟩ := targetFps_of_validate h
  exact Nat.div_pos (by omega) hpos

theorem inv_start (h : config.validate = .ok ()) : Inv config [] [] where
  windowMs_eq := rfl
  delayMs_eq := rfl
  interval_eq := by
    obtain ⟨hpos, -⟩ := targetFps_of_validate h
    have hmax : (max config.targetFps.toUInt64 1).toNat = config.targetFps.toNat := by
      change (if config.targetFps.toUInt64 ≤ 1 then 1 else config.targetFps.toUInt64).toNat = _
      split
      · next hle =>
        have hle : config.targetFps.toUInt64.toNat ≤ 1 := hle
        rw [UInt32.toNat_toUInt64] at hle
        exact Nat.le_antisymm hpos hle
      · exact UInt32.toNat_toUInt64 _
    change (1000 / max config.targetFps.toUInt64 1).toNat = _
    rw [UInt64.toNat_div, hmax]
    rfl
  sublist := List.Sublist.refl _
  spaced := List.Pairwise.nil
  lastAccepted := rfl
  filled := ⟨List.Sublist.refl _, rfl, Nat.zero_le _⟩
  lastEmit := rfl
  sound := nofun

/-- A frame that the gate keeps lies apart from all that were accepted. -/
theorem Inv.spaced_concat {accepted : List ClipFrame} (h : Inv config pushes accepted)
    (hpos : 0 < config.intervalMs) {frame : ClipFrame}
    (hkeep : (accumulated config pushes).rateGate.shouldKeep frame.ptsMs = true) :
    (accepted ++ [frame]).Pairwise (Apart config.intervalMs) := by
  refine List.pairwise_append.mpr ⟨h.spaced, List.pairwise_singleton _ _, fun a ha b hb ↦ ?_⟩
  rw [List.mem_singleton.mp hb]
  rcases List.eq_nil_or_concat accepted with rfl | ⟨front, last, rfl⟩
  · cases ha
  · rw [List.concat_eq_append] at ha
    have hlast := h.lastAccepted
    have hspaced := h.spaced
    rw [List.concat_eq_append, List.getLast?_concat] at hlast
    rw [List.concat_eq_append] at hspaced
    have hinterval : config.intervalMs ≤ frame.ptsMs.toNat - last.ptsMs.toNat := by
      rw [ClipRateGate.shouldKeep, hlast] at hkeep
      have hle : (accumulated config pushes).rateGate.sampleIntervalMs.toNat ≤
        (satSub frame.ptsMs last.ptsMs).toNat := of_decide_eq_true hkeep
      rwa [h.interval_eq, toNat_satSub] at hle
    have hfar : Apart config.intervalMs last frame := by
      unfold Apart
      omega
    rcases List.mem_append.mp ha with ha | ha
    · have hnear := (List.pairwise_append.mp hspaced).2.2 a ha last List.mem_cons_self
      unfold Apart at hnear hfar ⊢
      omega
    · rwa [List.mem_singleton.mp ha]

/-- The first frame of a buffer does not come after the last one. -/
theorem head_le_last {frames : List ClipFrame} {n : Nat} {first last : ClipFrame}
    (hspaced : frames.Pairwise (Apart n)) (hfirst : frames.head? = some first)
    (hlast : frames.getLast? = some last) : first.ptsMs.toNat ≤ last.ptsMs.toNat := by
  cases frames with
  | nil => cases hfirst
  | cons x rest =>
    cases hfirst
    rw [List.getLast?_cons] at hlast
    cases hrest : rest.getLast? with
    | none =>
      rw [hrest] at hlast
      cases hlast
      exact Nat.le_refl _
    | some y =>
      rw [hrest] at hlast
      cases hlast
      have hy := (List.pairwise_cons.mp hspaced).1 y (List.mem_of_getLast? hrest)
      exact Nat.le_trans (Nat.le_add_right _ _) hy

/-- The clip that a push returns is sound. -/
theorem Inv.sound_emit {accepted : List ClipFrame} (h : Inv config pushes accepted)
    {frame : ClipFrame} (hframe : p.clipFrame = some frame) (hpts : frame.ptsMs = p.frame.ptsMs)
    (hspaced : (accepted ++ [frame]).Pairwise (Apart config.intervalMs))
    (hcovers : (accumulated config pushes).Covers p) :
    Sound config (p, (((accumulated config pushes).buffered frame.ptsMs frame.jpeg).emit p.now).1) := by
  obtain ⟨hfilled, hlast⟩ := h.filled.buffered hspaced
  obtain ⟨hframes, hstart, hhead, hend⟩ := hfilled.work hlast p.now
  have hbuffer := hspaced.sublist ((List.sublist_append_right _ _).trans hfilled.sublist)
  generalize hacc : (accumulated config pushes).buffered frame.ptsMs frame.jpeg = acc at *
  have hle : (acc.emit p.now).1.ptsStart.toNat ≤ frame.ptsMs.toNat := by
    obtain ⟨first, hfirst, hptsStart⟩ := Option.map_eq_some_iff.mp hhead
    rw [← hptsStart]
    exact head_le_last hbuffer hfirst hlast
  refine ⟨?_, ?_, ?_, ?_, ?_, ?_, ?_, ?_⟩
  · rw [hframes]
    exact List.length_pos_of_mem (List.mem_of_getLast? hlast)
  · rw [hframes]
    exact hfilled.bounded
  · rw [hframes]
    exact hbuffer.isChain
  · rw [hframes]
    exact hhead
  · rw [hframes, hlast, hend]
    rfl
  · have hwindow := hcovers.2
    have hsome : some ((accumulated config pushes).windowStartPts.getD frame.ptsMs) =
        some (acc.emit p.now).1.ptsStart := by
      rw [← hstart, ← hacc]
      rfl
    rw [toNat_satSub, h.windowMs_eq, ← hpts, Option.some.inj hsome] at hwindow
    change (acc.emit p.now).1.ptsStart.toNat + config.windowMs.toNat ≤ (acc.emit p.now).1.ptsEnd.toNat
    rw [hend]
    omega
  · rw [hframe]
    rfl
  · rw [hframes, hframe]
    exact hlast

/-- One more push. -/
theorem Inv.push {accepted : List ClipFrame} (h : Inv config pushes accepted)
    (hpos : 0 < config.intervalMs) (p : Pushed) : ∃ accepted, Inv config (pushes ++ [p]) accepted := by
  have hgrows : (pushes.filterMap Pushed.clipFrame).Sublist
      ((pushes ++ [p]).filterMap Pushed.clipFrame) := by
    rw [List.filterMap_append]
    exact List.sublist_append_left _ _
  have hacc := accumulated_concat config pushes p
  have hclips := clips_concat config pushes p
  have hclipped := clipped_concat config pushes p
  rcases (accumulated config pushes).step_cases p with ⟨-, hstep⟩ |
    ⟨frame, hframe, hkeep, hcases⟩
  · rw [hstep] at hacc hclips hclipped
    simp only [Option.map_none, Option.toList_none, Option.getD_none, List.append_nil] at hclips hclipped
    refine ⟨accepted, ?_, ?_, ?_, h.sublist.trans hgrows, h.spaced, ?_, ?_, ?_, ?_⟩
    · rw [hacc]; exact h.windowMs_eq
    · rw [hacc]; exact h.delayMs_eq
    · rw [hacc]; exact h.interval_eq
    · rw [hacc]; exact h.lastAccepted
    · rw [hacc, hclipped]; exact h.filled
    · rw [hacc, hclips]; exact h.lastEmit
    · rw [hclips]; exact h.sound
  · have hpts : frame.ptsMs = p.frame.ptsMs := by
      obtain ⟨jpeg, -, rfl⟩ := Option.map_eq_some_iff.mp hframe
      rfl
    have hspaced := h.spaced_concat hpos (hpts ▸ hkeep)
    have hsublist : (accepted ++ [frame]).Sublist ((pushes ++ [p]).filterMap Pushed.clipFrame) := by
      rw [List.filterMap_append, List.filterMap_cons_some hframe]
      exact h.sublist.append (List.Sublist.refl _)
    obtain ⟨hfilled, -⟩ := h.filled.buffered hspaced
    rcases hcases with ⟨-, hstep⟩ | ⟨-, -, hstep⟩ | ⟨hcovers, -, hstep⟩ <;>
      rw [hstep] at hacc hclips hclipped <;>
      refine ⟨accepted ++ [frame], by rw [hacc]; exact h.windowMs_eq,
        by rw [hacc]; exact h.delayMs_eq, by rw [hacc]; exact h.interval_eq, hsublist, hspaced,
        by rw [hacc, List.getLast?_concat]; rfl, ?_, ?_, ?_⟩ <;>
      simp only [Option.map_none, Option.toList_none, Option.getD_none, List.append_nil,
        Option.map_some, Option.toList_some, Option.getD_some] at hclips hclipped
    · rw [hacc, hclipped]; exact hfilled
    · rw [hacc, hclips]; exact h.lastEmit
    · rw [hclips]; exact h.sound
    · rw [hacc, hclipped]; exact hfilled.slid
    · rw [hacc, hclips]; exact h.lastEmit
    · rw [hclips]; exact h.sound
    · rw [hacc, hclipped]; exact hfilled.emit p.now
    · rw [hacc, hclips, List.getLast?_concat]; rfl
    · rw [hclips]
      intro c hc
      rcases List.mem_append.mp hc with hc | hc
      · exact h.sound c hc
      · rw [List.mem_singleton.mp hc]
        exact h.sound_emit hframe hpts hspaced hcovers

theorem exists_inv (hvalid : config.validate = .ok ()) (pushes : List Pushed) :
    ∃ accepted, Inv config pushes accepted := by
  induction pushes using List.reverseRecOn with
  | nil => exact ⟨[], inv_start hvalid⟩
  | append_singleton pushes p ih =>
    obtain ⟨accepted, h⟩ := ih
    exact h.push (intervalMs_pos hvalid) p

/-- Every clip of every run is as it should be, and the buffer is never too long. -/
theorem clips_sound (hvalid : config.validate = .ok ()) (pushes : List Pushed) :
    Clips config pushes := by
  obtain ⟨accepted, h⟩ := exists_inv hvalid pushes
  have hclipped := (List.sublist_append_left _ _).trans h.filled.sublist
  refine ⟨h.sound, hclipped.trans h.sublist, ?_, fun front _ ↦ ?_⟩
  · refine (h.spaced.sublist hclipped).imp fun {a b} hapart heq ↦ ?_
    have hpos := intervalMs_pos hvalid
    rw [heq] at hapart
    unfold Apart at hapart
    omega
  · obtain ⟨accepted, h⟩ := exists_inv hvalid front
    exact h.filled.bounded

/-! ### The delay -/

/-- In no push of a run the delay passes between the two readings. -/
def Steady (config : ClipConfig) (pushes : List Pushed) : Prop :=
  ∀ front p, front ++ [p] <+: pushes → ¬(accumulated config front).Straddles p

theorem steady_concat : Steady config (pushes ++ [p]) ↔
    Steady config pushes ∧ ¬(accumulated config pushes).Straddles p := by
  constructor
  · exact fun h ↦ ⟨fun front q hq ↦ h front q (hq.trans (List.prefix_append _ _)),
      h pushes p List.prefix_rfl⟩
  · rintro ⟨hpushes, hp⟩ front q hq
    rcases List.prefix_concat_iff.mp hq with heq | hq
    · obtain ⟨rfl, hsame⟩ := List.append_inj' heq rfl
      rwa [List.singleton_inj.mp hsame]
    · exact hpushes front q hq

theorem Clocked.concat (h : Clocked (pushes ++ [p])) :
    Clocked pushes ∧ p.now ≤ p.later ∧ ∀ q ∈ pushes, q.now ≤ p.now := by
  unfold Clocked at h
  rw [List.flatMap_append] at h
  obtain ⟨hpushes, hp, hacross⟩ := List.pairwise_append.mp h
  refine ⟨hpushes, (List.pairwise_cons.mp hp).1 _ List.mem_cons_self, fun q hq ↦ ?_⟩
  exact hacross q.now (List.mem_flatMap.mpr ⟨q, hq, List.mem_cons_self⟩) p.now List.mem_cons_self

/-- Clips come from pushes of the run. -/
theorem mem_of_mem_clips {c : Pushed × ClipWork} (h : c ∈ clips config pushes) : c.1 ∈ pushes := by
  obtain ⟨⟨q, work⟩, hq, hwork⟩ := List.mem_filterMap.mp h
  obtain ⟨work, -, rfl⟩ := Option.map_eq_some_iff.mp hwork
  exact (List.of_mem_zip hq).1

/-- The delay has passed at a reading exactly when the last clip lies that far back. -/
theorem Inv.not_tooSoon_iff {accepted : List ClipFrame} (h : Inv config pushes accepted)
    {reading : Nat} (hafter : ∀ q ∈ pushes, q.now ≤ reading) :
    ¬(accumulated config pushes).tooSoon reading ↔ ∀ c ∈ (clips config pushes).getLast?,
      c.1.now + config.delayMs.toNat * NANOS_PER_MILLI ≤ reading := by
  unfold ClipAccumulator.tooSoon
  rw [h.lastEmit, h.delayMs_eq]
  cases hlast : (clips config pushes).getLast? with
  | none => simp
  | some c =>
    have hc := hafter c.1 (mem_of_mem_clips (List.mem_of_getLast? hlast))
    have hpassed : (reading - c.1.now) / NANOS_PER_MILLI < config.delayMs.toNat ↔
        reading - c.1.now < config.delayMs.toNat * NANOS_PER_MILLI :=
      Nat.div_lt_iff_lt_mul (by decide)
    have hpos : 0 < config.delayMs ↔ 0 < config.delayMs.toNat := Iff.rfl
    rw [hpos, Option.map_some, Option.any_some, decide_eq_true_iff, hpassed]
    constructor
    · intro hnot d hd
      cases hd
      by_contra hlt
      refine hnot ⟨?_, by omega⟩
      rcases Nat.eq_zero_or_pos config.delayMs.toNat with hzero | hpos
      · rw [hzero] at hlt
        omega
      · exact hpos
    · rintro hle ⟨-, hlt⟩
      have := hle c rfl
      omega

/-- Clips are the delay apart exactly in the runs where no push straddles the end of it. -/
theorem delayed_iff_steady (hvalid : config.validate = .ok ()) (hclock : Clocked pushes) :
    Delayed config pushes ↔ Steady config pushes := by
  induction pushes using List.reverseRecOn with
  | nil =>
    refine iff_of_true List.IsChain.nil fun front p hp ↦ ?_
    exact absurd (List.prefix_nil.mp hp) (List.append_ne_nil_of_right_ne_nil _ (List.cons_ne_nil _ _))
  | append_singleton pushes p ih =>
    obtain ⟨hbefore, hreadings, hnow⟩ := hclock.concat
    obtain ⟨accepted, h⟩ := exists_inv hvalid pushes
    have hnow_iff := h.not_tooSoon_iff hnow
    have hlater_iff := h.not_tooSoon_iff fun q hq ↦ Nat.le_trans (hnow q hq) hreadings
    rw [steady_concat, ← ih hbefore]
    unfold Delayed
    rw [clips_concat]
    rcases (accumulated config pushes).step_cases p with ⟨haccepts, hstep⟩ |
      ⟨frame, -, -, ⟨hcovers, hstep⟩ | ⟨-, hsoon, hstep⟩ | ⟨hcovers, hsoon, hstep⟩⟩
    · rw [hstep]
      have hsteady : ¬(accumulated config pushes).Straddles p := by
        rintro ⟨⟨haccepted, -⟩, -⟩
        rw [haccepts] at haccepted
        cases haccepted
      simp [hsteady]
    · rw [hstep]
      have hsteady : ¬(accumulated config pushes).Straddles p := fun hs ↦ hcovers hs.1
      simp [hsteady]
    · rw [hstep]
      have hsteady : ¬(accumulated config pushes).Straddles p := fun hs ↦ hs.2.2 hsoon
      simp [hsteady]
    · rw [hstep]
      have hsteady : ¬(accumulated config pushes).Straddles p ↔
          ¬(accumulated config pushes).tooSoon p.now := by
        unfold ClipAccumulator.Straddles
        simp [hcovers, hsoon]
      rw [hsteady, hnow_iff, Option.map_some, Option.toList_some, List.isChain_append]
      simp

/-- The clips of a run are as they should be and the delay apart exactly if no push straddles the
end of the delay. -/
theorem clips_delayed_iff (hvalid : config.validate = .ok ()) (hclock : Clocked pushes) :
    (Clips config pushes ∧ Delayed config pushes) ↔ Steady config pushes := by
  rw [and_iff_right (clips_sound hvalid pushes)]
  exact delayed_iff_steady hvalid hclock

/-- Clips of half a second at six frames per second, half a second apart. -/
def sampleClipConfig : ClipConfig := ⟨6, ⟨0x3F000000⟩, ⟨0x3F000000⟩⟩

/-- A frame with an image, pushed between two readings of the clock. -/
def pushed (ptsMs : UInt64) (now later : Nat) : Pushed := ⟨⟨some [0xFF], ptsMs⟩, now, later⟩

theorem clips_delayed_iff_sample :
    (Clips sampleClipConfig [pushed 0 0 0, pushed 500 0 1, pushed 1000 2 2,
      pushed 1500 500000000 500000001] ∧
    Delayed sampleClipConfig [pushed 0 0 0, pushed 500 0 1, pushed 1000 2 2,
      pushed 1500 500000000 500000001]) ↔
    Steady sampleClipConfig [pushed 0 0 0, pushed 500 0 1, pushed 1000 2 2,
      pushed 1500 500000000 500000001] :=
  clips_delayed_iff rfl (by unfold Clocked; decide)

/-- The delay passes between the readings of the second clip: it is emitted all the same. -/
theorem straddled_delay : sampleClipConfig.validate = .ok () ∧
    Clocked [pushed 0 0 0, pushed 500 0 0, pushed 1000 2 2, pushed 1500 499999999 500000000] ∧
    ¬Delayed sampleClipConfig
      [pushed 0 0 0, pushed 500 0 0, pushed 1000 2 2, pushed 1500 499999999 500000000] := by
  refine ⟨rfl, by unfold Clocked; decide, ?_⟩
  unfold Delayed
  decide +kernel

end Vidarax.Live
