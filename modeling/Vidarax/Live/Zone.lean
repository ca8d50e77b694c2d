import Vidarax.Base.FloatArith
import Vidarax.Base.Hysteresis
import Vidarax.Base.Result
import Vidarax.Live.Gate

/-!
# Restricted zones

Package `vidarax-core`, `crates/vidarax-core/src/zone.rs:26–222`. A policy names a region of the
image and two thresholds for the motion in it. The state of a zone counts the samples in a row that
reach the threshold for a change, and reports each change. It is a switch with hysteresis.
-/

namespace Vidarax.Live

open Vidarax.Base

/-! ### Policies -/

/-- `MAX_ID_BYTES`. -/
def MAX_ID_BYTES : Nat := 128

/-- `MAX_TRANSITION_FRAMES`. -/
def MAX_TRANSITION_FRAMES : Nat := 300

/-- `NormalizedRect`; `coordinates.rs:30`. -/
structure NormalizedRect where
  x : F32
  y : F32
  width : F32
  height : F32

/-- `RestrictedZonePolicy` as it is configured, with what a zone does not decide by; `zone.rs:29`. -/
structure ConfiguredZonePolicy extends RestrictedZonePolicy where
  policyId : String
  policyVersion : UInt64
  deviceId : String
  region : NormalizedRect

/-- `char::is_control`. -/
def isControl (c : Char) : Bool := c.val ≤ 0x1F || (0x7F ≤ c.val && c.val ≤ 0x9F)

/-- `validate_identifier`; `zone.rs:76`. -/
def validateIdentifier (value field : String) : Except String Unit :=
  if value.isEmpty || MAX_ID_BYTES < value.utf8ByteSize || value.toList.any isControl then
    .error (if field = "policy_id" then
        "policy_id must be 1..=128 bytes and contain no control characters"
      else "device_id must be 1..=128 bytes and contain no control characters")
  else .ok ()

/-- `validate_region`; `zone.rs:86`. -/
def validateRegion (region : NormalizedRect) : Except String Unit :=
  if [region.x, region.y, region.width, region.height].any fun value ↦ !value.isFinite then
    .error "region values must be finite"
  else if region.x.lt .zero || region.y.lt .zero || region.width.le .zero || region.height.le .zero ||
      F32.one.lt (region.x.add region.width) || F32.one.lt (region.y.add region.height) then
    .error "region must be a non-empty rectangle within normalized image bounds"
  else .ok ()

namespace ConfiguredZonePolicy

/-- A score is not finite or not in `[0, 1]`. -/
def outside (score : F32) : Bool := !score.isFinite || !(F32.zero.le score && score.le .one)

/-- `RestrictedZonePolicy::validate`; `zone.rs:41`. -/
def validate (policy : ConfiguredZonePolicy) : Except String Unit := do
  validateIdentifier policy.policyId "policy_id"
  validateIdentifier policy.deviceId "device_id"
  (if policy.policyVersion = 0 then .error "policy_version must be greater than zero" else .ok ())
  validateRegion policy.region
  if outside policy.enterMotionScore then
    .error "enter_motion_score must be finite and in [0, 1]"
  else if outside policy.exitMotionScore then
    .error "exit_motion_score must be finite and in [0, 1]"
  else if policy.enterMotionScore.le policy.exitMotionScore then
    .error "exit_motion_score must be lower than enter_motion_score"
  else if ¬(1 ≤ policy.enterAfterFrames.toNat ∧
      policy.enterAfterFrames.toNat ≤ MAX_TRANSITION_FRAMES) then
    .error "enter_after_frames must be in [1, 300]"
  else if ¬(1 ≤ policy.exitAfterFrames.toNat ∧
      policy.exitAfterFrames.toNat ≤ MAX_TRANSITION_FRAMES) then
    .error "exit_after_frames must be in [1, 300]"
  else .ok ()

end ConfiguredZonePolicy

namespace RestrictedZonePolicy

/-- A score that speaks for the end, or the start, of activity. -/
def accepts (policy : RestrictedZonePolicy) (active : Bool) (score : F32) : Bool :=
  if active then score.le policy.exitMotionScore else policy.enterMotionScore.le score

/-- How many such scores in a row a change takes. -/
def needed (policy : RestrictedZonePolicy) (active : Bool) : Nat :=
  if active then policy.exitAfterFrames.toNat else policy.enterAfterFrames.toNat

/-- What a zone reports when it leaves a mode. -/
def observation (policy : RestrictedZonePolicy) (active : Bool) (score : F32) :
    ZoneActivityObservation where
  transition := if active then .exited else .entered
  motionScore := score
  threshold := if active then policy.exitMotionScore else policy.enterMotionScore
  consecutiveFrames := if active then policy.exitAfterFrames else policy.enterAfterFrames

/-- A report of the switch, as the zone makes it. -/
def seen (policy : RestrictedZonePolicy) (r : F32 × Option Bool) :
    F32 × Option ZoneActivityObservation := (r.1, r.2.map (policy.observation · r.1))

end RestrictedZonePolicy

/-- A change of a valid policy takes at least one frame. -/
theorem needed_of_validate {policy : ConfiguredZonePolicy} (h : policy.validate = .ok ())
    (active : Bool) : 0 < policy.needed active := by
  obtain ⟨_, -, h⟩ := bind_eq_ok h
  obtain ⟨_, -, h⟩ := bind_eq_ok h
  obtain ⟨_, -, h⟩ := bind_eq_ok h
  obtain ⟨_, -, h⟩ := bind_eq_ok h
  obtain ⟨-, h⟩ := guard_eq_ok h
  obtain ⟨-, h⟩ := guard_eq_ok h
  obtain ⟨-, h⟩ := guard_eq_ok h
  obtain ⟨henter, h⟩ := guard_eq_ok h
  obtain ⟨hexit, -⟩ := guard_eq_ok h
  cases active with
  | false => exact (not_not.mp henter).1
  | true => exact (not_not.mp hexit).1

namespace RestrictedZoneState

/-- `RestrictedZoneState::try_new`; `zone.rs:161`. -/
def tryNew (policy : ConfiguredZonePolicy) : Except String RestrictedZoneState := do
  policy.validate
  .ok (new policy.toRestrictedZonePolicy)

/-- The scores of a run, each with what was observed at it. -/
def observations (state : RestrictedZoneState) :
    List F32 → List (F32 × Option ZoneActivityObservation)
  | [] => []
  | score :: scores =>
    (score, (state.observe score).1) :: observations (state.observe score).2 scores

end RestrictedZoneState

/-! ### The zone is a switch -/

namespace RestrictedZoneState

/-- The state of a switch: the streak that counts is that of the mode. -/
def switch (state : RestrictedZoneState) : Switch :=
  ⟨state.active, (if state.active then state.exitStreak else state.enterStreak).toNat⟩

/-- A streak that is not enough yet does not stop growing. -/
theorem toNat_grow {streak enough : UInt16} (h : streak < enough) :
    (grow streak).toNat = streak.toNat + 1 := by
  have hlt : streak.toNat < enough.toNat := h
  have hmax := enough.toNat_lt
  rw [grow, Nat.min_eq_left (by omega)]
  apply UInt16.toNat_ofNat_of_lt'
  simp only [UInt16.size]
  omega

/-- A streak that has become enough is just enough. -/
theorem grow_eq {streak enough : UInt16} (h : streak < enough) (hle : enough ≤ grow streak) :
    grow streak = enough := by
  apply UInt16.toNat_inj.mp
  have hgrow := toNat_grow h
  have hlt : streak.toNat < enough.toNat := h
  have hle : enough.toNat ≤ (grow streak).toNat := hle
  omega

/-- A sample is observed as the switch takes it, while the streak is not enough. -/
theorem observe_spec (state : RestrictedZoneState) (score : F32)
    (hstreak : state.switch.streak < state.policy.needed state.active) :
    (state.observe score).1 =
        (state.switch.step state.policy.accepts state.policy.needed score).1.map
          (state.policy.observation · score) ∧
      (state.observe score).2.switch =
        (state.switch.step state.policy.accepts state.policy.needed score).2 ∧
      (state.observe score).2.policy = state.policy := by
  obtain ⟨policy, active, enterStreak, exitStreak⟩ := state
  cases active with
  | false =>
    have hlt : enterStreak < policy.enterAfterFrames := hstreak
    simp only [observe, switch, Switch.step, ← toNat_grow hlt, RestrictedZonePolicy.accepts,
      RestrictedZonePolicy.needed, Bool.false_eq_true, if_false, ← UInt16.le_iff_toNat_le]
    by_cases hx : policy.enterMotionScore.le score = true
    · rw [if_pos hx, if_pos hx]
      by_cases hle : policy.enterAfterFrames ≤ grow enterStreak
      · rw [if_pos hle, if_pos hle, grow_eq hlt hle]
        exact ⟨rfl, rfl, rfl⟩
      · rw [if_neg hle, if_neg hle]
        exact ⟨rfl, rfl, rfl⟩
    · rw [if_neg hx, if_neg hx]
      exact ⟨rfl, rfl, rfl⟩
  | true =>
    have hlt : exitStreak < policy.exitAfterFrames := hstreak
    simp only [observe, switch, Switch.step, ← toNat_grow hlt, RestrictedZonePolicy.accepts,
      RestrictedZonePolicy.needed, if_true, ← UInt16.le_iff_toNat_le]
    by_cases hx : score.le policy.exitMotionScore = true
    · rw [if_pos hx, if_pos hx]
      by_cases hle : policy.exitAfterFrames ≤ grow exitStreak
      · rw [if_pos hle, if_pos hle, grow_eq hlt hle]
        exact ⟨rfl, rfl, rfl⟩
      · rw [if_neg hle, if_neg hle]
        exact ⟨rfl, rfl, rfl⟩
    · rw [if_neg hx, if_neg hx]
      exact ⟨rfl, rfl, rfl⟩

/-- The observations of a run are the reports of the switch. -/
theorem observations_eq (state : RestrictedZoneState) {policy : RestrictedZonePolicy}
    (hpolicy : state.policy = policy) (hpos : ∀ active, 0 < policy.needed active)
    {earlier : List (F32 × Option Bool)}
    (h : state.switch.Remembers policy.accepts policy.needed earlier) (scores : List F32) :
    state.observations scores =
      (state.switch.reports policy.accepts policy.needed scores).map policy.seen := by
  induction scores generalizing state earlier with
  | nil => rfl
  | cons score scores ih =>
    subst hpolicy
    obtain ⟨hreport, hswitch, hsame⟩ := state.observe_spec score h.streak_lt
    have hnext := h.step hpos score
    rw [← hswitch] at hnext
    rw [observations, Switch.reports, List.map_cons, hreport, ih _ hsame hnext, hswitch]
    rfl

end RestrictedZoneState

/-! ### Hysteresis -/

open Switch (since changes)

/-- The last transition, if there is one, was into the zone. -/
def Active (earlier : List (F32 × Option ZoneActivityObservation)) : Prop :=
  (changes earlier).getLast?.map (·.transition) = some .entered

/-- What a policy says about the observations of a run. -/
structure Hysteretic (policy : RestrictedZonePolicy)
    (observations : List (F32 × Option ZoneActivityObservation)) : Prop where
  alternate : ∀ (i : Nat) (observation : ZoneActivityObservation),
    (changes observations)[i]? = some observation →
      observation.transition = if i % 2 = 0 then .entered else .exited
  entered : ∀ (earlier later : List (F32 × Option ZoneActivityObservation)) (score : F32)
    (report : Option ZoneActivityObservation), observations = earlier ++ (score, report) :: later →
      (report.map (·.transition) = some .entered ↔ ¬Active earlier ∧
        FirstHeld policy.enterMotionScore.le policy.enterAfterFrames.toNat
          (since earlier ++ [score]))
  exited : ∀ (earlier later : List (F32 × Option ZoneActivityObservation)) (score : F32)
    (report : Option ZoneActivityObservation), observations = earlier ++ (score, report) :: later →
      (report.map (·.transition) = some .exited ↔ Active earlier ∧
        FirstHeld (·.le policy.exitMotionScore) policy.exitAfterFrames.toNat
          (since earlier ++ [score]))
  consecutive : ∀ (score : F32) (observation : ZoneActivityObservation),
    (score, some observation) ∈ observations → observation.consecutiveFrames =
      match observation.transition with
      | .entered => policy.enterAfterFrames
      | .exited => policy.exitAfterFrames

/-- The observations of a switch, seen as its reports. -/
private theorem changes_map (policy : RestrictedZonePolicy) (reports : List (F32 × Option Bool)) :
    (changes (reports.map policy.seen)).map (·.transition) = (changes reports).map fun active ↦
      if active then ZoneActivityTransition.exited else .entered := by
  induction reports with
  | nil => rfl
  | cons r reports ih =>
    obtain ⟨score, report⟩ := r
    cases report with
    | none => exact ih
    | some active => exact congrArg (_ :: ·) ih

private theorem since_map (policy : RestrictedZonePolicy) (reports : List (F32 × Option Bool)) :
    since (reports.map policy.seen) = since reports := by
  induction reports using List.reverseRecOn with
  | nil => rfl
  | append_singleton reports r ih =>
    obtain ⟨score, report⟩ := r
    rw [List.map_append, List.map_singleton, RestrictedZonePolicy.seen, Switch.since_concat,
      Switch.since_concat, ih, Option.isNone_map]

private theorem active_map (policy : RestrictedZonePolicy) (reports : List (F32 × Option Bool)) :
    Active (reports.map policy.seen) ↔ Switch.modeAfter reports = true := by
  rw [Active, ← List.getLast?_map, changes_map, List.getLast?_map, Switch.modeAfter]
  cases (changes reports).getLast? with
  | none => decide
  | some active => cases active <;> decide

/-- For a valid policy the transitions alternate, each is reported at the first sample at which the
scores since the one before it call for it, and with the configured number of frames. -/
theorem observations_hysteretic (policy : ConfiguredZonePolicy) (state : RestrictedZoneState)
    (h : RestrictedZoneState.tryNew policy = .ok state) (scores : List F32) :
    Hysteretic policy.toRestrictedZonePolicy (state.observations scores) := by
  obtain ⟨_, hvalid, hstate⟩ := bind_eq_ok h
  cases hstate
  have hpos := needed_of_validate hvalid
  generalize policy.toRestrictedZonePolicy = policy at hpos ⊢
  have hrun : (RestrictedZoneState.new policy).observations scores =
      ((Switch.mk false 0).reports policy.accepts policy.needed scores).map policy.seen :=
    RestrictedZoneState.observations_eq (.new policy) rfl hpos
      (Switch.Remembers.start (hpos false)) scores
  rw [hrun]
  -- one sample of the run, as the switch reports it
  have hsample {earlier later : List (F32 × Option ZoneActivityObservation)} {score : F32}
      {report : Option ZoneActivityObservation} {reports : List (F32 × Option Bool)}
      (hrun : reports.map policy.seen = earlier ++ (score, report) :: later) :
      ∃ before after change, reports = before ++ (score, change) :: after ∧
        earlier = before.map policy.seen ∧ report = change.map (policy.observation · score) := by
    obtain ⟨before, rest, rfl, rfl, hrest⟩ := List.map_eq_append_iff.mp hrun
    obtain ⟨⟨score', change⟩, after, rfl, hhead, -⟩ := List.map_eq_cons_iff.mp hrest
    cases hhead
    exact ⟨before, after, change, rfl, rfl, rfl⟩
  refine ⟨?_, ?_, ?_, ?_⟩
  · intro i observation hi
    have hmap := congrArg (Option.map ZoneActivityObservation.transition) hi
    rw [← List.getElem?_map] at hmap
    rw [changes_map, List.getElem?_map] at hmap
    obtain ⟨active, hactive, htransition⟩ := Option.map_eq_some_iff.mp hmap
    rw [← htransition, Switch.changes_reports hpos hactive]
    rcases Nat.mod_two_eq_zero_or_one i with hparity | hparity <;> rw [hparity] <;> rfl
  · intro earlier later score report hrun
    obtain ⟨before, after, change, hreports, rfl, rfl⟩ := hsample hrun
    have hiff := Switch.report_iff hpos hreports (m := false)
    rw [active_map, since_map, Bool.not_eq_true]
    refine Iff.trans ?_ hiff
    rcases change with _ | (_ | _) <;> simp [RestrictedZonePolicy.observation]
  · intro earlier later score report hrun
    obtain ⟨before, after, change, hreports, rfl, rfl⟩ := hsample hrun
    have hiff := Switch.report_iff hpos hreports (m := true)
    rw [active_map, since_map]
    refine Iff.trans ?_ hiff
    rcases change with _ | (_ | _) <;> simp [RestrictedZonePolicy.observation]
  · intro score observation hmem
    obtain ⟨⟨score', change⟩, -, heq⟩ := List.mem_map.mp hmem
    obtain ⟨rfl, hchange⟩ := Prod.mk.inj heq
    obtain ⟨active, -, rfl⟩ := Option.map_eq_some_iff.mp hchange
    cases active <;> rfl

/-- The policy of a loading bay: two frames of much motion start activity, three of little end it. -/
def loadingBay : ConfiguredZonePolicy where
  policyId := "bay"
  policyVersion := 3
  deviceId := "cam"
  region := ⟨⟨0x3E800000⟩, ⟨0x3E800000⟩, ⟨0x3F000000⟩, ⟨0x3F000000⟩⟩
  enterMotionScore := ⟨0x3F000000⟩
  exitMotionScore := ⟨0x3E800000⟩
  enterAfterFrames := 2
  exitAfterFrames := 3

/-- The zone of the loading bay under scores that are not numbers. -/
theorem observations_hysteretic_sample : Hysteretic loadingBay.toRestrictedZonePolicy
    ((RestrictedZoneState.new loadingBay.toRestrictedZonePolicy).observations
      [.nan, .one, .one, .nan]) :=
  observations_hysteretic loadingBay (.new loadingBay.toRestrictedZonePolicy) (by rfl) _

end Vidarax.Live
