import Vidarax.Base.Machine
import Vidarax.Edge.Disk

/-!
# The commands of an edge device

Package `vidarax-cli`, `edge.rs` 344–484, 512–731, 882–1011: `apply` and `report`, and the
transitions they go through. A command may be cut off before any of its operations; the next one
begins by completing the transition that the state file records.
-/

namespace Vidarax.Edge

open Base Program

/-! ### Transitions -/

/-- `complete_pending_transition`, with the state that it leaves in memory. -/
def complete_pending_transition (state : DeviceState) :
    EdgeM (Except String Unit × DeviceState) :=
  match state.pending_transition with
  | none => pure (.error "there is no pending edge transition", state)
  | some transition => do
    let candidate := transition.candidate
    match ← run_transition_hook state transition.action candidate.artifact_path
        candidate.release_id with
    | .error e => return (.error e, state)
    | .ok () =>
      match transition.action with
      | .StageShadow | .StageCanary =>
        finish { state with candidate := some candidate }
      | .Activate =>
        match ← write_current_pointer candidate.artifact_path with
        | .error e => return (.error e, state)
        | .ok () =>
          finish { state with
            previous_release := state.current_release
            current_release := some candidate.release_id
            candidate := none }
      | .Rollback =>
        finish { state with
          candidate := none
          last_rejected_release := some candidate.release_id }
where
  /-- The end of every transition: nothing is pending, and the state is written. -/
  finish (state : DeviceState) : EdgeM (Except String Unit × DeviceState) := do
    let state := { state with pending_transition := none }
    return (← write_state state, state)

/-- `complete_or_rollback_pending_transition`. -/
def complete_or_rollback_pending_transition (state : DeviceState) : EdgeM DeviceState := do
  let (completed, state) ← complete_pending_transition state
  match completed with
  | .ok () => return state
  | .error error =>
    match state.pending_transition with
    | none => fail error
    | some pending =>
      if pending.action = .Rollback then
        fail error
      else
        let state := { state with pending_transition := some ⟨.Rollback, pending.candidate⟩ }
        check (write_state state)
        let (completed, _) ← complete_pending_transition state
        match completed with
        | .ok () =>
          fail (pending.action.as_str ++ " transition failed and was rolled back: " ++ error)
        | .error rollback_error =>
          fail (pending.action.as_str ++ " transition failed: " ++ error ++
            "; rollback also failed: " ++ rollback_error)

/-- `perform_transition`. -/
def perform_transition (state : DeviceState) (transition : PendingTransition) :
    EdgeM DeviceState := do
  let state := { state with pending_transition := some transition }
  check (write_state state)
  complete_or_rollback_pending_transition state

/-- `recover_pending_transition`. -/
def recover_pending_transition (state : DeviceState) : EdgeM DeviceState :=
  if state.pending_transition.isSome then
    complete_or_rollback_pending_transition state
  else
    pure state

/-- Releases that the device may come back to: `keep` of `prune_releases`. -/
def DeviceState.keep (state : DeviceState) : List String :=
  state.current_release.toList ++ state.previous_release.toList ++
    (state.candidate.map (·.release_id)).toList ++
    (state.pending_transition.map (·.candidate.release_id)).toList

/-- One entry of `releases` in the loop of `prune_releases`. -/
def prune_entry (state : DeviceState) (name : String) : EdgeM Unit := do
  if name ∈ state.keep then
    return ()
  else if ← dir_exists name then
    check (remove_release name)

/-- The loop of `prune_releases`. -/
def prune_entries (state : DeviceState) : List String → EdgeM Unit
  | [] => pure ()
  | name :: names => do
    prune_entry state name
    prune_entries state names

/-- `prune_releases`. -/
def prune_releases (state : DeviceState) : EdgeM Unit := do
  let names ← check read_dir
  prune_entries state names
  check sync_directory

/-! ### Artifacts -/

/-- `MIN_FREE_SPACE_HEADROOM_BYTES`. -/
def MIN_FREE_SPACE_HEADROOM_BYTES : Nat := 256 * 1024 * 1024

/-- `reserve_artifact_space`. -/
def reserve_artifact_space (artifact_bytes : Nat) : EdgeM Unit := do
  let (maximum, available) ← check available_space
  if maximum = 0 ∨ artifact_bytes > maximum then
    fail s!"signed artifact size {artifact_bytes} exceeds device limit {maximum}"
  else
    let required := min (artifact_bytes + MIN_FREE_SPACE_HEADROOM_BYTES) u64Max
    if available < required then
      fail s!"insufficient edge storage: {available} bytes available, {required} required"

variable {Message : Type} [DecidableEq Message] (crypto : Crypto Message)

/-- The checks of `download_verified_artifact` on an artifact's location. -/
def check_uri (uri : String) : Except String Unit :=
  if (utf8 "file://").isPrefixOf (utf8 uri) then
    if (utf8 "file:///").isPrefixOf (utf8 uri) then .ok ()
    else .error "file artifact uri must contain an absolute path"
  else if (utf8 "https://").isPrefixOf (utf8 uri) then .ok ()
  else .error "artifact uri must use https:// or file://"

/-- `download_verified_artifact` into a staging directory. -/
def download_verified_artifact (artifact : Artifact) (staging : String) : EdgeM Unit := do
  lift (check_uri artifact.uri)
  let contents ← check (fetch artifact.uri)
  if contents.length > artifact.size_bytes then
    fail "artifact exceeds its signed size"
  else if contents.length ≠ artifact.size_bytes then
    fail s!"artifact size mismatch: expected {artifact.size_bytes}, received {contents.length}"
  else if hex_encode (crypto.sha256 contents) ≠ (utf8 artifact.sha256).map toAsciiLowercase then
    fail "artifact sha256 mismatch"
  else
    check (stage_model staging contents)

/-- `verify_artifact_file`. -/
def verify_artifact_file (artifact : Artifact) (path : PathBuf) : EdgeM Unit := do
  let contents ← check (read_model path)
  if contents.length > artifact.size_bytes then
    fail "stored artifact exceeds its signed size"
  else if contents.length ≠ artifact.size_bytes then
    fail "stored artifact size does not match its signed size"
  else if hex_encode (crypto.sha256 contents) ≠ (utf8 artifact.sha256).map toAsciiLowercase then
    fail "stored artifact sha256 mismatch"

/-! ### Applying a manifest -/

/-- `.{release_id}.staging-{pid}`. -/
def staging_dir (release_id : String) (pid : Nat) : String :=
  "." ++ release_id ++ ".staging-" ++ toString pid

/-- The `staged` block of `apply`. -/
def stage_release (manifest : ModelManifest) (staging : String) : EdgeM Unit := do
  download_verified_artifact crypto manifest.artifact staging
  check (stage_manifest staging manifest)
  check (publish staging manifest.release_id)
  check sync_directory

/-- A staging directory that was left behind is removed. -/
def clear_stale (staging : String) : EdgeM Unit := do
  if ← dir_exists staging then
    check (clear_staging staging)

/-- Where `apply` finds no stored manifest: download, verify and publish the release. -/
def download_release (manifest : ModelManifest) (pid : Nat) : EdgeM Unit := do
  if ← dir_exists manifest.release_id then
    fail s!"release_id {manifest.release_id} has an incomplete existing release directory"
  else
    reserve_artifact_space manifest.artifact.size_bytes
    let staging := staging_dir manifest.release_id pid
    clear_stale staging
    check (create_staging staging)
    let staged ← (stage_release crypto manifest staging).attempt
    match staged with
    | .ok () => pure ()
    | .error e => do
      discard (clear_staging staging)
      fail e

/-- The hook action for the stage of a new release. -/
def RolloutStage.action : RolloutStage → HookAction
  | Shadow => .StageShadow
  | Canary => .StageCanary
  | Active => .Activate

/-- The candidate that a manifest makes. -/
def ModelManifest.toCandidate (manifest : ModelManifest) : CandidateState where
  release_id := manifest.release_id
  stage := manifest.stage
  manifest_path := .manifest_json manifest.release_id
  artifact_path := .model_bin manifest.release_id

/-- The release of a manifest is in place: it was stored before, or it is downloaded. -/
def obtain_release (manifest : ModelManifest) (pid : Nat) : EdgeM Unit := do
  if ← manifest_exists (.manifest_json manifest.release_id) then
    verify_artifact_file crypto manifest.artifact (.model_bin manifest.release_id)
  else
    download_release crypto manifest pid

/-- A candidate is rolled back before another release takes its place. -/
def replace_candidate (state : DeviceState) : EdgeM DeviceState :=
  match state.candidate with
  | some candidate => perform_transition state ⟨.Rollback, candidate⟩
  | none => pure state

/-- `apply` from the sequence check on. -/
def apply_new (state : DeviceState) (manifest : ModelManifest) (pid : Nat) : EdgeM String := do
  if manifest.sequence ≤ state.highest_release_sequence then
    fail (s!"release sequence {manifest.sequence} is not newer than " ++
      s!"device high-water mark {state.highest_release_sequence}")
  else
    obtain_release crypto manifest pid
    let state ← replace_candidate state
    let state := { state with
      highest_release_sequence := manifest.sequence
      pending_transition := some ⟨manifest.stage.action, manifest.toCandidate⟩ }
    check (write_state state)
    let state ← complete_or_rollback_pending_transition state
    prune_releases state
    return "verified and staged model release"

/-- A stored manifest of the same release is the same manifest. -/
def check_binding (manifest : ModelManifest) : EdgeM Unit := do
  let stored_manifest := PathBuf.manifest_json manifest.release_id
  if ← manifest_exists stored_manifest then
    let stored ← check (read_manifest stored_manifest)
    if crypto.to_vec stored ≠ crypto.to_vec manifest then
      fail s!"release_id {manifest.release_id} is already bound to a different signed manifest"

/-- `apply` of a manifest whose own checks it passed. -/
def apply_verified (state : DeviceState) (manifest : ModelManifest) (pid : Nat) :
    EdgeM String := do
  if manifest.hardware_cohort ≠ state.hardware_cohort then
    fail (s!"manifest hardware cohort {manifest.hardware_cohort} does not match " ++
      s!"enrolled cohort {state.hardware_cohort}")
  else
    check_binding crypto manifest
    if state.current_release = some manifest.release_id ∨
        state.candidate.map (·.release_id) = some manifest.release_id then
      return "desired model release is already present"
    else if state.last_rejected_release = some manifest.release_id then
      return "desired model release was already rejected"
    else
      apply_new crypto state manifest pid

/-- `apply` of what a manifest file holds, by a process with an identifier. -/
def apply (file : Except String ModelManifest) (pid : Nat) : EdgeM String := do
  check acquire
  let state ← check read_state
  let state ← recover_pending_transition state
  prune_releases state
  let manifest ← lift file
  lift (validate_manifest manifest)
  lift (verify_manifest crypto manifest state.update_public_key)
  apply_verified crypto state manifest pid

/-! ### Health reports -/

/-- The derived `Debug` of `RolloutStage`. -/
def RolloutStage.debug : RolloutStage → String
  | Shadow => "Shadow"
  | Canary => "Canary"
  | Active => "Active"

/-- What a health report states: the arguments of `report`. -/
structure HealthReport where
  expected_release_id : String
  expected_stage : RolloutStage
  samples : Nat
  success_rate : F64
  p95_ms : Nat
  rss_bytes : Nat

/-- The measurements meet the bounds. -/
def HealthReport.accepted (r : HealthReport) (acceptance : Acceptance) : Bool :=
  r.samples ≥ acceptance.minimum_samples ∧
    F64.le acceptance.minimum_success_rate r.success_rate ∧
    r.p95_ms ≤ acceptance.maximum_p95_ms ∧ r.rss_bytes ≤ acceptance.maximum_rss_bytes

/-- The transition that a report starts, and the text of its outcome. -/
def HealthReport.transition (r : HealthReport) (candidate : CandidateState)
    (acceptance : Acceptance) : PendingTransition × String :=
  if ¬ r.accepted acceptance then
    (⟨.Rollback, candidate⟩, "rolled_back")
  else if candidate.stage = .Shadow then
    (⟨.StageCanary, { candidate with stage := .Canary }⟩, "advanced_to_canary")
  else
    (⟨.Activate, { candidate with stage := .Active }⟩, "activated")

/-- `report`. -/
def report (r : HealthReport) : EdgeM String := do
  check acquire
  lift (validate_identifier "release_id" r.expected_release_id)
  if ¬ inUnit r.success_rate ∨ ¬ r.success_rate.isFinite then
    fail "success_rate must be finite and in [0, 1]"
  else
    let state ← check read_state
    let state ← recover_pending_transition state
    match state.candidate with
    | none => fail "there is no staged candidate"
    | some candidate =>
      if candidate.release_id ≠ r.expected_release_id ∨ candidate.stage ≠ r.expected_stage then
        fail (s!"stale health report for {r.expected_release_id} {r.expected_stage.debug}; " ++
          s!"current candidate is {candidate.release_id} {candidate.stage.debug}")
      else
        let manifest ← check (read_manifest candidate.manifest_path)
        let (transition, outcome) := r.transition candidate manifest.acceptance
        let state ← perform_transition state transition
        prune_releases state
        return outcome

/-- The commands that change a device. -/
inductive Command where
  | apply (file : Except String ModelManifest) (pid : Nat)
  | report (r : HealthReport)

/-- The manifest that a command applies. -/
def Command.manifest : Command → Option ModelManifest
  | .apply (.ok manifest) _ => some manifest
  | _ => none

/-- The program of a command. -/
def Command.program : Command → EdgeM String
  | .apply file pid => Edge.apply crypto file pid
  | .report r => Edge.report r

/-- An operation that a command performed. -/
abbrev Entry : Type := Event Command Op Disk

/-- The state directory after `enroll`. -/
def Disk.enrolled (hardware_cohort update_public_key : String) : Disk where
  device :=
    { hardware_cohort, update_public_key
      current_release := none
      previous_release := none
      candidate := none
      last_rejected_release := none
      highest_release_sequence := 0
      pending_transition := none }
  current_model := none
  releases := []

end Vidarax.Edge
