import Vidarax.Edge.Commands

/-!
# What a command can do to an edge device

Package `vidarax-cli`, `edge.rs` 344–484, 512–731. Every single operation of `apply` and `report`
either leaves the disk as it was or makes one of a few changes, with what the command has checked
before it. Everything that is said of histories follows from these.
-/

namespace Vidarax.Edge

open Base Program

/-! ### Directories -/

section Folders

variable {d d' : Disk} {name n : String} {f : Folder}

theorem lookup_filter_ne (entries : List (String × Folder)) (h : n ≠ name) :
    (entries.filter (·.1 ≠ name)).lookup n = entries.lookup n := by
  induction entries with
  | nil => rfl
  | cons entry entries ih =>
    by_cases hname : entry.1 = name
    · rw [List.filter_cons_of_neg (by simpa using hname), ih, List.lookup_cons,
        beq_eq_false_iff_ne.2 (by rw [hname]; exact h)]
    · rw [List.filter_cons_of_pos (by simpa using hname), List.lookup_cons, List.lookup_cons, ih]

theorem lookup_filter_self (entries : List (String × Folder)) :
    (entries.filter (·.1 ≠ name)).lookup name = none := by
  rw [List.lookup_eq_none_iff]
  intro entry hentry
  simpa using Ne.symm (of_decide_eq_true (List.mem_filter.1 hentry).2)

theorem folder_erase_of_ne (h : n ≠ name) : (d.erase name).folder n = d.folder n := by
  simp only [Disk.folder, Disk.erase, lookup_filter_ne _ h]

theorem folder_put_of_ne (h : n ≠ name) : (d.put name f).folder n = d.folder n := by
  simp only [Disk.folder, Disk.put, List.lookup_cons, beq_eq_false_iff_ne.2 h,
    lookup_filter_ne _ h]

theorem folder_erase_self (h : name ≠ "." ∧ name ≠ "..") : (d.erase name).folder name = none := by
  rw [Disk.folder, if_neg (not_or.2 h)]
  exact lookup_filter_self _

theorem folder_put_self (h : name ≠ "." ∧ name ≠ "..") :
    (d.put name f).folder name = some f := by
  rw [Disk.folder, if_neg (not_or.2 h), Disk.put, List.lookup_cons_self]

/-- A directory that is not there, or is not empty, has a name of its own. -/
theorem named_of_folder (h : d.folder n ≠ some ⟨none, none⟩) : n ≠ "." ∧ n ≠ ".." := by
  rw [← not_or]
  intro hdots
  exact h (if_pos hdots)

/-- Nothing but the directory of a name is touched. -/
structure Touches (name : String) (d d' : Disk) : Prop where
  device : d'.device = d.device
  current_model : d'.current_model = d.current_model
  folder : ∀ n, n ≠ name → d'.folder n = d.folder n

theorem Touches.refl (name : String) (d : Disk) : Touches name d d := ⟨rfl, rfl, fun _ _ ↦ rfl⟩

theorem touches_erase : Touches name d (d.erase name) :=
  ⟨rfl, rfl, fun _ ↦ folder_erase_of_ne⟩

theorem touches_put : Touches name d (d.put name f) := ⟨rfl, rfl, fun _ ↦ folder_put_of_ne⟩

theorem Touches.manifestAt (h : Touches name d d') (hn : n ≠ name) :
    d'.manifestAt (.manifest_json n) = d.manifestAt (.manifest_json n) := by
  rw [Disk.manifestAt, Disk.manifestAt, h.folder n hn]

theorem manifestAt_erase_self : (d.erase name).manifestAt (.manifest_json name) = none := by
  by_cases h : name = "." ∨ name = ".."
  · rw [Disk.manifestAt, Disk.folder, if_pos h]
    rfl
  · rw [Disk.manifestAt, folder_erase_self (not_or.1 h)]
    rfl

theorem manifest_of_put {m : ModelManifest}
    (h : (d.put name f).manifestAt (.manifest_json name) = some m) : f.manifest = some m := by
  by_cases hdots : name = "." ∨ name = ".."
  · rw [Disk.manifestAt, Disk.folder, if_pos hdots] at h
    cases h
  · rw [Disk.manifestAt, folder_put_self (not_or.1 hdots)] at h
    exact h

theorem manifestAt_of_folder (h : d.folder name = some f) :
    d.manifestAt (.manifest_json name) = f.manifest := by
  rw [Disk.manifestAt, h]
  rfl

end Folders

/-! ### Changes -/

section

variable {Message : Type} (crypto : Crypto Message)

/-- The state file after a transition is completed. -/
def PendingTransition.completed (t : PendingTransition) (state : DeviceState) : DeviceState :=
  match t.action with
  | .StageShadow | .StageCanary =>
    { state with candidate := some t.candidate, pending_transition := none }
  | .Activate =>
    { state with
      previous_release := state.current_release
      current_release := some t.candidate.release_id
      candidate := none
      pending_transition := none }
  | .Rollback =>
    { state with
      candidate := none
      last_rejected_release := some t.candidate.release_id
      pending_transition := none }

/-- What `apply` has checked of a manifest before it obtains and accepts the release, where some
release IDs are taken. -/
structure New (taken : String → Prop) (manifest : ModelManifest) (state : DeviceState) : Prop where
  validated : validate_manifest manifest = .ok ()
  verified : verify_manifest crypto manifest state.update_public_key = .ok ()
  cohort : manifest.hardware_cohort = state.hardware_cohort
  sequence : state.highest_release_sequence < manifest.sequence
  current : state.current_release ≠ some manifest.release_id
  candidate : state.candidate.map (·.release_id) ≠ some manifest.release_id
  rejected : state.last_rejected_release ≠ some manifest.release_id
  pending : state.pending_transition = none
  fresh : ¬ taken manifest.release_id

/-- The staging directory that an operation works on. -/
def Op.staging : Op → Option String
  | clearStaging name | createStaging name | stageModel name _ | stageManifest name _
  | publish name _ => some name
  | _ => none

/-- A stored release, with the artifact that its manifest describes. -/
def Stored (manifest : ModelManifest) (f : Option Folder) : Prop :=
  ∃ contents, f = some ⟨some manifest, some contents⟩ ∧ manifest.artifact.Signed crypto contents

/-- What one operation of a command can do to the disk. -/
inductive Change (taken : String → Prop) (command : Command) : Op → Disk → Disk → Prop
  | same {op d} (hop : ∀ uri, op ≠ .fetch uri) : Change taken command op d d
  | fetched {d uri manifest pid} (hcommand : command = .apply (.ok manifest) pid)
      (hnew : New crypto taken manifest d.device) (habsent : d.folder manifest.release_id = none) :
      Change taken command (.fetch uri) d d
  | pruned {name d d'} (hkeep : name ∉ d.device.keep) (h : Touches name d d')
      (hless : ∀ m, d'.manifestAt (.manifest_json name) = some m →
        d.manifestAt (.manifest_json name) = some m) :
      Change taken command (.removeRelease name) d d'
  | staged {op name d d' manifest pid} (hcommand : command = .apply (.ok manifest) pid)
      (hnew : New crypto taken manifest d.device) (hop : op.staging = some name)
      (hname : name = staging_dir manifest.release_id pid) (h : Touches name d d')
      (hmanifest : ∀ m, d'.manifestAt (.manifest_json name) = some m →
        m = manifest ∨ d.manifestAt (.manifest_json name) = some m) :
      Change taken command op d d'
  | published {name d manifest pid} (hcommand : command = .apply (.ok manifest) pid)
      (hnew : New crypto taken manifest d.device) (hname : name = staging_dir manifest.release_id pid)
      (habsent : d.folder manifest.release_id = none) {f : Folder}
      (hstored : Stored crypto manifest (some f)) :
      Change taken command (.publish name manifest.release_id) d
        ((d.erase name).put manifest.release_id f)
  | accepted {d manifest pid} (hcommand : command = .apply (.ok manifest) pid)
      (hnew : New crypto taken manifest d.device) (hcandidate : d.device.candidate = none)
      (hstored : Stored crypto manifest (d.folder manifest.release_id)) {state : DeviceState}
      (hstate : state = { d.device with
        highest_release_sequence := manifest.sequence
        pending_transition := some ⟨manifest.stage.action, manifest.toCandidate⟩ }) :
      Change taken command (.writeState state) d { d with device := state }
  | completed {d t state} (hpending : d.device.pending_transition = some t)
      (hpointer : t.action = .Activate → d.current_model = some t.candidate.artifact_path)
      (hstate : state = t.completed d.device) :
      Change taken command (.writeState state) d { d with device := state }
  | pointed {d t} (hpending : d.device.pending_transition = some t) (haction : t.action = .Activate) :
      Change taken command (.writePointer t.candidate.artifact_path) d
        { d with current_model := some t.candidate.artifact_path }
  | turned {d t state} (hpending : d.device.pending_transition = some t)
      (haction : t.action ≠ .Rollback)
      (hstate : state =
        { d.device with pending_transition := some ⟨.Rollback, t.candidate⟩ }) :
      Change taken command (.writeState state) d { d with device := state }
  | replaced {d candidate manifest pid} (hcommand : command = .apply (.ok manifest) pid)
      (hpending : d.device.pending_transition = none)
      (hcandidate : d.device.candidate = some candidate) {state : DeviceState}
      (hstate : state =
        { d.device with pending_transition := some ⟨.Rollback, candidate⟩ }) :
      Change taken command (.writeState state) d { d with device := state }
  | reported {d candidate manifest r} (hcommand : command = .report r)
      (hpending : d.device.pending_transition = none)
      (hcandidate : d.device.candidate = some candidate)
      (hrelease : candidate.release_id = r.expected_release_id)
      (hstage : candidate.stage = r.expected_stage)
      (hmanifest : d.manifestAt candidate.manifest_path = some manifest) {state : DeviceState}
      (hstate : state = { d.device with
        pending_transition := some (r.transition candidate manifest.acceptance).1 }) :
      Change taken command (.writeState state) d { d with device := state }

/-- When `apply` looks for the stored manifest of a new manifest whose release ID is taken, it is
there, or the release is the last one that was rejected. -/
def Asked (taken : String → Prop) (command : Command) (op : Op) (d _d' : Disk) : Prop :=
  ∀ manifest ∈ command.manifest,
    op = .manifestExists (.manifest_json manifest.release_id) → taken manifest.release_id →
    d.device.highest_release_sequence < manifest.sequence →
    (d.manifestAt (.manifest_json manifest.release_id)).isSome ∨
      d.device.last_rejected_release = some manifest.release_id

/-- The sequences of stored manifests of taken release IDs are not above the mark. -/
def Bound (taken : String → Prop) (d : Disk) : Prop :=
  ∀ release_id m, taken release_id → d.manifestAt (.manifest_json release_id) = some m →
    m.release_id = release_id → m.sequence ≤ d.device.highest_release_sequence

/-- While it is as assumed, a program changes the disk in these ways only, and its end is as
stated. -/
def Runs (taken : String → Prop) (command : Command) {α : Type} (good : α → Disk → Prop)
    (bad : String → Disk → Prop) (p : EdgeM α) (d : Disk) : Prop :=
  p.Keeps act (Asked taken command) (Change crypto taken command) good bad d

end

end Vidarax.Edge
