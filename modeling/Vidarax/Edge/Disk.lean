import Vidarax.Base.Program
import Vidarax.Edge.Manifest

/-!
# The state directory of an edge device

Package `vidarax-cli`, `edge.rs` 710–731, 882–1106: what is kept in the state directory, the
operations of the commands on it, and the ways each of them may end. A write replaces a file in one
step, and may still report an error when the directory could not be synced afterwards; the removal
of a directory may stop half way.
-/

namespace Vidarax.Edge

open Base Program

/-- A directory of a release: `manifest.json` and `model.bin`. -/
structure Folder where
  manifest : Option ModelManifest
  model : Option Bytes
  deriving DecidableEq

/-- The state directory: `device.json`, `current-model` and the directories in `releases`. -/
structure Disk where
  device : DeviceState
  current_model : Option PathBuf
  releases : List (String × Folder)

namespace Disk

/-- The directory that a name of `releases` stands for; two names stand for directories that are
always there. -/
def folder (d : Disk) (name : String) : Option Folder :=
  if name = "." ∨ name = ".." then some ⟨none, none⟩ else d.releases.lookup name

/-- Without a directory. -/
def erase (d : Disk) (name : String) : Disk :=
  { d with releases := d.releases.filter (·.1 ≠ name) }

/-- With a directory, in place of what has its name. -/
def put (d : Disk) (name : String) (f : Folder) : Disk :=
  { d with releases := (name, f) :: d.releases.filter (·.1 ≠ name) }

/-- The manifest in a file. -/
def manifestAt (d : Disk) : PathBuf → Option ModelManifest
  | .manifest_json release => (d.folder release).bind (·.manifest)
  | .model_bin _ => none

/-- The contents of a model file. -/
def modelAt (d : Disk) : PathBuf → Option Bytes
  | .manifest_json _ => none
  | .model_bin release => (d.folder release).bind (·.model)

end Disk

/-! ### Operations -/

/-- Operations of the commands. -/
inductive Op where
  /-- `DeviceLock::acquire`. -/
  | lock
  /-- `read_state`. -/
  | readState
  /-- `write_state`. -/
  | writeState (state : DeviceState)
  /-- `write_current_pointer`. -/
  | writePointer (artifact_path : PathBuf)
  /-- `run_transition_hook`, with the current release for its environment. -/
  | runHook (action : HookAction) (artifact_path : PathBuf) (release_id : String)
    (current : Option String)
  /-- `Path::exists` of a manifest. -/
  | manifestExists (path : PathBuf)
  /-- `Path::exists` or `Path::is_dir` in `releases`. -/
  | dirExists (name : String)
  /-- `read_manifest` of a stored manifest. -/
  | readManifest (path : PathBuf)
  /-- Reading a stored model to its end. -/
  | readModel (path : PathBuf)
  /-- `fs::read_dir` of `releases`. -/
  | listReleases
  /-- `fs::remove_dir_all` by `prune_releases`. -/
  | removeRelease (name : String)
  /-- `sync_directory` of `releases`. -/
  | syncReleases
  /-- `fs2::available_space`, and the limit of the environment. -/
  | available
  /-- `fs::remove_dir_all` of a staging directory. -/
  | clearStaging (name : String)
  /-- `fs::create_dir_all` of a staging directory. -/
  | createStaging (name : String)
  /-- The bytes that an artifact's location yields. -/
  | fetch (uri : String)
  /-- `model.bin` of a staging directory, renamed from its temporary file. -/
  | stageModel (name : String) (contents : Bytes)
  /-- `manifest.json` of a staging directory. -/
  | stageManifest (name : String) (manifest : ModelManifest)
  /-- `fs::rename` of a staging directory to the directory of a release. -/
  | publish (name release_id : String)
  deriving DecidableEq

/-- Answers of the operations. -/
def Op.Answer : Op → Type
  | readState => Except String DeviceState
  | manifestExists _ | dirExists _ => Bool
  | readManifest _ => Except String ModelManifest
  | readModel _ | fetch _ => Except String Bytes
  | listReleases => Except String (List String)
  | available => Except String (Nat × Nat)
  | _ => Except String Unit

/-- How an operation ends. -/
inductive Outcome where
  /-- As it should. -/
  | ok
  /-- With an error, and nothing is changed. -/
  | failed (error : String)
  /-- With an error, after a file was replaced or a directory renamed. -/
  | unsynced (error : String)
  /-- With an error, after some files of a directory were removed. -/
  | halfway (error : String) (keeps_manifest keeps_model : Bool)
  /-- What a location yields. -/
  | yields (contents : Bytes)
  /-- The order of a directory's entries. -/
  | listed (names : List String)
  /-- The limit for artifacts and the free space. -/
  | space (maximum available : Nat)

/-- What is left of a directory whose removal stopped half way. -/
def Folder.partly (f : Folder) (keeps_manifest keeps_model : Bool) : Folder :=
  ⟨if keeps_manifest then f.manifest else none, if keeps_model then f.model else none⟩

/-- A write that takes effect or fails. -/
def writing (outcome : Outcome) (before after : Disk) : Except String Unit × Disk :=
  match outcome with
  | .ok => (.ok (), after)
  | .unsynced e => (.error e, after)
  | .failed e => (.error e, before)
  | _ => (.error "", before)

/-- A reading that succeeds or fails. -/
def reading {α : Type} (outcome : Outcome) (d : Disk) (value : Except String α) :
    Except String α × Disk :=
  match outcome with
  | .ok => (value, d)
  | .failed e => (.error e, d)
  | _ => (.error "", d)

/-- `fs::remove_dir_all`. -/
def removing (outcome : Outcome) (d : Disk) (name : String) : Except String Unit × Disk :=
  match outcome, d.folder name with
  | .ok, some _ => (.ok (), d.erase name)
  | .halfway e keeps_manifest keeps_model, some f =>
    (.error e, d.put name (f.partly keeps_manifest keeps_model))
  | .failed e, _ => (.error e, d)
  | _, _ => (.error "", d)

/-- What an operation that ends in a given way answers, and the disk after it. -/
def act : (op : Op) → Outcome → Disk → op.Answer × Disk
  | .lock, outcome, d => reading outcome d (.ok ())
  | .readState, outcome, d => reading outcome d (.ok d.device)
  | .writeState state, outcome, d => writing outcome d { d with device := state }
  | .writePointer artifact_path, outcome, d =>
    writing outcome d { d with current_model := some artifact_path }
  | .runHook .., outcome, d => reading outcome d (.ok ())
  | .manifestExists path, _, d => ((d.manifestAt path).isSome, d)
  | .dirExists name, _, d => ((d.folder name).isSome, d)
  | .readManifest path, outcome, d =>
    reading outcome d ((d.manifestAt path).elim (.error "failed to read model manifest") .ok)
  | .readModel path, outcome, d =>
    reading outcome d ((d.modelAt path).elim (.error "failed to open stored artifact") .ok)
  | .listReleases, outcome, d =>
    match outcome with
    | .listed names => (.ok (if names.Perm (d.releases.map (·.1)) then names
        else d.releases.map (·.1)), d)
    | .failed e => (.error e, d)
    | _ => (.ok (d.releases.map (·.1)), d)
  | .removeRelease name, outcome, d => removing outcome d name
  | .syncReleases, outcome, d => reading outcome d (.ok ())
  | .available, outcome, d =>
    match outcome with
    | .space maximum available => (.ok (maximum, available), d)
    | .failed e => (.error e, d)
    | _ => (.error "", d)
  | .clearStaging name, outcome, d => removing outcome d name
  | .createStaging name, outcome, d =>
    writing outcome d (if (d.folder name).isSome then d else d.put name ⟨none, none⟩)
  | .fetch _, outcome, d =>
    match outcome with
    | .yields contents => (.ok contents, d)
    | .failed e => (.error e, d)
    | _ => (.error "", d)
  | .stageModel name contents, outcome, d =>
    match d.folder name with
    | some f => writing outcome d (d.put name { f with model := some contents })
    | none => (.error "", d)
  | .stageManifest name manifest, outcome, d =>
    match d.folder name with
    | some f => writing outcome d (d.put name { f with manifest := some manifest })
    | none => (.error "", d)
  | .publish name release_id, outcome, d =>
    match d.folder name, d.folder release_id with
    | some f, none => writing outcome d ((d.erase name).put release_id f)
    | _, _ => (.error "", d)

/-! ### Programs -/

/-- Programs of the commands. -/
abbrev EdgeM : Type → Type := Program Op Op.Answer String

/-- The answer of an operation, whose error ends the program: `?`. -/
def check {α : Type} (answer : EdgeM (Except String α)) : EdgeM α := do
  lift (← answer)

/-- `DeviceLock::acquire`. -/
def acquire : EdgeM (Except String Unit) := ask Op.lock

/-- `read_state`. -/
def read_state : EdgeM (Except String DeviceState) := ask Op.readState

/-- `write_state`. -/
def write_state (state : DeviceState) : EdgeM (Except String Unit) := ask (Op.writeState state)

/-- `write_current_pointer`. -/
def write_current_pointer (artifact_path : PathBuf) : EdgeM (Except String Unit) :=
  ask (Op.writePointer artifact_path)

/-- `run_transition_hook`. -/
def run_transition_hook (state : DeviceState) (action : HookAction) (artifact_path : PathBuf)
    (release_id : String) : EdgeM (Except String Unit) :=
  ask (Op.runHook action artifact_path release_id state.current_release)

/-- `Path::exists` of a manifest. -/
def manifest_exists (path : PathBuf) : EdgeM Bool := ask (Op.manifestExists path)

/-- `Path::exists` or `Path::is_dir` in `releases`. -/
def dir_exists (name : String) : EdgeM Bool := ask (Op.dirExists name)

/-- `read_manifest` of a stored manifest. -/
def read_manifest (path : PathBuf) : EdgeM (Except String ModelManifest) :=
  ask (Op.readManifest path)

/-- Reading a stored model to its end. -/
def read_model (path : PathBuf) : EdgeM (Except String Bytes) := ask (Op.readModel path)

/-- `fs::read_dir` of `releases`. -/
def read_dir : EdgeM (Except String (List String)) := ask Op.listReleases

/-- `fs::remove_dir_all` by `prune_releases`. -/
def remove_release (name : String) : EdgeM (Except String Unit) := ask (Op.removeRelease name)

/-- `sync_directory` of `releases`. -/
def sync_directory : EdgeM (Except String Unit) := ask Op.syncReleases

/-- `fs2::available_space`, after the limit of the environment. -/
def available_space : EdgeM (Except String (Nat × Nat)) := ask Op.available

/-- `fs::remove_dir_all` of a staging directory. -/
def clear_staging (name : String) : EdgeM (Except String Unit) := ask (Op.clearStaging name)

/-- `fs::create_dir_all` of a staging directory. -/
def create_staging (name : String) : EdgeM (Except String Unit) := ask (Op.createStaging name)

/-- The bytes of an artifact. -/
def fetch (uri : String) : EdgeM (Except String Bytes) := ask (Op.fetch uri)

/-- `model.bin` of a staging directory. -/
def stage_model (name : String) (contents : Bytes) : EdgeM (Except String Unit) :=
  ask (Op.stageModel name contents)

/-- `atomic_json` of `manifest.json` in a staging directory. -/
def stage_manifest (name : String) (manifest : ModelManifest) : EdgeM (Except String Unit) :=
  ask (Op.stageManifest name manifest)

/-- `fs::rename` of a staging directory to the directory of a release. -/
def publish (name release_id : String) : EdgeM (Except String Unit) :=
  ask (Op.publish name release_id)

end Vidarax.Edge
