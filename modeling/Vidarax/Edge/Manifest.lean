import Vidarax.Base.Float64
import Vidarax.Base.Number
import Vidarax.Base.Result
import Vidarax.Base.Text

/-!
# Model releases of an edge device

Package `vidarax-cli`, `edge.rs` 94–199 and 822–876: the signed manifest of a release, what the
device records, and the checks that a manifest has to pass. Ed25519, SHA-256 and the JSON text of a
manifest are parameters.
-/

namespace Vidarax.Edge

open Base

/-! ### Manifests -/

/-- `Artifact`. -/
structure Artifact where
  uri : String
  sha256 : String
  size_bytes : Nat
  deriving DecidableEq

/-- `RolloutStage`. -/
inductive RolloutStage where
  | Shadow
  | Canary
  | Active
  deriving DecidableEq

/-- `Acceptance`. -/
structure Acceptance where
  minimum_samples : Nat
  minimum_success_rate : F64
  maximum_p95_ms : Nat
  maximum_rss_bytes : Nat
  deriving DecidableEq

/-- `ModelManifest`. -/
structure ModelManifest where
  schema_version : Nat
  sequence : Nat
  release_id : String
  model_id : String
  hardware_cohort : String
  stage : RolloutStage
  artifact : Artifact
  acceptance : Acceptance
  signature : String
  deriving DecidableEq

/-- `MANIFEST_SCHEMA_VERSION`. -/
def MANIFEST_SCHEMA_VERSION : Nat := 2

/-- What is not of this package: the JSON text of a manifest, which tells manifests apart, the
hash, and the signature scheme. -/
structure Crypto (Message : Type) where
  to_vec : ModelManifest → Message
  injective : Function.Injective to_vec
  sha256 : Bytes → Bytes
  from_bytes : Bytes → Bool
  verify : Bytes → Message → Bytes → Bool

/-! ### What the device records -/

/-- Files of a release, below the state directory: `releases/<release>/manifest.json` and
`releases/<release>/model.bin`. -/
inductive PathBuf where
  | manifest_json (release : String)
  | model_bin (release : String)
  deriving DecidableEq

/-- `CandidateState`. -/
structure CandidateState where
  release_id : String
  stage : RolloutStage
  manifest_path : PathBuf
  artifact_path : PathBuf
  deriving DecidableEq

/-- `HookAction`. -/
inductive HookAction where
  | StageShadow
  | StageCanary
  | Activate
  | Rollback
  deriving DecidableEq

/-- `HookAction::as_str`. -/
def HookAction.as_str : HookAction → String
  | StageShadow => "stage_shadow"
  | StageCanary => "stage_canary"
  | Activate => "activate"
  | Rollback => "rollback"

/-- `PendingTransition`. -/
structure PendingTransition where
  action : HookAction
  candidate : CandidateState
  deriving DecidableEq

/-- `DeviceState`, without the device's own name and its hook, which no command looks at. -/
structure DeviceState where
  hardware_cohort : String
  update_public_key : String
  current_release : Option String
  previous_release : Option String
  candidate : Option CandidateState
  last_rejected_release : Option String
  highest_release_sequence : Nat
  pending_transition : Option PendingTransition
  deriving DecidableEq

/-! ### Checks -/

/-- `hex::decode` on the bytes of a text. -/
def hexBytes : List UInt8 → Option Bytes
  | [] => some []
  | high :: low :: rest => do
    let high ← digitValue 16 high
    let low ← digitValue 16 low
    let rest ← hexBytes rest
    return UInt8.ofNat (16 * high + low) :: rest
  | [_] => none

/-- `hex::decode`. -/
def hex_decode (text : String) : Option Bytes := hexBytes (utf8 text)

/-- `hex::encode`, as bytes of the text. -/
def hex_encode (bytes : Bytes) : List UInt8 :=
  bytes.flatMap fun b ↦ [digitByte (b.toNat / 16), digitByte (b.toNat % 16)]

/-- `u8::to_ascii_lowercase`. -/
def toAsciiLowercase (b : UInt8) : UInt8 := if 0x41 ≤ b ∧ b ≤ 0x5A then b + 0x20 else b

/-- `validate_identifier`. -/
def validate_identifier (label value : String) : Except String Unit :=
  if (utf8 value).isEmpty ∨ (utf8 value).length > 128 ∨
      ¬ (utf8 value).all fun b ↦
        0x30 ≤ b ∧ b ≤ 0x39 ∨ 0x41 ≤ b ∧ b ≤ 0x5A ∨ 0x61 ≤ b ∧ b ≤ 0x7A ∨
          b = 0x2D ∨ b = 0x5F ∨ b = 0x2E then
    .error (label ++ " must be 1-128 URL-safe characters")
  else
    .ok ()

/-- The text is made of white space only: `str::trim` leaves nothing. -/
def blank (text : String) : Bool := text.toList.all isWhitespace

/-- A number of the closed unit interval. -/
def inUnit (x : F64) : Bool := F64.le F64.zero x ∧ F64.le x F64.one

/-- `validate_manifest`. -/
def validate_manifest (manifest : ModelManifest) : Except String Unit :=
  if manifest.schema_version ≠ MANIFEST_SCHEMA_VERSION then
    .error s!"unsupported manifest schema {manifest.schema_version}"
  else do
    validate_identifier "release_id" manifest.release_id
    if manifest.sequence = 0 then
      .error "manifest sequence must be greater than zero"
    else if manifest.stage ≠ .Shadow then
      .error "new model releases must begin in the shadow stage"
    else if blank manifest.model_id ∨ blank manifest.hardware_cohort then
      .error "model_id and hardware_cohort cannot be empty"
    else if manifest.artifact.size_bytes = 0 ∨
        ¬ (hex_decode manifest.artifact.sha256).any (fun bytes ↦ bytes.length = 32) ∨
        manifest.acceptance.minimum_samples = 0 ∨
        ¬ inUnit manifest.acceptance.minimum_success_rate ∨
        ¬ manifest.acceptance.minimum_success_rate.isFinite ∨
        manifest.acceptance.maximum_p95_ms = 0 ∨ manifest.acceptance.maximum_rss_bytes = 0 then
      .error "manifest contains invalid artifact or acceptance bounds"
    else
      .ok ()

/-- Only manifests of the shadow stage are valid. -/
theorem stage_of_validated {manifest : ModelManifest} (h : validate_manifest manifest = .ok ()) :
    manifest.stage = .Shadow := by
  obtain ⟨-, h⟩ := guard_eq_ok h
  obtain ⟨_, -, h⟩ := bind_eq_ok h
  obtain ⟨-, h⟩ := guard_eq_ok h
  exact not_not.1 (guard_eq_ok h).1

variable {Message : Type} (crypto : Crypto Message)

/-- `verify_manifest`. -/
def verify_manifest (manifest : ModelManifest) (public_key_hex : String) : Except String Unit :=
  match hex_decode public_key_hex with
  | none => .error "invalid enrolled public key"
  | some public_bytes =>
    if public_bytes.length ≠ 32 then
      .error "enrolled public key must contain 32 bytes"
    else if ¬ crypto.from_bytes public_bytes then
      .error "invalid enrolled public key"
    else
      match hex_decode manifest.signature with
      | none => .error "invalid manifest signature"
      | some signature_bytes =>
        if signature_bytes.length ≠ 64 then
          .error "manifest signature must contain 64 bytes"
        else if ¬ crypto.verify public_bytes
            (crypto.to_vec { manifest with signature := "" }) signature_bytes then
          .error "manifest signature verification failed"
        else
          .ok ()

/-- The contents have the signed size and the signed SHA-256. -/
def Artifact.Signed (artifact : Artifact) (contents : Bytes) : Prop :=
  contents.length = artifact.size_bytes ∧
    hex_encode (crypto.sha256 contents) = (utf8 artifact.sha256).map toAsciiLowercase

end Vidarax.Edge
