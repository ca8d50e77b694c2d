import Mathlib.Data.List.Sort

/-!
# Policy revisions

Package `vidarax-api`, `crates/vidarax-api/src/policies.rs:21–160,533–595,692–870`. The policies of a
run and their deployment states are read off the policy events in its log. Prompts, output schemas
and detector parameters are kept as they are; parameters that validation reads are left out.
-/

namespace Vidarax.Policy

/-- `PolicyStatus`; `policies.rs:80`. -/
inductive PolicyStatus where
  | draft
  | shadow
  | canary
  | active
  | retired
  | rolledBack
  deriving DecidableEq

/-- `DeploymentError`; `policies.rs:597`. -/
inductive DeploymentError where
  | expectedGenerationRequired
  | staleGeneration (expected current : UInt64)
  | generationClosed (message : String)
  | acknowledgementTimeout

/-- `DeploymentError::reason`; `policies.rs:605`. -/
def DeploymentError.reason : DeploymentError → String
  | .expectedGenerationRequired => "expected_generation_required"
  | .staleGeneration expected current =>
    s!"stale_generation: expected {expected}, current {current}"
  | .generationClosed message => "generation_closed: " ++ message
  | .acknowledgementTimeout => "acknowledgement_timeout"

/-- `LiveApplication`; `policies.rs:144`. -/
structure LiveApplication where
  sessionId : Option String
  generation : Option UInt64
  promptAcknowledged : Bool
  effectiveOnCurrentGeneration : Bool
  deferredFields : List String
  note : String

variable (Schema Zone : Type)

/-- What a revision is made of. -/
structure PolicyContent where
  prompt : Option String
  outputSchema : Option Schema
  restrictedZone : Option Zone

/-- `PolicyRevision`; `policies.rs:128`. -/
structure PolicyRevision where
  revision : Nat
  parentRevision : Option Nat
  status : PolicyStatus
  content : PolicyContent Schema Zone
  createdAtMs : UInt64
  updatedAtMs : UInt64
  effectiveGeneration : Option UInt64
  effectiveOnCurrentGeneration : Bool
  deferredFields : List String

/-- Payloads of the events of a run. -/
inductive PolicyPayload where
  | created (parentRevision : Option Nat) (content : PolicyContent Schema Zone)
  | deployRequested (revision : Nat) (fromStatus toStatus : PolicyStatus)
      (expectedGeneration : Option UInt64)
  | deployAcknowledged (revision requestSeq : Nat) (status : PolicyStatus)
      (application : LiveApplication)
  | deployRejected (revision requestSeq : Nat) (toStatus : PolicyStatus) (reason : String)
  | rollbackRequested (revision fromRevision : Nat) (expectedGeneration : Option UInt64)
  | rollbackAcknowledged (revision fromRevision requestSeq : Nat) (application : LiveApplication)
  | rollbackRejected (revision fromRevision requestSeq : Nat) (reason : String)
  /-- Any other event. -/
  | other

/-- An event in the log of a run. -/
structure PolicyEvent where
  seq : Nat
  ptsMs : UInt64
  payload : PolicyPayload Schema Zone

variable {Schema Zone}

/-- `deferred_fields`; `policies.rs:733`. -/
def deferredFields (policy : PolicyRevision Schema Zone) : List String :=
  if policy.content.restrictedZone.isSome then ["parameters.restricted_zone"] else []

/-- `valid_promotion`; `policies.rs:901`. -/
def validPromotion : PolicyStatus → PolicyStatus → Bool
  | .draft, .shadow | .shadow, .canary | .canary, .active => true
  | _, _ => false

/-- Change the first policy of a revision. -/
def modifyRevision (revision : Nat) (f : PolicyRevision Schema Zone → PolicyRevision Schema Zone) :
    List (PolicyRevision Schema Zone) → List (PolicyRevision Schema Zone)
  | [] => []
  | policy :: policies =>
    if policy.revision = revision then f policy :: policies
    else policy :: modifyRevision revision f policies

/-- `retire_active_policy`; `policies.rs:866`. -/
def retireActivePolicy (except : Nat) (timestampMs : UInt64)
    (policies : List (PolicyRevision Schema Zone)) : List (PolicyRevision Schema Zone) :=
  policies.map fun policy ↦
    if policy.revision ≠ except ∧ policy.status = .active then
      { policy with
        status := .retired
        updatedAtMs := timestampMs
        effectiveOnCurrentGeneration := false }
    else policy

/-- `apply_acknowledgement`; `policies.rs:877`. -/
def applyAcknowledgement (status : PolicyStatus) (application : LiveApplication)
    (timestampMs : UInt64) (policy : PolicyRevision Schema Zone) : PolicyRevision Schema Zone :=
  { policy with
    status := status
    updatedAtMs := timestampMs
    effectiveGeneration := application.generation
    effectiveOnCurrentGeneration := application.effectiveOnCurrentGeneration
    deferredFields := application.deferredFields }

/-- The policy that was active before a rollback; `policies.rs:850–852`. -/
def rollBack (timestampMs : UInt64) (policy : PolicyRevision Schema Zone) :
    PolicyRevision Schema Zone :=
  { policy with
    status := .rolledBack
    updatedAtMs := timestampMs
    effectiveOnCurrentGeneration := false }

/-- What one event changes; the loop of `reconstruct_policies`, `policies.rs:794`. -/
def applyEvent (policies : List (PolicyRevision Schema Zone)) (event : PolicyEvent Schema Zone) :
    List (PolicyRevision Schema Zone) :=
  match event.payload with
  | .created parentRevision content =>
    policies ++ [⟨event.seq, parentRevision, .draft, content, event.ptsMs, event.ptsMs, none, false,
      []⟩]
  | .deployAcknowledged revision _ status application =>
    let policies :=
      if status = .active then retireActivePolicy revision event.ptsMs policies else policies
    modifyRevision revision (applyAcknowledgement status application event.ptsMs) policies
  | .rollbackAcknowledged revision fromRevision _ application =>
    let policies := modifyRevision fromRevision (rollBack event.ptsMs) policies
    let policies := retireActivePolicy revision event.ptsMs policies
    modifyRevision revision (applyAcknowledgement .active application event.ptsMs) policies
  | _ => policies

/-- `reconstruct_policies`; `policies.rs:792`. -/
def reconstructPolicies (events : List (PolicyEvent Schema Zone)) :
    List (PolicyRevision Schema Zone) :=
  (events.foldl applyEvent []).mergeSort fun a b ↦ a.revision ≤ b.revision

/-- The policy of a revision. -/
def findRevision (policies : List (PolicyRevision Schema Zone)) (revision : Nat) :
    Option (PolicyRevision Schema Zone) :=
  policies.find? fun policy ↦ policy.revision = revision

/-! ### Revisions -/

/-- Revisions that an event creates. -/
def createdBy (event : PolicyEvent Schema Zone) : List Nat :=
  match event.payload with
  | .created _ _ => [event.seq]
  | _ => []

theorem revisions_modifyRevision {revision : Nat}
    {f : PolicyRevision Schema Zone → PolicyRevision Schema Zone}
    (hf : ∀ policy, (f policy).revision = policy.revision)
    (policies : List (PolicyRevision Schema Zone)) :
    (modifyRevision revision f policies).map PolicyRevision.revision =
      policies.map PolicyRevision.revision := by
  induction policies with
  | nil => rfl
  | cons policy policies ih =>
    rw [modifyRevision]
    split
    · rw [List.map_cons, List.map_cons, hf]
    · rw [List.map_cons, List.map_cons, ih]

theorem revisions_retireActivePolicy (except : Nat) (timestampMs : UInt64)
    (policies : List (PolicyRevision Schema Zone)) :
    (retireActivePolicy except timestampMs policies).map PolicyRevision.revision =
      policies.map PolicyRevision.revision := by
  rw [retireActivePolicy, List.map_map]
  apply List.map_congr_left
  intro policy _
  rw [Function.comp_apply]
  split <;> rfl

theorem revisions_applyEvent (policies : List (PolicyRevision Schema Zone))
    (event : PolicyEvent Schema Zone) :
    (applyEvent policies event).map PolicyRevision.revision =
      policies.map PolicyRevision.revision ++ createdBy event := by
  unfold applyEvent createdBy
  split
  · next hcreated =>
    rw [List.map_append, hcreated]
    rfl
  · next revision _ status application hacknowledged =>
    dsimp only
    rw [revisions_modifyRevision (f := applyAcknowledgement status application event.ptsMs)
      fun _ ↦ rfl, hacknowledged, List.append_nil]
    split
    · apply revisions_retireActivePolicy
    · rfl
  · next revision fromRevision _ application hacknowledged =>
    dsimp only
    rw [revisions_modifyRevision (f := applyAcknowledgement .active application event.ptsMs)
      fun _ ↦ rfl, revisions_retireActivePolicy,
      revisions_modifyRevision (f := rollBack event.ptsMs) fun _ ↦ rfl, hacknowledged,
      List.append_nil]
  · next hcreated hdeployed hrolledBack =>
    split
    · next hpayload => exact absurd hpayload (hcreated _ _)
    · rw [List.append_nil]

theorem revisions_foldl (events : List (PolicyEvent Schema Zone))
    (policies : List (PolicyRevision Schema Zone)) :
    (events.foldl applyEvent policies).map PolicyRevision.revision =
      policies.map PolicyRevision.revision ++ events.flatMap createdBy := by
  induction events generalizing policies with
  | nil => rw [List.foldl_nil, List.flatMap_nil, List.append_nil]
  | cons event events ih =>
    rw [List.foldl_cons, ih, revisions_applyEvent, List.flatMap_cons, List.append_assoc]

/-- A log is numbered in the order of its events. -/
def Numbered (events : List (PolicyEvent Schema Zone)) : Prop :=
  events.Pairwise fun a b ↦ a.seq < b.seq

theorem Numbered.pairwise_createdBy {events : List (PolicyEvent Schema Zone)}
    (h : Numbered events) : (events.flatMap createdBy).Pairwise (· < ·) := by
  rw [List.pairwise_flatMap]
  refine ⟨fun event _ ↦ ?_, h.imp fun {a b} hlt x hx y hy ↦ ?_⟩
  · unfold createdBy
    split
    · exact List.pairwise_singleton _ _
    · exact List.Pairwise.nil
  · have hseq {e : PolicyEvent Schema Zone} {z : Nat} (hz : z ∈ createdBy e) : z = e.seq := by
      unfold createdBy at hz
      split at hz
      · exact List.mem_singleton.mp hz
      · cases hz
    rw [hseq hx, hseq hy]
    exact hlt

/-- The policies of a numbered log are found in the order of their revisions. -/
theorem reconstructPolicies_eq {events : List (PolicyEvent Schema Zone)} (h : Numbered events) :
    reconstructPolicies events = events.foldl applyEvent [] := by
  apply List.mergeSort_of_pairwise
  have hrevisions := revisions_foldl events []
  rw [List.map_nil, List.nil_append] at hrevisions
  have hpairwise := h.pairwise_createdBy
  rw [← hrevisions, List.pairwise_map] at hpairwise
  exact hpairwise.imp fun hlt ↦ decide_eq_true (Nat.le_of_lt hlt)

theorem revisions_reconstructPolicies {events : List (PolicyEvent Schema Zone)}
    (h : Numbered events) :
    (reconstructPolicies events).map PolicyRevision.revision = events.flatMap createdBy := by
  rw [reconstructPolicies_eq h, revisions_foldl, List.map_nil, List.nil_append]

theorem reconstructPolicies_concat {events : List (PolicyEvent Schema Zone)}
    {event : PolicyEvent Schema Zone} (h : Numbered (events ++ [event])) :
    reconstructPolicies (events ++ [event]) = applyEvent (reconstructPolicies events) event := by
  rw [reconstructPolicies_eq h, reconstructPolicies_eq (List.pairwise_append.mp h).1,
    List.foldl_append]
  rfl

end Vidarax.Policy
