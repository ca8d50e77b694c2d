import Vidarax.Delivery.Stream
import Vidarax.Policy.Revisions
import Vidarax.Session.Control

/-!
# Requests about policies

Package `vidarax-api`, `crates/vidarax-api/src/policies.rs:164–253,290–530,597–731`. Each request
reads the log of the run once, checks itself against what it has read, and appends later. A
deployment or a rollback appends its request, applies the policy to the live session of the run and
then appends the outcome. A step is one read, one append, or what is between the two. Authorization,
the checks of a new policy and the responses after a change are left out.
-/

namespace Vidarax.Policy

open Vidarax.Delivery Vidarax.Session

variable {Schema Zone : Type}

/-! ### Refusals -/

/-- `PolicyStatus::as_str`; `policies.rs:90`. -/
def PolicyStatus.asStr : PolicyStatus → String
  | .draft => "draft"
  | .shadow => "shadow"
  | .canary => "canary"
  | .active => "active"
  | .retired => "retired"
  | .rolledBack => "rolled_back"

/-- `display_revision`; `policies.rs:1068`. -/
def displayRevision : Option Nat → String
  | some revision => toString revision
  | none => "none"

/-- `not_found_error`; `response.rs:28`. -/
def notFoundError (message : String) (details : List FieldError) : ApiError :=
  ⟨404, "not_found", message, details⟩

/-- `conflict_error`; `response.rs:42`. -/
def conflictError (message : String) (details : List FieldError) : ApiError :=
  ⟨409, "conflict", message, details⟩

/-- `policy_not_found`; `policies.rs:1052`. -/
def policyNotFound (revision : Nat) : ApiError :=
  notFoundError "policy revision not found" [⟨"revision", toString revision⟩]

/-! ### Checks -/

/-- The check of `create_policy`; `policies.rs:177–195`. -/
def createPolicy (events : List (PolicyEvent Schema Zone)) (parentRevision : Option Nat) :
    Except ApiError Unit :=
  let currentRevision := (reconstructPolicies events).getLast?.map PolicyRevision.revision
  if parentRevision ≠ currentRevision then
    .error <| conflictError "policy parent is stale"
      [⟨"parent_revision", "expected " ++ displayRevision currentRevision ++ ", received " ++
        displayRevision parentRevision⟩]
  else .ok ()

/-- The checks of `activate_policy`; `policies.rs:300–341`. -/
def activatePolicy (events : List (PolicyEvent Schema Zone)) (revision : Nat)
    (stage : PolicyStatus) : Except ApiError (PolicyRevision Schema Zone) :=
  if ¬(stage = .shadow ∨ stage = .canary ∨ stage = .active) then
    .error <| validationError "invalid policy deployment stage"
      [⟨"stage", "stage must be one of: shadow, canary, active"⟩]
  else
    match findRevision (reconstructPolicies events) revision with
    | none => .error (policyNotFound revision)
    | some policy =>
      if !validPromotion policy.status stage then
        .error <| conflictError "policy stage transition is not allowed"
          [⟨"stage", s!"cannot move revision {revision} from " ++ policy.status.asStr ++ " to " ++
            stage.asStr⟩]
      else .ok policy

/-- The checks of `rollback_policy`: the policy to restore and the one that is active;
`policies.rs:421–469`. -/
def rollbackPolicy (events : List (PolicyEvent Schema Zone)) (revision : Nat) :
    Except ApiError (PolicyRevision Schema Zone × PolicyRevision Schema Zone) :=
  let policies := reconstructPolicies events
  match findRevision policies revision with
  | none => .error (policyNotFound revision)
  | some target =>
    match policies.find? fun policy ↦ policy.status = .active with
    | none =>
      .error <| conflictError "no active policy exists to roll back"
        [⟨"revision", "activate a policy before requesting rollback"⟩]
    | some current =>
      if current.revision = revision then
        .error <| conflictError "rollback target is already active"
          [⟨"revision", s!"revision {revision} is already active"⟩]
      else if ¬(target.status = .retired ∨ target.status = .rolledBack) then
        .error <| conflictError "rollback target was never an active policy"
          [⟨"revision", s!"revision {revision} has status " ++ target.status.asStr⟩]
      else .ok (target, current)

/-! ### Application -/

/-- `impl Display for SessionControlError`; `runtime.rs:135`. -/
def errorText : SessionControlError → String
  | .closed => "pipeline generation is closed"
  | .staleGeneration expected received =>
    s!"stale pipeline generation: expected {expected}, received {received}"

/-- What `apply_policy` comes to without the worker. -/
inductive Plan (Schema : Type) where
  | settled (result : Except DeploymentError LiveApplication)
  /-- The worker of this session has to change its prompt and schema. -/
  | update (sessionId : String) (generation : UInt64) (prompt : String)
      (outputSchema : Option Schema)

/-- What `apply_policy` returns at its end; `policies.rs:717–730`. -/
def liveApplication (policy : PolicyRevision Schema Zone) (sessionId : String)
    (generation : UInt64) (promptAcknowledged : Bool) : LiveApplication :=
  let effective := promptAcknowledged && (deferredFields policy).isEmpty
  ⟨some sessionId, some generation, promptAcknowledged, effective, deferredFields policy,
    if effective then "live generation acknowledged the complete policy"
    else "prompt was acknowledged; static detector parameters require a new generation"⟩

/-- `apply_policy` before it asks the worker; `policies.rs:675–704`. -/
def planPolicy (live : Option (String × UInt64)) (policy : PolicyRevision Schema Zone)
    (applyLive : Bool) (expectedGeneration : Option UInt64) : Plan Schema :=
  match live with
  | none =>
    .settled (.ok ⟨none, none, false, false, deferredFields policy,
      "stored durably; applies when a new pipeline generation starts"⟩)
  | some (sessionId, generation) =>
    if !applyLive then
      .settled (.ok ⟨some sessionId, some generation, false, false, deferredFields policy,
        "shadow and canary stages are replay-only in this release"⟩)
    else
      match expectedGeneration with
      | none => .settled (.error .expectedGenerationRequired)
      | some expected =>
        if expected ≠ generation then .settled (.error (.staleGeneration expected generation))
        else
          match policy.content.prompt with
          | none => .settled (.ok (liveApplication policy sessionId generation false))
          | some prompt => .update sessionId generation prompt policy.content.outputSchema

/-- `apply_policy` after the answer of the worker; `policies.rs:709–731`. -/
def updatedPolicy (policy : PolicyRevision Schema Zone) (sessionId : String) (generation : UInt64) :
    Outcome → Except DeploymentError LiveApplication
  | .accepted => .ok (liveApplication policy sessionId generation true)
  | .rejected error => .error (.generationClosed (errorText error))
  | .timedOut => .error .acknowledgementTimeout

/-! ### Requests -/

variable (Schema Zone)

/-- A deployment or a rollback that has passed its checks. -/
inductive Transition where
  | deploy (policy : PolicyRevision Schema Zone) (stage : PolicyStatus)
  | rollback (target current : PolicyRevision Schema Zone)

variable {Schema Zone}

namespace Transition

/-- The policy that is to be applied. -/
def policy : Transition Schema Zone → PolicyRevision Schema Zone
  | .deploy policy _ => policy
  | .rollback target _ => target

/-- The live session is to run the policy. -/
def applyLive : Transition Schema Zone → Bool
  | .deploy _ stage => stage = .active
  | .rollback _ _ => true

/-- `policies.rs:343–353,472–481`. -/
def requestPayload (expectedGeneration : Option UInt64) :
    Transition Schema Zone → PolicyPayload Schema Zone
  | .deploy policy stage =>
    .deployRequested policy.revision policy.status stage expectedGeneration
  | .rollback target current =>
    .rollbackRequested target.revision current.revision expectedGeneration

/-- The outcome in the log; `policies.rs:373–402,490–523`. -/
def outcomePayload (requestSeq : Nat) :
    Transition Schema Zone → Except DeploymentError LiveApplication → PolicyPayload Schema Zone
  | .deploy policy stage, .ok application =>
    .deployAcknowledged policy.revision requestSeq stage application
  | .deploy policy stage, .error error =>
    .deployRejected policy.revision requestSeq stage error.reason
  | .rollback target current, .ok application =>
    .rollbackAcknowledged target.revision current.revision requestSeq application
  | .rollback target current, .error error =>
    .rollbackRejected target.revision current.revision requestSeq error.reason

end Transition

variable (Schema Zone)

/-- How far a request has come. `seen` is how much of the log it has read. -/
inductive Task where
  | create (parentRevision : Option Nat) (content : PolicyContent Schema Zone)
  | creating (parentRevision : Option Nat) (content : PolicyContent Schema Zone) (seen : Nat)
  | activate (revision : Nat) (stage : PolicyStatus) (expectedGeneration : Option UInt64)
  | rollback (revision : Nat) (expectedGeneration : Option UInt64)
  | checked (transition : Transition Schema Zone) (expectedGeneration : Option UInt64) (seen : Nat)
  | requested (transition : Transition Schema Zone) (expectedGeneration : Option UInt64)
      (seen requestSeq : Nat)
  /-- Waits for the answer to a call of `update_config`. -/
  | updating (transition : Transition Schema Zone) (seen requestSeq : Nat) (sessionId : String)
      (generation : UInt64) (call : Nat)
  | applied (transition : Transition Schema Zone) (seen requestSeq : Nat) (call : Option Nat)
      (result : Except DeploymentError LiveApplication)
  | done

/-- The log of a run and the requests on it. -/
structure Requests where
  log : List (PolicyEvent Schema Zone)
  tasks : List (Task Schema Zone)

variable {Schema Zone}

namespace Task

/-- A request has just arrived. -/
def Fresh : Task Schema Zone → Prop
  | .create _ _ | .activate _ _ _ | .rollback _ _ => True
  | _ => False

/-- The request reads the log and checks itself. A refused one is done. -/
def look (log : List (PolicyEvent Schema Zone)) : Task Schema Zone → Task Schema Zone
  | .create parentRevision content =>
    match createPolicy log parentRevision with
    | .ok () => .creating parentRevision content log.length
    | .error _ => .done
  | .activate revision stage expectedGeneration =>
    match activatePolicy log revision stage with
    | .ok policy => .checked (.deploy policy stage) expectedGeneration log.length
    | .error _ => .done
  | .rollback revision expectedGeneration =>
    match rollbackPolicy log revision with
    | .ok (target, current) => .checked (.rollback target current) expectedGeneration log.length
    | .error _ => .done
  | task => task

/-- What the request appends next. -/
def payload : Task Schema Zone → Option (PolicyPayload Schema Zone)
  | .creating parentRevision content _ => some (.created parentRevision content)
  | .checked transition expectedGeneration _ => some (transition.requestPayload expectedGeneration)
  | .applied transition _ requestSeq _ result => some (transition.outcomePayload requestSeq result)
  | _ => none

/-- The request has appended its event. -/
def appended (seq : Nat) : Task Schema Zone → Task Schema Zone
  | .checked transition expectedGeneration seen =>
    .requested transition expectedGeneration seen seq
  | _ => .done

end Task

namespace Requests

/-- One step. A request can end at any step of its own: an append fails or the client goes away. -/
inductive Step (s : Requests Schema Zone) : Requests Schema Zone → Prop where
  | arrive {task : Task Schema Zone} (hfresh : task.Fresh) :
      Step s { s with tasks := s.tasks ++ [task] }
  | look {id : Nat} {task : Task Schema Zone} (htask : s.tasks[id]? = some task)
      (hfresh : task.Fresh) : Step s { s with tasks := s.tasks.set id (task.look s.log) }
  | append {id : Nat} {task : Task Schema Zone} {payload : PolicyPayload Schema Zone}
      (htask : s.tasks[id]? = some task) (hpayload : task.payload = some payload) (seq : Nat)
      (ptsMs : UInt64) (hseq : ∀ event ∈ s.log, event.seq < seq) :
      Step s ⟨s.log ++ [⟨seq, ptsMs, payload⟩], s.tasks.set id (task.appended seq)⟩
  /-- `apply_policy` does not need the worker. -/
  | settle {id : Nat} {transition : Transition Schema Zone} {expectedGeneration : Option UInt64}
      {seen requestSeq : Nat} {live : Option (String × UInt64)}
      {result : Except DeploymentError LiveApplication}
      (htask : s.tasks[id]? = some (.requested transition expectedGeneration seen requestSeq))
      (hplan : planPolicy live transition.policy transition.applyLive expectedGeneration =
        .settled result) :
      Step s { s with tasks := s.tasks.set id (.applied transition seen requestSeq none result) }
  | ask {id : Nat} {transition : Transition Schema Zone} {expectedGeneration : Option UInt64}
      {seen requestSeq : Nat} {live : Option (String × UInt64)} {sessionId : String}
      {generation : UInt64} {prompt : String} {outputSchema : Option Schema} (call : Nat)
      (htask : s.tasks[id]? = some (.requested transition expectedGeneration seen requestSeq))
      (hplan : planPolicy live transition.policy transition.applyLive expectedGeneration =
        .update sessionId generation prompt outputSchema) :
      Step s { s with
        tasks := s.tasks.set id (.updating transition seen requestSeq sessionId generation call) }
  | answer {id : Nat} {transition : Transition Schema Zone} {seen requestSeq : Nat}
      {sessionId : String} {generation : UInt64} {call : Nat} (outcome : Outcome)
      (htask : s.tasks[id]? =
        some (.updating transition seen requestSeq sessionId generation call)) :
      Step s { s with
        tasks := s.tasks.set id (.applied transition seen requestSeq (some call)
          (updatedPolicy transition.policy sessionId generation outcome)) }
  | abandon (id : Nat) : Step s { s with tasks := s.tasks.set id .done }
  /-- Another event of the run is committed. -/
  | other (seq : Nat) (ptsMs : UInt64) (hseq : ∀ event ∈ s.log, event.seq < seq) :
      Step s { s with log := s.log ++ [⟨seq, ptsMs, .other⟩] }

/-- A new run. -/
def start : Requests Schema Zone := ⟨[], []⟩

/-- States of any run. -/
def Reachable (s : Requests Schema Zone) : Prop :=
  Relation.ReflTransGen Step start s

end Requests

end Vidarax.Policy
