import Vidarax.Policy.Lifecycle
import Vidarax.Session.Acknowledge

/-!
# The active policy and the live session

Package `vidarax-api`, `crates/vidarax-api/src/policies.rs:340–409,471–530,668–731`, over
`crates/vidarax-core/src/webrtc/runtime.rs:187–243`. A request first has the worker of the live
session apply its policy and then appends its acknowledgement to the log. Two requests can come to
the worker in one order and to the log in the other.
-/

namespace Vidarax.Policy

open Vidarax.Session

variable {Schema Zone : Type}

/-! ### A run with a live session -/

variable (Schema Zone) in
/-- The requests on a run and the commands of its session. `acknowledged` holds the calls whose
update is acknowledged in the log, in the order of the log, and is kept for statements only. -/
structure LiveRun where
  requests : Requests Schema Zone
  control : Control
  acknowledged : List Nat

/-- The call whose update the request is about to acknowledge in the log. -/
def Task.update : Task Schema Zone → List Nat
  | .applied _ _ _ (some call) (.ok _) => [call]
  | _ => []

/-- A caller or the worker goes on: nobody else asks for an update and no call is given up. -/
structure GoesOn (control control' : Control) : Prop where
  step : Control.Step control control'
  nobody : control'.calls.length = control.calls.length
  inTime : ∀ (id : Nat) (call : Call), control'.calls[id]? = some call →
    call.phase ≠ .told .timedOut

/-- The configuration that a policy with this prompt and schema asks for. -/
def wanted (render : Schema → String) (prompt : String) (outputSchema : Option Schema) : Config :=
  ⟨prompt, outputSchema.map render⟩

namespace LiveRun

/-- One step. `render` writes a schema as text. No append fails, and no call is given up. -/
inductive Step (sessionId : String) (render : Schema → String) (s : LiveRun Schema Zone) :
    LiveRun Schema Zone → Prop where
  | arrive {task : Task Schema Zone} (hfresh : task.Fresh) :
      Step sessionId render s
        { s with requests := { s.requests with tasks := s.requests.tasks ++ [task] } }
  | look {id : Nat} {task : Task Schema Zone} (htask : s.requests.tasks[id]? = some task)
      (hfresh : task.Fresh) :
      Step sessionId render s
        { s with requests := { s.requests with
            tasks := s.requests.tasks.set id (task.look s.requests.log) } }
  | append {id : Nat} {task : Task Schema Zone} {payload : PolicyPayload Schema Zone}
      (htask : s.requests.tasks[id]? = some task) (hpayload : task.payload = some payload)
      (seq : Nat) (ptsMs : UInt64) (hseq : ∀ event ∈ s.requests.log, event.seq < seq) :
      Step sessionId render s
        { s with
          requests := ⟨s.requests.log ++ [⟨seq, ptsMs, payload⟩],
            s.requests.tasks.set id (task.appended seq)⟩
          acknowledged := s.acknowledged ++ task.update }
  | settle {id : Nat} {transition : Transition Schema Zone} {expectedGeneration : Option UInt64}
      {seen requestSeq : Nat} {result : Except DeploymentError LiveApplication}
      (htask : s.requests.tasks[id]? =
        some (.requested transition expectedGeneration seen requestSeq))
      (hplan : planPolicy (some (sessionId, s.control.generation)) transition.policy
        transition.applyLive expectedGeneration = .settled result) :
      Step sessionId render s
        { s with requests := { s.requests with
            tasks := s.requests.tasks.set id (.applied transition seen requestSeq none result) } }
  /-- `update_config` is called. -/
  | ask {id : Nat} {transition : Transition Schema Zone} {expectedGeneration : Option UInt64}
      {seen requestSeq : Nat} {generation : UInt64} {prompt : String}
      {outputSchema : Option Schema}
      (htask : s.requests.tasks[id]? =
        some (.requested transition expectedGeneration seen requestSeq))
      (hplan : planPolicy (some (sessionId, s.control.generation)) transition.policy
        transition.applyLive expectedGeneration =
          .update sessionId generation prompt outputSchema) :
      Step sessionId render s
        { s with
          requests := { s.requests with
            tasks := s.requests.tasks.set id (.updating transition seen requestSeq sessionId
              generation s.control.calls.length) }
          control := { s.control with
            calls := s.control.calls ++
              [⟨wanted render prompt outputSchema, s.control.generation, .begun, none⟩] } }
  | answer {id : Nat} {transition : Transition Schema Zone} {seen requestSeq : Nat}
      {generation : UInt64} {call : Nat} {asked : Call} {outcome : Outcome}
      (htask : s.requests.tasks[id]? =
        some (.updating transition seen requestSeq sessionId generation call))
      (hasked : s.control.calls[call]? = some asked) (htold : asked.phase = .told outcome) :
      Step sessionId render s
        { s with requests := { s.requests with
            tasks := s.requests.tasks.set id (.applied transition seen requestSeq (some call)
              (updatedPolicy transition.policy sessionId generation outcome)) } }
  /-- Another event of the run is committed. -/
  | other (seq : Nat) (ptsMs : UInt64) (hseq : ∀ event ∈ s.requests.log, event.seq < seq) :
      Step sessionId render s
        { s with requests := { s.requests with
            log := s.requests.log ++ [⟨seq, ptsMs, .other⟩] } }
  | control {control' : Control} (hstep : GoesOn s.control control') :
      Step sessionId render s { s with control := control' }

/-- The live session runs the prompt and the schema of the active policy, if that has a prompt. -/
def RunsActive (render : Schema → String) (s : LiveRun Schema Zone) : Prop :=
  ∀ policy ∈ reconstructPolicies s.requests.log, policy.status = .active →
    ∀ prompt, policy.content.prompt = some prompt →
      s.control.config = wanted render prompt policy.content.outputSchema

/-- The session is live and nothing is asked for yet. -/
structure Starts (render : Schema → String) (s : LiveRun Schema Zone) : Prop where
  numbered : Numbered s.requests.log
  noRequest : s.requests.tasks = []
  noCall : s.control = Control.start s.control.generation s.control.config
  noUpdate : s.acknowledged = []
  active : s.RunsActive render

/-- States of any run. -/
def Reachable (sessionId : String) (render : Schema → String) (s : LiveRun Schema Zone) : Prop :=
  ∃ start : LiveRun Schema Zone, start.Starts render ∧
    Relation.ReflTransGen (Step sessionId render) start s

/-- An update that is acknowledged in this step was applied after all that were acknowledged
before. -/
def InOrder (s s' : LiveRun Schema Zone) : Prop :=
  ∀ call, s'.acknowledged = s.acknowledged ++ [call] → ∀ earlier ∈ s.acknowledged,
    s.control.applied.idxOf earlier < s.control.applied.idxOf call

/-- States of runs that acknowledge updates in the order in which these were applied. -/
def ReachableInOrder (sessionId : String) (render : Schema → String) (s : LiveRun Schema Zone) :
    Prop :=
  ∃ start : LiveRun Schema Zone, start.Starts render ∧
    Relation.ReflTransGen (fun s s' ↦ Step sessionId render s s' ∧ InOrder s s') start s

/-- Every request has come to its end. -/
def Finished (s : LiveRun Schema Zone) : Prop := ∀ task ∈ s.requests.tasks, task = .done

end LiveRun

end Vidarax.Policy
