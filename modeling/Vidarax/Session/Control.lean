import Mathlib.Logic.Relation

/-!
# Live configuration commands

Package `vidarax-core`, `crates/vidarax-core/src/webrtc/runtime.rs:108–243`, and its callers in
`vidarax-api`, `crates/vidarax-api/src/whip.rs:1385–1431` and `policies.rs:704–715`. A caller sends
its update over a bounded channel and waits for the answer of the worker, at most for two seconds.
The worker takes commands between its work items. A step is one operation on the channel, on the
channel of an answer or on the configuration.
-/

namespace Vidarax.Session

/-- `SESSION_COMMAND_QUEUE_CAPACITY`; `runtime.rs:10`. -/
def SESSION_COMMAND_QUEUE_CAPACITY : Nat := 8

/-- What a worker asks the model for. -/
structure Config where
  prompt : String
  guidedJson : Option String
  deriving DecidableEq

/-- `SessionControlError`; `runtime.rs:118`. -/
inductive SessionControlError where
  | closed
  | staleGeneration (expected received : UInt64)
  deriving DecidableEq

/-- What a caller of `update_config` is told. -/
inductive Outcome where
  | accepted
  | rejected (error : SessionControlError)
  /-- The caller has dropped the call after two seconds. -/
  | timedOut
  deriving DecidableEq

/-- How far a call of `update_config` has come. -/
inductive CallPhase where
  | begun
  /-- Waits for room in the queue. -/
  | sending
  /-- Waits for the answer. -/
  | waiting
  | told (outcome : Outcome)
  deriving DecidableEq

/-- A call, and the answer that was sent to it: a dropped sender closes it. -/
structure Call where
  config : Config
  generation : UInt64
  phase : CallPhase
  answer : Option (Except SessionControlError Unit)

/-- What the worker is at. -/
inductive Worker where
  /-- Between two commands, or between two polls of the queue. -/
  | idle
  | taken (call : Nat)
  /-- The caller was still waiting. -/
  | checked (call : Nat)
  /-- The command is of another generation. -/
  | stale (call : Nat)
  /-- The configuration is set. -/
  | set (call : Nat)
  | ended
  deriving DecidableEq

/-- The channel, its callers and the worker. What was sent and applied is kept for statements
only. -/
structure Control where
  generation : UInt64
  stopping : Bool
  calls : List Call
  queue : List Nat
  worker : Worker
  config : Config
  /-- Calls in the order of the queue. -/
  sent : List Nat
  applied : List Nat

namespace Control

/-- The phase of a call changes. -/
def move (s : Control) (id : Nat) (call : Call) (phase : CallPhase) : Control :=
  { s with calls := s.calls.set id { call with phase := phase } }

/-- The worker answers a call and is done with it. -/
def reply (s : Control) (id : Nat) (call : Call) (answer : Except SessionControlError Unit) :
    Control :=
  { s with calls := s.calls.set id { call with answer := some answer }, worker := .idle }

/-- The receiver is dropped with every command that is still queued. -/
def dropCommands (s : Control) : Control :=
  { s with
    worker := .ended
    queue := []
    calls := s.calls.mapIdx fun id call ↦
      if id ∈ s.queue then { call with answer := some (.error .closed) } else call }

/-- One operation. -/
inductive Step (s : Control) : Control → Prop where
  | call (config : Config) (generation : UInt64) :
      Step s { s with calls := s.calls ++ [⟨config, generation, .begun, none⟩] }
  | refuse {id : Nat} {call : Call} (hcall : s.calls[id]? = some call) (hbegun : call.phase = .begun)
      (hstopping : s.stopping = true) : Step s (s.move id call (.told (.rejected .closed)))
  | accept {id : Nat} {call : Call} (hcall : s.calls[id]? = some call) (hbegun : call.phase = .begun)
      (hrunning : s.stopping = false) : Step s (s.move id call .sending)
  | send {id : Nat} {call : Call} (hcall : s.calls[id]? = some call)
      (hsending : call.phase = .sending) (hopen : s.worker ≠ .ended)
      (hroom : s.queue.length < SESSION_COMMAND_QUEUE_CAPACITY) :
      Step s { s.move id call .waiting with queue := s.queue ++ [id], sent := s.sent ++ [id] }
  | sendClosed {id : Nat} {call : Call} (hcall : s.calls[id]? = some call)
      (hsending : call.phase = .sending) (hended : s.worker = .ended) :
      Step s (s.move id call (.told (.rejected .closed)))
  | hear {id : Nat} {call : Call} {answer : Except SessionControlError Unit}
      (hcall : s.calls[id]? = some call) (hwaiting : call.phase = .waiting)
      (hanswer : call.answer = some answer) :
      Step s (s.move id call (.told (match answer with
        | .ok () => .accepted
        | .error error => .rejected error)))
  /-- The timeout drops the call, also when the answer is on its way. -/
  | abandon {id : Nat} {call : Call} (hcall : s.calls[id]? = some call)
      (hpending : ∀ outcome, call.phase ≠ .told outcome) :
      Step s (s.move id call (.told .timedOut))
  | stop : Step s { s with stopping := true }
  | take {id : Nat} {rest : List Nat} (hidle : s.worker = .idle) (hqueue : s.queue = id :: rest) :
      Step s { s with worker := .taken id, queue := rest }
  /-- `accepted.is_closed()`. -/
  | skip {id : Nat} {call : Call} {outcome : Outcome} (htaken : s.worker = .taken id)
      (hcall : s.calls[id]? = some call) (hclosed : call.phase = .told outcome) :
      Step s { s with worker := .idle }
  | check {id : Nat} {call : Call} (htaken : s.worker = .taken id)
      (hcall : s.calls[id]? = some call) (hopen : ∀ outcome, call.phase ≠ .told outcome)
      (hgeneration : call.generation = s.generation) : Step s { s with worker := .checked id }
  | mismatch {id : Nat} {call : Call} (htaken : s.worker = .taken id)
      (hcall : s.calls[id]? = some call) (hopen : ∀ outcome, call.phase ≠ .told outcome)
      (hgeneration : call.generation ≠ s.generation) : Step s { s with worker := .stale id }
  | reject {id : Nat} {call : Call} (hstale : s.worker = .stale id)
      (hcall : s.calls[id]? = some call) :
      Step s (s.reply id call (.error (.staleGeneration s.generation call.generation)))
  | apply {id : Nat} {call : Call} (hchecked : s.worker = .checked id)
      (hcall : s.calls[id]? = some call) :
      Step s { s with worker := .set id, config := call.config, applied := s.applied ++ [id] }
  | acknowledge {id : Nat} {call : Call} (hset : s.worker = .set id)
      (hcall : s.calls[id]? = some call) : Step s (s.reply id call (.ok ()))
  | finish (hidle : s.worker = .idle) : Step s s.dropCommands

/-- Nothing was asked for yet. -/
def start (generation : UInt64) (config : Config) : Control :=
  ⟨generation, false, [], [], .idle, config, [], []⟩

/-- The worker has found the caller of this call waiting, and the caller has not taken the answer
that follows. -/
def Answering (s : Control) (id : Nat) : Prop :=
  s.worker = .checked id ∨ s.worker = .set id ∨
    ∃ call, s.calls[id]? = some call ∧ call.answer = some (.ok ())

/-- No call is abandoned in this step while its answer is on its way. -/
def Timely (s s' : Control) : Prop :=
  ∀ id call, s'.calls[id]? = some call → call.phase = .told .timedOut → s.Answering id →
    ∃ old, s.calls[id]? = some old ∧ old.phase = .told .timedOut

/-- States of any run. -/
def Reachable (generation : UInt64) (config : Config) (s : Control) : Prop :=
  Relation.ReflTransGen Step (start generation config) s

/-- States of runs that abandon no call while its answer is on its way. -/
def ReachableTimely (generation : UInt64) (config : Config) (s : Control) : Prop :=
  Relation.ReflTransGen (fun s s' ↦ Step s s' ∧ Timely s s') (start generation config) s

end Control

end Vidarax.Session
