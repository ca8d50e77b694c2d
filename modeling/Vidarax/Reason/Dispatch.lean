import Mathlib.Logic.Relation
import Vidarax.Base.Focus

/-!
# Dispatch and journal of a realtime reason request

Package `vidarax-api`, `crates/vidarax-api/src/semantic_infer.rs:498–723` and
`crates/vidarax-api/src/handlers.rs:1464–1600,2195–2248`. A dispatcher has the chunks of a request
inferred and sends each result, as it completes, over a bounded channel to a journal that appends
its events. One task joins the two, and the tasks of the inferences run beside it. The receiver of
the channel belongs to the request, so it is still there when the journal has ended.
-/

namespace Vidarax.Reason

/-- `ChunkSemanticResult`, as far as the journal reads it; `semantic_infer.rs:213`. -/
structure ChunkSemanticResult (Moment : Type) where
  attempted : Bool
  usedFallback : Bool
  error : Option String
  moments : List Moment

variable {Moment : Type}

/-- A chunk and its result, as they are sent. -/
abbrev Completion (Moment : Type) : Type := Nat × ChunkSemanticResult Moment

/-- `semantic_join_failure_result`; `semantic_infer.rs:716`. -/
def semanticJoinFailureResult (err : String) : ChunkSemanticResult Moment :=
  ⟨true, true, some ("join_error:" ++ err), []⟩

/-- Events that the journal appends. -/
inductive JournalEvent (Moment : Type) where
  /-- `semantic_chunk_inferred`. -/
  | inferred (chunk : Nat) (result : ChunkSemanticResult Moment)
  /-- `multimodal_moment`. -/
  | moment (chunk index : Nat) (moment : Moment)

/-- The events of a result, in the order of `append_semantic_chunk_event`; `handlers.rs:1464`. -/
def chunkEvents (completion : Completion Moment) : List (JournalEvent Moment) :=
  if completion.2.attempted then
    .inferred completion.1 completion.2 ::
      completion.2.moments.mapIdx fun index moment ↦ .moment completion.1 index moment
  else []

/-- What a request asks for. `vlm_concurrency` is clamped. -/
structure DispatchConfig where
  numChunks : Nat
  temporalChain : Bool
  vlmConcurrency : Nat
  one_le : 1 ≤ vlmConcurrency
  le_max : vlmConcurrency ≤ 64

/-- How many chunks are inferred at a time: a temporal chain infers one after the other. -/
def DispatchConfig.maxInFlight (config : DispatchConfig) : Nat :=
  if config.temporalChain then 1 else max config.vlmConcurrency 1

/-- How far the dispatcher has come. -/
inductive Dispatcher (Moment : Type) where
  /-- The first inferences are to be started. -/
  | filling (left : Nat)
  /-- Waits for an inference. -/
  | joining
  /-- Waits for room in the channel. -/
  | sending (completion : Completion Moment)
  | done

/-- How far the journal has come. -/
inductive Journal (Moment : Type) where
  | receiving
  | appending (todo : List (JournalEvent Moment))
  /-- An append failed, and the journal has returned the error. -/
  | failed
  /-- The channel was closed. -/
  | done

/-- The request. What was received is kept for statements only. -/
structure Request (Moment : Type) where
  dispatcher : Dispatcher Moment
  /-- The next chunk to be inferred. -/
  next : Nat
  /-- Chunks that are being inferred, and those whose inference is done and not yet joined. -/
  tasks : List (Nat × Option (ChunkSemanticResult Moment))
  semanticResults : List (Option (ChunkSemanticResult Moment))
  channel : List (Completion Moment)
  journal : Journal Moment
  log : List (JournalEvent Moment)
  received : List (Completion Moment)

namespace Request

/-- Start the inference of the next chunk, if there is one. -/
def startNext (config : DispatchConfig) (s : Request Moment) : Request Moment :=
  if s.next < config.numChunks then
    { s with tasks := s.tasks ++ [(s.next, none)], next := s.next + 1 }
  else s

/-- One operation of the dispatcher, of an inference or of the journal. -/
inductive Step (config : DispatchConfig) (s : Request Moment) : Request Moment → Prop where
  | start {left : Nat} (hfilling : s.dispatcher = .filling (left + 1)) :
      Step config s (startNext config { s with dispatcher := .filling left })
  | filled (hfilling : s.dispatcher = .filling 0) : Step config s { s with dispatcher := .joining }
  /-- `infer_chunk_semantics` returns, which attempts every inference; `semantic_infer.rs:788`. -/
  | infer {l r : List (Nat × Option (ChunkSemanticResult Moment))} {chunk : Nat}
      (hat : s.tasks = l ++ (chunk, none) :: r) (result : ChunkSemanticResult Moment)
      (hattempted : result.attempted = true) :
      Step config s { s with tasks := l ++ (chunk, some result) :: r }
  | panic {l r : List (Nat × Option (ChunkSemanticResult Moment))} {chunk : Nat}
      (hat : s.tasks = l ++ (chunk, none) :: r) (hconcurrent : config.temporalChain = false)
      (err : String) :
      Step config s { s with tasks := l ++ (chunk, some (semanticJoinFailureResult err)) :: r }
  /-- `join_next_with_id`, which returns any task that is done; `semantic_infer.rs:614`. -/
  | join {l r : List (Nat × Option (ChunkSemanticResult Moment))} {chunk : Nat}
      {result : ChunkSemanticResult Moment} (hjoining : s.dispatcher = .joining)
      (hat : s.tasks = l ++ (chunk, some result) :: r) :
      Step config s { s with dispatcher := .sending (chunk, result), tasks := l ++ r }
  | exhausted (hjoining : s.dispatcher = .joining) (hnone : s.tasks = []) :
      Step config s { s with dispatcher := .done }
  /-- `send` has room; the result is stored and the next inference starts. -/
  | send {completion : Completion Moment} (hsending : s.dispatcher = .sending completion)
      (hroom : s.channel.length < config.vlmConcurrency) :
      Step config s (startNext config { s with
        dispatcher := .joining
        channel := s.channel ++ [completion]
        semanticResults := s.semanticResults.set completion.1 (some completion.2) })
  | receive {completion : Completion Moment} {rest : List (Completion Moment)}
      (hreceiving : s.journal = .receiving) (hchannel : s.channel = completion :: rest) :
      Step config s { s with
        journal := .appending (chunkEvents completion)
        channel := rest
        received := s.received ++ [completion] }
  | append {event : JournalEvent Moment} {todo : List (JournalEvent Moment)}
      (happending : s.journal = .appending (event :: todo)) :
      Step config s { s with journal := .appending todo, log := s.log ++ [event] }
  /-- The append of an event, or what comes before it, fails. -/
  | fail {event : JournalEvent Moment} {todo : List (JournalEvent Moment)}
      (happending : s.journal = .appending (event :: todo)) :
      Step config s { s with journal := .failed }
  | appended (happending : s.journal = .appending []) :
      Step config s { s with journal := .receiving }
  /-- The dispatcher has dropped the sender and the channel is empty. -/
  | close (hreceiving : s.journal = .receiving) (hchannel : s.channel = [])
      (hdone : s.dispatcher = .done) : Step config s { s with journal := .done }

/-- Nothing is inferred yet. -/
def initial (config : DispatchConfig) : Request Moment where
  dispatcher := .filling (min config.maxInFlight config.numChunks)
  next := 0
  tasks := []
  semanticResults := List.replicate config.numChunks none
  channel := []
  journal := .receiving
  log := []
  received := []

/-- States of any run. -/
def Reachable (config : DispatchConfig) (s : Request Moment) : Prop :=
  Relation.ReflTransGen (Step config) (initial config) s

/-- If the journal fails in this step, the channel has room for every chunk that it has not
received. -/
def Timely (config : DispatchConfig) (s s' : Request Moment) : Prop :=
  s.journal ≠ .failed → s'.journal = .failed →
    config.numChunks ≤ s.received.length + config.vlmConcurrency

/-- States of runs in which the journal fails in time, if it fails. -/
def ReachableTimely (config : DispatchConfig) (s : Request Moment) : Prop :=
  Relation.ReflTransGen (fun s s' ↦ Step config s s' ∧ Timely config s s') (initial config) s

/-- `tokio::join!` is complete. -/
def Joined (s : Request Moment) : Prop :=
  s.dispatcher = .done ∧ (s.journal = .done ∨ s.journal = .failed)

/-- The completion that waits for room in the channel. -/
def sending (s : Request Moment) : List (Completion Moment) :=
  match s.dispatcher with
  | .sending completion => [completion]
  | _ => []

/-- Completed chunks, in the order of their completion. -/
def completed (s : Request Moment) : List (Completion Moment) :=
  s.received ++ s.channel ++ s.sending

/-- Events that the journal still has to append for the result that it received last. -/
def todo (s : Request Moment) : List (JournalEvent Moment) :=
  match s.journal with
  | .appending todo => todo
  | _ => []

end Request

end Vidarax.Reason
