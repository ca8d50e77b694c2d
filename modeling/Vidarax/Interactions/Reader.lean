import Vidarax.Base.Table
import Vidarax.Interactions.Journal

/-!
# The interactions of a run

Package `vidarax-api`, `handlers.rs:2600–2728`. The reader collects times by chunk index from the
events of one kind and adds them to the items of the events of another kind.
-/

namespace Vidarax.Interactions

open Base Json

/-- Times of a chunk. -/
abbrev Timing : Type := Table Nat (Nat × Nat)

/-- One round of the loop that builds `chunk_timing`; `handlers.rs:2625`. -/
def timingStep (chunkTiming : Timing) (event : TimelineEvent) : Timing :=
  match (event.payload.get "chunk_index").bind asU64 with
  | some idx =>
    let ptsStart := ((event.payload.get "pts_start_ms").bind asU64).getD event.ptsMs.toNat
    let ptsEnd := ((event.payload.get "pts_end_ms").bind asU64).getD event.ptsMs.toNat
    chunkTiming.insert idx (ptsStart, ptsEnd)
  | none => chunkTiming

/-- `chunk_timing`. -/
def chunkTiming (events : List TimelineEvent) : Timing :=
  (events.filter (·.kind = .semanticChunkGenerated)).foldl timingStep ∅

/-- The event is one of those that are read for a query; `handlers.rs:2645`. -/
def Selected (index : Option String) (event : TimelineEvent) : Prop :=
  event.kind = .semanticChunkInferred ∧
    match index with
    | none => True
    | some wanted => (event.payload.get "index_name").bind asStr = some wanted

instance (index : Option String) (event : TimelineEvent) : Decidable (Selected index event) := by
  cases index <;> unfold Selected <;> infer_instance

/-- Members that an item gets when it does not bring them. -/
def enrich (chunkIndex : Option Nat) (pts : Nat × Nat) (item : Json) : Json :=
  item
    |>.orInsert "chunk_index" (nullable (whole <| .ofNat ·) chunkIndex)
    |>.orInsert "pts_start_ms" (whole (.ofNat pts.1))
    |>.orInsert "pts_end_ms" (whole (.ofNat pts.2))

/-- The item of an event without raw output; `handlers.rs:2698`. -/
def legacyItem (payload : Json) (chunkIndex : Option Nat) (pts : Nat × Nat) : Option Json :=
  let objectLabel := ((payload.get "object_label").bind asStr).getD ""
  let eventType := ((payload.get "event_type").bind asStr).getD ""
  if objectLabel = "" ∧ eventType = "" then none
  else some (object [
    ("chunk_index", nullable (whole <| .ofNat ·) chunkIndex),
    ("pts_start_ms", whole (.ofNat pts.1)),
    ("pts_end_ms", whole (.ofNat pts.2)),
    ("object_label", string objectLabel),
    ("event_type", string eventType)])

/-- The items of one event; `handlers.rs:2656`. -/
def interactionsOf (timing : Timing) (event : TimelineEvent) : List Json :=
  let chunkIndex := (event.payload.get "chunk_index").bind asU64
  let pts := (chunkIndex.bind (timing[·]?)).getD (event.ptsMs.toNat, event.ptsMs.toNat)
  match event.payload.get "raw_output" with
  | some (array items) => items.map (enrich chunkIndex pts)
  | some (object members) => [enrich chunkIndex pts (object members)]
  | _ => (legacyItem event.payload chunkIndex pts).toList

/-- `get_interactions`. -/
def getInteractions (index : Option String) (events : List TimelineEvent) : List Json :=
  (events.filter (Selected index ·)).flatMap (interactionsOf (chunkTiming events))

/-! ### What the items of an event bring -/

/-- The items of an event as the model returned them; a legacy item brings no time. -/
def rawItems (payload : Json) : List Json :=
  match payload.get "raw_output" with
  | some (array items) => items
  | some (object members) => [object members]
  | _ => (legacyItem payload none (0, 0)).toList.map fun _ ↦ object []

/-- The value has its own member, or the item carries this one. -/
def Carries (key : String) (value : Json) (raw item : Json) : Prop :=
  raw.get key = none → item.get key = some value

/-- An item carries the times of a chunk where it does not bring its own. -/
def Timed (prep : ChunkPrep) (raw item : Json) : Prop :=
  Carries "pts_start_ms" (whole prep.ptsStartMs) raw item ∧
    Carries "pts_end_ms" (whole prep.ptsEndMs) raw item

end Vidarax.Interactions
