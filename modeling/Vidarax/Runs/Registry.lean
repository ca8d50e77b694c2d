import Vidarax.Base.Table
import Vidarax.Runs.Summary

/-!
# The run registry

Package `vidarax-api`, `crates/vidarax-api/src/state.rs:2120–2246,2472–2478`. The states of the
runs, an index of the live ones by principal, and a queue of deleted ones of which the oldest are
forgotten. Handlers of requests protect runs at any time, so what the set of protected runs says
at each look-up is an input.
-/

namespace Vidarax.Runs

open Vidarax.Base Vidarax.Timeline

/-- How many deleted runs are kept; `state.rs:83`. -/
def DELETED_RUN_RETENTION_CAP : Nat := 4096

/-- The registry; `state.rs:2133`. -/
@[ext] structure RunRegistry where
  runs : Table String RunState
  byPrincipal : Table String (Finset String)
  deletedRunOrder : List String

/-- Whether a run is in `protected_tombstones` at each look-up that an event makes. -/
abbrev Protection : Type := Nat → String → Bool

namespace RunRegistry

/-- `default`. -/
def empty : RunRegistry := ⟨∅, ∅, []⟩

/-- Summary of a run, or of a run without events. -/
def summary (r : RunRegistry) (run : String) : RunSummary :=
  (r.runs[run]?.map RunState.snapshot).getD RunSummary.defaultPublic

/-- Take a run out of a bucket, and the bucket out of the index if it is empty. -/
def leaveBucket (r : RunRegistry) (principal run : String) : RunRegistry :=
  match r.byPrincipal[principal]? with
  | none => r
  | some set =>
    let set := set.erase run
    { r with
      byPrincipal :=
        if set = ∅ then r.byPrincipal.erase principal else r.byPrincipal.insert principal set }

/-- Put a run into a bucket. -/
def joinBucket (r : RunRegistry) (principal run : String) : RunRegistry :=
  { r with
    byPrincipal :=
      r.byPrincipal.insert principal (insert run (r.byPrincipal[principal]?.getD ∅)) }

/-- Index a run by its principal, as its summary changes; `state.rs:2168`. -/
def reindex (r : RunRegistry) (run : String) (before after : RunSummary) : RunRegistry :=
  let r :=
    if before.created ∧ (¬ after.created ∨ after.deleted ∨
        before.principalKey ≠ after.principalKey) then r.leaveBucket before.principalKey run
    else r
  if after.created ∧ ¬ after.deleted then r.joinBucket after.principalKey run else r

/-- Look once at each run of the queue, up to one that is not protected: this run, the queue
without it, and how many look-ups were made. Protected runs go to the end of the queue. -/
def evictPass (isProtected : Protection) :
    Nat → List String → List String → Option String × List String × Nat
  | look, [], back => (none, back, look)
  | look, oldest :: front, back =>
    if isProtected look oldest then evictPass isProtected (look + 1) front (back ++ [oldest])
    else (some oldest, front ++ back, look + 1)

/-- `remove_if` on a deleted run. -/
def removeDeleted (runs : Table String RunState) (run : String) : Table String RunState :=
  if runs[run]?.any (·.snapshot.deleted) then runs.erase run else runs

theorem evictPass_spec (isProtected : Protection) (look : Nat) (front back : List String) :
    ((evictPass isProtected look front back).1 = none ∧
        (evictPass isProtected look front back).2.1 = back ++ front ∧
        ∀ run ∈ front, ∃ n, isProtected n run = true) ∨
      ∃ skipped oldest rest n, front = skipped ++ oldest :: rest ∧ isProtected n oldest = false ∧
        (evictPass isProtected look front back).1 = some oldest ∧
        (evictPass isProtected look front back).2.1 = rest ++ (back ++ skipped) := by
  induction front generalizing look back with
  | nil => exact .inl ⟨rfl, (List.append_nil back).symm, fun _ h ↦ absurd h List.not_mem_nil⟩
  | cons oldest front ih =>
    rw [evictPass]
    by_cases hprotected : isProtected look oldest = true
    · rw [if_pos hprotected]
      rcases ih (look + 1) (back ++ [oldest]) with
        ⟨hnone, horder, hall⟩ | ⟨skipped, found, rest, n, rfl, hfree, hfound, horder⟩
      · refine .inl ⟨hnone, by rw [horder]; simp, ?_⟩
        intro run hrun
        rcases List.mem_cons.mp hrun with rfl | hrest
        · exact ⟨look, hprotected⟩
        · exact hall run hrest
      · refine .inr ⟨oldest :: skipped, found, rest, n, rfl, hfree, hfound, ?_⟩
        rw [horder]
        simp
    · rw [if_neg hprotected]
      exact .inr ⟨[], oldest, front, look, rfl, by simpa using hprotected, rfl, by simp⟩

theorem length_evictPass {isProtected : Protection} {look : Nat} {order rest : List String}
    {oldest : String} {next : Nat}
    (h : evictPass isProtected look order [] = (some oldest, rest, next)) :
    rest.length + 1 = order.length := by
  rcases evictPass_spec isProtected look order [] with
    ⟨hnone, -⟩ | ⟨skipped, found, tail, n, rfl, -, -, horder⟩
  · rw [h] at hnone
    contradiction
  · rw [h] at horder
    have hrest : rest = tail ++ ([] ++ skipped) := horder
    rw [hrest]
    simp only [List.nil_append, List.length_append, List.length_cons]
    omega

/-- Forget deleted runs while the queue is too long and one of them is not protected;
`state.rs:2194`. -/
def trim (isProtected : Protection) (look : Nat) (r : RunRegistry) : RunRegistry :=
  if r.deletedRunOrder.length > DELETED_RUN_RETENTION_CAP then
    match _h : evictPass isProtected look r.deletedRunOrder [] with
    | (none, order, _) => { r with deletedRunOrder := order }
    | (some oldest, order, look) =>
      trim isProtected look
        { r with deletedRunOrder := order, runs := removeDeleted r.runs oldest }
  else r
termination_by r.deletedRunOrder.length
decreasing_by
  have := length_evictPass _h
  omega

variable (fromStr : String → Option Json)

/-- `apply_structural_event`; `state.rs:2158`. -/
def applyStructuralEvent (isProtected : Protection) (r : RunRegistry) (event : TimelineEvent) :
    RunRegistry :=
  let before := r.summary event.runId
  let after := before.applyEvent fromStr event
  let freshlyDeleted := !before.deleted && after.deleted
  let r := r.reindex event.runId before after
  let r := { r with runs := r.runs.insert event.runId (RunState.fromSummary after) }
  if freshlyDeleted then
    trim isProtected 0 { r with deletedRunOrder := r.deletedRunOrder ++ [event.runId] }
  else r

/-- `apply_appended_event`; `state.rs:2224`. -/
def applyAppendedEvent (isProtected : Protection) (r : RunRegistry) (event : TimelineEvent) :
    RunRegistry :=
  if event.kind = "run_created" then r.applyStructuralEvent fromStr isProtected event
  else if event.kind = "run_deleted" then r.applyStructuralEvent fromStr isProtected event
  else
    match r.runs[event.runId]? with
    | some run => { r with runs := r.runs.insert event.runId (run.applyEvent event) }
    | none => r.applyStructuralEvent fromStr isProtected event

/-- No run is protected. -/
def unprotected : Protection := fun _ _ ↦ false

/-- `build_run_registry`; `state.rs:2472`. The server has no protected run yet. -/
def build (events : List TimelineEvent) : RunRegistry :=
  events.foldl (applyStructuralEvent fromStr unprotected) empty

end RunRegistry

end Vidarax.Runs
