import Mathlib.Data.Nat.Pairing
import Vidarax.Commit.Tombstone
import Vidarax.Commit.Waiting

/-!
# Deletions of runs

Package `vidarax-api`, `crates/vidarax-api/src/state.rs:1045–1187,1885–2046,2158–2433`. What holds
of every run of a system of callers and a writer, and what comes about in a fair one.
-/

namespace Vidarax.Commit

open Vidarax.Base Vidarax.Timeline Vidarax.Runs

namespace System

variable {s : System} {id : Nat} {crc : Bytes → UInt32} {fromStr : String → Option Json} {run : Ref}

/-- A run of the system in two parts. -/
theorem after_add (s : System) (actions : Nat → Action) (m n : Nat) :
    s.after crc fromStr actions (m + n) =
      (s.after crc fromStr actions m).after crc fromStr (fun k ↦ actions (m + k)) n := by
  induction n with
  | zero => rfl
  | succ n ih => rw [← Nat.add_assoc, System.after, System.after, ih]

/-- A live deletion flag is claimed by the call that comes to it. -/
theorem claim_live {call : Call} (hcall : s.calls[id]? = some call)
    (hstate : call.state = .claiming run) (hlive : s.flag run = some .live)
    (refused : Option String) :
    (s.callStep id refused).flag run = some .appendInFlight ∧
      (s.callStep id refused).calls[id]? = some { call with state := .building (some run) } := by
  have hcall' : (s.modify run RunState.beginDeleteAppend).calls[id]? = some call := by
    rw [calls_modify, hcall]
  have hclaim : s.callStep id refused =
      (s.modify run RunState.beginDeleteAppend).setCall id (.building (some run)) := by
    unfold callStep
    rw [hcall]
    dsimp only
    rw [hstate]
    exact if_pos hlive
  rw [hclaim]
  refine ⟨?_, getElem?_setCall_eq hcall' _⟩
  show (s.modify run RunState.beginDeleteAppend).flag run = _
  rw [flag_beginDeleteAppend hlive, if_pos rfl]

/-- Calls that append and delete, in any order of steps and with any failures. What is committed
for a live run while its entry is retained has one deletion at most and nothing behind it, and
while it has none a claim on its deletion is rolled back when it ends. A deletion is confirmed only
when it is in the log. A live flag can be claimed, a claim ends, each sleeping call is woken, and
none waits for good unless the deletion is claimed again and again. -/
theorem delete_contract (crc : Bytes → UInt32) (fromStr : String → Option Json)
    (stored : List TimelineEvent) (wal : WalWriter) (file : Bytes) (maxSeq : Nat)
    (actions : Nat → Action) :
    let first := start (.spawn wal file (.ofEvents fromStr stored maxSeq))
    let state := first.after crc fromStr actions
    (∀ run i j, i ≤ j → (state i).Settled run →
      (∀ k, i ≤ k → k < j → ¬ (actions k).Creates run) →
      (∀ k, i ≤ k → k ≤ j → (state k).w.registry.runs.contains run = true) →
      ∃ new, (state j).committed = (state i).committed ++ new ∧
        (new.filter fun e ↦ e.kind = "run_deleted" ∧ e.runId = run).length ≤ 1 ∧
        Final run new ∧
        ((∀ e ∈ new, e.runId = run → e.kind ≠ "run_deleted") →
          (state j).flag ⟨run, (state i).generation run⟩ = some .live ∨
            (state j).flag ⟨run, (state i).generation run⟩ = some .appendInFlight)) ∧
    (∀ i, ∀ call ∈ (state i).calls, call.kind = "run_deleted" →
      ∀ event, call.state = .returned (.ok event) → (state i).Deleted stored call.runId) ∧
    (∀ i id refused call run, actions i = .call id refused →
      (state i).calls[id]? = some call → call.state = .claiming run →
      (state i).flag run = some .live → (state (i + 1)).flag run = some .appendInFlight ∧
        (state (i + 1)).calls[id]? = some { call with state := .building (some run) }) ∧
    (Fair crc fromStr first actions → ∀ run i, (state i).flag run = some .appendInFlight →
      ∃ j, i ≤ j ∧ (∀ k, i ≤ k → k ≤ j → (state k).flag run = some .appendInFlight) ∧
        ((state (j + 1)).flag run = some .live ∨
          (state (j + 1)).flag run = some .deleted ∧ (state (j + 1)).Deleted stored run.run)) ∧
    (Fair crc fromStr first actions → ∀ run i id, (∃ j, i ≤ j ∧ ¬ (state j).Asleep id run) ∧
      ((∃ j, i ≤ j ∧ ¬ (state j).Waiting id run) ∨
        Recurs fun j ↦ (state j).flag run ≠ some .appendInFlight ∧
          (state (j + 1)).flag run = some .appendInFlight)) := by
  intro first state
  have hstart : Coherent stored first := coherent_start fromStr stored wal file maxSeq
  have halert : first.Alert := fun _ hcall ↦ absurd hcall List.not_mem_nil
  refine ⟨fun run i j hij hsettled hcreates hretained ↦ ?_,
    fun i call hcall hkind event hstate ↦ (hstart.after crc fromStr actions i).sound.returned
      call hcall event hstate hkind,
    fun i id refused call run haction hcall hstate hlive ↦ ?_,
    fun hfair run i hflag ↦ claim_ends hstart hfair hflag,
    fun hfair run i id ↦ ⟨exists_not_asleep hstart halert hfair i id run,
      exists_not_waiting_or hstart halert hfair i id run⟩⟩
  · obtain ⟨n, rfl⟩ := Nat.exists_eq_add_of_le hij
    have hshift (k : Nat) : state (i + k) = (state i).after crc fromStr (fun k ↦ actions (i + k)) k :=
      after_add first actions i k
    obtain ⟨new, hcommitted, hfinal, hlive⟩ := hsettled.final crc fromStr
      (hstart.after crc fromStr actions i) (fun k ↦ actions (i + k)) n
      (fun k hk ↦ hcreates (i + k) (Nat.le_add_right i k) (Nat.add_lt_add_left hk i))
      fun k hk ↦ by
        rw [← hshift]
        exact hretained (i + k) (Nat.le_add_right i k) (Nat.add_le_add_left hk i)
    rw [← hshift] at hcommitted hlive
    exact ⟨new, hcommitted, hfinal.length_filter_le, hfinal, hlive⟩
  · show ((state i).step crc fromStr (actions i)).flag run = _ ∧ _
    rw [show state (i + 1) = (state i).step crc fromStr (actions i) from rfl, haction]
    exact claim_live hcall hstate hlive refused

/-- A run that a restored registry has as live is settled. -/
theorem settled_start (fromStr : String → Option Json) (stored : List TimelineEvent)
    (wal : WalWriter) (file : Bytes) (maxSeq : Nat) {run : String} {state : RunState}
    (hstate : (RunRegistry.build fromStr stored).runs[run]? = some state)
    (hlive : state.deleteState = .live) :
    (start (.spawn wal file (.ofEvents fromStr stored maxSeq))).Settled run where
  live := by
    have hobject : (start (.spawn wal file (.ofEvents fromStr stored maxSeq))).object ⟨run, 0⟩ =
        some state := hstate
    show ((start _).object ⟨run, 0⟩).map RunState.deleteState = _
    rw [hobject, Option.map_some, hlive]
  calls := fun _ hcall ↦ absurd hcall List.not_mem_nil
  asks := fun _ hq ↦ absurd hq List.not_mem_nil
  unfinished := fun _ ha ↦ absurd ha List.not_mem_nil

/-- A log in which a run is created. -/
def created : List TimelineEvent := [⟨1, "run", "cam", 0, "run_created", "{}"⟩]

/-- A call deletes the run, and from then on the writer and the calls take turns. -/
def turns : Nat → Action
  | 0 => .enter .async "run" "cam" "run_deleted" "{}"
  | 1 | 2 => .call 0 none
  | n + 3 =>
    if n % 2 = 0 then .writer ⟨0, .done, none, RunRegistry.unprotected⟩
    else .call (n / 2).unpair.1 none

theorem fair_turns (crc : Bytes → UInt32) (fromStr : String → Option Json) (s : System) :
    Fair crc fromStr s turns := by
  refine ⟨fun n ↦ ⟨2 * n + 3, by omega, _, if_pos (Nat.mul_mod_right 2 n)⟩, fun id _ n ↦ ?_⟩
  have hlate := Nat.right_le_pair id n
  refine ⟨2 * Nat.pair id n + 1 + 3, by omega, none, ?_⟩
  have hodd : ¬ (2 * Nat.pair id n + 1) % 2 = 0 := by omega
  have hhalf : (2 * Nat.pair id n + 1) / 2 = Nat.pair id n := by omega
  rw [turns, if_neg hodd, hhalf, Nat.unpair_pair]

theorem runs_build_created (fromStr : String → Option Json) :
    ∃ run, (RunRegistry.build fromStr created).runs["run"]? = some run ∧
      run.deleteState = .live := by
  rcases RunRegistry.applyStructuralEvent_eq fromStr RunRegistry.unprotected RunRegistry.empty
    ⟨1, "run", "cam", 0, "run_created", "{}"⟩ with ⟨⟨-, hdeleted⟩, -⟩ | ⟨-, hrecord, -⟩
  · rw [RunRegistry.deleted_applyEvent] at hdeleted
    simp [RunRegistry.summary, RunRegistry.empty, RunSummary.defaultPublic] at hdeleted
  · have hbuild : RunRegistry.build fromStr created = RunRegistry.record fromStr RunRegistry.empty
        ⟨1, "run", "cam", 0, "run_created", "{}"⟩ := hrecord
    rw [hbuild, RunRegistry.record]
    refine ⟨_, Std.ExtTreeMap.getElem?_insert_self, ?_⟩
    simp [RunState.fromSummary, RunRegistry.deleted_applyEvent, RunRegistry.summary,
      RunRegistry.empty, RunSummary.defaultPublic]

theorem delete_contract_turns :
    let first := start (.spawn ⟨0, 0, false⟩ [] (.ofEvents (fun _ ↦ none) created 1))
    let state := first.after (fun _ ↦ 0) (fun _ ↦ none) turns
    (∃ new, (state 1).committed = (state 0).committed ++ new ∧ Final "run" new) ∧
      ∃ j, 3 ≤ j ∧ ((state (j + 1)).flag ⟨"run", 0⟩ = some .live ∨
        (state (j + 1)).flag ⟨"run", 0⟩ = some .deleted ∧
          (state (j + 1)).Deleted created "run") := by
  intro first state
  obtain ⟨hfinal, -, hclaim, hends, -⟩ := delete_contract (fun _ ↦ 0) (fun _ ↦ none) created
    ⟨0, 0, false⟩ [] 1 turns
  obtain ⟨run, hrun, hlive⟩ := runs_build_created (fun _ ↦ none)
  have hsettled : (state 0).Settled "run" :=
    settled_start (fun _ ↦ none) created ⟨0, 0, false⟩ [] 1 hrun hlive
  have hentry : first.entry "run" = some ⟨"run", 0⟩ := entry_of_flag rfl hsettled.live
  constructor
  · obtain ⟨new, hcommitted, -, hlast, -⟩ := hfinal "run" 0 1 (Nat.zero_le 1) hsettled
      (fun k _ hk ↦ by
        obtain rfl := Nat.lt_one_iff.mp hk
        exact fun hcreates ↦ absurd hcreates.2 (by decide))
      fun k _ hk ↦ by
        have hsame : (state k).w.registry.runs = (RunRegistry.build (fun _ ↦ none) created).runs := by
          interval_cases k <;> rfl
        rw [hsame, Std.ExtTreeMap.contains_eq_isSome_getElem?, hrun]
        rfl
    exact ⟨new, hcommitted, hlast⟩
  · have hentered : (state 1).calls[0]? =
        some ⟨.async, "run", "cam", "run_deleted", "{}", .looking⟩ := rfl
    have hfound : state 2 = (state 1).setCall 0 (.claiming ⟨"run", 0⟩) := by
      show (state 1).callStep 0 none = _
      unfold callStep
      rw [hentered]
      dsimp only
      rw [show (state 1).entry "run" = some ⟨"run", 0⟩ from hentry]
    have hlooking : (state 2).calls[0]? =
        some ⟨.async, "run", "cam", "run_deleted", "{}", .claiming ⟨"run", 0⟩⟩ := by
      rw [hfound]
      exact getElem?_setCall_eq hentered _
    have hflag : (state 2).flag ⟨"run", 0⟩ = some .live := by
      rw [hfound]
      exact hsettled.live
    obtain ⟨hclaimed, -⟩ := hclaim 2 0 none _ ⟨"run", 0⟩ rfl hlooking rfl hflag
    obtain ⟨j, hj, -, hended⟩ := hends (fair_turns _ _ _) ⟨"run", 0⟩ 3 hclaimed
    exact ⟨j, hj, hended⟩

end System

end Vidarax.Commit
