import Vidarax.Edge.Operations

/-!
# Transitions and pruning

Package `vidarax-cli`, `edge.rs` 590–731. A transition that succeeds is completed, recovery leaves
nothing pending, and pruning takes no release that the state file names.
-/

namespace Vidarax.Edge

open Base Program

variable {Message : Type} {crypto : Crypto Message} {taken : String → Prop}
  {command : Command} {α β : Type} {d d' : Disk} {good : α → Disk → Prop}
  {bad : String → Disk → Prop}

/-! ### Transitions -/

/-- How `complete_pending_transition` ends. Where it fails, the state in memory is that of the disk,
or nothing is pending in it. -/
structure Ended (t : PendingTransition) (state : DeviceState) (d : Disk)
    (r : Except String Unit × DeviceState) (d' : Disk) : Prop where
  releases : d'.releases = d.releases
  completed : r.1 = .ok () → r.2 = t.completed state ∧ d'.device = r.2
  failed : r.1 ≠ .ok () → r.2.pending_transition = none ∨ r.2 = state ∧ d'.device = state

theorem runs_finish {state state' : DeviceState} {t : PendingTransition} {d₀ : Disk}
    (hstate : d.device = state) (hpending : state.pending_transition = some t)
    (hreleases : d.releases = d₀.releases)
    (hpointer : t.action = .Activate → d.current_model = some t.candidate.artifact_path)
    (hcompleted : { state' with pending_transition := none } = t.completed state) :
    Runs crypto taken command (Ended t state d₀) bad (complete_pending_transition.finish state')
      d := by
  apply Runs.bind (runs_write_state
    (.completed (hstate ▸ hpending) hpointer (hstate ▸ hcompleted)))
  intro answer d' h
  apply keeps_pure
  constructor
  · rcases h.1 with rfl | rfl <;> exact hreleases
  · intro hok
    exact ⟨hcompleted, by rw [h.2 hok]⟩
  · exact fun _ ↦ .inl rfl

theorem runs_complete {state : DeviceState} {t : PendingTransition} (hstate : d.device = state)
    (hpending : state.pending_transition = some t) :
    Runs crypto taken command (Ended t state d) bad (complete_pending_transition state) d := by
  unfold complete_pending_transition
  rw [hpending]
  apply Runs.bind runs_transition_hook
  rintro answer _ rfl
  cases answer with
  | error e => exact keeps_pure ⟨rfl, fun h ↦ (nomatch h), fun _ ↦ .inr ⟨rfl, hstate⟩⟩
  | ok _ =>
    cases haction : t.action with
    | StageShadow =>
      exact runs_finish hstate hpending rfl (by rw [haction]; nofun)
        (by rw [PendingTransition.completed, haction])
    | StageCanary =>
      exact runs_finish hstate hpending rfl (by rw [haction]; nofun)
        (by rw [PendingTransition.completed, haction])
    | Rollback =>
      exact runs_finish hstate hpending rfl (by rw [haction]; nofun)
        (by rw [PendingTransition.completed, haction])
    | Activate =>
      apply Runs.bind (runs_write_current_pointer (hstate ▸ hpending) haction)
      intro answer d' h
      cases answer with
      | error e =>
        exact keeps_pure ⟨h.2.1, fun he ↦ (nomatch he), fun _ ↦ .inr ⟨rfl, h.1.trans hstate⟩⟩
      | ok _ =>
        exact runs_finish (h.1.trans hstate) hpending h.2.1 (fun _ ↦ h.2.2 rfl)
          (by rw [PendingTransition.completed, haction])

/-- Where `complete_or_rollback_pending_transition` succeeds, it has completed the transition. -/
theorem runs_complete_or_rollback {state : DeviceState} {t : PendingTransition}
    (hstate : d.device = state) (hpending : state.pending_transition = some t) :
    Runs crypto taken command
      (fun state' d' ↦ d'.releases = d.releases ∧ d'.device = state' ∧
        state' = t.completed state) (fun _ _ ↦ True)
      (complete_or_rollback_pending_transition state) d := by
  unfold complete_or_rollback_pending_transition
  apply Runs.bind (runs_complete hstate hpending)
  rintro ⟨completed, state'⟩ d' ⟨hreleases, hcompleted, hfailed⟩
  cases completed with
  | ok _ =>
    obtain ⟨rfl, hdevice⟩ := hcompleted rfl
    exact keeps_pure ⟨hreleases, hdevice, rfl⟩
  | error e =>
    rcases hfailed (fun h ↦ nomatch h) with hnone | ⟨rfl, hdevice⟩
    · dsimp only at hnone ⊢
      rw [hnone]
      exact keeps_fail trivial
    · dsimp only
      rw [hpending]
      dsimp only
      split
      · exact keeps_fail trivial
      · next haction =>
        apply Runs.bind (runs_check_write_state
          (.turned (hdevice ▸ hpending) haction (by rw [hdevice])))
        rintro _ _ rfl
        apply Runs.bind
        · exact runs_complete rfl rfl
        · rintro ⟨completed', _⟩ _ -
          cases completed' with
          | ok _ => exact keeps_fail trivial
          | error e' => exact keeps_fail trivial

theorem runs_perform {state : DeviceState} {t : PendingTransition}
    (h : Change crypto taken command (.writeState { state with pending_transition := some t }) d
      { d with device := { state with pending_transition := some t } }) :
    Runs crypto taken command
      (fun state' d' ↦ d'.releases = d.releases ∧ d'.device = state' ∧
        state' = t.completed { state with pending_transition := some t }) (fun _ _ ↦ True)
      (perform_transition state t) d := by
  apply Runs.bind (runs_check_write_state h)
  rintro _ _ rfl
  apply Runs.mono
  · apply runs_complete_or_rollback <;> rfl
  · exact fun _ _ h ↦ h

/-- What recovery leaves: the files of all releases, the mark, the key and the cohort. -/
structure Recovered (d d' : Disk) (state : DeviceState) : Prop where
  device : d'.device = state
  pending : state.pending_transition = none
  folder : ∀ name, d'.folder name = d.folder name
  sequence : state.highest_release_sequence = d.device.highest_release_sequence

theorem folder_of_releases (h : d'.releases = d.releases) (name : String) :
    d'.folder name = d.folder name := by
  rw [Disk.folder, Disk.folder, h]

@[simp]
theorem pending_completed (t : PendingTransition) (state : DeviceState) :
    (t.completed state).pending_transition = none := by
  unfold PendingTransition.completed
  split <;> rfl

@[simp]
theorem sequence_completed (t : PendingTransition) (state : DeviceState) :
    (t.completed state).highest_release_sequence = state.highest_release_sequence := by
  unfold PendingTransition.completed
  split <;> rfl

theorem runs_recover :
    Runs crypto taken command (fun state d' ↦ Recovered d d' state) (fun _ _ ↦ True)
      (recover_pending_transition d.device) d := by
  unfold recover_pending_transition
  cases hpending : d.device.pending_transition with
  | none => exact keeps_pure ⟨rfl, hpending, fun _ ↦ rfl, rfl⟩
  | some t =>
    apply (runs_complete_or_rollback rfl hpending).mono
    rintro _ d' ⟨hreleases, hdevice, rfl⟩
    exact ⟨hdevice, pending_completed _ _, folder_of_releases hreleases, sequence_completed _ _⟩

/-! ### Pruning -/

/-- What pruning leaves. -/
structure Pruned (d d' : Disk) : Prop where
  device : d'.device = d.device
  manifest : ∀ name m, d'.manifestAt (.manifest_json name) = some m →
    d.manifestAt (.manifest_json name) = some m

/-- A directory that is removed, or the part of it that is, takes its manifest with it or not. -/
theorem touches_removing (outcome : Outcome) (name : String) :
    Touches name d (removing outcome d name).2 ∧
      ∀ m, (removing outcome d name).2.manifestAt (.manifest_json name) = some m →
        d.manifestAt (.manifest_json name) = some m := by
  apply removing_spec (P := fun _ d' ↦ Touches name d d' ∧
    ∀ m, d'.manifestAt (.manifest_json name) = some m →
      d.manifestAt (.manifest_json name) = some m)
  · intro f _
    apply And.intro touches_erase
    intro m hm
    rw [manifestAt_erase_self] at hm
    cases hm
  · intro e f keeps_manifest keeps_model hf
    apply And.intro touches_put
    intro m hm
    have hpart := manifest_of_put hm
    rw [manifestAt_of_folder hf]
    cases keeps_manifest
    · cases hpart
    · exact hpart
  · exact fun _ ↦ ⟨Touches.refl _ _, fun _ ↦ id⟩

theorem Touches.pruned {name : String} (h : Touches name d d')
    (hless : ∀ m, d'.manifestAt (.manifest_json name) = some m →
      d.manifestAt (.manifest_json name) = some m) : Pruned d d' := by
  apply Pruned.mk h.device
  intro n m hm
  by_cases hn : n = name
  · rw [hn] at hm ⊢
    exact hless m hm
  · rwa [← h.manifestAt hn]

theorem runs_prune_entry {state : DeviceState} {name : String} (hstate : d.device = state) :
    Runs crypto taken command (fun _ d' ↦ Pruned d d') (fun _ _ ↦ True)
      (prune_entry state name) d := by
  unfold prune_entry
  split
  · exact keeps_pure ⟨rfl, fun _ _ h ↦ h⟩
  · next hkeep =>
    apply Runs.bind runs_dir_exists
    rintro _ d ⟨rfl, rfl⟩
    cases (d.folder name).isSome with
    | false => exact keeps_pure ⟨rfl, fun _ _ h ↦ h⟩
    | true =>
      apply Runs.check
      · apply runs_ask (.removeRelease name) (fun _ d' ↦ Pruned d d')
        intro outcome _
        obtain ⟨htouches, hless⟩ := touches_removing outcome name
        exact ⟨.pruned (hstate ▸ hkeep) htouches hless, htouches.pruned hless⟩
      · exact fun _ _ h ↦ h
      · exact fun _ _ _ ↦ trivial

theorem runs_prune_entries {state : DeviceState} (hstate : d.device = state)
    (names : List String) :
    Runs crypto taken command (fun _ d' ↦ Pruned d d') (fun _ _ ↦ True)
      (prune_entries state names) d := by
  induction names generalizing d with
  | nil => exact keeps_pure ⟨rfl, fun _ _ h ↦ h⟩
  | cons name names ih =>
    apply Runs.bind (runs_prune_entry hstate)
    intro _ d' hfirst
    apply (ih (hfirst.device.trans hstate)).mono
    intro _ d'' hrest
    exact ⟨hrest.device.trans hfirst.device,
      fun n m h ↦ hfirst.manifest n m (hrest.manifest n m h)⟩

theorem runs_prune {state : DeviceState} (hstate : d.device = state) :
    Runs crypto taken command (fun _ d' ↦ Pruned d d') (fun _ _ ↦ True)
      (prune_releases state) d := by
  apply Runs.bind (runs_read_dir fun _ ↦ trivial)
  rintro names _ rfl
  apply Runs.bind (runs_prune_entries hstate names)
  intro _ d' hpruned
  apply (runs_sync_directory fun _ ↦ trivial).mono
  rintro _ _ rfl
  exact hpruned

end Vidarax.Edge
