import Vidarax.Edge.Rollout

/-!
# The pointer to the current model

Package `vidarax-cli`, `edge.rs` 600–731, 1074–1106. `current-model` is written between the hook of
an activation and the state file. An activation that is given up after that leaves the pointer at
its rejected candidate.
-/

namespace Vidarax.Edge

open Base Program

variable {Message : Type} {crypto : Crypto Message} {past : List Entry} {e : Entry}

/-- The model of the current release. -/
def DeviceState.currentModel (state : DeviceState) : Option PathBuf :=
  state.current_release.map .model_bin

/-- An activation is pending. -/
def Activating (state : DeviceState) (c : CandidateState) : Prop :=
  state.pending_transition = some ⟨.Activate, c⟩

/-- What the pointer names: while an activation is pending the current model or that of the
candidate, and else the current model. -/
structure Points (d : Disk) : Prop where
  settled : (∀ c, ¬ Activating d.device c) → d.current_model = d.device.currentModel
  activating : ∀ c, Activating d.device c →
    d.current_model = d.device.currentModel ∨ d.current_model = some c.artifact_path

/-- What is said of the pointer: it names a model that is there, that of the current release when
nothing is pending, and never that of a release whose rejection is on record. -/
structure Live (d : Disk) : Prop where
  exists_model : ∀ path, d.current_model = some path → (d.modelAt path).isSome
  current : d.device.pending_transition = none → d.current_model = d.device.currentModel
  activating : ∀ c, Activating d.device c →
    d.current_model = d.device.currentModel ∨ d.current_model = some c.artifact_path
  rejected : ∀ name, d.device.last_rejected_release = some name →
    d.current_model ≠ some (.model_bin name)

/-- The entry turns a pending activation into a rollback when the pointer names its candidate. -/
def Recants (e : Entry) : Prop :=
  ∃ t ∈ e.before.device.pending_transition, t.action = .Activate ∧
    e.after.device.pending_transition = some ⟨.Rollback, t.candidate⟩ ∧
    e.before.current_model = some t.candidate.artifact_path

instance (e : Entry) : Decidable (Recants e) :=
  inferInstanceAs (Decidable (∃ t ∈ e.before.device.pending_transition, _ ∧ _ ∧ _))

theorem points_enrolled (hardware_cohort update_public_key : String) :
    Points (Disk.enrolled hardware_cohort update_public_key) :=
  ⟨fun _ ↦ rfl, fun _ h ↦ nomatch h⟩

theorem Points.of_same {d d' : Disk} (h : Points d) (hdevice : d'.device = d.device)
    (hpointer : d'.current_model = d.current_model) : Points d' := by
  constructor <;> rw [hdevice, hpointer]
  · exact h.settled
  · exact h.activating

/-- Where no activation is pending, a new state with the same current release points as before. -/
theorem Points.settle {d : Disk} (h : Points d) {state : DeviceState}
    (hbefore : ∀ c, ¬ Activating d.device c)
    (hcurrent : state.current_release = d.device.current_release) :
    Points { d with device := state } := by
  have hpointer : d.current_model = state.currentModel := by
    rw [h.settled hbefore, DeviceState.currentModel, DeviceState.currentModel, hcurrent]
  exact ⟨fun _ ↦ hpointer, fun _ _ ↦ .inl hpointer⟩

theorem not_activating_of_none {state : DeviceState} (h : state.pending_transition = none)
    (c : CandidateState) : ¬ Activating state c := by
  intro hc
  rw [Activating, h] at hc
  cases hc

theorem not_activating_of_action {state : DeviceState} {t : PendingTransition}
    (h : state.pending_transition = some t) (haction : t.action ≠ .Activate)
    (c : CandidateState) : ¬ Activating state c := by
  intro hc
  rw [Activating, h] at hc
  cases hc
  exact haction rfl

/-- A transition that is completed leaves the pointer at the current model. -/
theorem Points.completed {d : Disk} (h : Points d) (hinv : Inv crypto past d)
    {t : PendingTransition} (hpending : d.device.pending_transition = some t)
    (hpointer : t.action = .Activate → d.current_model = some t.candidate.artifact_path) :
    Points { d with device := t.completed d.device } := by
  by_cases haction : t.action = .Activate
  · have hnone := not_activating_of_none (pending_completed t d.device)
    refine ⟨fun _ ↦ ?_, fun c hc ↦ absurd hc (hnone c)⟩
    obtain ⟨m, hmade, -⟩ := hinv.pending t hpending
    obtain ⟨action, c⟩ := t
    cases haction
    change d.current_model = some (.model_bin c.release_id)
    rw [hpointer rfl, hmade.artifact_path, hmade.release]
  · apply h.settle (not_activating_of_action hpending haction)
    obtain ⟨action, c⟩ := t
    cases action with
    | Activate => exact absurd rfl haction
    | _ => rfl

theorem Points.step (h : Points e.before) (hinv : Inv crypto past e.before)
    (hchange : Change crypto (fun _ ↦ False) e.call e.op e.before e.after)
    (hrecants : ¬ Recants e) : Points e.after := by
  obtain ⟨call, op, d, d'⟩ := e
  dsimp only at h hinv hchange ⊢
  cases hchange with
  | same => exact h
  | fetched => exact h
  | pruned _ htouches => exact h.of_same htouches.device htouches.current_model
  | staged _ _ _ _ htouches => exact h.of_same htouches.device htouches.current_model
  | published => exact h.of_same rfl rfl
  | accepted _ hnew _ _ hstate =>
    subst hstate
    exact h.settle (not_activating_of_none hnew.pending) rfl
  | completed hpending hpointer hstate =>
    subst hstate
    exact h.completed hinv hpending hpointer
  | @pointed d t hpending haction =>
    obtain ⟨action, c⟩ := t
    cases haction
    refine ⟨fun hnone ↦ absurd hpending (hnone c), fun c' hc' ↦ .inr ?_⟩
    rw [Activating, hpending] at hc'
    cases hc'
    rfl
  | @turned d t _ hpending _ hstate =>
    subst hstate
    by_cases haction : t.action = .Activate
    · obtain ⟨action, c⟩ := t
      cases haction
      -- the pointer has not been written
      have hcurrent := (h.activating c hpending).resolve_right
        fun hpointer ↦ hrecants ⟨_, hpending, rfl, rfl, hpointer⟩
      exact ⟨fun _ ↦ hcurrent, fun _ _ ↦ .inl hcurrent⟩
    · exact h.settle (not_activating_of_action hpending haction) rfl
  | replaced _ hpending _ hstate =>
    subst hstate
    exact h.settle (not_activating_of_none hpending) rfl
  | reported _ hpending _ _ _ _ hstate =>
    subst hstate
    exact h.settle (not_activating_of_none hpending) rfl

theorem Stored.modelAt {d : Disk} {m : ModelManifest} {name : String}
    (h : Stored crypto m (d.folder name)) : (d.modelAt (.model_bin name)).isSome := by
  obtain ⟨contents, hf, -⟩ := h
  rw [Disk.modelAt, hf]
  rfl

theorem Points.live {d : Disk} (h : Points d) (hinv : Inv crypto past d) : Live d := by
  -- what the pointer names is the current release or a candidate that is not rejected
  have hnames : ∀ path, d.current_model = some path → ∃ name, path = .model_bin name ∧
      name ∈ d.device.keep ∧ d.device.last_rejected_release ≠ some name := by
    intro path hpath
    have hcurrent : d.current_model = d.device.currentModel → ∃ name, path = .model_bin name ∧
        name ∈ d.device.keep ∧ d.device.last_rejected_release ≠ some name := by
      intro hmodel
      rw [hpath, DeviceState.currentModel, eq_comm, Option.map_eq_some_iff] at hmodel
      obtain ⟨name, hname, rfl⟩ := hmodel
      exact ⟨name, rfl, mem_keep.2 (.inl hname), fun hrejected ↦ hinv.rejected name hrejected hname⟩
    by_cases hactivating : ∃ c, Activating d.device c
    · obtain ⟨c, hc⟩ := hactivating
      rcases h.activating c hc with hmodel | hmodel
      · exact hcurrent hmodel
      · obtain ⟨m, hmade, -⟩ := hinv.pending _ hc
        rw [hpath] at hmodel
        refine ⟨c.release_id, ?_, mem_keep.2 (.inr (.inr (.inr ⟨_, hc, rfl⟩))), hinv.undone _ hc⟩
        rw [Option.some.inj hmodel, hmade.artifact_path, hmade.release]
    · exact hcurrent (h.settled (not_exists.1 hactivating))
  constructor
  · intro path hpath
    obtain ⟨name, rfl, hkeep, -⟩ := hnames path hpath
    obtain ⟨m, hstored, -⟩ := hinv.kept name hkeep
    exact hstored.modelAt
  · exact fun hnone ↦ h.settled (not_activating_of_none hnone)
  · exact h.activating
  · intro name hrejected hpath
    obtain ⟨name', hname, -, hnot⟩ := hnames _ hpath
    cases hname
    exact hnot hrejected

/-- In every history in which no staging directory has the name of a release that the state file
names, and no activation is given up after its pointer was written, the pointer is live. -/
theorem pointer_live {Message : Type} [DecidableEq Message] {crypto : Crypto Message}
    (hardware_cohort update_public_key : String) (calls : List (Command × List Outcome))
    (happart : ∀ e ∈ history act (Command.program crypto)
      (Disk.enrolled hardware_cohort update_public_key) calls, StagesApart e)
    (hrecants : ∀ e ∈ history act (Command.program crypto)
      (Disk.enrolled hardware_cohort update_public_key) calls, ¬ Recants e) :
    ∀ e ∈ history act (Command.program crypto)
      (Disk.enrolled hardware_cohort update_public_key) calls, Live e.before ∧ Live e.after := by
  refine ((linked_history calls).throughout (P := fun _ e ↦ Live e.before ∧ Live e.after)
    (fun past d ↦ Inv crypto past d ∧ Points d)
    ⟨inv_enrolled _ _, points_enrolled _ _⟩ ?_).1.of_mem
  rintro past e he ⟨hinv, hpoints⟩
  have hinv' := hinv.step (change_of_mem he) (happart e he)
  have hpoints' := hpoints.step hinv (change_of_mem he) (hrecants e he)
  exact ⟨⟨hpoints.live hinv, hpoints'.live hinv'⟩, hinv', hpoints'⟩

/-- A release is brought to its activation, which is cut off after the pointer was written. -/
def activationCutOff : List (Command × List Outcome) :=
  [sampleApply laterManifest 7, sampleReport "a" .Shadow (List.replicate 8 .ok),
    sampleReport "a" .Canary (List.replicate 6 .ok)]

/-- The next command completes the activation. -/
def activationCompleted : List (Command × List Outcome) :=
  activationCutOff ++ [(.apply (.error "no manifest") 7, List.replicate 8 .ok)]

/-- Its hook fails for the next command, and the one after it prunes the release. -/
def activationGivenUp : List (Command × List Outcome) :=
  activationCutOff ++
    [sampleReport "a" .Canary [.ok, .ok, .failed "activation hook exited with 1", .ok, .ok, .ok],
      (.apply (.error "no manifest") 7, List.replicate 8 .ok)]

set_option maxRecDepth 10000 in
theorem pointer_live_sample :
    (∃ e ∈ history act (Command.program sampleCrypto) sampleDevice activationCompleted,
      e.after.device.current_release = some "a") ∧
      ∀ e ∈ history act (Command.program sampleCrypto) sampleDevice activationCompleted,
        Live e.before ∧ Live e.after :=
  ⟨by decide +kernel,
    pointer_live _ _ activationCompleted (by decide +kernel) (by decide +kernel)⟩

set_option maxRecDepth 10000 in
/-- The pointer stays at the rejected candidate, whose model is deleted. -/
theorem pointer_at_rejected :
    ∃ e ∈ history act (Command.program sampleCrypto) sampleDevice activationGivenUp,
      e.after.device.pending_transition = none ∧ e.after.device.current_release = none ∧
        e.after.device.last_rejected_release = some "a" ∧
        e.after.current_model = some (.model_bin "a") ∧
        e.after.modelAt (.model_bin "a") = none := by
  decide +kernel

end Vidarax.Edge
