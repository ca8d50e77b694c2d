import Vidarax.Edge.Steps

/-!
# Safety of rollouts

Package `vidarax-cli`, `edge.rs` 344–731, 822–870. Over every history of commands, with every
outcome of their operations and cut off anywhere: what the state file says of the current release,
the previous one and the candidate, and how each of them came to be there.
-/

namespace Vidarax.Edge

open Base Program

section

variable {Message : Type} {crypto : Crypto Message}

/-! ### What entries of a history are -/

/-- The entry records the manifest of its command as the new candidate. -/
def Accepts (m : ModelManifest) (e : Entry) : Prop :=
  e.call.manifest = some m ∧ e.before.device.pending_transition = none ∧
    e.after.device.pending_transition = some ⟨m.stage.action, m.toCandidate⟩

/-- The entry records a transition for a report that names the release and the stage and meets the
bounds of the manifest. -/
def Passes (m : ModelManifest) (stage : RolloutStage) (e : Entry) : Prop :=
  ∃ r, e.call = .report r ∧ r.expected_release_id = m.release_id ∧ r.expected_stage = stage ∧
    r.accepted m.acceptance = true ∧ e.before.device.pending_transition = none ∧
    e.after.device.pending_transition ≠ none

/-- What a manifest that becomes the candidate has to meet. -/
structure Verified (crypto : Crypto Message) (m : ModelManifest) (d : Disk) : Prop where
  signature : verify_manifest crypto m d.device.update_public_key = .ok ()
  cohort : m.hardware_cohort = d.device.hardware_cohort
  sequence : d.device.highest_release_sequence < m.sequence
  stored : Stored crypto m (d.folder m.release_id)

/-- The manifest was accepted. -/
def Accepted (crypto : Crypto Message) (past : List Entry) (m : ModelManifest) : Prop :=
  ∃ e ∈ past, Accepts m e ∧ Verified crypto m e.before

/-- The manifest was accepted, and then a report met its bounds in stage shadow. -/
def Shadowed (crypto : Crypto Message) (past : List Entry) (m : ModelManifest) : Prop :=
  ∃ first e last, past = first ++ e :: last ∧ Accepted crypto first m ∧ Passes m .Shadow e

/-- And then a report met its bounds in stage canary. -/
def Canaried (crypto : Crypto Message) (past : List Entry) (m : ModelManifest) : Prop :=
  ∃ first e last, past = first ++ e :: last ∧ Shadowed crypto first m ∧ Passes m .Canary e

/-- A release ID that the state file proposes: that of the candidate, or of a pending transition. -/
def Proposes (state : DeviceState) (release_id : String) : Prop :=
  (∃ c, state.candidate = some c ∧ c.release_id = release_id) ∨
    ∃ t, state.pending_transition = some t ∧ t.candidate.release_id = release_id

theorem mem_keep {state : DeviceState} {name : String} :
    name ∈ state.keep ↔ state.current_release = some name ∨ state.previous_release = some name ∨
      Proposes state name := by
  simp only [DeviceState.keep, List.mem_append, Option.mem_toList,
    Option.map_eq_some_iff, Proposes, or_assoc]

theorem Accepted.mono {past : List Entry} {m : ModelManifest} (h : Accepted crypto past m)
    (e : Entry) : Accepted crypto (past ++ [e]) m := by
  obtain ⟨q, hq, h⟩ := h
  exact ⟨q, List.mem_append_left _ hq, h⟩

theorem Shadowed.mono {past : List Entry} {m : ModelManifest} (h : Shadowed crypto past m)
    (e : Entry) : Shadowed crypto (past ++ [e]) m := by
  obtain ⟨first, q, last, rfl, h⟩ := h
  exact ⟨first, q, last ++ [e], by simp, h⟩

theorem Canaried.mono {past : List Entry} {m : ModelManifest} (h : Canaried crypto past m)
    (e : Entry) : Canaried crypto (past ++ [e]) m := by
  obtain ⟨first, q, last, rfl, h⟩ := h
  exact ⟨first, q, last ++ [e], by simp, h⟩

/-! ### The invariant -/

/-- A candidate that was made of a manifest, which is still stored. -/
structure Made (crypto : Crypto Message) (past : List Entry) (d : Disk) (m : ModelManifest)
    (c : CandidateState) : Prop where
  accepted : Accepted crypto past m
  release : c.release_id = m.release_id
  manifest_path : c.manifest_path = .manifest_json m.release_id
  artifact_path : c.artifact_path = .model_bin m.release_id
  manifest : d.manifestAt (.manifest_json m.release_id) = some m

/-- The stage a candidate is in was earned. -/
def Earned (crypto : Crypto Message) (past : List Entry) (m : ModelManifest) :
    RolloutStage → Prop
  | .Shadow => True
  | .Canary => Shadowed crypto past m
  | .Active => False

/-- A pending transition was earned. -/
def Due (crypto : Crypto Message) (past : List Entry) (m : ModelManifest)
    (t : PendingTransition) : Prop :=
  match t.action with
  | .StageShadow | .StageCanary => Earned crypto past m t.candidate.stage
  | .Activate => Canaried crypto past m
  | .Rollback => True

/-- What holds of the disk after every history. -/
structure Inv (crypto : Crypto Message) (past : List Entry) (d : Disk) : Prop where
  kept : ∀ name ∈ d.device.keep, ∃ m, Stored crypto m (d.folder name) ∧ m.release_id = name ∧
    m.sequence ≤ d.device.highest_release_sequence
  candidate : ∀ c, d.device.candidate = some c →
    ∃ m, Made crypto past d m c ∧ Earned crypto past m c.stage
  pending : ∀ t, d.device.pending_transition = some t →
    ∃ m, Made crypto past d m t.candidate ∧ Due crypto past m t
  single : ∀ c t, d.device.candidate = some c → d.device.pending_transition = some t →
    t.candidate.release_id = c.release_id
  current_previous : ∀ name, d.device.current_release = some name →
    d.device.previous_release ≠ some name
  current : ∀ name, Proposes d.device name → d.device.current_release ≠ some name
  previous : ∀ name, Proposes d.device name → d.device.previous_release ≠ some name
  rejected : ∀ name, d.device.last_rejected_release = some name →
    d.device.current_release ≠ some name
  unrejected : ∀ c, d.device.candidate = some c →
    d.device.last_rejected_release ≠ some c.release_id
  undone : ∀ t, d.device.pending_transition = some t →
    d.device.last_rejected_release ≠ some t.candidate.release_id

theorem Made.mono {past : List Entry} {d d' : Disk} {m : ModelManifest} {c : CandidateState}
    (h : Made crypto past d m c) (e : Entry)
    (hm : d'.manifestAt (.manifest_json m.release_id) = d.manifestAt (.manifest_json m.release_id)) :
    Made crypto (past ++ [e]) d' m c :=
  ⟨h.accepted.mono e, h.release, h.manifest_path, h.artifact_path, hm.trans h.manifest⟩

theorem Earned.mono {past : List Entry} {m : ModelManifest} {stage : RolloutStage}
    (h : Earned crypto past m stage) (e : Entry) : Earned crypto (past ++ [e]) m stage := by
  cases stage with
  | Shadow => trivial
  | Canary => exact Shadowed.mono h e
  | Active => exact h

theorem Due.mono {past : List Entry} {m : ModelManifest} {t : PendingTransition}
    (h : Due crypto past m t) (e : Entry) : Due crypto (past ++ [e]) m t := by
  cases t with
  | mk action c =>
    cases action with
    | StageShadow => exact Earned.mono h e
    | StageCanary => exact Earned.mono h e
    | Activate => exact Canaried.mono h e
    | Rollback => trivial

theorem inv_enrolled (hardware_cohort update_public_key : String) :
    Inv crypto [] (Disk.enrolled hardware_cohort update_public_key) := by
  constructor <;> simp [Disk.enrolled, DeviceState.keep, Proposes]

/-! ### Steps -/

variable {past : List Entry} {d d' : Disk} {e : Entry}

/-- The state file is the same, and the directories it names are. -/
theorem Inv.frame (h : Inv crypto past d) (e : Entry) (hdevice : d'.device = d.device)
    (hfolder : ∀ name ∈ d.device.keep, d'.folder name = d.folder name) :
    Inv crypto (past ++ [e]) d' := by
  have hmanifest : ∀ m c, Made crypto past d m c → m.release_id ∈ d.device.keep →
      Made crypto (past ++ [e]) d' m c := by
    intro m c hmade hkeep
    apply hmade.mono e
    rw [Disk.manifestAt, Disk.manifestAt, hfolder _ hkeep]
  constructor <;> rw [hdevice]
  · intro name hname
    rw [hfolder name hname]
    exact h.kept name hname
  · intro c hc
    obtain ⟨m, hmade, hearned⟩ := h.candidate c hc
    exact ⟨m, hmanifest m c hmade (mem_keep.2 (.inr (.inr (.inl ⟨c, hc, hmade.release⟩)))),
      hearned.mono e⟩
  · intro t ht
    obtain ⟨m, hmade, hdue⟩ := h.pending t ht
    exact ⟨m, hmanifest m _ hmade (mem_keep.2 (.inr (.inr (.inr ⟨t, ht, hmade.release⟩)))),
      hdue.mono e⟩
  · exact h.single
  · exact h.current_previous
  · exact h.current
  · exact h.previous
  · exact h.rejected
  · exact h.unrejected
  · exact h.undone

theorem Stored.manifestAt {m : ModelManifest} (h : Stored crypto m (d.folder m.release_id)) :
    d.manifestAt (.manifest_json m.release_id) = some m := by
  obtain ⟨contents, hf, -⟩ := h
  rw [Disk.manifestAt, hf]
  rfl

theorem Inv.accepted (h : Inv crypto past d) {e : Entry} (hbefore : e.before = d) {m : ModelManifest}
    {pid : Nat} (hcommand : e.call = .apply (.ok m) pid)
    (hnew : New crypto (fun _ ↦ False) m d.device) (hcandidate : d.device.candidate = none)
    (hstored : Stored crypto m (d.folder m.release_id))
    (hafter : e.after = { d with device := { d.device with
      highest_release_sequence := m.sequence
      pending_transition := some ⟨m.stage.action, m.toCandidate⟩ } }) :
    Inv crypto (past ++ [e]) e.after := by
  have hstage := stage_of_validated hnew.validated
  have haccepts : Accepts m e := by
    refine ⟨by rw [hcommand]; rfl, hbefore ▸ hnew.pending, ?_⟩
    rw [hafter]
  have hmade : Made crypto (past ++ [e]) d m m.toCandidate :=
    ⟨⟨e, by simp, haccepts, hbefore ▸ ⟨hnew.verified, hnew.cohort, hnew.sequence, hstored⟩⟩,
      rfl, rfl, rfl, hstored.manifestAt⟩
  rw [hafter]
  have hproposes : ∀ name, Proposes { d.device with
      highest_release_sequence := m.sequence
      pending_transition := some ⟨m.stage.action, m.toCandidate⟩ } name → name = m.release_id := by
    rintro name (⟨c, hc, -⟩ | ⟨t, ht, rfl⟩)
    · rw [hcandidate] at hc
      cases hc
    · cases ht
      rfl
  have hprevious : d.device.previous_release ≠ some m.release_id := by
    intro hprevious
    obtain ⟨m', hstored', hrelease, hsequence⟩ :=
      h.kept m.release_id (mem_keep.2 (.inr (.inl hprevious)))
    obtain ⟨_, hf, -⟩ := hstored
    obtain ⟨_, hf', -⟩ := hstored'
    rw [hf] at hf'
    cases hf'
    exact Nat.not_le.2 hnew.sequence hsequence
  constructor
  · intro name hname
    rcases mem_keep.1 hname with hname | hname | hname
    · obtain ⟨m', hstored', hrelease, hsequence⟩ := h.kept name (mem_keep.2 (.inl hname))
      exact ⟨m', hstored', hrelease, hsequence.trans hnew.sequence.le⟩
    · obtain ⟨m', hstored', hrelease, hsequence⟩ := h.kept name (mem_keep.2 (.inr (.inl hname)))
      exact ⟨m', hstored', hrelease, hsequence.trans hnew.sequence.le⟩
    · rw [hproposes name hname]
      exact ⟨m, hstored, rfl, Nat.le_refl _⟩
  · intro c hc
    rw [hcandidate] at hc
    cases hc
  · rintro t ht
    cases ht
    refine ⟨m, ⟨hmade.accepted, rfl, rfl, rfl, hmade.manifest⟩, ?_⟩
    simp only [Due, ModelManifest.toCandidate, hstage, RolloutStage.action, Earned]
  · intro c t hc
    rw [hcandidate] at hc
    cases hc
  · exact h.current_previous
  · intro name hname
    rw [hproposes name hname]
    exact hnew.current
  · intro name hname
    rw [hproposes name hname]
    exact hprevious
  · exact h.rejected
  · intro c hc
    rw [hcandidate] at hc
    cases hc
  · rintro t ht
    cases ht
    exact hnew.rejected

/-- A transition is recorded for a candidate that was made and what it is due. -/
theorem Inv.recorded (h : Inv crypto past d) (e : Entry) {t : PendingTransition} {m : ModelManifest}
    (hmade : Made crypto past d m t.candidate) (hdue : Due crypto (past ++ [e]) m t)
    (hproposes : Proposes d.device t.candidate.release_id)
    (hsingle : ∀ c, d.device.candidate = some c → t.candidate.release_id = c.release_id)
    (hundone : d.device.last_rejected_release ≠ some t.candidate.release_id) :
    Inv crypto (past ++ [e])
      { d with device := { d.device with pending_transition := some t } } := by
  have hsame : ∀ name, Proposes { d.device with pending_transition := some t } name →
      Proposes d.device name := by
    rintro name (⟨c, hc, hname⟩ | ⟨t', ht', rfl⟩)
    · exact .inl ⟨c, hc, hname⟩
    · cases ht'
      exact hproposes
  constructor
  · intro name hname
    apply h.kept name
    rcases mem_keep.1 hname with hname | hname | hname
    · exact mem_keep.2 (.inl hname)
    · exact mem_keep.2 (.inr (.inl hname))
    · exact mem_keep.2 (.inr (.inr (hsame name hname)))
  · intro c hc
    obtain ⟨m', hmade', hearned⟩ := h.candidate c hc
    exact ⟨m', hmade'.mono e rfl, hearned.mono e⟩
  · rintro t' ht'
    cases ht'
    exact ⟨m, hmade.mono e rfl, hdue⟩
  · rintro c t' hc ht'
    cases ht'
    exact hsingle c hc
  · exact h.current_previous
  · exact fun name hname ↦ h.current name (hsame name hname)
  · exact fun name hname ↦ h.previous name (hsame name hname)
  · exact h.rejected
  · exact h.unrejected
  · rintro t' ht'
    cases ht'
    exact hundone

/-- The releases that a completed transition leaves are among those from before. -/
theorem mem_keep_completed {state : DeviceState} {t : PendingTransition}
    (ht : state.pending_transition = some t) {name : String}
    (hname : name ∈ (t.completed state).keep) : name ∈ state.keep := by
  have hproposes : Proposes state t.candidate.release_id := .inr ⟨t, ht, rfl⟩
  obtain ⟨action, c⟩ := t
  rw [mem_keep] at hname ⊢
  cases action <;> rcases hname with hname | hname | ⟨c', hc', hname⟩ | ⟨t', ht', -⟩
  case StageShadow.inl | StageCanary.inl | Rollback.inl => exact .inl hname
  case StageShadow.inr.inl | StageCanary.inr.inl | Rollback.inr.inl => exact .inr (.inl hname)
  case StageShadow.inr.inr.inl | StageCanary.inr.inr.inl =>
    cases hc'
    exact .inr (.inr (hname ▸ hproposes))
  case Activate.inl =>
    cases hname
    exact .inr (.inr hproposes)
  case Activate.inr.inl => exact .inl hname
  all_goals first | cases hc' | cases ht'

theorem Inv.kept_completed (h : Inv crypto past d) {t : PendingTransition}
    (ht : d.device.pending_transition = some t) :
    ∀ name ∈ (t.completed d.device).keep, ∃ m, Stored crypto m (d.folder name) ∧
      m.release_id = name ∧ m.sequence ≤ (t.completed d.device).highest_release_sequence := by
  intro name hname
  rw [sequence_completed]
  exact h.kept name (mem_keep_completed ht hname)

/-- The candidate of a stage transition takes its place. -/
theorem Inv.staged (h : Inv crypto past d) (e : Entry) {c : CandidateState} {action : HookAction}
    (ht : d.device.pending_transition = some ⟨action, c⟩)
    (hstage : action = .StageShadow ∨ action = .StageCanary) :
    Inv crypto (past ++ [e]) { d with device := (PendingTransition.mk action c).completed d.device } := by
  have hkept := h.kept_completed ht
  have hproposes : Proposes d.device c.release_id := .inr ⟨_, ht, rfl⟩
  have hcompleted : (PendingTransition.mk action c).completed d.device =
      { d.device with candidate := some c, pending_transition := none } := by
    rcases hstage with rfl | rfl <;> rfl
  rw [hcompleted] at hkept ⊢
  have hsame : ∀ name, Proposes { d.device with
      candidate := some c, pending_transition := none } name → name = c.release_id := by
    rintro name (⟨c', hc', rfl⟩ | ⟨t', ht', -⟩)
    · cases hc'
      rfl
    · cases ht'
  constructor
  · exact hkept
  · rintro c' hc'
    cases hc'
    obtain ⟨m, hmade, hdue⟩ := h.pending _ ht
    refine ⟨m, hmade.mono e rfl, ?_⟩
    rcases hstage with rfl | rfl <;> exact Earned.mono hdue e
  · exact fun _ h ↦ nomatch h
  · exact fun _ _ _ h ↦ nomatch h
  · exact h.current_previous
  · exact fun name hname ↦ hsame name hname ▸ h.current _ hproposes
  · exact fun name hname ↦ hsame name hname ▸ h.previous _ hproposes
  · exact h.rejected
  · rintro c' hc'
    cases hc'
    exact h.undone _ ht
  · exact fun _ h ↦ nomatch h

theorem Inv.activated (h : Inv crypto past d) (e : Entry) {c : CandidateState}
    (ht : d.device.pending_transition = some ⟨.Activate, c⟩) :
    Inv crypto (past ++ [e])
      { d with device := (PendingTransition.mk .Activate c).completed d.device } := by
  have hproposes : Proposes d.device c.release_id := .inr ⟨_, ht, rfl⟩
  have hnone : ∀ name,
      ¬ Proposes ((PendingTransition.mk .Activate c).completed d.device) name := by
    rintro name (⟨c', hc', -⟩ | ⟨t', ht', -⟩)
    · cases hc'
    · cases ht'
  constructor
  · exact h.kept_completed ht
  · exact fun _ h ↦ nomatch h
  · exact fun _ h ↦ nomatch h
  · exact fun _ _ h ↦ nomatch h
  · intro name hname
    cases hname
    exact h.current _ hproposes
  · exact fun name hname ↦ absurd hname (hnone name)
  · exact fun name hname ↦ absurd hname (hnone name)
  · intro name hname hcurrent
    cases hcurrent
    exact h.undone _ ht hname
  · exact fun _ h ↦ nomatch h
  · exact fun _ h ↦ nomatch h

theorem Inv.rolledBack (h : Inv crypto past d) (e : Entry) {c : CandidateState}
    (ht : d.device.pending_transition = some ⟨.Rollback, c⟩) :
    Inv crypto (past ++ [e])
      { d with device := (PendingTransition.mk .Rollback c).completed d.device } := by
  have hnone : ∀ name,
      ¬ Proposes ((PendingTransition.mk .Rollback c).completed d.device) name := by
    rintro name (⟨c', hc', -⟩ | ⟨t', ht', -⟩)
    · cases hc'
    · cases ht'
  constructor
  · exact h.kept_completed ht
  · exact fun _ h ↦ nomatch h
  · exact fun _ h ↦ nomatch h
  · exact fun _ _ h ↦ nomatch h
  · exact h.current_previous
  · exact fun name hname ↦ absurd hname (hnone name)
  · exact fun name hname ↦ absurd hname (hnone name)
  · intro name hname
    cases hname
    exact h.current _ (.inr ⟨_, ht, rfl⟩)
  · exact fun _ h ↦ nomatch h
  · exact fun _ h ↦ nomatch h

/-- The pending transition is completed. -/
theorem Inv.completed (h : Inv crypto past d) (e : Entry) {t : PendingTransition}
    (ht : d.device.pending_transition = some t) :
    Inv crypto (past ++ [e]) { d with device := t.completed d.device } := by
  obtain ⟨action, c⟩ := t
  cases action with
  | StageShadow => exact h.staged e ht (.inl rfl)
  | StageCanary => exact h.staged e ht (.inr rfl)
  | Activate => exact h.activated e ht
  | Rollback => exact h.rolledBack e ht

/-- A report leads on only from the stage it names. -/
theorem Inv.reported (h : Inv crypto past d) {e : Entry} (hbefore : e.before = d)
    {candidate : CandidateState} {manifest : ModelManifest} {r : HealthReport}
    (hcommand : e.call = .report r) (hpending : d.device.pending_transition = none)
    (hcandidate : d.device.candidate = some candidate)
    (hrelease : candidate.release_id = r.expected_release_id)
    (hstage : candidate.stage = r.expected_stage)
    (hmanifest : d.manifestAt candidate.manifest_path = some manifest)
    (hafter : e.after = { d with device := { d.device with
      pending_transition := some (r.transition candidate manifest.acceptance).1 } }) :
    Inv crypto (past ++ [e]) e.after := by
  obtain ⟨m, hmade, hearned⟩ := h.candidate candidate hcandidate
  obtain rfl : m = manifest := by
    rw [hmade.manifest_path, hmade.manifest] at hmanifest
    exact Option.some.inj hmanifest
  have hpasses : r.accepted m.acceptance = true → Passes m candidate.stage e := by
    intro haccepted
    refine ⟨r, hcommand, hrelease ▸ hmade.release, hstage.symm, haccepted, hbefore ▸ hpending, ?_⟩
    rw [hafter]
    nofun
  rw [hafter]
  have hsingle : ∀ c, d.device.candidate = some c → candidate.release_id = c.release_id := by
    intro c hc
    rw [hcandidate] at hc
    cases hc
    rfl
  have hunrejected := h.unrejected candidate hcandidate
  unfold HealthReport.transition
  split
  · exact h.recorded e hmade trivial (.inl ⟨candidate, hcandidate, rfl⟩) hsingle hunrejected
  next haccepted =>
    replace hpasses := hpasses (not_not.1 haccepted)
    split
    · next hshadow =>
      rw [hshadow] at hpasses
      exact h.recorded e (t := ⟨.StageCanary, { candidate with stage := .Canary }⟩)
        { hmade with } ⟨past, e, [], rfl, hmade.accepted, hpasses⟩
        (.inl ⟨candidate, hcandidate, rfl⟩) hsingle hunrejected
    · next hshadow =>
      have hcanary : candidate.stage = .Canary := by
        cases hs : candidate.stage with
        | Shadow => exact absurd hs hshadow
        | Canary => rfl
        | Active => rw [hs] at hearned; exact hearned.elim
      rw [hcanary] at hpasses hearned
      exact h.recorded e (t := ⟨.Activate, { candidate with stage := .Active }⟩)
        { hmade with } ⟨past, e, [], rfl, hearned, hpasses⟩
        (.inl ⟨candidate, hcandidate, rfl⟩) hsingle hunrejected

/-- Every entry keeps the invariant, unless a staging directory has the name of a release that the
state file names. -/
theorem Inv.step (h : Inv crypto past e.before)
    (hchange : Change crypto (fun _ ↦ False) e.call e.op e.before e.after)
    (hstaging : ∀ name, e.op.staging = some name → name ∉ e.before.device.keep) :
    Inv crypto (past ++ [e]) e.after := by
  obtain ⟨call, op, d, d'⟩ := e
  dsimp only at h hchange hstaging ⊢
  cases hchange with
  | same => exact h.frame _ rfl fun _ _ ↦ rfl
  | fetched => exact h.frame _ rfl fun _ _ ↦ rfl
  | pruned hkeep htouches =>
    exact h.frame _ htouches.device fun name hname ↦
      htouches.folder name fun heq ↦ hkeep (heq ▸ hname)
  | staged _ _ hop _ htouches =>
    exact h.frame _ htouches.device fun name hname ↦
      htouches.folder name fun heq ↦ hstaging _ hop (heq ▸ hname)
  | @published staging _ m _ _ _ _ habsent f =>
    have hfolder : ∀ name ∈ d.device.keep,
        ((d.erase staging).put m.release_id f).folder name = d.folder name := by
      intro name hname
      rw [folder_put_of_ne, folder_erase_of_ne]
      · exact fun heq ↦ hstaging _ rfl (heq ▸ hname)
      · rintro rfl
        obtain ⟨m, ⟨_, hf, -⟩, -⟩ := h.kept _ hname
        rw [habsent] at hf
        cases hf
    exact h.frame _ rfl hfolder
  | accepted hcommand hnew hcandidate hstored hstate =>
    subst hstate
    exact h.accepted rfl hcommand hnew hcandidate hstored rfl
  | completed hpending _ hstate =>
    subst hstate
    exact h.completed _ hpending
  | pointed => exact h.frame _ rfl fun _ _ ↦ rfl
  | turned hpending _ hstate =>
    subst hstate
    obtain ⟨m, hmade, -⟩ := h.pending _ hpending
    have hundone := h.undone _ hpending
    have hsingle := fun c hc ↦ h.single c _ hc hpending
    exact h.recorded _ (t := ⟨.Rollback, _⟩) hmade trivial (.inr ⟨_, hpending, rfl⟩) hsingle hundone
  | replaced _ _ hcandidate hstate =>
    subst hstate
    obtain ⟨m, hmade, -⟩ := h.candidate _ hcandidate
    exact h.recorded _ (t := ⟨.Rollback, _⟩) hmade trivial (.inl ⟨_, hcandidate, rfl⟩)
      (fun c hc ↦ by rw [hcandidate] at hc; cases hc; rfl) (h.unrejected _ hcandidate)
  | reported hcommand hpending hcandidate hrelease hstage hmanifest hstate =>
    subst hstate
    exact h.reported rfl hcommand hpending hcandidate hrelease hstage hmanifest rfl

/-! ### Histories -/

/-- The current release, the previous one and the candidate are different releases. -/
structure Distinct (state : DeviceState) : Prop where
  current_previous : ∀ name, state.current_release = some name →
    state.previous_release ≠ some name
  current : ∀ name, Proposes state name → state.current_release ≠ some name
  previous : ∀ name, Proposes state name → state.previous_release ≠ some name
  single : ∀ c t, state.candidate = some c → state.pending_transition = some t →
    t.candidate.release_id = c.release_id

/-- What the rollout rules say of one entry of a history, after the entries before it. -/
structure Safe (crypto : Crypto Message) (past : List Entry) (e : Entry) : Prop where
  mark : e.before.device.highest_release_sequence ≤ e.after.device.highest_release_sequence
  candidate : ∀ name, Proposes e.after.device name → Proposes e.before.device name ∨
    ∃ m, m.release_id = name ∧ Accepts m e ∧ Verified crypto m e.before
  current : ∀ name, e.after.device.current_release = some name →
    e.before.device.current_release = some name ∨
      ∃ m, m.release_id = name ∧ e.before.manifestAt (.manifest_json name) = some m ∧
        Canaried crypto past m
  unchanged :
    e.after.device.current_release = e.before.device.current_release ∧
        e.after.device.previous_release = e.before.device.previous_release ∨
      ∃ c, e.before.device.pending_transition = some ⟨.Activate, c⟩ ∧
        e.after.device.current_release = some c.release_id ∧
        e.after.device.previous_release = e.before.device.current_release ∧
        e.after.device.last_rejected_release = e.before.device.last_rejected_release
  distinct : Distinct e.after.device
  present : ∀ name ∈ e.after.device.keep,
    ∃ m, m.release_id = name ∧ Stored crypto m (e.after.folder name)

/-- The staging directory of an entry does not have the name of a release that the state file
names. -/
def StagesApart (e : Entry) : Prop := ∀ name ∈ e.op.staging, name ∉ e.before.device.keep

instance (e : Entry) : Decidable (StagesApart e) :=
  inferInstanceAs (Decidable (∀ name ∈ e.op.staging, name ∉ e.before.device.keep))

theorem HealthReport.release_transition (r : HealthReport) (c : CandidateState)
    (acceptance : Acceptance) : (r.transition c acceptance).1.candidate.release_id = c.release_id := by
  unfold HealthReport.transition
  split
  · rfl
  · split <;> rfl

variable {taken : String → Prop}

theorem Change.mark {command : Command} {op : Op}
    (h : Change crypto taken command op d d') :
    d.device.highest_release_sequence ≤ d'.device.highest_release_sequence := by
  cases h with
  | pruned _ h => rw [h.device]
  | staged _ _ _ _ h => rw [h.device]
  | accepted _ hnew _ _ hstate => rw [hstate]; exact hnew.sequence.le
  | completed _ _ hstate => rw [hstate]; exact (sequence_completed _ _).ge
  | turned _ _ hstate => rw [hstate]
  | replaced _ _ _ hstate => rw [hstate]
  | reported _ _ _ _ _ _ hstate => rw [hstate]
  | _ => exact Nat.le_refl _

/-- Only an accepted manifest makes a release a candidate. -/
theorem Change.proposes (h : Change crypto taken e.call e.op e.before e.after) {name : String}
    (hname : Proposes e.after.device name) : Proposes e.before.device name ∨
      ∃ m, m.release_id = name ∧ Accepts m e ∧ Verified crypto m e.before := by
  obtain ⟨call, op, d, d'⟩ := e
  dsimp only at h hname ⊢
  cases h with
  | pruned _ h => exact .inl (h.device ▸ hname)
  | staged _ _ _ _ h => exact .inl (h.device ▸ hname)
  | accepted hcommand hnew _ hstored hstate =>
    subst hstate
    rcases hname with ⟨c, hc, hname⟩ | ⟨t, ht, rfl⟩
    · exact .inl (.inl ⟨c, hc, hname⟩)
    · cases ht
      exact .inr ⟨_, rfl, ⟨by rw [hcommand]; rfl, hnew.pending, rfl⟩,
        hnew.verified, hnew.cohort, hnew.sequence, hstored⟩
  | @completed d t state hpending _ hstate =>
    subst hstate
    obtain ⟨action, c⟩ := t
    apply Or.inl
    rcases hname with ⟨c', hc', rfl⟩ | ⟨t', ht', -⟩
    · cases action
      case StageShadow | StageCanary =>
        cases hc'
        exact .inr ⟨_, hpending, rfl⟩
      all_goals cases hc'
    · rw [pending_completed] at ht'
      cases ht'
  | turned hpending _ hstate =>
    subst hstate
    rcases hname with ⟨c, hc, hname⟩ | ⟨t, ht, rfl⟩
    · exact .inl (.inl ⟨c, hc, hname⟩)
    · cases ht
      exact .inl (.inr ⟨_, hpending, rfl⟩)
  | replaced _ _ hcandidate hstate =>
    subst hstate
    rcases hname with ⟨c, hc, hname⟩ | ⟨t, ht, rfl⟩
    · exact .inl (.inl ⟨c, hc, hname⟩)
    · cases ht
      exact .inl (.inl ⟨_, hcandidate, rfl⟩)
  | reported _ _ hcandidate _ _ _ hstate =>
    subst hstate
    rcases hname with ⟨c, hc, hname⟩ | ⟨t, ht, rfl⟩
    · exact .inl (.inl ⟨c, hc, hname⟩)
    · cases ht
      exact .inl (.inl ⟨_, hcandidate, (HealthReport.release_transition _ _ _).symm⟩)
  | _ => exact .inl hname

/-- Only a completed activation changes the current and the previous release. -/
theorem Change.releases {command : Command} {op : Op} (h : Change crypto taken command op d d') :
    d'.device.current_release = d.device.current_release ∧
        d'.device.previous_release = d.device.previous_release ∨
      ∃ c, d.device.pending_transition = some ⟨.Activate, c⟩ ∧
        d'.device = (PendingTransition.mk .Activate c).completed d.device := by
  cases h with
  | pruned _ h => rw [h.device]; exact .inl ⟨rfl, rfl⟩
  | staged _ _ _ _ h => rw [h.device]; exact .inl ⟨rfl, rfl⟩
  | accepted _ _ _ _ hstate => rw [hstate]; exact .inl ⟨rfl, rfl⟩
  | @completed d t _ hpending _ hstate =>
    subst hstate
    obtain ⟨action, c⟩ := t
    cases action with
    | Activate => exact .inr ⟨c, hpending, rfl⟩
    | _ => exact .inl ⟨rfl, rfl⟩
  | turned _ _ hstate => rw [hstate]; exact .inl ⟨rfl, rfl⟩
  | replaced _ _ _ hstate => rw [hstate]; exact .inl ⟨rfl, rfl⟩
  | reported _ _ _ _ _ _ hstate => rw [hstate]; exact .inl ⟨rfl, rfl⟩
  | _ => exact .inl ⟨rfl, rfl⟩

end

section

variable {Message : Type} [DecidableEq Message] {crypto : Crypto Message} {d : Disk}

/-- Every entry of a history is one of the changes. -/
theorem change_of_mem {calls : List (Command × List Outcome)} {e : Entry}
    (he : e ∈ history act (Command.program crypto) d calls) :
    Change crypto (fun _ ↦ False) e.call e.op e.before e.after := by
  induction calls generalizing d with
  | nil => cases he
  | cons call calls ih =>
    rcases List.mem_append.1 he with he | he
    · have hruns : Runs crypto (fun _ ↦ False) call.1 (fun _ _ ↦ True) (fun _ _ ↦ True)
          (call.1.program crypto) d := runs_program fun _ _ h ↦ h.elim
      rw [call_of_mem_events e he]
      exact hruns.events (fun _ _ _ _ _ h ↦ h.elim) e he
    · exact ih he

/-- In every history in which no staging directory has the name of a release that the state file
names, rollouts are safe. -/
theorem edge_rollout (hardware_cohort update_public_key : String)
    (calls : List (Command × List Outcome))
    (happart : ∀ e ∈ history act (Command.program crypto)
      (Disk.enrolled hardware_cohort update_public_key) calls, StagesApart e) :
    Throughout (Safe crypto) [] (history act (Command.program crypto)
      (Disk.enrolled hardware_cohort update_public_key) calls) := by
  apply ((linked_history calls).throughout (Inv crypto) (inv_enrolled _ _) _).1
  intro past e he hinv
  have hchange := change_of_mem he
  have hinv' := hinv.step hchange (happart e he)
  refine ⟨?_, hinv'⟩
  constructor
  · exact hchange.mark
  · exact fun name ↦ hchange.proposes
  · intro name hname
    rcases hchange.releases with ⟨hcurrent, -⟩ | ⟨c, hpending, hdevice⟩
    · exact .inl (hcurrent ▸ hname)
    · obtain ⟨m, hmade, hdue⟩ := hinv.pending _ hpending
      rw [hdevice] at hname
      cases hname
      exact .inr ⟨m, hmade.release.symm, hmade.release ▸ hmade.manifest, hdue⟩
  · rcases hchange.releases with h | ⟨c, hpending, hdevice⟩
    · exact .inl h
    · refine .inr ⟨c, hpending, ?_⟩
      rw [hdevice]
      exact ⟨rfl, rfl, rfl⟩
  · exact ⟨hinv'.current_previous, hinv'.current, hinv'.previous, hinv'.single⟩
  · intro name hname
    obtain ⟨m, hstored, hrelease, -⟩ := hinv'.kept name hname
    exact ⟨m, hrelease, hstored⟩

end

/-! ### A device -/

/-- A SHA-256 and a signature scheme, as they are for the model, the key and the manifests below. -/
def sampleCrypto : Crypto ModelManifest where
  to_vec := id
  injective := Function.injective_id
  sha256 _ :=
    [0x73, 0xF9, 0x5C, 0xF1, 0x80, 0xA1, 0x96, 0x24, 0xE4, 0xBE, 0x9A, 0x71, 0x1F, 0xD5, 0x3A, 0x90,
      0xDA, 0xDF, 0xFF, 0xA4, 0x10, 0xCC, 0x9C, 0xD2, 0xBA, 0x19, 0x99, 0x45, 0x4A, 0x5B, 0x99, 0xB8]
  from_bytes _ := true
  verify _ _ _ := true

/-- A device of the cohort that the manifests below are for. -/
def sampleDevice : Disk :=
  Disk.enrolled "jetson-orin" "d75a980182b10ab7d54bfed3c964073a0ee172f3daa62325af021a68f707511a"

/-- A signed manifest. -/
def sampleManifest (release_id : String) (sequence : Nat) (signature : String) : ModelManifest where
  schema_version := 2
  sequence := sequence
  release_id := release_id
  model_id := "detector"
  hardware_cohort := "jetson-orin"
  stage := .Shadow
  artifact :=
    { uri := "file:///srv/model-a.bin"
      sha256 := "73f95cf180a19624e4be9a711fd53a90dadfffa410cc9cd2ba1999454a5b99b8"
      size_bytes := 7 }
  acceptance := ⟨1, ⟨0x3FE0000000000000⟩, 50, 1024⟩
  signature := signature

/-- `apply` by a process, where nothing goes wrong and the release is downloaded. -/
def sampleApply (manifest : ModelManifest) (pid : Nat) : Command × List Outcome :=
  (.apply (.ok manifest) pid,
    List.replicate 7 .ok ++ [.space 1048576 1073741824, .ok, .ok, .yields (utf8 "model-a")] ++
      List.replicate 16 .ok)

/-- A good report, with the ways its operations end. -/
def sampleReport (release_id : String) (stage : RolloutStage) (outcomes : List Outcome) :
    Command × List Outcome :=
  (.report ⟨release_id, stage, 1, F64.one, 1, 1⟩, outcomes)

/-- A manifest whose release ID is a staging directory of release `a`. -/
def stagingManifest : ModelManifest :=
  sampleManifest ".a.staging-7" 1
    ("4afb4ce578d93c69a63017e2cfebfb7bafd06f558078fc8c946dd0ccc011e4af" ++
      "1790858b4789d27692f0d28261c2dcd4e4156e3315503569a83ab6744e407b09")

/-- A later manifest, of release `a`. -/
def laterManifest : ModelManifest :=
  sampleManifest "a" 2
    ("76f6ba01add404c1547ceebe9164b1a20b55e84d5d308e5ed3e57ec47810942e" ++
      "bc1bcb6cf370b3d4ff1ea9480d30e12346c65a3857b9da6a7893d19be443890c")

/-- A release is brought to be the current one, and another is applied by a process. -/
def twoReleases (pid : Nat) : List (Command × List Outcome) :=
  [sampleApply stagingManifest 1, sampleReport ".a.staging-7" .Shadow (List.replicate 8 .ok),
    sampleReport ".a.staging-7" .Canary (List.replicate 9 .ok), sampleApply laterManifest pid]

set_option maxRecDepth 10000 in
theorem edge_rollout_sample :
    (∃ e ∈ history act (Command.program sampleCrypto) sampleDevice (twoReleases 8),
      e.after.device.current_release = some ".a.staging-7" ∧
        e.after.device.candidate.map (·.release_id) = some "a") ∧
      Throughout (Safe sampleCrypto) []
        (history act (Command.program sampleCrypto) sampleDevice (twoReleases 8)) :=
  ⟨by decide +kernel, edge_rollout _ _ (twoReleases 8) (by decide +kernel)⟩

set_option maxRecDepth 10000 in
/-- A process whose staging directory for the new release is that of the current one deletes it. -/
theorem current_release_deleted :
    ∃ e ∈ history act (Command.program sampleCrypto) sampleDevice (twoReleases 7),
      e.after.device.current_release = some ".a.staging-7" ∧
        e.after.folder ".a.staging-7" = none := by
  decide +kernel

end Vidarax.Edge
