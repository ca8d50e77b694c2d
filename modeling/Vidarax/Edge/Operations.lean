import Vidarax.Edge.Changes

/-!
# Single operations of the commands

Package `vidarax-cli`, `edge.rs` 698–731, 1074–1106. What each operation answers and leaves behind,
and that it makes one of the changes.
-/

namespace Vidarax.Edge

open Base Program

variable {Message : Type} {crypto : Crypto Message} {taken : String → Prop}
  {command : Command} {α β : Type} {d d' : Disk} {good : α → Disk → Prop}
  {bad : String → Disk → Prop}

/-! ### Single operations -/

theorem reading_spec {outcome : Outcome} {value : Except String α}
    {P : Except String α → Disk → Prop} (hvalue : P value d) (herror : ∀ e, P (.error e) d) :
    P (reading outcome d value).1 (reading outcome d value).2 := by
  cases outcome <;> first | exact hvalue | exact herror _

theorem writing_spec {outcome : Outcome} {P : Except String Unit → Disk → Prop}
    (hok : P (.ok ()) d') (hsync : ∀ e, P (.error e) d') (hfail : ∀ e, P (.error e) d) :
    P (writing outcome d d').1 (writing outcome d d').2 := by
  cases outcome <;> first | exact hok | exact hsync _ | exact hfail _

theorem removing_spec {outcome : Outcome} {name : String} {P : Except String Unit → Disk → Prop}
    (hok : ∀ f, d.folder name = some f → P (.ok ()) (d.erase name))
    (hhalf : ∀ e f m c, d.folder name = some f → P (.error e) (d.put name (f.partly m c)))
    (hfail : ∀ e, P (.error e) d) :
    P (removing outcome d name).1 (removing outcome d name).2 := by
  unfold removing
  split
  · next f h => exact hok f h
  · next e m c f h => exact hhalf e f m c h
  · exact hfail _
  · exact hfail _

theorem Runs.mono {p : EdgeM α} {good' : α → Disk → Prop}
    (h : Runs crypto taken command good bad p d) (hgood : ∀ a d', good a d' → good' a d') :
    Runs crypto taken command good' bad p d := Keeps.mono h hgood

theorem Runs.bind {p : EdgeM α} {next : α → EdgeM β} {good' : β → Disk → Prop}
    (h : Runs crypto taken command good bad p d)
    (hnext : ∀ a d', good a d' → Runs crypto taken command good' bad (next a) d') :
    Runs crypto taken command good' bad (p >>= next) d := Keeps.bind h hnext

theorem Runs.attempt {p : EdgeM α} (good' : Except String α → Disk → Prop)
    {bad' : String → Disk → Prop} (h : Runs crypto taken command good bad p d)
    (hgood : ∀ a d', good a d' → good' (.ok a) d')
    (hbad : ∀ e d', bad e d' → good' (.error e) d') :
    Runs crypto taken command good' bad' p.attempt d := Keeps.attempt h hgood hbad

theorem runs_discard {p : EdgeM α} (h : Runs crypto taken command good bad p d) :
    Runs crypto taken command (fun _ _ ↦ True) bad (discard p) d :=
  h.bind fun _ _ _ ↦ keeps_pure trivial

/-- A computation without operations. -/
theorem runs_lift {result : Except String α} (hbad : ∀ e, bad e d) :
    Runs crypto taken command (fun a d' ↦ d' = d ∧ result = .ok a) bad (lift result) d :=
  keeps_lift (fun _ h ↦ ⟨rfl, h⟩) fun e _ ↦ hbad e

theorem Runs.check {p : EdgeM (Except String α)} {good : Except String α → Disk → Prop}
    {good' : α → Disk → Prop} (h : Runs crypto taken command good bad p d)
    (hgood : ∀ a d', good (.ok a) d' → good' a d')
    (hbad : ∀ e d', good (.error e) d' → bad e d') :
    Runs crypto taken command good' bad (check p) d :=
  h.bind fun _ d' hanswer ↦
    keeps_lift (fun a ha ↦ hgood a d' (ha ▸ hanswer)) (fun e he ↦ hbad e d' (he ▸ hanswer))

theorem runs_ask (op : Op) (good : op.Answer → Disk → Prop)
    (h : ∀ outcome, Asked taken command op d (act op outcome d).2 →
      Change crypto taken command op d (act op outcome d).2 ∧
        good (act op outcome d).1 (act op outcome d).2) :
    Runs crypto taken command good bad (ask op) d := keeps_ask h

/-- An operation that leaves the disk alone. -/
theorem runs_quiet (op : Op) (good : op.Answer → Disk → Prop) (hop : ∀ uri, op ≠ .fetch uri)
    (h : ∀ outcome, (act op outcome d).2 = d)
    (hgood : ∀ outcome, Asked taken command op d d → good (act op outcome d).1 d) :
    Runs crypto taken command good bad (ask op) d := by
  apply runs_ask op good
  intro outcome hasked
  rw [h] at hasked ⊢
  exact ⟨.same hop, hgood outcome hasked⟩

theorem runs_acquire (hbad : ∀ e, bad e d) :
    Runs crypto taken command (fun _ d' ↦ d' = d) bad (check acquire) d :=
  Runs.check (runs_quiet .lock (fun _ d' ↦ d' = d) nofun
    (fun _ ↦ reading_spec (P := fun _ d' ↦ d' = d) rfl fun _ ↦ rfl) fun _ _ ↦ rfl)
    (fun _ _ h ↦ h) (fun e _ h ↦ h ▸ hbad e)

theorem runs_sync_directory (hbad : ∀ e, bad e d) :
    Runs crypto taken command (fun _ d' ↦ d' = d) bad (check sync_directory) d :=
  Runs.check (runs_quiet .syncReleases (fun _ d' ↦ d' = d) nofun
    (fun _ ↦ reading_spec (P := fun _ d' ↦ d' = d) rfl fun _ ↦ rfl) fun _ _ ↦ rfl)
    (fun _ _ h ↦ h) (fun e _ h ↦ h ▸ hbad e)

theorem runs_read_state (hbad : ∀ e, bad e d) :
    Runs crypto taken command (fun state d' ↦ d' = d ∧ state = d.device) bad
      (check read_state) d := by
  apply Runs.check
  · apply runs_quiet .readState
      (fun answer d' ↦ d' = d ∧ ∀ state, answer = .ok state → state = d.device) nofun
      (fun _ ↦ reading_spec (P := fun _ d' ↦ d' = d) rfl fun _ ↦ rfl)
    intro outcome _
    exact ⟨rfl, reading_spec (P := fun answer _ ↦ ∀ state, answer = .ok state → state = d.device)
      (fun _ h ↦ (Except.ok.inj h).symm) fun _ _ h ↦ nomatch h⟩
  · exact fun state d' h ↦ ⟨h.1, h.2 state rfl⟩
  · exact fun e d' h ↦ h.1 ▸ hbad e

theorem runs_transition_hook {state : DeviceState} {action : HookAction} {path : PathBuf}
    {release_id : String} :
    Runs crypto taken command (fun _ d' ↦ d' = d) bad
      (run_transition_hook state action path release_id) d :=
  runs_quiet (.runHook action path release_id state.current_release) (fun _ d' ↦ d' = d) nofun
    (fun _ ↦ reading_spec (P := fun _ d' ↦ d' = d) rfl fun _ ↦ rfl) fun _ _ ↦ rfl

theorem runs_manifest_exists {path : PathBuf} :
    Runs crypto taken command (fun answer d' ↦ d' = d ∧ answer = (d.manifestAt path).isSome ∧
      Asked taken command (.manifestExists path) d d) bad (manifest_exists path) d :=
  runs_quiet (.manifestExists path) (fun answer d' ↦ d' = d ∧
    answer = (d.manifestAt path).isSome ∧ Asked taken command (.manifestExists path) d d) nofun
    (fun _ ↦ rfl) fun _ h ↦ ⟨rfl, rfl, h⟩

theorem runs_dir_exists {name : String} :
    Runs crypto taken command (fun answer d' ↦ d' = d ∧ answer = (d.folder name).isSome) bad
      (dir_exists name) d :=
  runs_quiet (.dirExists name) (fun answer d' ↦ d' = d ∧ answer = (d.folder name).isSome) nofun
    (fun _ ↦ rfl) fun _ _ ↦ ⟨rfl, rfl⟩

theorem runs_read_manifest {path : PathBuf} (hbad : ∀ e, bad e d) :
    Runs crypto taken command (fun m d' ↦ d' = d ∧ d.manifestAt path = some m) bad
      (check (read_manifest path)) d := by
  apply Runs.check
  · apply runs_quiet (.readManifest path)
      (fun answer d' ↦ d' = d ∧ ∀ m, answer = .ok m → d.manifestAt path = some m) nofun
      (fun _ ↦ reading_spec (P := fun _ d' ↦ d' = d) rfl fun _ ↦ rfl)
    intro outcome _
    apply And.intro rfl
    apply reading_spec (P := fun answer _ ↦ ∀ m, answer = .ok m → d.manifestAt path = some m)
    · intro m h
      cases hm : d.manifestAt path with
      | none => rw [hm] at h; cases h
      | some m' => rw [hm] at h; cases h; rfl
    · exact fun _ _ h ↦ nomatch h
  · exact fun m d' h ↦ ⟨h.1, h.2 m rfl⟩
  · exact fun e d' h ↦ h.1 ▸ hbad e

theorem runs_read_model {path : PathBuf} (hbad : ∀ e, bad e d) :
    Runs crypto taken command (fun contents d' ↦ d' = d ∧ d.modelAt path = some contents) bad
      (check (read_model path)) d := by
  apply Runs.check
  · apply runs_quiet (.readModel path)
      (fun answer d' ↦ d' = d ∧ ∀ c, answer = .ok c → d.modelAt path = some c) nofun
      (fun _ ↦ reading_spec (P := fun _ d' ↦ d' = d) rfl fun _ ↦ rfl)
    intro outcome _
    apply And.intro rfl
    apply reading_spec (P := fun answer _ ↦ ∀ c, answer = .ok c → d.modelAt path = some c)
    · intro c h
      cases hm : d.modelAt path with
      | none => rw [hm] at h; cases h
      | some c' => rw [hm] at h; cases h; rfl
    · exact fun _ _ h ↦ nomatch h
  · exact fun c d' h ↦ ⟨h.1, h.2 c rfl⟩
  · exact fun e d' h ↦ h.1 ▸ hbad e

theorem runs_read_dir (hbad : ∀ e, bad e d) :
    Runs crypto taken command (fun _ d' ↦ d' = d) bad (check read_dir) d := by
  apply Runs.check
  · apply runs_quiet .listReleases (fun _ d' ↦ d' = d) nofun
    · intro outcome
      cases outcome <;> rfl
    · exact fun _ _ ↦ rfl
  · exact fun _ _ h ↦ h
  · exact fun e _ h ↦ h ▸ hbad e

theorem runs_available_space (hbad : ∀ e, bad e d) :
    Runs crypto taken command (fun _ d' ↦ d' = d) bad (check available_space) d := by
  apply Runs.check
  · apply runs_quiet .available (fun _ d' ↦ d' = d) nofun
    · intro outcome
      cases outcome <;> rfl
    · exact fun _ _ ↦ rfl
  · exact fun _ _ h ↦ h
  · exact fun e _ h ↦ h ▸ hbad e

theorem runs_fetch {uri : String} {manifest : ModelManifest} {pid : Nat}
    (hcommand : command = .apply (.ok manifest) pid) (hnew : New crypto taken manifest d.device)
    (habsent : d.folder manifest.release_id = none) (hbad : ∀ e, bad e d) :
    Runs crypto taken command (fun _ d' ↦ d' = d) bad (check (fetch uri)) d := by
  apply Runs.check
  · apply runs_ask (.fetch uri) (fun _ d' ↦ d' = d)
    intro outcome _
    have hact : (act (.fetch uri) outcome d).2 = d := by cases outcome <;> rfl
    rw [hact]
    exact ⟨.fetched hcommand hnew habsent, rfl⟩
  · exact fun _ _ h ↦ h
  · exact fun e _ h ↦ h ▸ hbad e

/-- A write of the state file; where it fails it may have taken effect. -/
theorem runs_write_state {state : DeviceState}
    (h : Change crypto taken command (.writeState state) d { d with device := state }) :
    Runs crypto taken command
      (fun answer d' ↦ (d' = d ∨ d' = { d with device := state }) ∧
        (answer = .ok () → d' = { d with device := state })) bad (write_state state) d := by
  apply runs_ask (.writeState state) (fun answer d' ↦ (d' = d ∨ d' = { d with device := state }) ∧
    (answer = .ok () → d' = { d with device := state }))
  intro outcome _
  apply writing_spec (P := fun answer d' ↦ Change crypto taken command (.writeState state) d d' ∧
    (d' = d ∨ d' = { d with device := state }) ∧
      (answer = .ok () → d' = { d with device := state }))
  · exact ⟨h, .inr rfl, fun _ ↦ rfl⟩
  · exact fun e ↦ ⟨h, .inr rfl, fun he ↦ nomatch he⟩
  · exact fun e ↦ ⟨.same (fun _ hop ↦ nomatch hop), .inl rfl, fun he ↦ nomatch he⟩

theorem runs_check_write_state {state : DeviceState}
    (h : Change crypto taken command (.writeState state) d { d with device := state }) :
    Runs crypto taken command (fun _ d' ↦ d' = { d with device := state }) (fun _ _ ↦ True)
      (check (write_state state)) d :=
  (runs_write_state h).check (fun _ _ h ↦ h.2 rfl) fun _ _ _ ↦ trivial

/-- A write of the pointer of a pending activation. -/
theorem runs_write_current_pointer {t : PendingTransition}
    (hpending : d.device.pending_transition = some t) (haction : t.action = .Activate) :
    Runs crypto taken command
      (fun answer d' ↦ d'.device = d.device ∧ d'.releases = d.releases ∧
        (answer = .ok () → d'.current_model = some t.candidate.artifact_path)) bad
      (write_current_pointer t.candidate.artifact_path) d := by
  apply runs_ask (.writePointer t.candidate.artifact_path)
    (fun answer d' ↦ d'.device = d.device ∧ d'.releases = d.releases ∧
      (answer = .ok () → d'.current_model = some t.candidate.artifact_path))
  intro outcome _
  apply writing_spec
    (P := fun answer d' ↦ Change crypto taken command (.writePointer t.candidate.artifact_path) d d' ∧
      d'.device = d.device ∧ d'.releases = d.releases ∧
        (answer = .ok () → d'.current_model = some t.candidate.artifact_path))
  · exact ⟨.pointed hpending haction, rfl, rfl, fun _ ↦ rfl⟩
  · exact fun e ↦ ⟨.pointed hpending haction, rfl, rfl, fun he ↦ nomatch he⟩
  · exact fun e ↦ ⟨.same (fun _ hop ↦ nomatch hop), rfl, rfl, fun he ↦ nomatch he⟩

end Vidarax.Edge
