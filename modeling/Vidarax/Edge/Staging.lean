import Vidarax.Edge.Transitions

/-!
# Staging a release

Package `vidarax-cli`, `edge.rs` 395–447, 674–697, 917–1031. A release that is downloaded and
published is stored with the artifact that its manifest describes.
-/

namespace Vidarax.Edge

open Base Program

variable {Message : Type} {crypto : Crypto Message} {taken : String → Prop}
  {command : Command} {α β : Type} {d d' : Disk} {good : α → Disk → Prop}
  {bad : String → Disk → Prop}

/-! ### Staging -/

/-- A staging directory has a name of its own, which is no release's that it is for. -/
theorem staging_named (release_id : String) (pid : Nat) :
    (staging_dir release_id pid ≠ "." ∧ staging_dir release_id pid ≠ "..") ∧
      release_id ≠ staging_dir release_id pid := by
  have hlength : (staging_dir release_id pid).length ≥ 10 + release_id.length := by
    simp only [staging_dir, String.length_append]
    have h1 : (".").length = 1 := by decide
    have h2 : (".staging-").length = 9 := by decide
    omega
  refine ⟨⟨?_, ?_⟩, ?_⟩ <;> intro h
  · rw [h] at hlength
    have : (".").length = 1 := by decide
    omega
  · rw [h] at hlength
    have : ("..").length = 2 := by decide
    omega
  · have := congrArg String.length h
    omega

/-- A release is being staged: nothing but its staging directory has changed. -/
structure Staging (taken : String → Prop) (command : Command) (crypto : Crypto Message)
    (manifest : ModelManifest) (pid : Nat) (d d' : Disk) : Prop where
  command : command = .apply (.ok manifest) pid
  new : New crypto taken manifest d.device
  absent : d.folder manifest.release_id = none
  touches : Touches (staging_dir manifest.release_id pid) d d'

namespace Staging

variable {manifest : ModelManifest} {pid : Nat} {d₀ : Disk} {name : String}

theorem absent_now (h : Staging taken command crypto manifest pid d₀ d) :
    d.folder manifest.release_id = none := by
  rw [h.touches.folder _ (staging_named _ _).2]
  exact h.absent

theorem new_now (h : Staging taken command crypto manifest pid d₀ d) :
    New crypto taken manifest d.device := h.touches.device ▸ h.new

theorem next (h : Staging taken command crypto manifest pid d₀ d)
    (htouches : Touches (staging_dir manifest.release_id pid) d d') :
    Staging taken command crypto manifest pid d₀ d' :=
  ⟨h.command, h.new, h.absent, htouches.device.trans h.touches.device,
    htouches.current_model.trans h.touches.current_model,
    fun n hn ↦ (htouches.folder n hn).trans (h.touches.folder n hn)⟩

theorem change (h : Staging taken command crypto manifest pid d₀ d) {op : Op}
    (hop : op.staging = some (staging_dir manifest.release_id pid))
    (htouches : Touches (staging_dir manifest.release_id pid) d d')
    (hmanifest : ∀ m,
      d'.manifestAt (.manifest_json (staging_dir manifest.release_id pid)) = some m →
        m = manifest ∨
          d.manifestAt (.manifest_json (staging_dir manifest.release_id pid)) = some m) :
    Change crypto taken command op d d' :=
  .staged h.command h.new_now hop rfl htouches hmanifest

end Staging

variable {manifest : ModelManifest} {pid : Nat} {d₀ : Disk}

theorem runs_clear_staging (hcommand : command = .apply (.ok manifest) pid)
    (hnew : New crypto taken manifest d.device) :
    Runs crypto taken command
      (fun _ d' ↦ Touches (staging_dir manifest.release_id pid) d d') bad
      (clear_staging (staging_dir manifest.release_id pid)) d := by
  apply runs_ask (.clearStaging (staging_dir manifest.release_id pid))
    (fun _ d' ↦ Touches (staging_dir manifest.release_id pid) d d')
  intro outcome _
  obtain ⟨htouches, hless⟩ := touches_removing (d := d) outcome (staging_dir manifest.release_id pid)
  exact ⟨.staged hcommand hnew rfl rfl htouches fun m hm ↦ .inr (hless m hm), htouches⟩

theorem runs_clear_stale (h : Staging taken command crypto manifest pid d₀ d) :
    Runs crypto taken command (fun _ d' ↦ Staging taken command crypto manifest pid d₀ d')
      (fun _ _ ↦ True) (clear_stale (staging_dir manifest.release_id pid)) d := by
  apply Runs.bind runs_dir_exists
  rintro _ d ⟨rfl, rfl⟩
  cases (d.folder (staging_dir manifest.release_id pid)).isSome with
  | false => exact keeps_pure h
  | true =>
    exact (runs_clear_staging h.command h.new_now).check (fun _ _ htouches ↦ h.next htouches)
      fun _ _ _ ↦ trivial

/-- A write into the staging directory. -/
theorem runs_write_staging (op : Op) (outcome : Outcome)
    (h : Staging taken command crypto manifest pid d₀ d)
    (hop : op.staging = some (staging_dir manifest.release_id pid)) {f : Folder}
    (hmanifest : ∀ m, f.manifest = some m → m = manifest ∨
      d.manifestAt (.manifest_json (staging_dir manifest.release_id pid)) = some m) :
    Change crypto taken command op d
        (writing outcome d (d.put (staging_dir manifest.release_id pid) f)).2 ∧
      Staging taken command crypto manifest pid d₀
        (writing outcome d (d.put (staging_dir manifest.release_id pid) f)).2 ∧
      ((writing outcome d (d.put (staging_dir manifest.release_id pid) f)).1 = .ok () →
        (writing outcome d (d.put (staging_dir manifest.release_id pid) f)).2.folder
          (staging_dir manifest.release_id pid) = some f) := by
  have hput := h.change hop touches_put fun m hm ↦ hmanifest m (manifest_of_put hm)
  apply writing_spec (P := fun answer d' ↦ Change crypto taken command op d d' ∧
    Staging taken command crypto manifest pid d₀ d' ∧
      (answer = .ok () → d'.folder (staging_dir manifest.release_id pid) = some f))
  · exact ⟨hput, h.next touches_put, fun _ ↦ folder_put_self (staging_named _ _).1⟩
  · exact fun e ↦ ⟨hput, h.next touches_put, fun he ↦ nomatch he⟩
  · exact fun e ↦ ⟨h.change hop (Touches.refl _ _) fun _ ↦ .inr, h, fun he ↦ nomatch he⟩

theorem runs_create_staging (h : Staging taken command crypto manifest pid d₀ d) :
    Runs crypto taken command (fun _ d' ↦ Staging taken command crypto manifest pid d₀ d')
      (fun _ _ ↦ True) (check (create_staging (staging_dir manifest.release_id pid))) d := by
  apply Runs.check
  · apply runs_ask (.createStaging (staging_dir manifest.release_id pid))
      (fun _ d' ↦ Staging taken command crypto manifest pid d₀ d')
    intro outcome _
    by_cases hf : (d.folder (staging_dir manifest.release_id pid)).isSome
    · have hsame : (act (.createStaging (staging_dir manifest.release_id pid)) outcome d).2 = d := by
        change (writing outcome d (if _ then d else _)).2 = d
        rw [if_pos hf]
        exact writing_spec (P := fun _ d' ↦ d' = d) rfl (fun _ ↦ rfl) fun _ ↦ rfl
      rw [hsame]
      exact ⟨h.change rfl (Touches.refl _ _) fun _ ↦ .inr, h⟩
    · change Change crypto taken command _ d (writing outcome d (if _ then d else _)).2 ∧
        Staging taken command crypto manifest pid d₀ (writing outcome d (if _ then d else _)).2
      rw [if_neg hf]
      have hwrite := runs_write_staging (.createStaging (staging_dir manifest.release_id pid)) outcome
        h rfl (f := ⟨none, none⟩) fun _ hm ↦ nomatch hm
      exact ⟨hwrite.1, hwrite.2.1⟩
  · exact fun _ _ h ↦ h
  · exact fun _ _ _ ↦ trivial

/-- A file of the staging directory is written. -/
theorem runs_stage_model (h : Staging taken command crypto manifest pid d₀ d) {contents : Bytes} :
    Runs crypto taken command
      (fun _ d' ↦ Staging taken command crypto manifest pid d₀ d' ∧
        ∃ m, d'.folder (staging_dir manifest.release_id pid) = some ⟨m, some contents⟩)
      (fun _ d' ↦ d'.device = d₀.device)
      (check (stage_model (staging_dir manifest.release_id pid) contents)) d := by
  apply Runs.check
  · apply runs_ask (.stageModel (staging_dir manifest.release_id pid) contents)
      (fun answer d' ↦ Staging taken command crypto manifest pid d₀ d' ∧
        (answer = .ok () → ∃ m,
          d'.folder (staging_dir manifest.release_id pid) = some ⟨m, some contents⟩))
    intro outcome _
    cases hf : d.folder (staging_dir manifest.release_id pid) with
    | none =>
      rw [show act (.stageModel (staging_dir manifest.release_id pid) contents) outcome d =
        (.error "", d) by simp only [act, hf]]
      exact ⟨h.change rfl (Touches.refl _ _) fun _ ↦ .inr, h, fun he ↦ nomatch he⟩
    | some f =>
      rw [show act (.stageModel (staging_dir manifest.release_id pid) contents) outcome d =
        writing outcome d (d.put (staging_dir manifest.release_id pid)
          { f with model := some contents }) by simp only [act, hf]; rfl]
      obtain ⟨hchange, hstaging, hfolder⟩ :=
        runs_write_staging (.stageModel (staging_dir manifest.release_id pid) contents) outcome h rfl
          (f := { f with model := some contents })
          fun m hm ↦ .inr ((manifestAt_of_folder hf).trans hm)
      exact ⟨hchange, hstaging, fun hok ↦ ⟨f.manifest, hfolder hok⟩⟩
  · exact fun _ _ h ↦ ⟨h.1, h.2 rfl⟩
  · exact fun _ _ h ↦ h.1.touches.device

theorem runs_stage_manifest (h : Staging taken command crypto manifest pid d₀ d) {f : Folder}
    (hf : d.folder (staging_dir manifest.release_id pid) = some f) :
    Runs crypto taken command
      (fun _ d' ↦ Staging taken command crypto manifest pid d₀ d' ∧
        d'.folder (staging_dir manifest.release_id pid) = some { f with manifest := some manifest })
      (fun _ d' ↦ d'.device = d₀.device)
      (check (stage_manifest (staging_dir manifest.release_id pid) manifest)) d := by
  apply Runs.check
  · apply runs_ask (.stageManifest (staging_dir manifest.release_id pid) manifest)
      (fun answer d' ↦ Staging taken command crypto manifest pid d₀ d' ∧ (answer = .ok () →
        d'.folder (staging_dir manifest.release_id pid) =
          some { f with manifest := some manifest }))
    intro outcome _
    rw [show act (.stageManifest (staging_dir manifest.release_id pid) manifest) outcome d =
      writing outcome d (d.put (staging_dir manifest.release_id pid)
        { f with manifest := some manifest }) by simp only [act, hf]; rfl]
    exact runs_write_staging (.stageManifest (staging_dir manifest.release_id pid) manifest) outcome
      h rfl (f := { f with manifest := some manifest }) fun m hm ↦ .inl (Option.some.inj hm).symm
  · exact fun _ _ h ↦ ⟨h.1, h.2 rfl⟩
  · exact fun _ _ h ↦ h.1.touches.device

/-- The release is there, and nothing is said of other directories. -/
theorem runs_publish (h : Staging taken command crypto manifest pid d₀ d) {f : Folder}
    (hf : d.folder (staging_dir manifest.release_id pid) = some f)
    (hstored : Stored crypto manifest (some f)) :
    Runs crypto taken command
      (fun _ d' ↦ d'.device = d₀.device ∧ Stored crypto manifest (d'.folder manifest.release_id))
      (fun _ d' ↦ d'.device = d₀.device)
      (check (publish (staging_dir manifest.release_id pid) manifest.release_id)) d := by
  have hnamed : manifest.release_id ≠ "." ∧ manifest.release_id ≠ ".." :=
    named_of_folder (by rw [h.absent]; nofun)
  have hpublished : Change crypto taken command
      (.publish (staging_dir manifest.release_id pid) manifest.release_id) d
      ((d.erase (staging_dir manifest.release_id pid)).put manifest.release_id f) :=
    .published h.command h.new_now rfl h.absent_now hstored
  apply Runs.check
  · apply runs_ask (.publish (staging_dir manifest.release_id pid) manifest.release_id)
      (fun answer d' ↦ d'.device = d₀.device ∧
        (answer = .ok () → Stored crypto manifest (d'.folder manifest.release_id)))
    intro outcome _
    rw [show act (.publish (staging_dir manifest.release_id pid) manifest.release_id) outcome d =
      writing outcome d ((d.erase (staging_dir manifest.release_id pid)).put manifest.release_id f) by
        simp only [act, hf, h.absent_now]; rfl]
    apply writing_spec (P := fun answer d' ↦ Change crypto taken command
      (.publish (staging_dir manifest.release_id pid) manifest.release_id) d d' ∧
        d'.device = d₀.device ∧
          (answer = .ok () → Stored crypto manifest (d'.folder manifest.release_id)))
    · exact ⟨hpublished, h.touches.device, fun _ ↦ by rwa [folder_put_self hnamed]⟩
    · exact fun e ↦ ⟨hpublished, h.touches.device, fun he ↦ nomatch he⟩
    · exact fun e ↦ ⟨.same (fun _ hop ↦ nomatch hop), h.touches.device, fun he ↦ nomatch he⟩
  · exact fun _ _ h ↦ ⟨h.1, h.2 rfl⟩
  · exact fun _ _ h ↦ h.1

/-- The contents that pass the checks of a download are the signed ones. -/
theorem runs_download (h : Staging taken command crypto manifest pid d₀ d) :
    Runs crypto taken command
      (fun _ d' ↦ Staging taken command crypto manifest pid d₀ d' ∧ ∃ m contents,
        d'.folder (staging_dir manifest.release_id pid) = some ⟨m, some contents⟩ ∧
          manifest.artifact.Signed crypto contents)
      (fun _ d' ↦ d'.device = d₀.device)
      (download_verified_artifact crypto manifest.artifact
        (staging_dir manifest.release_id pid)) d := by
  have hdevice := h.touches.device
  apply Runs.bind (runs_lift fun _ ↦ hdevice)
  rintro _ d ⟨rfl, -⟩
  apply Runs.bind (runs_fetch h.command h.new_now h.absent_now fun _ ↦ hdevice)
  rintro contents d rfl
  split
  · exact keeps_fail hdevice
  split
  · exact keeps_fail hdevice
  split
  · exact keeps_fail hdevice
  next hsize hhash =>
    apply (runs_stage_model h).mono
    rintro _ d' ⟨hstaging, m, hf⟩
    exact ⟨hstaging, m, contents, hf, not_not.1 hsize, not_not.1 hhash⟩

theorem runs_stage_release (h : Staging taken command crypto manifest pid d₀ d) :
    Runs crypto taken command
      (fun _ d' ↦ d'.device = d₀.device ∧ Stored crypto manifest (d'.folder manifest.release_id))
      (fun _ d' ↦ d'.device = d₀.device)
      (stage_release crypto manifest (staging_dir manifest.release_id pid)) d := by
  apply Runs.bind (runs_download h)
  rintro _ d' ⟨hstaging, m, contents, hf, hsigned⟩
  apply Runs.bind (runs_stage_manifest hstaging hf)
  rintro _ d'' ⟨hstaging', hf'⟩
  apply Runs.bind (runs_publish hstaging' hf' ⟨contents, rfl, hsigned⟩)
  rintro _ d₃ hdone
  apply (runs_sync_directory fun _ ↦ hdone.1).mono
  rintro _ _ rfl
  exact hdone

theorem runs_reserve {n : Nat} :
    Runs crypto taken command (fun _ d' ↦ d' = d) (fun _ _ ↦ True)
      (reserve_artifact_space n) d := by
  apply Runs.bind (runs_available_space fun _ ↦ trivial)
  rintro ⟨maximum, available⟩ d rfl
  dsimp only
  -- the numbers are not to be computed with
  generalize min (n + MIN_FREE_SPACE_HEADROOM_BYTES) u64Max = required
  split
  · exact keeps_fail trivial
  · split
    · exact keeps_fail trivial
    · exact keeps_pure rfl

theorem runs_download_release (hcommand : command = .apply (.ok manifest) pid)
    (hnew : New crypto taken manifest d.device) :
    Runs crypto taken command
      (fun _ d' ↦ d'.device = d.device ∧ Stored crypto manifest (d'.folder manifest.release_id))
      (fun _ _ ↦ True) (download_release crypto manifest pid) d := by
  apply Runs.bind runs_dir_exists
  rintro _ d ⟨rfl, rfl⟩
  cases habsent : d.folder manifest.release_id with
  | some f => exact keeps_fail trivial
  | none =>
    apply Runs.bind runs_reserve
    rintro _ d rfl
    have hstart : Staging taken command crypto manifest pid d d :=
      ⟨hcommand, hnew, habsent, Touches.refl _ _⟩
    apply Runs.bind (runs_clear_stale hstart)
    intro _ d' hcleared
    apply Runs.bind (runs_create_staging hcleared)
    intro _ d' hcreated
    apply Runs.bind
    · exact (runs_stage_release hcreated).attempt
        (fun r d' ↦ d'.device = d.device ∧
          (r = .ok () → Stored crypto manifest (d'.folder manifest.release_id)))
        (fun _ _ h ↦ ⟨h.1, fun _ ↦ h.2⟩) fun _ _ h ↦ ⟨h, fun he ↦ nomatch he⟩
    · rintro staged d' ⟨hdevice, hstored⟩
      cases staged with
      | ok _ => exact keeps_pure ⟨hdevice, hstored rfl⟩
      | error e =>
        apply Runs.bind (runs_discard (runs_clear_staging hcommand (hdevice ▸ hnew)))
        exact fun _ _ _ ↦ keeps_fail trivial

theorem runs_verify_artifact_file {artifact : Artifact} {path : PathBuf} :
    Runs crypto taken command
      (fun _ d' ↦ d' = d ∧ ∃ contents, d.modelAt path = some contents ∧
        artifact.Signed crypto contents)
      (fun _ _ ↦ True) (verify_artifact_file crypto artifact path) d := by
  apply Runs.bind (runs_read_model fun _ ↦ trivial)
  rintro contents d ⟨rfl, hcontents⟩
  split
  · exact keeps_fail trivial
  split
  · exact keeps_fail trivial
  split
  · exact keeps_fail trivial
  next hsize hhash => exact keeps_pure ⟨rfl, contents, hcontents, not_not.1 hsize, not_not.1 hhash⟩

end Vidarax.Edge
