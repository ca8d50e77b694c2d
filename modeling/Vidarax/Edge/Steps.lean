import Vidarax.Edge.Staging

/-!
# Every operation of a command makes one of the changes

Package `vidarax-cli`, `edge.rs` 344–484, 512–588. The programs of `apply` and `report` are gone
through piece by piece.
-/

namespace Vidarax.Edge

open Base Program

section

variable {Message : Type} {crypto : Crypto Message} {taken : String → Prop}
  {command : Command} {manifest : ModelManifest} {pid : Nat} {d : Disk}

/-- What is stored under the release ID of a manifest is that manifest. -/
def Binds (manifest : ModelManifest) (d : Disk) : Prop :=
  ∀ stored, d.manifestAt (.manifest_json manifest.release_id) = some stored → stored = manifest

theorem runs_obtain_release (hcommand : command = .apply (.ok manifest) pid)
    (hnew : New crypto taken manifest d.device) (hbinds : Binds manifest d) :
    Runs crypto taken command
      (fun _ d' ↦ d'.device = d.device ∧ Stored crypto manifest (d'.folder manifest.release_id))
      (fun _ _ ↦ True) (obtain_release crypto manifest pid) d := by
  apply Runs.bind runs_manifest_exists
  rintro _ d ⟨rfl, rfl, -⟩
  cases hstored : d.manifestAt (.manifest_json manifest.release_id) with
  | none => exact runs_download_release hcommand hnew
  | some stored =>
    apply runs_verify_artifact_file.mono
    rintro _ d ⟨rfl, contents, hcontents, hsigned⟩
    obtain rfl := hbinds stored hstored
    apply And.intro rfl
    rw [Disk.manifestAt] at hstored
    rw [Disk.modelAt] at hcontents
    obtain ⟨⟨m, c⟩, hf, hm⟩ := Option.bind_eq_some_iff.1 hstored
    rw [hf] at hcontents ⊢
    dsimp only at hm
    rw [Option.bind_some] at hcontents
    dsimp only at hcontents
    rw [hm, hcontents]
    exact ⟨contents, rfl, hsigned⟩

theorem runs_replace_candidate (hcommand : command = .apply (.ok manifest) pid)
    (hnew : New crypto taken manifest d.device) :
    Runs crypto taken command
      (fun state d' ↦ d'.releases = d.releases ∧ d'.device = state ∧ state.candidate = none ∧
        New crypto taken manifest state)
      (fun _ _ ↦ True) (replace_candidate d.device) d := by
  unfold replace_candidate
  split
  · next candidate hcandidate =>
    apply (runs_perform (.replaced hcommand hnew.pending hcandidate rfl)).mono
    rintro _ d' ⟨hreleases, hdevice, rfl⟩
    refine ⟨hreleases, hdevice, rfl, ?_⟩
    have hother := hnew.candidate
    rw [hcandidate] at hother
    exact { hnew with candidate := nofun, rejected := hother, pending := rfl }
  · next hcandidate => exact keeps_pure ⟨rfl, rfl, hcandidate, hnew⟩

theorem runs_apply_new (hcommand : command = .apply (.ok manifest) pid)
    (hnew : d.device.highest_release_sequence < manifest.sequence →
      New crypto taken manifest d.device) (hbinds : Binds manifest d) :
    Runs crypto taken command (fun _ _ ↦ True) (fun _ _ ↦ True)
      (apply_new crypto d.device manifest pid) d := by
  unfold apply_new
  split
  · exact keeps_fail trivial
  next hsequence =>
    replace hnew := hnew (Nat.lt_of_not_le hsequence)
    apply Runs.bind (runs_obtain_release hcommand hnew hbinds)
    rintro _ d' ⟨hdevice, hstored⟩
    rw [← hdevice] at hnew ⊢
    apply Runs.bind (runs_replace_candidate hcommand hnew)
    rintro _ d'' ⟨hreleases, rfl, hcandidate, hnew'⟩
    rw [← folder_of_releases hreleases] at hstored
    apply Runs.bind (runs_check_write_state
      (.accepted hcommand hnew' hcandidate hstored rfl))
    rintro _ d₂ hd₂
    apply Runs.bind
    · exact runs_complete_or_rollback (d := d₂) (by rw [hd₂]) rfl
    · rintro state d₁ ⟨-, hdevice, -⟩
      apply Runs.bind (runs_prune hdevice)
      exact fun _ _ _ ↦ keeps_pure trivial

theorem runs_report {r : HealthReport} (hcommand : command = .report r) :
    Runs crypto taken command (fun _ _ ↦ True) (fun _ _ ↦ True) (report r) d := by
  apply Runs.bind (runs_acquire fun _ ↦ trivial)
  rintro _ d rfl
  apply Runs.bind (runs_lift fun _ ↦ trivial)
  rintro _ d ⟨rfl, -⟩
  split
  · exact keeps_fail trivial
  apply Runs.bind (runs_read_state fun _ ↦ trivial)
  rintro _ d ⟨rfl, rfl⟩
  apply Runs.bind runs_recover
  rintro _ d₁ ⟨rfl, hpending, -, -⟩
  split
  · exact keeps_fail trivial
  next candidate hcandidate =>
    split
    · exact keeps_fail trivial
    next hnames =>
      rw [not_or, not_not, not_not] at hnames
      apply Runs.bind (runs_read_manifest fun _ ↦ trivial)
      rintro manifest d ⟨rfl, hmanifest⟩
      apply Runs.bind (runs_perform
        (.reported hcommand hpending hcandidate hnames.1 hnames.2 hmanifest rfl))
      rintro _ d' ⟨-, hdevice, -⟩
      apply Runs.bind (runs_prune hdevice)
      exact fun _ _ _ ↦ keeps_pure trivial

end

section

variable {Message : Type} [DecidableEq Message] {crypto : Crypto Message} {taken : String → Prop}
  {command : Command} {manifest : ModelManifest} {pid : Nat} {d : Disk}

theorem runs_check_binding (hcommand : command = .apply (.ok manifest) pid) :
    Runs crypto taken command
      (fun _ d' ↦ d' = d ∧ Binds manifest d ∧ (taken manifest.release_id →
        d.device.highest_release_sequence < manifest.sequence →
          (d.manifestAt (.manifest_json manifest.release_id)).isSome ∨
            d.device.last_rejected_release = some manifest.release_id))
      (fun _ _ ↦ True) (check_binding crypto manifest) d := by
  apply Runs.bind runs_manifest_exists
  rintro _ d ⟨rfl, rfl, hasked⟩
  replace hasked := hasked manifest (by rw [hcommand]; rfl) rfl
  cases hstored : d.manifestAt (.manifest_json manifest.release_id) with
  | none =>
    refine keeps_pure ⟨rfl, fun stored h ↦ ?_, fun htaken hsequence ↦ ?_⟩
    · rw [hstored] at h
      cases h
    · have := hasked htaken hsequence
      rwa [hstored] at this
  | some stored =>
    apply Runs.bind (runs_read_manifest fun _ ↦ trivial)
    rintro _ d ⟨rfl, hread⟩
    rw [hstored] at hread
    cases hread
    split
    · exact keeps_fail trivial
    · next hsame =>
      refine keeps_pure ⟨rfl, fun stored' h ↦ ?_, fun _ _ ↦ .inl rfl⟩
      rw [hstored] at h
      cases h
      exact crypto.injective (not_not.1 hsame)

theorem runs_apply_verified (hcommand : command = .apply (.ok manifest) pid)
    (hvalidated : validate_manifest manifest = .ok ())
    (hverified : verify_manifest crypto manifest d.device.update_public_key = .ok ())
    (hpending : d.device.pending_transition = none) (hbound : Bound taken d) :
    Runs crypto taken command (fun _ _ ↦ True) (fun _ _ ↦ True)
      (apply_verified crypto d.device manifest pid) d := by
  unfold apply_verified
  split
  · exact keeps_fail trivial
  next hcohort =>
    apply Runs.bind (runs_check_binding hcommand)
    rintro _ d ⟨rfl, hbinds, hasked⟩
    split
    · exact keeps_pure trivial
    next hpresent =>
      split
      · exact keeps_pure trivial
      next hrejected =>
        apply runs_apply_new hcommand _ hbinds
        intro hsequence
        rw [not_or] at hpresent
        exact
          { validated := hvalidated
            verified := hverified
            cohort := not_not.1 hcohort
            sequence := hsequence
            current := hpresent.1
            candidate := hpresent.2
            rejected := hrejected
            pending := hpending
            fresh := by
              intro htaken
              obtain ⟨stored, hstored⟩ :=
                Option.isSome_iff_exists.1 ((hasked htaken hsequence).resolve_right hrejected)
              obtain rfl := hbinds stored hstored
              exact absurd (hbound _ _ htaken hstored rfl) (Nat.not_le.2 hsequence) }

theorem runs_apply {file : Except String ModelManifest} (hcommand : command = .apply file pid)
    (hbound : Bound taken d) :
    Runs crypto taken command (fun _ _ ↦ True) (fun _ _ ↦ True) (apply crypto file pid) d := by
  apply Runs.bind (runs_acquire fun _ ↦ trivial)
  rintro _ d rfl
  apply Runs.bind (runs_read_state fun _ ↦ trivial)
  rintro _ d ⟨rfl, rfl⟩
  apply Runs.bind runs_recover
  rintro _ d₁ ⟨rfl, hpending, hfolder, hsequence⟩
  apply Runs.bind (runs_prune rfl)
  intro _ d₂ hpruned
  apply Runs.bind (runs_lift fun _ ↦ trivial)
  rintro manifest d ⟨rfl, rfl⟩
  apply Runs.bind (runs_lift fun _ ↦ trivial)
  rintro _ d ⟨rfl, hvalidated⟩
  apply Runs.bind (runs_lift fun _ ↦ trivial)
  rintro _ d ⟨rfl, hverified⟩
  rw [← hpruned.device] at hpending hverified ⊢
  apply runs_apply_verified hcommand hvalidated hverified hpending
  intro release_id m htaken hm hrelease
  rw [hpruned.device, hsequence]
  apply hbound release_id m htaken _ hrelease
  have := hpruned.manifest _ _ hm
  rwa [Disk.manifestAt, hfolder] at this

/-- Every operation of a command makes one of the changes. -/
theorem runs_program (hbound : Bound taken d) :
    Runs crypto taken command (fun _ _ ↦ True) (fun _ _ ↦ True) (command.program crypto) d := by
  cases command with
  | apply file pid => exact runs_apply rfl hbound
  | report r => exact runs_report rfl

end

end Vidarax.Edge
