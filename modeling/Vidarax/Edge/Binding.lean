import Vidarax.Edge.Rollout

/-!
# Release IDs

Package `vidarax-cli`, `edge.rs` 358–394, 641–731. A release ID is bound to its manifest by the
stored manifest and by the last rejected release of the state file. Where neither is left of a
release that was accepted, its ID can be bound again.
-/

namespace Vidarax.Edge

open Base Program

/-- A manifest of the release ID was accepted. -/
def Taken (past : List Entry) (release_id : String) : Prop :=
  ∃ q ∈ past, ∃ m ∈ q.call.manifest, Accepts m q ∧ m.release_id = release_id

/-- The entry asks for the bytes of a release. -/
def Downloads (release_id : String) (e : Entry) : Prop :=
  (∃ m ∈ e.call.manifest, m.release_id = release_id) ∧ ∃ uri, e.op = .fetch uri

/-- The release was rejected. -/
def Rejected (past : List Entry) (release_id : String) : Prop :=
  ∃ q ∈ past, q.after.device.last_rejected_release = some release_id

/-- A release ID is accepted with one manifest only, and a release that was rejected is neither
downloaded nor staged again. -/
structure Faithful (past : List Entry) (e : Entry) : Prop where
  bound : ∀ m, Accepts m e → ∀ q ∈ past, ∀ m', Accepts m' q → m'.release_id = m.release_id → m' = m
  rejected : ∀ release_id, Rejected past release_id →
    ¬ Downloads release_id e ∧ ¬ Proposes e.after.device release_id

section

variable {Message : Type} {crypto : Crypto Message} {taken : String → Prop}
  {past : List Entry} {d : Disk} {e : Entry} {m : ModelManifest} {name : String}

theorem Taken.mono (h : Taken past name) (e : Entry) : Taken (past ++ [e]) name := by
  obtain ⟨q, hq, h⟩ := h
  exact ⟨q, List.mem_append_left _ hq, h⟩

/-! ### What single entries do -/

/-- An accepted manifest was new, and its sequence becomes the mark. -/
theorem Change.accepts (h : Change crypto taken e.call e.op e.before e.after) (ha : Accepts m e) :
    New crypto taken m e.before.device ∧ e.after.device.highest_release_sequence = m.sequence ∧
      e.after.manifestAt (.manifest_json m.release_id) = some m := by
  obtain ⟨call, op, d, d'⟩ := e
  obtain ⟨hcall, hbefore, hafter⟩ := ha
  dsimp only at h hcall hbefore hafter ⊢
  cases h with
  | same => rw [hbefore] at hafter; cases hafter
  | fetched => rw [hbefore] at hafter; cases hafter
  | pruned _ h => rw [h.device, hbefore] at hafter; cases hafter
  | staged _ _ _ _ h => rw [h.device, hbefore] at hafter; cases hafter
  | published =>
    change d.device.pending_transition = _ at hafter
    rw [hbefore] at hafter
    cases hafter
  | accepted hcommand hnew _ hstored hstate =>
    subst hstate
    rw [hcommand] at hcall
    cases hcall
    exact ⟨hnew, rfl, hstored.manifestAt⟩
  | completed hpending => rw [hbefore] at hpending; cases hpending
  | pointed hpending => rw [hbefore] at hpending; cases hpending
  | turned hpending => rw [hbefore] at hpending; cases hpending
  | replaced _ _ _ hstate =>
    subst hstate
    cases hstage : m.stage <;> rw [hstage] at hafter <;> cases hafter
  | reported hcommand =>
    rw [hcommand] at hcall
    cases hcall

/-- A manifest that is stored under its own release ID was there before, or is the new one. -/
theorem Change.stored (h : Change crypto taken e.call e.op e.before e.after)
    (hm : e.after.manifestAt (.manifest_json m.release_id) = some m) :
    e.before.manifestAt (.manifest_json m.release_id) = some m ∨
      m ∈ e.call.manifest ∧ New crypto taken m e.before.device := by
  obtain ⟨call, op, d, d'⟩ := e
  dsimp only at h hm ⊢
  cases h with
  | @pruned name _ _ _ htouches hless =>
    by_cases hname : m.release_id = name
    · rw [hname] at hm ⊢
      exact .inl (hless m hm)
    · exact .inl (htouches.manifestAt hname ▸ hm)
  | @staged _ name _ _ m' pid hcommand hnew _ hstaging htouches hmanifest =>
    by_cases hname : m.release_id = name
    · rw [hname] at hm ⊢
      rcases hmanifest m hm with rfl | hbefore
      · exact absurd (hname.trans hstaging) (staging_named _ _).2
      · exact .inl hbefore
    · exact .inl (htouches.manifestAt hname ▸ hm)
  | @published staging _ m' pid hcommand hnew hstaging habsent f hstored =>
    obtain ⟨contents, hf, -⟩ := hstored
    cases hf
    by_cases hname : m.release_id = m'.release_id
    · rw [hname] at hm
      obtain rfl := Option.some.inj (manifest_of_put hm)
      exact .inr ⟨by rw [hcommand]; rfl, hnew⟩
    · rw [touches_put.manifestAt hname] at hm
      by_cases hname' : m.release_id = staging
      · rw [hname', manifestAt_erase_self] at hm
        cases hm
      · rw [touches_erase.manifestAt hname'] at hm
        exact .inl hm
  | _ => exact .inl hm

/-- A release is rejected by the end of what proposed it. -/
theorem Change.rejects (h : Change crypto taken e.call e.op e.before e.after)
    (hname : e.after.device.last_rejected_release = some name) :
    e.before.device.last_rejected_release = some name ∨
      Proposes e.before.device name ∧ ¬ Proposes e.after.device name := by
  obtain ⟨call, op, d, d'⟩ := e
  dsimp only at h hname ⊢
  cases h with
  | pruned _ h => exact .inl (h.device ▸ hname)
  | staged _ _ _ _ h => exact .inl (h.device ▸ hname)
  | accepted _ _ _ _ hstate => subst hstate; exact .inl hname
  | @completed _ t _ hpending _ hstate =>
    subst hstate
    obtain ⟨action, c⟩ := t
    cases action with
    | Rollback =>
      cases hname
      refine .inr ⟨.inr ⟨_, hpending, rfl⟩, ?_⟩
      rintro (⟨c', hc', -⟩ | ⟨t', ht', -⟩)
      · cases hc'
      · cases ht'
    | _ => exact .inl hname
  | turned _ _ hstate => subst hstate; exact .inl hname
  | replaced _ _ _ hstate => subst hstate; exact .inl hname
  | reported _ _ _ _ _ _ hstate => subst hstate; exact .inl hname
  | _ => exact .inl hname

theorem Change.downloads (h : Change crypto taken e.call e.op e.before e.after)
    (hdownload : Downloads name e) :
    ∃ m ∈ e.call.manifest, m.release_id = name ∧ New crypto taken m e.before.device := by
  obtain ⟨call, op, d, d'⟩ := e
  obtain ⟨⟨m, hm, hname⟩, uri, hop⟩ := hdownload
  dsimp only at h hm hop ⊢
  subst hop
  cases h with
  | same hop => exact absurd rfl (hop uri)
  | fetched hcommand hnew =>
    rw [hcommand] at hm
    cases hm
    exact ⟨_, by rw [hcommand]; rfl, hname, hnew⟩
  | staged _ _ hop => cases hop

/-! ### The invariant -/

/-- What holds of the disk after every history. -/
structure Bindings (past : List Entry) (d : Disk) : Prop where
  mark : ∀ q ∈ past, ∀ m, Accepts m q → m.sequence ≤ d.device.highest_release_sequence
  bound : Bound (Taken past) d
  taken : ∀ name, Proposes d.device name → Taken past name
  rejected : ∀ name, d.device.last_rejected_release = some name ∨ Rejected past name →
    Taken past name ∧ ¬ Proposes d.device name

theorem bindings_enrolled (hardware_cohort update_public_key : String) :
    Bindings [] (Disk.enrolled hardware_cohort update_public_key) := by
  constructor <;> simp [Disk.enrolled, Proposes, Rejected, Bound, Taken]

/-- The release ID of a new manifest is not taken: neither before its command nor by it. -/
theorem Bindings.fresh {start : List Entry} (h : Bindings past e.before)
    (hstart : ∀ q ∈ past, q ∈ start ∨ q.call = e.call) (hm : m ∈ e.call.manifest)
    (hnew : New crypto (Taken start) m e.before.device) : ¬ Taken past m.release_id := by
  rintro ⟨q, hq, m', hm', haccepts, hrelease⟩
  rcases hstart q hq with hq' | hcall
  · exact hnew.fresh ⟨q, hq', m', hm', haccepts, hrelease⟩
  · rw [hcall, hm] at hm'
    cases hm'
    exact Nat.not_le.2 hnew.sequence (h.mark q hq m haccepts)

theorem Bindings.step {start : List Entry} (h : Bindings past e.before)
    (hstart : ∀ q ∈ past, q ∈ start ∨ q.call = e.call)
    (hchange : Change crypto (Taken start) e.call e.op e.before e.after) :
    Faithful past e ∧ Bindings (past ++ [e]) e.after := by
  have hfresh : ∀ m ∈ e.call.manifest, New crypto (Taken start) m e.before.device →
      ¬ Taken past m.release_id := fun m hm ↦ h.fresh hstart hm
  -- what is proposed later was proposed before, or is new
  have hproposes : ∀ name, Proposes e.after.device name → Proposes e.before.device name ∨
      ∃ m ∈ e.call.manifest, m.release_id = name ∧ Accepts m e ∧ ¬ Taken past name := by
    intro name hname
    rcases hchange.proposes hname with hbefore | ⟨m, rfl, haccepts, -⟩
    · exact .inl hbefore
    · exact .inr ⟨m, haccepts.1, rfl, haccepts, hfresh m haccepts.1 (hchange.accepts haccepts).1⟩
  have hrejected : ∀ name, e.before.device.last_rejected_release = some name ∨ Rejected past name →
      Taken past name ∧ ¬ Proposes e.after.device name := by
    intro name hname
    obtain ⟨htaken, hnot⟩ := h.rejected name hname
    refine ⟨htaken, fun hafter ↦ ?_⟩
    rcases hproposes name hafter with hbefore | ⟨m, -, -, -, hfree⟩
    · exact hnot hbefore
    · exact hfree htaken
  constructor
  · constructor
    · intro m haccepts q hq m' haccepts' hrelease
      exact absurd ⟨q, hq, m', haccepts'.1, haccepts', hrelease⟩
        (hfresh m haccepts.1 (hchange.accepts haccepts).1)
    · intro name hname
      obtain ⟨htaken, hnot⟩ := hrejected name (.inr hname)
      refine ⟨fun hdownload ↦ ?_, hnot⟩
      obtain ⟨m, hm, rfl, hnew⟩ := hchange.downloads hdownload
      exact hfresh m hm hnew htaken
  · constructor
    · intro q hq m haccepts
      rcases List.mem_append.1 hq with hq | hq
      · exact (h.mark q hq m haccepts).trans hchange.mark
      · rw [List.mem_singleton.1 hq] at haccepts
        exact (hchange.accepts haccepts).2.1.ge
    · rintro name m ⟨q, hq, m', hm', haccepts, hrelease⟩ hm rfl
      rcases List.mem_append.1 hq with hq | hq
      · rcases hchange.stored hm with hbefore | ⟨hcall, hnew⟩
        · exact (h.bound _ m ⟨q, hq, m', hm', haccepts, hrelease⟩ hbefore rfl).trans hchange.mark
        · exact absurd ⟨q, hq, m', hm', haccepts, hrelease⟩ (hfresh m hcall hnew)
      · rw [List.mem_singleton.1 hq] at haccepts
        obtain ⟨-, hmark, hstored⟩ := hchange.accepts haccepts
        rw [hrelease, hm] at hstored
        cases hstored
        exact hmark.ge
    · intro name hname
      rcases hproposes name hname with hbefore | ⟨m, hm, hrelease, haccepts, -⟩
      · exact (h.taken name hbefore).mono e
      · exact ⟨e, by simp, m, hm, haccepts, hrelease⟩
    · have hlast : ∀ name, e.after.device.last_rejected_release = some name →
          Taken (past ++ [e]) name ∧ ¬ Proposes e.after.device name := by
        intro name hname
        rcases hchange.rejects hname with hbefore | ⟨hbefore, hnot⟩
        · exact ⟨(hrejected name (.inl hbefore)).1.mono e, (hrejected name (.inl hbefore)).2⟩
        · exact ⟨(h.taken name hbefore).mono e, hnot⟩
      rintro name (hname | ⟨q, hq, hname⟩)
      · exact hlast name hname
      · rcases List.mem_append.1 hq with hq | hq
        · exact ⟨(hrejected name (.inr ⟨q, hq, hname⟩)).1.mono e,
            (hrejected name (.inr ⟨q, hq, hname⟩)).2⟩
        · rw [List.mem_singleton.1 hq] at hname
          exact hlast name hname

end

/-- When `apply` looks for the stored manifest of a new manifest whose release ID was accepted
before, it is there, or the release is the last one that was rejected. -/
def StaysBound (past : List Entry) (e : Entry) : Prop :=
  Asked (Taken past) e.call e.op e.before e.after

theorem Asked.anti {taken taken' : String → Prop} {command : Command} {op : Op} {d d' : Disk}
    (h : Asked taken' command op d d') (hless : ∀ name, taken name → taken' name) :
    Asked taken command op d d' :=
  fun m hm hop htaken ↦ h m hm hop (hless _ htaken)

/-- In every history in which the release IDs stay bound, they are bound permanently. -/
theorem releases_bound {Message : Type} [DecidableEq Message] {crypto : Crypto Message}
    (hardware_cohort update_public_key : String) (calls : List (Command × List Outcome))
    (hbound : Throughout StaysBound [] (history act (Command.program crypto)
      (Disk.enrolled hardware_cohort update_public_key) calls)) :
    Throughout Faithful [] (history act (Command.program crypto)
      (Disk.enrolled hardware_cohort update_public_key) calls) := by
  apply throughout_history Bindings _ (bindings_enrolled _ _) hbound
  intro call past d outcomes hbindings hasked
  have hruns : Runs crypto (Taken past) call (fun _ _ ↦ True) (fun _ _ ↦ True)
      (call.program crypto) d := runs_program hbindings.bound
  have hchange : ∀ e ∈ (call.program crypto).events act call d outcomes,
      Change crypto (Taken past) call e.op e.before e.after := by
    apply hruns.events
    intro e he
    obtain ⟨more, hstays⟩ := hasked.exists_past e he
    rw [← call_of_mem_events e he]
    exact hstays.anti fun name ⟨q, hq, h⟩ ↦ ⟨q, List.mem_append_left _ hq, h⟩
  obtain ⟨hfaithful, hlast⟩ := linked_events.throughout
    (fun past' d ↦ Bindings past' d ∧ ∀ q ∈ past', q ∈ past ∨ q.call = call)
    ⟨hbindings, fun _ ↦ .inl⟩ (P := Faithful) fun past' e he ⟨h, hstart⟩ ↦ by
      have hcall := call_of_mem_events e he
      have hstart' : ∀ q ∈ past', q ∈ past ∨ q.call = e.call := hcall.symm ▸ hstart
      have hchange' : Change crypto (Taken past) e.call e.op e.before e.after :=
        hcall.symm ▸ hchange e he
      obtain ⟨hfaithful, h'⟩ := h.step hstart' hchange'
      refine ⟨hfaithful, h', fun q hq ↦ ?_⟩
      rcases List.mem_append.1 hq with hq | hq
      · exact hstart q hq
      · exact .inr (List.mem_singleton.1 hq ▸ hcall)
  exact ⟨hfaithful, hlast.1⟩

/-! ### A release ID that is bound twice -/

instance (m : ModelManifest) (e : Entry) : Decidable (Accepts m e) :=
  inferInstanceAs (Decidable (_ ∧ _ ∧ _))

instance (past : List Entry) (release_id : String) : Decidable (Taken past release_id) :=
  inferInstanceAs (Decidable (∃ q ∈ past, ∃ m ∈ q.call.manifest, _ ∧ _))

instance (past : List Entry) (e : Entry) : Decidable (StaysBound past e) :=
  inferInstanceAs (Decidable (∀ m ∈ e.call.manifest,
    e.op = .manifestExists (.manifest_json m.release_id) → Taken past m.release_id → _ → _ ∨ _))

/-- Manifests of three releases, the first of which is published anew under its ID. -/
def firstManifest : ModelManifest :=
  sampleManifest "x" 1
    ("d63cdc868e7fb88f40dfc8953372b71a7cd72419412b6a8e8c9d58edc3976ece" ++
      "b3e248d6fb1e8796e81a52a780745d175acbff0f76cab0255ca3eb5d0b0b320e")

def secondManifest : ModelManifest :=
  sampleManifest "y" 2
    ("1a40476f64f390ae273f16169f44391f63b6c5387d0bb41a2d6d12490249cfe5" ++
      "c59e8bccd04a0b00766f9edba637312b6346957f18b10f3efe0032815883540f")

def thirdManifest : ModelManifest :=
  sampleManifest "z" 3
    ("5989af24ceba8b9a5786da608592e35cd1c9efc56b5791eed3cae6ef2f1a202f" ++
      "a720c1417f3396697c3ba29054e78ec053bf5bfdef96677d155701d36b10d106")

def reboundManifest : ModelManifest :=
  sampleManifest "x" 4
    ("c9496441128f62f3fe93998878ccb724d5b40467f78d7fb0be08a667f348c51c" ++
      "9fd781e7dcb87446cca1747328247fe994e8b03ce90267c78355a8728db4860e")

/-- The manifests are applied one after another, each one replacing the candidate before it. -/
def applyAll (manifests : List ModelManifest) : List (Command × List Outcome) :=
  manifests.map (sampleApply · 7)

set_option maxRecDepth 10000 in
theorem releases_bound_sample :
    (∃ e ∈ history act (Command.program sampleCrypto) sampleDevice
      (applyAll [firstManifest, secondManifest]), Accepts secondManifest e) ∧
      Throughout Faithful [] (history act (Command.program sampleCrypto) sampleDevice
        (applyAll [firstManifest, secondManifest])) :=
  ⟨by decide +kernel,
    releases_bound _ _ (applyAll [firstManifest, secondManifest]) (by decide +kernel)⟩

set_option maxRecDepth 10000 in
/-- When two more candidates were rejected, the first release ID is downloaded and accepted with
another manifest. -/
theorem release_rebound :
    firstManifest.release_id = reboundManifest.release_id ∧ firstManifest ≠ reboundManifest ∧
      (∃ e ∈ history act (Command.program sampleCrypto) sampleDevice
        (applyAll [firstManifest, secondManifest, thirdManifest]),
          Accepts firstManifest e) ∧
      (∃ e ∈ history act (Command.program sampleCrypto) sampleDevice
        (applyAll [firstManifest, secondManifest, thirdManifest]),
          e.after.device.last_rejected_release = some "x") ∧
      (∃ e ∈ (history act (Command.program sampleCrypto) sampleDevice
        (applyAll [firstManifest, secondManifest, thirdManifest, reboundManifest])).drop 70,
          e.op = .fetch "file:///srv/model-a.bin" ∧ e.call.manifest = some reboundManifest) ∧
      ∃ e ∈ (history act (Command.program sampleCrypto) sampleDevice
        (applyAll [firstManifest, secondManifest, thirdManifest, reboundManifest])).drop 70,
          Accepts reboundManifest e := by
  decide +kernel

end Vidarax.Edge
