import Mathlib.Data.List.Induction
import Vidarax.Policy.Revisions

/-!
# Statuses of policies

Package `vidarax-api`, `crates/vidarax-api/src/policies.rs:792–909`. What the events in the log make
of the status of each revision, and what a log whose events all may follow those before them allows.
-/

namespace Vidarax.Policy

variable {Schema Zone : Type}

/-! ### Statuses -/

/-- The status of a revision, if there is one. -/
def statusOf (policies : List (PolicyRevision Schema Zone)) (revision : Nat) :
    Option PolicyStatus :=
  (findRevision policies revision).map PolicyRevision.status

/-- What an event makes of the statuses of all revisions. -/
def advance (event : PolicyEvent Schema Zone) (status : Nat → Option PolicyStatus)
    (revision : Nat) : Option PolicyStatus :=
  match event.payload with
  | .created _ _ => (status revision).or (if event.seq = revision then some .draft else none)
  | .deployAcknowledged deployed _ stage _ =>
    (status revision).map fun current ↦
      if deployed = revision then stage
      else if stage = .active ∧ current = .active then .retired
      else current
  | .rollbackAcknowledged restored fromRevision _ _ =>
    (status revision).map fun current ↦
      if restored = revision then .active
      else if fromRevision = revision then .rolledBack
      else if current = .active then .retired
      else current
  | _ => status revision

theorem findRevision_map {f : PolicyRevision Schema Zone → PolicyRevision Schema Zone}
    (hf : ∀ policy, (f policy).revision = policy.revision)
    (policies : List (PolicyRevision Schema Zone)) (revision : Nat) :
    findRevision (policies.map f) revision = (findRevision policies revision).map f := by
  rw [findRevision, List.find?_map]
  simp only [Function.comp_def, hf]
  rfl

theorem findRevision_modifyRevision {f : PolicyRevision Schema Zone → PolicyRevision Schema Zone}
    (hf : ∀ policy, (f policy).revision = policy.revision) (modified revision : Nat)
    (policies : List (PolicyRevision Schema Zone)) :
    findRevision (modifyRevision modified f policies) revision =
      (findRevision policies revision).map fun policy ↦
        if modified = revision then f policy else policy := by
  induction policies with
  | nil => rfl
  | cons policy policies ih =>
    rw [findRevision] at ih ⊢
    rw [modifyRevision]
    split
    · next hmodified =>
      rw [findRevision, List.find?_cons, List.find?_cons, hf]
      by_cases hrevision : policy.revision = revision
      · simp only [hrevision, decide_true, Option.map_some, hmodified.symm.trans hrevision,
          if_true]
      · simp only [hrevision, decide_false]
        have hne : modified ≠ revision := fun heq ↦ hrevision (hmodified.trans heq)
        simp only [hne, if_false, Option.map_id']
    · next hmodified =>
      rw [findRevision, List.find?_cons, List.find?_cons]
      by_cases hrevision : policy.revision = revision
      · have hne : modified ≠ revision := fun heq ↦ hmodified (hrevision.trans heq.symm)
        simp only [hrevision, decide_true, Option.map_some, hne, if_false]
      · simp only [hrevision, decide_false]
        exact ih

theorem revision_of_findRevision {policies : List (PolicyRevision Schema Zone)} {revision : Nat}
    {policy : PolicyRevision Schema Zone} (h : findRevision policies revision = some policy) :
    policy.revision = revision := by
  have hfound := List.find?_some h
  exact of_decide_eq_true hfound

theorem statusOf_modifyRevision {f : PolicyRevision Schema Zone → PolicyRevision Schema Zone}
    {status : PolicyStatus}
    (hf : ∀ policy, (f policy).revision = policy.revision ∧ (f policy).status = status)
    (modified revision : Nat) (policies : List (PolicyRevision Schema Zone)) :
    statusOf (modifyRevision modified f policies) revision =
      (statusOf policies revision).map fun current ↦
        if modified = revision then status else current := by
  rw [statusOf, findRevision_modifyRevision fun policy ↦ (hf policy).1, statusOf, Option.map_map,
    Option.map_map]
  congr 1
  ext policy
  dsimp only [Function.comp_apply]
  split
  · exact (hf policy).2
  · rfl

theorem statusOf_retireActivePolicy (except : Nat) (timestampMs : UInt64)
    (policies : List (PolicyRevision Schema Zone)) (revision : Nat) :
    statusOf (retireActivePolicy except timestampMs policies) revision =
      (statusOf policies revision).map fun current ↦
        if except ≠ revision ∧ current = .active then .retired else current := by
  rw [statusOf, retireActivePolicy, findRevision_map, statusOf]
  · cases hfound : findRevision policies revision with
    | none => rfl
    | some policy =>
      simp only [Option.map_some, revision_of_findRevision hfound, ne_comm (a := revision)]
      split <;> rfl
  · intro policy
    split <;> rfl

theorem statusOf_applyEvent (policies : List (PolicyRevision Schema Zone))
    (event : PolicyEvent Schema Zone) (revision : Nat) :
    statusOf (applyEvent policies event) revision = advance event (statusOf policies) revision := by
  obtain ⟨seq, ptsMs, payload⟩ := event
  cases payload with
  | created parentRevision content =>
    dsimp only [applyEvent, advance, statusOf, findRevision]
    rw [List.find?_append, Option.map_or, List.find?_singleton]
    congr 1
    by_cases hseq : seq = revision
    · simp only [hseq, decide_true, if_true, Option.map_some]
    · simp only [hseq, decide_false, if_false, Option.map_none, Bool.false_eq_true]
  | deployAcknowledged deployed requestSeq stage application =>
    dsimp only [applyEvent, advance]
    rw [statusOf_modifyRevision (f := applyAcknowledgement stage application ptsMs)
      fun _ ↦ ⟨rfl, rfl⟩]
    by_cases hstage : stage = .active
    · rw [if_pos hstage, statusOf_retireActivePolicy, Option.map_map]
      congr 1
      ext current
      grind
    · rw [if_neg hstage]
      congr 1
      ext current
      grind
  | rollbackAcknowledged restored fromRevision requestSeq application =>
    dsimp only [applyEvent, advance]
    rw [statusOf_modifyRevision (f := applyAcknowledgement .active application ptsMs)
      fun _ ↦ ⟨rfl, rfl⟩, statusOf_retireActivePolicy,
      statusOf_modifyRevision (f := rollBack ptsMs) fun _ ↦ ⟨rfl, rfl⟩, Option.map_map,
      Option.map_map]
    congr 1
    ext current
    grind
  | _ => rfl

/-! ### Contents -/

/-- What a revision is made of, if there is one. -/
def contentOf (policies : List (PolicyRevision Schema Zone)) (revision : Nat) :
    Option (PolicyContent Schema Zone) :=
  (findRevision policies revision).map PolicyRevision.content

theorem contentOf_modifyRevision {f : PolicyRevision Schema Zone → PolicyRevision Schema Zone}
    (hf : ∀ policy, (f policy).revision = policy.revision ∧ (f policy).content = policy.content)
    (modified revision : Nat) (policies : List (PolicyRevision Schema Zone)) :
    contentOf (modifyRevision modified f policies) revision = contentOf policies revision := by
  rw [contentOf, findRevision_modifyRevision fun policy ↦ (hf policy).1, contentOf, Option.map_map]
  congr 1
  ext policy : 1
  dsimp only [Function.comp_apply]
  split
  · exact (hf policy).2
  · rfl

theorem contentOf_retireActivePolicy (except : Nat) (timestampMs : UInt64)
    (policies : List (PolicyRevision Schema Zone)) (revision : Nat) :
    contentOf (retireActivePolicy except timestampMs policies) revision =
      contentOf policies revision := by
  rw [contentOf, retireActivePolicy, findRevision_map, contentOf, Option.map_map]
  · congr 1
    ext policy : 1
    dsimp only [Function.comp_apply]
    split <;> rfl
  · intro policy
    split <;> rfl

/-- No event changes what a revision is made of. -/
theorem contentOf_applyEvent {policies : List (PolicyRevision Schema Zone)} {revision : Nat}
    {content : PolicyContent Schema Zone} (h : contentOf policies revision = some content)
    (event : PolicyEvent Schema Zone) :
    contentOf (applyEvent policies event) revision = some content := by
  obtain ⟨seq, ptsMs, payload⟩ := event
  cases payload with
  | created parentRevision other =>
    dsimp only [applyEvent, contentOf, findRevision]
    rw [List.find?_append, Option.map_or]
    rw [contentOf, findRevision] at h
    rw [h, Option.some_or]
  | deployAcknowledged deployed requestSeq stage application =>
    dsimp only [applyEvent]
    rw [contentOf_modifyRevision (f := applyAcknowledgement stage application ptsMs)
      fun _ ↦ ⟨rfl, rfl⟩]
    split
    · rw [contentOf_retireActivePolicy, h]
    · exact h
  | rollbackAcknowledged restored fromRevision requestSeq application =>
    dsimp only [applyEvent]
    rw [contentOf_modifyRevision (f := applyAcknowledgement .active application ptsMs)
      fun _ ↦ ⟨rfl, rfl⟩, contentOf_retireActivePolicy,
      contentOf_modifyRevision (f := rollBack ptsMs) fun _ ↦ ⟨rfl, rfl⟩, h]
  | _ => exact h

theorem contentOf_append {read rest : List (PolicyEvent Schema Zone)}
    (hnumbered : Numbered (read ++ rest)) {revision : Nat} {content : PolicyContent Schema Zone}
    (h : contentOf (reconstructPolicies read) revision = some content) :
    contentOf (reconstructPolicies (read ++ rest)) revision = some content := by
  induction rest using List.reverseRecOn with
  | nil =>
    rw [List.append_nil]
    exact h
  | append_singleton rest event ih =>
    rw [← List.append_assoc] at hnumbered ⊢
    rw [reconstructPolicies_concat hnumbered]
    exact contentOf_applyEvent (ih (List.pairwise_append.mp hnumbered).1) event

/-! ### What the log allows -/

/-- The event may follow these events. -/
def Allowed (before : List (PolicyEvent Schema Zone)) (event : PolicyEvent Schema Zone) : Prop :=
  match event.payload with
  | .created parentRevision _ => parentRevision = (before.flatMap createdBy).getLast?
  | .deployAcknowledged revision _ stage _ =>
    ∃ current, statusOf (reconstructPolicies before) revision = some current ∧
      validPromotion current stage = true
  | .rollbackAcknowledged revision fromRevision _ _ =>
    statusOf (reconstructPolicies before) fromRevision = some .active ∧
      (statusOf (reconstructPolicies before) revision = some .retired ∨
        statusOf (reconstructPolicies before) revision = some .rolledBack)
  | _ => True

/-- Each event may follow those before it. -/
def Lawful (log : List (PolicyEvent Schema Zone)) : Prop :=
  ∀ before event after, log = before ++ event :: after → Allowed before event

theorem lawful_nil : Lawful ([] : List (PolicyEvent Schema Zone)) := by
  intro before event after h
  cases before <;> cases h

theorem lawful_concat {log : List (PolicyEvent Schema Zone)} {event : PolicyEvent Schema Zone} :
    Lawful (log ++ [event]) ↔ Lawful log ∧ Allowed log event := by
  constructor
  · intro h
    constructor
    · intro before earlier after hlog
      apply h before earlier (after ++ [event])
      rw [hlog, List.append_assoc, List.cons_append]
    · exact h log event [] rfl
  · rintro ⟨hlog, hevent⟩ before earlier after heq
    rcases List.eq_nil_or_concat after with rfl | ⟨rest, last, rfl⟩
    · obtain ⟨rfl, hsingle⟩ := List.append_inj' heq rfl
      cases hsingle
      exact hevent
    · rw [List.concat_eq_append, ← List.cons_append, ← List.append_assoc] at heq
      exact hlog before earlier rest (List.append_inj' heq rfl).1

/-- The revision that an event deploys. -/
def deployed (event : PolicyEvent Schema Zone) : Option Nat :=
  match event.payload with
  | .deployAcknowledged revision _ _ _ => some revision
  | _ => none

/-- The revision that an event makes active. -/
def activated (event : PolicyEvent Schema Zone) : Option Nat :=
  match event.payload with
  | .deployAcknowledged revision _ stage _ => if stage = .active then some revision else none
  | .rollbackAcknowledged revision _ _ _ => some revision
  | _ => none

/-- The revision that was made active last. -/
def lastActivated (log : List (PolicyEvent Schema Zone)) : Option Nat :=
  (log.filterMap activated).getLast?

theorem lastActivated_concat (log : List (PolicyEvent Schema Zone))
    (event : PolicyEvent Schema Zone) :
    lastActivated (log ++ [event]) = (activated event).or (lastActivated log) := by
  rw [lastActivated, List.filterMap_append, List.getLast?_append]
  cases h : activated event with
  | none => simp only [List.filterMap_cons, h, List.filterMap_nil, List.getLast?_nil]; rfl
  | some revision =>
    simp only [List.filterMap_cons, h, List.filterMap_nil, List.getLast?_singleton,
      Option.some_or]

/-- How far a policy has come; one that was active once has come to the end. -/
def PolicyStatus.rank : PolicyStatus → Nat
  | .draft => 0
  | .shadow => 1
  | .canary => 2
  | .active | .retired | .rolledBack => 3

theorem rank_of_validPromotion {current stage : PolicyStatus}
    (h : validPromotion current stage = true) : stage.rank = current.rank + 1 := by
  cases current <;> cases stage <;> first | rfl | cases h

/-- An activation is the only way to become active. -/
theorem active_of_advance {event : PolicyEvent Schema Zone}
    {status : Nat → Option PolicyStatus} {revision : Nat}
    (h : advance event status revision = some .active) :
    activated event = some revision ∨
      activated event = none ∧ status revision = some .active := by
  obtain ⟨seq, ptsMs, payload⟩ := event
  cases payload with
  | created parentRevision content =>
    refine .inr ⟨rfl, ?_⟩
    dsimp only [advance] at h
    cases hstatus : status revision with
    | none =>
      rw [hstatus, Option.none_or] at h
      split at h <;> cases h
    | some current => rwa [hstatus, Option.some_or] at h
  | deployAcknowledged deployed requestSeq stage application =>
    dsimp only [advance, activated] at h ⊢
    obtain ⟨current, hcurrent, hactive⟩ := Option.map_eq_some_iff.mp h
    grind
  | rollbackAcknowledged restored fromRevision requestSeq application =>
    dsimp only [advance, activated] at h ⊢
    obtain ⟨current, hcurrent, hactive⟩ := Option.map_eq_some_iff.mp h
    grind
  | _ => exact .inr ⟨rfl, h⟩

theorem lastActivated_of_active {log : List (PolicyEvent Schema Zone)} (hnumbered : Numbered log)
    {revision : Nat} (h : statusOf (reconstructPolicies log) revision = some .active) :
    lastActivated log = some revision := by
  induction log using List.reverseRecOn with
  | nil =>
    rw [reconstructPolicies_eq hnumbered] at h
    cases h
  | append_singleton log event ih =>
    rw [reconstructPolicies_concat hnumbered, statusOf_applyEvent] at h
    rw [lastActivated_concat]
    rcases active_of_advance h with hactivated | ⟨hactivated, hactive⟩
    · rw [hactivated, Option.some_or]
    · rw [hactivated, Option.none_or]
      exact ih (List.pairwise_append.mp hnumbered).1 hactive

/-- Where the log allows it, an activation is all that makes or unmakes an active revision. -/
theorem advance_active {log : List (PolicyEvent Schema Zone)} {event : PolicyEvent Schema Zone}
    (hallowed : Allowed log event) (revision : Nat) :
    advance event (statusOf (reconstructPolicies log)) revision = some .active ↔
      activated event = some revision ∨
        activated event = none ∧ statusOf (reconstructPolicies log) revision = some .active := by
  refine ⟨active_of_advance, ?_⟩
  obtain ⟨seq, ptsMs, payload⟩ := event
  cases payload with
  | created parentRevision content =>
    rintro (hactivated | ⟨-, hactive⟩)
    · cases hactivated
    · dsimp only [advance]
      rw [hactive, Option.some_or]
  | deployAcknowledged deployed requestSeq stage application =>
    obtain ⟨current, hcurrent, hpromotion⟩ := hallowed
    dsimp only [advance, activated]
    rintro (hactivated | ⟨hactivated, hactive⟩)
    · split at hactivated
      · next hstage =>
        cases hactivated
        rw [hcurrent, Option.map_some, if_pos rfl, hstage]
      · cases hactivated
    · split at hactivated
      · cases hactivated
      · next hstage =>
        have hne : deployed ≠ revision := by
          rintro rfl
          cases hcurrent.symm.trans hactive
          cases stage <;> cases hpromotion
        rw [hactive, Option.map_some, if_neg hne, if_neg fun h ↦ hstage h.1]
  | rollbackAcknowledged restored fromRevision requestSeq application =>
    obtain ⟨-, hrestored⟩ := hallowed
    rintro (hactivated | ⟨hactivated, -⟩)
    · cases hactivated
      dsimp only [advance]
      rcases hrestored with hrestored | hrestored <;> rw [hrestored, Option.map_some, if_pos rfl]
    · cases hactivated
  | _ =>
    rintro (hactivated | ⟨-, hactive⟩)
    · cases hactivated
    · exact hactive

theorem active_iff_lastActivated {log : List (PolicyEvent Schema Zone)}
    (hnumbered : Numbered log) (hlawful : Lawful log) (revision : Nat) :
    statusOf (reconstructPolicies log) revision = some .active ↔
      lastActivated log = some revision := by
  induction log using List.reverseRecOn with
  | nil =>
    rw [reconstructPolicies_eq hnumbered]
    constructor <;> nofun
  | append_singleton log event ih =>
    obtain ⟨hbefore, hallowed⟩ := lawful_concat.mp hlawful
    rw [reconstructPolicies_concat hnumbered, statusOf_applyEvent, advance_active hallowed,
      ih (List.pairwise_append.mp hnumbered).1 hbefore, lastActivated_concat]
    cases activated event with
    | none => simp only [reduceCtorEq, false_or, true_and, Option.none_or]
    | some other => simp only [reduceCtorEq, false_and, or_false, Option.some_or]

/-- Where the log allows it, a deployment is one step up for its revision, and nothing else moves a
policy that was not active yet. -/
theorem advance_rank {log : List (PolicyEvent Schema Zone)} {event : PolicyEvent Schema Zone}
    (hallowed : Allowed log event) {revision : Nat} {current : PolicyStatus}
    (hcurrent : statusOf (reconstructPolicies log) revision = some current) :
    ∃ next, advance event (statusOf (reconstructPolicies log)) revision = some next ∧
      (deployed event = some revision → next.rank = current.rank + 1) ∧
      (deployed event ≠ some revision →
        next.rank = current.rank ∧ (current.rank < 3 → next = current)) := by
  have hkept : current.rank = current.rank ∧ (current.rank < 3 → current = current) :=
    ⟨rfl, fun _ ↦ rfl⟩
  have hended {next : PolicyStatus} (hrank : current.rank = 3) (hnext : next.rank = 3) :
      next.rank = current.rank ∧ (current.rank < 3 → next = current) :=
    ⟨hnext.trans hrank.symm, fun hlow ↦ absurd hlow (by omega)⟩
  obtain ⟨seq, ptsMs, payload⟩ := event
  cases payload with
  | created parentRevision content =>
    refine ⟨current, ?_, nofun, fun _ ↦ hkept⟩
    dsimp only [advance]
    rw [hcurrent, Option.some_or]
  | deployAcknowledged revision' requestSeq stage application =>
    obtain ⟨before, hbefore, hpromotion⟩ := hallowed
    dsimp only [advance, deployed]
    rw [hcurrent, Option.map_some]
    refine ⟨_, rfl, fun hrevision ↦ ?_, fun hrevision ↦ ?_⟩
    · cases hrevision
      cases hcurrent.symm.trans hbefore
      rw [if_pos rfl]
      exact rank_of_validPromotion hpromotion
    · rw [if_neg fun h ↦ hrevision (congrArg some h)]
      split
      · next hactive => exact hended (congrArg PolicyStatus.rank hactive.2) rfl
      · exact hkept
  | rollbackAcknowledged restored fromRevision requestSeq application =>
    obtain ⟨hfrom, hrestored⟩ := hallowed
    dsimp only [advance]
    rw [hcurrent, Option.map_some]
    refine ⟨_, rfl, nofun, fun _ ↦ ?_⟩
    split
    · next hrestores =>
      rw [hrestores, hcurrent] at hrestored
      rcases hrestored with hstatus | hstatus <;> cases hstatus <;> exact hended rfl rfl
    · split
      · next hfroms =>
        rw [hfroms, hcurrent] at hfrom
        cases hfrom
        exact hended rfl rfl
      · split
        · next hactive => exact hended (congrArg PolicyStatus.rank hactive) rfl
        · exact hkept
  | _ => exact ⟨current, hcurrent, nofun, fun _ ↦ hkept⟩

/-- The same over the events that follow a part of the log. -/
theorem rank_of_lawful {read rest : List (PolicyEvent Schema Zone)}
    (hnumbered : Numbered (read ++ rest)) (hlawful : Lawful (read ++ rest)) {revision : Nat}
    {current : PolicyStatus}
    (hcurrent : statusOf (reconstructPolicies read) revision = some current) :
    ∃ next, statusOf (reconstructPolicies (read ++ rest)) revision = some next ∧
      next.rank = current.rank + rest.countP (deployed · = some revision) ∧
      ((∀ event ∈ rest, deployed event ≠ some revision) → current.rank < 3 → next = current) := by
  induction rest using List.reverseRecOn with
  | nil =>
    rw [List.append_nil]
    exact ⟨current, hcurrent, rfl, fun _ _ ↦ rfl⟩
  | append_singleton rest event ih =>
    rw [← List.append_assoc] at hnumbered hlawful ⊢
    obtain ⟨hbefore, hallowed⟩ := lawful_concat.mp hlawful
    obtain ⟨middle, hmiddle, hrank, hsame⟩ :=
      ih (List.pairwise_append.mp hnumbered).1 hbefore
    obtain ⟨next, hnext, hdeploys, hkeeps⟩ := advance_rank hallowed hmiddle
    rw [reconstructPolicies_concat hnumbered, statusOf_applyEvent]
    refine ⟨next, hnext, ?_, fun hnone hlow ↦ ?_⟩
    · rw [List.countP_append, List.countP_singleton]
      by_cases hdeployed : deployed event = some revision
      · have hup := hdeploys hdeployed
        rw [if_pos (decide_eq_true hdeployed)]
        omega
      · have hsame := (hkeeps hdeployed).1
        rw [if_neg fun h ↦ hdeployed (of_decide_eq_true h)]
        omega
    · have hevent := hnone event (List.mem_append_right _ (List.mem_singleton_self event))
      have hmiddle := hsame (fun e he ↦ hnone e (List.mem_append_left _ he)) hlow
      subst hmiddle
      exact (hkeeps hevent).2 hlow

end Vidarax.Policy
