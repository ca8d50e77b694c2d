import Vidarax.Policy.Requests
import Vidarax.Policy.Statuses

/-!
# Lifecycle of policies

Package `vidarax-api`, `crates/vidarax-api/src/policies.rs:164–218,290–530`. A request checks itself
against what it has read of the log and appends later. Its append is one that the log allows exactly
when nothing that the check depends on was committed in between. That at most one revision is active
holds in every run.
-/

namespace Vidarax.Policy

variable {Schema Zone : Type}

/-! ### Active revisions -/

theorem findRevision_of_mem {log : List (PolicyEvent Schema Zone)} (hnumbered : Numbered log)
    {policy : PolicyRevision Schema Zone} (hmem : policy ∈ reconstructPolicies log) :
    findRevision (reconstructPolicies log) policy.revision = some policy := by
  have hrevisions := hnumbered.pairwise_createdBy
  rw [← revisions_reconstructPolicies hnumbered, List.pairwise_map] at hrevisions
  obtain ⟨before, after, hsplit⟩ := List.append_of_mem hmem
  rw [hsplit] at hrevisions ⊢
  rw [findRevision, List.find?_append, List.find?_eq_none.mpr, Option.none_or,
    List.find?_cons_of_pos]
  · exact decide_eq_true rfl
  intro earlier hearlier hsame
  have hlt := (List.pairwise_append.mp hrevisions).2.2 earlier hearlier policy List.mem_cons_self
  exact Nat.lt_irrefl _ ((of_decide_eq_true hsame : earlier.revision = policy.revision) ▸ hlt)

theorem statusOf_of_mem {log : List (PolicyEvent Schema Zone)} (hnumbered : Numbered log)
    {policy : PolicyRevision Schema Zone} (hmem : policy ∈ reconstructPolicies log) :
    statusOf (reconstructPolicies log) policy.revision = some policy.status := by
  rw [statusOf, findRevision_of_mem hnumbered hmem, Option.map_some]

/-- No two policies are active. -/
def SingleActive (policies : List (PolicyRevision Schema Zone)) : Prop :=
  ∀ policy ∈ policies, ∀ other ∈ policies,
    policy.status = .active → other.status = .active → policy = other

theorem singleActive {log : List (PolicyEvent Schema Zone)} (hnumbered : Numbered log) :
    SingleActive (reconstructPolicies log) := by
  intro policy hpolicy other hother hactive hactive'
  have hlast := statusOf_of_mem hnumbered hpolicy
  have hlast' := statusOf_of_mem hnumbered hother
  rw [hactive] at hlast
  rw [hactive'] at hlast'
  have hrevision : policy.revision = other.revision := by
    apply Option.some.inj
    rw [← lastActivated_of_active hnumbered hlast, lastActivated_of_active hnumbered hlast']
  apply Option.some.inj
  rw [← findRevision_of_mem hnumbered hpolicy, hrevision, findRevision_of_mem hnumbered hother]

/-! ### What a request knows -/

/-- The checks passed on this part of the log. -/
def Transition.Sound (read : List (PolicyEvent Schema Zone)) : Transition Schema Zone → Prop
  | .deploy policy stage =>
    findRevision (reconstructPolicies read) policy.revision = some policy ∧
      validPromotion policy.status stage = true
  | .rollback target current =>
    findRevision (reconstructPolicies read) target.revision = some target ∧
      findRevision (reconstructPolicies read) current.revision = some current ∧
      current.status = .active ∧ target.revision ≠ current.revision ∧
      (target.status = .retired ∨ target.status = .rolledBack)

namespace Task

/-- How much of the log the request has read. -/
def seen : Task Schema Zone → Nat
  | .creating _ _ seen | .checked _ _ seen | .requested _ _ seen _ | .updating _ seen _ _ _ _
  | .applied _ seen _ _ _ => seen
  | _ => 0

/-- What the request has found there. -/
def Found (read : List (PolicyEvent Schema Zone)) : Task Schema Zone → Prop
  | .creating parentRevision _ _ => parentRevision = (read.flatMap createdBy).getLast?
  | .checked transition _ _ | .requested transition _ _ _ | .updating transition _ _ _ _ _
  | .applied transition _ _ _ _ => transition.Sound read
  | _ => True

/-- The request has read a part of this log. -/
def Sound (log : List (PolicyEvent Schema Zone)) (task : Task Schema Zone) : Prop :=
  task.seen ≤ log.length ∧ task.Found (log.take task.seen)

/-- Nothing that the request has checked was changed since: no policy was created, its revision was
not deployed, or the revision that was made active last is still the same. -/
def Current (log : List (PolicyEvent Schema Zone)) : Task Schema Zone → Prop
  | .creating _ _ seen => ∀ event ∈ log.drop seen, createdBy event = []
  | .applied (.deploy policy _) seen _ _ (.ok _) =>
    ∀ event ∈ log.drop seen, deployed event ≠ some policy.revision
  | .applied (.rollback _ _) seen _ _ (.ok _) =>
    lastActivated log = lastActivated (log.take seen)
  | _ => True

theorem Sound.append {log : List (PolicyEvent Schema Zone)} {task : Task Schema Zone}
    (h : task.Sound log) (event : PolicyEvent Schema Zone) : task.Sound (log ++ [event]) := by
  constructor
  · rw [List.length_append]
    exact Nat.le_add_right_of_le h.1
  · rw [List.take_append_of_le_length h.1]
    exact h.2

end Task

theorem sound_of_createPolicy {log : List (PolicyEvent Schema Zone)} (hnumbered : Numbered log)
    {parentRevision : Option Nat} (h : createPolicy log parentRevision = .ok ()) :
    parentRevision = (log.flatMap createdBy).getLast? := by
  unfold createPolicy at h
  dsimp only at h
  split at h
  · cases h
  · next hparent =>
    rw [← revisions_reconstructPolicies hnumbered, List.getLast?_map]
    exact not_not.mp hparent

theorem sound_of_activatePolicy {log : List (PolicyEvent Schema Zone)} {revision : Nat}
    {stage : PolicyStatus} {policy : PolicyRevision Schema Zone}
    (h : activatePolicy log revision stage = .ok policy) :
    (Transition.deploy policy stage).Sound log := by
  unfold activatePolicy at h
  split at h
  · cases h
  · split at h
    · cases h
    · next found hfound =>
      split at h
      · cases h
      · next hpromotion =>
        cases h
        rw [← revision_of_findRevision hfound] at hfound
        exact ⟨hfound, by simpa using hpromotion⟩

theorem sound_of_rollbackPolicy {log : List (PolicyEvent Schema Zone)} (hnumbered : Numbered log)
    {revision : Nat} {target current : PolicyRevision Schema Zone}
    (h : rollbackPolicy log revision = .ok (target, current)) :
    (Transition.rollback target current).Sound log := by
  unfold rollbackPolicy at h
  dsimp only at h
  split at h
  · cases h
  · next hfound =>
    split at h
    · cases h
    · next hactive =>
      split at h
      · cases h
      · next hother =>
        split at h
        · cases h
        · next hended =>
          cases h
          have hrevision := revision_of_findRevision hfound
          have hcurrent := findRevision_of_mem hnumbered (List.mem_of_find?_eq_some hactive)
          rw [← hrevision] at hfound hother
          exact ⟨hfound, hcurrent, of_decide_eq_true (List.find?_some hactive :),
            Ne.symm hother, not_not.mp hended⟩

theorem Task.Sound.look {log : List (PolicyEvent Schema Zone)} (hnumbered : Numbered log)
    {task : Task Schema Zone} (hfresh : task.Fresh) : (task.look log).Sound log := by
  have hread {transition : Transition Schema Zone} (h : transition.Sound log) :
      log.length ≤ log.length ∧ transition.Sound (log.take log.length) :=
    ⟨Nat.le_refl _, by rwa [List.take_length]⟩
  cases task with
  | create parentRevision content =>
    dsimp only [Task.look]
    split
    · next hcreate =>
      refine ⟨Nat.le_refl _, ?_⟩
      dsimp only [Task.Found, Task.seen]
      rw [List.take_length]
      exact sound_of_createPolicy hnumbered hcreate
    · exact ⟨Nat.zero_le _, trivial⟩
  | activate revision stage expectedGeneration =>
    dsimp only [Task.look]
    split
    · next hactivate => exact hread (sound_of_activatePolicy hactivate)
    · exact ⟨Nat.zero_le _, trivial⟩
  | rollback revision expectedGeneration =>
    dsimp only [Task.look]
    split
    · next hrollback => exact hread (sound_of_rollbackPolicy hnumbered hrollback)
    · exact ⟨Nat.zero_le _, trivial⟩
  | _ => cases hfresh

/-! ### Appends -/

theorem allowed_created {log read rest : List (PolicyEvent Schema Zone)}
    (hlog : log = read ++ rest) (hnumbered : Numbered log) :
    (read.flatMap createdBy).getLast? = (log.flatMap createdBy).getLast? ↔
      ∀ event ∈ rest, createdBy event = [] := by
  subst hlog
  rw [List.flatMap_append, ← List.flatMap_eq_nil_iff]
  constructor
  · intro hlast
    by_contra hrest
    have hpairwise := hnumbered.pairwise_createdBy
    rw [List.flatMap_append, List.pairwise_append] at hpairwise
    rw [List.getLast?_append, List.getLast?_eq_some_getLast hrest, Option.some_or] at hlast
    have hlt := hpairwise.2.2 _ (List.mem_of_getLast? hlast) _ (List.getLast_mem hrest)
    exact Nat.lt_irrefl _ hlt
  · intro hrest
    rw [hrest, List.append_nil]

theorem allowed_deploy {log read rest : List (PolicyEvent Schema Zone)}
    (hlog : log = read ++ rest) (hnumbered : Numbered log) (hlawful : Lawful log)
    {policy : PolicyRevision Schema Zone} {stage : PolicyStatus}
    (hsound : (Transition.deploy policy stage).Sound read) :
    (∃ current, statusOf (reconstructPolicies log) policy.revision = some current ∧
      validPromotion current stage = true) ↔
        ∀ event ∈ rest, deployed event ≠ some policy.revision := by
  subst hlog
  obtain ⟨hpolicy, hpromotion⟩ := hsound
  have hchecked : statusOf (reconstructPolicies read) policy.revision = some policy.status := by
    rw [statusOf, hpolicy, Option.map_some]
  obtain ⟨next, hnext, hrank, hsame⟩ := rank_of_lawful hnumbered hlawful hchecked
  constructor
  · rintro ⟨current, hcurrent, hvalid⟩ event hevent hdeployed
    cases hnext.symm.trans hcurrent
    have hstage := rank_of_validPromotion hvalid
    rw [rank_of_validPromotion hpromotion, hrank] at hstage
    have hcount : 0 < rest.countP (deployed · = some policy.revision) :=
      List.countP_pos_iff.mpr ⟨event, hevent, decide_eq_true hdeployed⟩
    omega
  · intro hnone
    have hlow : policy.status.rank < 3 := by
      have hstage := rank_of_validPromotion hpromotion
      have hle : stage.rank ≤ 3 := by cases stage <;> decide
      omega
    rw [hsame hnone hlow] at hnext
    exact ⟨policy.status, hnext, hpromotion⟩

theorem allowed_rollback {log read rest : List (PolicyEvent Schema Zone)}
    (hlog : log = read ++ rest) (hnumbered : Numbered log) (hlawful : Lawful log)
    {target current : PolicyRevision Schema Zone}
    (hsound : (Transition.rollback target current).Sound read) :
    (statusOf (reconstructPolicies log) current.revision = some .active ∧
      (statusOf (reconstructPolicies log) target.revision = some .retired ∨
        statusOf (reconstructPolicies log) target.revision = some .rolledBack)) ↔
      lastActivated log = lastActivated read := by
  subst hlog
  obtain ⟨htarget, hcurrent, hactive, hother, hended⟩ := hsound
  have hlast : lastActivated read = some current.revision := by
    apply lastActivated_of_active (List.pairwise_append.mp hnumbered).1
    rw [statusOf, hcurrent, Option.map_some, hactive]
  rw [active_iff_lastActivated hnumbered hlawful, hlast]
  refine ⟨And.left, fun hcurrent ↦ ⟨hcurrent, ?_⟩⟩
  have hstatus : statusOf (reconstructPolicies read) target.revision = some target.status := by
    rw [statusOf, htarget, Option.map_some]
  obtain ⟨next, hnext, hrank, -⟩ := rank_of_lawful hnumbered hlawful hstatus
  have hthree : target.status.rank = 3 := by
    rcases hended with h | h <;> rw [h] <;> rfl
  have hnot : next ≠ .active := by
    rintro rfl
    have htargets := lastActivated_of_active hnumbered hnext
    exact hother (Option.some.inj (htargets.symm.trans hcurrent))
  rw [hnext]
  cases next with
  | retired => exact .inl rfl
  | rolledBack => exact .inr rfl
  | active => exact absurd rfl hnot
  | _ =>
    rw [hthree] at hrank
    exact absurd hrank (by simp only [PolicyStatus.rank]; omega)

/-- The log allows what a request appends exactly when what the request has checked still holds. -/
theorem allowed_iff_current {log : List (PolicyEvent Schema Zone)} {seq : Nat} {ptsMs : UInt64}
    {payload : PolicyPayload Schema Zone} {task : Task Schema Zone} (hnumbered : Numbered log)
    (hlawful : Lawful log) (hsound : task.Sound log) (hpayload : task.payload = some payload) :
    Allowed log ⟨seq, ptsMs, payload⟩ ↔ task.Current log := by
  obtain ⟨-, hfound⟩ := hsound
  have hsplit := (List.take_append_drop task.seen log).symm
  cases task with
  | creating parentRevision content seen =>
    cases hpayload
    dsimp only [Task.Found, Task.seen] at hfound
    rw [Allowed, hfound]
    exact allowed_created hsplit hnumbered
  | applied transition seen requestSeq call result =>
    cases hpayload
    cases result with
    | error error => cases transition <;> exact Iff.rfl
    | ok application =>
      cases transition with
      | deploy policy stage => exact allowed_deploy hsplit hnumbered hlawful hfound
      | rollback target current => exact allowed_rollback hsplit hnumbered hlawful hfound
  | checked transition expectedGeneration seen =>
    cases hpayload
    cases transition <;> exact Iff.rfl
  | _ => cases hpayload

/-! ### Runs -/

theorem Task.appended_ne {task : Task Schema Zone} {payload : PolicyPayload Schema Zone}
    (hpayload : task.payload = some payload) (seq : Nat) : task.appended seq ≠ task := by
  cases task with
  | creating | checked | applied => simp only [appended, ne_eq, reduceCtorEq, not_false_eq_true]
  | _ => cases hpayload

theorem numbered_concat {log : List (PolicyEvent Schema Zone)} {event : PolicyEvent Schema Zone}
    (hnumbered : Numbered log) (hseq : ∀ earlier ∈ log, earlier.seq < event.seq) :
    Numbered (log ++ [event]) := by
  apply List.pairwise_append.mpr
  refine ⟨hnumbered, List.pairwise_singleton _ _, fun earlier hearlier last hlast ↦ ?_⟩
  cases List.mem_singleton.mp hlast
  exact hseq earlier hearlier

namespace Requests

/-- The log is numbered and every request has read a part of it. -/
structure Inv (s : Requests Schema Zone) : Prop where
  numbered : Numbered s.log
  sound : ∀ (id : Nat) (task : Task Schema Zone), s.tasks[id]? = some task → task.Sound s.log

/-- The request that appends in this step has checked what still holds. -/
def Undisturbed (s s' : Requests Schema Zone) : Prop :=
  ∀ (id : Nat) (task : Task Schema Zone), s.tasks[id]? = some task →
    s'.tasks[id]? ≠ some task → s'.log ≠ s.log → task.Current s.log

/-- States of runs whose steps are all undisturbed. -/
def ReachableUndisturbed (s : Requests Schema Zone) : Prop :=
  Relation.ReflTransGen (fun s s' ↦ Step s s' ∧ Undisturbed s s') start s

theorem inv_start : Inv (start : Requests Schema Zone) := by
  refine ⟨List.Pairwise.nil, fun id task htask ↦ ?_⟩
  rw [start, List.getElem?_nil] at htask
  cases htask

theorem sound_set {s : Requests Schema Zone} {log : List (PolicyEvent Schema Zone)}
    (h : ∀ (id : Nat) (task : Task Schema Zone), s.tasks[id]? = some task → task.Sound log)
    {id : Nat} {changed : Task Schema Zone} (hchanged : changed.Sound log) (other : Nat)
    (task : Task Schema Zone) (hother : (s.tasks.set id changed)[other]? = some task) :
    task.Sound log := by
  rw [List.getElem?_set] at hother
  split at hother
  · split at hother
    · cases hother
      exact hchanged
    · cases hother
  · exact h other task hother

theorem Inv.step {s s' : Requests Schema Zone} (h : Inv s) (hstep : Step s s') : Inv s' := by
  have hsound {id : Nat} {task changed : Task Schema Zone} (htask : s.tasks[id]? = some task)
      (hchanged : task.Sound s.log → changed.Sound s.log) :
      Inv { s with tasks := s.tasks.set id changed } :=
    ⟨h.numbered, sound_set h.sound (hchanged (h.sound id task htask))⟩
  cases hstep with
  | @arrive task hfresh =>
    refine ⟨h.numbered, fun id other hother ↦ ?_⟩
    dsimp only at hother ⊢
    rw [List.getElem?_append] at hother
    split at hother
    · exact h.sound id other hother
    · rw [List.getElem?_singleton] at hother
      split at hother
      · cases hother
        cases task with
        | create | activate | rollback => exact ⟨Nat.zero_le _, trivial⟩
        | _ => cases hfresh
      · cases hother
  | look htask hfresh => exact hsound htask fun _ ↦ Task.Sound.look h.numbered hfresh
  | @append id task payload htask hpayload seq ptsMs hseq =>
    refine ⟨numbered_concat h.numbered hseq,
      sound_set (fun id task htask ↦ (h.sound id task htask).append _) ?_⟩
    have htasks := (h.sound id task htask).append ⟨seq, ptsMs, payload⟩
    cases task with
    | checked transition expectedGeneration seen => exact htasks
    | _ => exact ⟨Nat.zero_le _, trivial⟩
  | settle htask hplan => exact hsound htask id
  | ask call htask hplan => exact hsound htask id
  | answer outcome htask => exact hsound htask id
  | abandon id => exact ⟨h.numbered, sound_set h.sound ⟨Nat.zero_le _, trivial⟩⟩
  | other seq ptsMs hseq =>
    exact ⟨numbered_concat h.numbered hseq, fun id task htask ↦ (h.sound id task htask).append _⟩

theorem inv_of_reachable {s : Requests Schema Zone} (h : Reachable s) : Inv s := by
  induction h with
  | refl => exact inv_start
  | tail _ hstep ih => exact ih.step hstep

/-- A step keeps the log lawful exactly when it is undisturbed. -/
theorem lawful_step {s s' : Requests Schema Zone} (h : Inv s) (hlawful : Lawful s.log)
    (hstep : Step s s') : Lawful s'.log ↔ Undisturbed s s' := by
  have hquiet (hlog : s'.log = s.log) : Lawful s'.log ↔ Undisturbed s s' := by
    rw [hlog]
    exact ⟨fun _ _ _ _ _ hne ↦ absurd hlog hne, fun _ ↦ hlawful⟩
  cases hstep with
  | @append id task payload htask hpayload seq ptsMs hseq =>
    rw [lawful_concat, allowed_iff_current h.numbered hlawful (h.sound id task htask) hpayload]
    constructor
    · rintro ⟨-, hcurrent⟩ other task' htask' hchanged -
      dsimp only at hchanged
      rw [List.getElem?_set] at hchanged
      split at hchanged
      · next heq =>
        rw [← heq, htask] at htask'
        cases htask'
        exact hcurrent
      · exact absurd htask' hchanged
    · intro hundisturbed
      refine ⟨hlawful, hundisturbed id task htask ?_ ?_⟩
      · dsimp only
        rw [List.getElem?_set_self (List.getElem?_eq_some_iff.mp htask).1]
        exact fun heq ↦ Task.appended_ne hpayload seq (Option.some.inj heq)
      · exact fun heq ↦ List.cons_ne_nil _ _ (List.append_right_eq_self.mp heq)
  | other seq ptsMs hseq =>
    rw [lawful_concat]
    exact ⟨fun _ _ _ htask hchanged _ ↦ absurd htask hchanged, fun _ ↦ ⟨hlawful, trivial⟩⟩
  | _ => exact hquiet rfl

/-- At most one policy is active after every part of the log, in every run. Every event follows from
those before it in runs whose steps are all undisturbed; and the first step that is not leaves a log
in which some event does not. -/
theorem policies_lifecycle :
    (∀ s : Requests Schema Zone, Reachable s → ∀ before after, s.log = before ++ after →
      SingleActive (reconstructPolicies before)) ∧
      (∀ s : Requests Schema Zone, ReachableUndisturbed s → Lawful s.log) ∧
      ∀ s s' : Requests Schema Zone, ReachableUndisturbed s → Step s s' →
        (Lawful s'.log ↔ Undisturbed s s') := by
  have hboth {s : Requests Schema Zone} (hreachable : ReachableUndisturbed s) :
      Inv s ∧ Lawful s.log := by
    induction hreachable with
    | refl => exact ⟨inv_start, lawful_nil⟩
    | tail _ hstep ih => exact ⟨ih.1.step hstep.1, (lawful_step ih.1 ih.2 hstep.1).mpr hstep.2⟩
  refine ⟨fun s hreachable before after hlog ↦ ?_, fun s hreachable ↦ (hboth hreachable).2,
    fun s s' hreachable hstep ↦ lawful_step (hboth hreachable).1 (hboth hreachable).2 hstep⟩
  have hnumbered := (inv_of_reachable hreachable).numbered
  rw [hlog] at hnumbered
  exact singleActive (List.pairwise_append.mp hnumbered).1

/-- Two requests without a parent read the empty log before either of them appends: both policies
are committed without a parent. -/
theorem created_without_parent :
    ¬∀ s : Requests Unit Unit, Reachable s → Lawful s.log := by
  intro hclaim
  let content : PolicyContent Unit Unit := ⟨some "count the people", none, none⟩
  have hlook : (Task.create none content).look [] = .creating none content 0 := by
    dsimp only [Task.look, createPolicy]
    rw [reconstructPolicies_eq List.Pairwise.nil]
    rfl
  have harrived : Reachable ⟨[], [.create none content, .create none content]⟩ :=
    .head (@Step.arrive _ _ _ (.create none content) trivial) <|
      .single (@Step.arrive _ _ _ (.create none content) trivial)
  have hlooked : Reachable ⟨[], [.creating none content 0, .creating none content 0]⟩ := by
    have hfirst := harrived.tail (@Step.look _ _ _ 0 _ rfl trivial)
    have hsecond := hfirst.tail (@Step.look _ _ _ 1 _ rfl trivial)
    dsimp only [List.set] at hsecond
    rwa [hlook] at hsecond
  have hfirst := hlooked.tail (@Step.append _ _ _ 0 _ _ rfl rfl 1 0 nofun)
  have hcommitted := hfirst.tail (@Step.append _ _ _ 1 _ _ rfl rfl 2 0 (by simp))
  have hallowed := hclaim _ hcommitted [⟨1, 0, .created none content⟩] _ [] rfl
  cases hallowed

end Requests

end Vidarax.Policy
