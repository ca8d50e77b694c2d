import Vidarax.Policy.Live

/-!
# The active policy is the one that runs

Package `vidarax-api`, `crates/vidarax-api/src/policies.rs:340–409,471–530,668–731`. The active
policy asks for what the update that was acknowledged last asked for, and the session runs what the
update that was applied last asked for. Once every request has come to its end these are the same
where updates are acknowledged in the order in which they were applied.
-/

namespace Vidarax.Policy

open Vidarax.Session

variable {Schema Zone : Type}

/-! ### Calls of requests -/

/-- The call of `update_config` that a request is at. -/
def Task.call : Task Schema Zone → Option Nat
  | .updating _ _ _ _ _ call => some call
  | .applied _ _ _ call _ => call
  | _ => none

/-- The call has the worker apply the policy. -/
def Asks (render : Schema → String) (control : Control) (transition : Transition Schema Zone)
    (call : Nat) : Prop :=
  transition.applyLive = true ∧ ∃ prompt, transition.policy.content.prompt = some prompt ∧
    control.configOf call = some (wanted render prompt transition.policy.content.outputSchema)

/-- The caller was told this. -/
def Told (control : Control) (call : Nat) (outcome : Outcome) : Prop :=
  ∃ asked, control.calls[call]? = some asked ∧ asked.phase = .told outcome

/-- What a request knows about its call: a policy that needs no call is not applied to the session,
or has no prompt. -/
def Tied (render : Schema → String) (control : Control) : Task Schema Zone → Prop
  | .updating transition _ _ _ _ call => Asks render control transition call
  | .applied transition _ _ (some call) (.ok _) =>
    Asks render control transition call ∧ Told control call .accepted
  | .applied transition _ _ (some call) (.error _) =>
    Asks render control transition call ∧ ∃ error, Told control call (.rejected error)
  | .applied transition _ _ none (.ok _) =>
    transition.applyLive = false ∨ transition.policy.content.prompt = none
  | _ => True

/-- Calls stay what they are, and what their callers were told. -/
def Grows (control control' : Control) : Prop :=
  ∀ (id : Nat) (call : Call), control.calls[id]? = some call →
    ∃ call', control'.calls[id]? = some call' ∧ Control.Kept call call'

theorem Grows.refl (control : Control) : Grows control control :=
  fun _ call hcall ↦ ⟨call, hcall, fun _ hphase ↦ hphase, fun hanswer ↦ hanswer, rfl⟩

theorem Grows.configOf {control control' : Control} (h : Grows control control') {id : Nat}
    {config : Config} (hconfig : control.configOf id = some config) :
    control'.configOf id = some config := by
  obtain ⟨call, hcall, rfl⟩ := Option.map_eq_some_iff.mp hconfig
  obtain ⟨call', hcall', -, -, hsame⟩ := h id call hcall
  rw [Control.configOf, hcall', Option.map_some, hsame]

theorem Grows.told {control control' : Control} (h : Grows control control') {id : Nat}
    {outcome : Outcome} (htold : Told control id outcome) : Told control' id outcome := by
  obtain ⟨call, hcall, hphase⟩ := htold
  obtain ⟨call', hcall', hkept, -⟩ := h id call hcall
  exact ⟨call', hcall', hkept outcome hphase⟩

theorem Grows.asks {render : Schema → String} {control control' : Control}
    (h : Grows control control') {transition : Transition Schema Zone} {call : Nat}
    (hasks : Asks render control transition call) : Asks render control' transition call := by
  obtain ⟨hlive, prompt, hprompt, hconfig⟩ := hasks
  exact ⟨hlive, prompt, hprompt, h.configOf hconfig⟩

theorem Grows.tied {render : Schema → String} {control control' : Control}
    (h : Grows control control') {task : Task Schema Zone} (htied : Tied render control task) :
    Tied render control' task := by
  cases task with
  | updating transition seen requestSeq sessionId generation call => exact h.asks htied
  | applied transition seen requestSeq call result =>
    cases call with
    | none =>
      cases result with
      | ok application => exact htied
      | error error => trivial
    | some call =>
      cases result with
      | ok application => exact ⟨h.asks htied.1, h.told htied.2⟩
      | error error =>
        obtain ⟨hasks, e, htold⟩ := htied
        exact ⟨h.asks hasks, e, h.told htold⟩
  | _ => trivial

namespace LiveRun

variable {sessionId : String} {render : Schema → String} {s s' : LiveRun Schema Zone}

/-! ### Steps -/

theorem Step.requests (hstep : Step sessionId render s s') :
    s'.requests = s.requests ∨ Requests.Step s.requests s'.requests := by
  cases hstep with
  | arrive hfresh => exact .inr (.arrive hfresh)
  | look htask hfresh => exact .inr (.look htask hfresh)
  | append htask hpayload seq ptsMs hseq => exact .inr (.append htask hpayload seq ptsMs hseq)
  | settle htask hplan => exact .inr (.settle htask hplan)
  | ask htask hplan => exact .inr (.ask _ htask hplan)
  | answer htask hasked htold => exact .inr (.answer _ htask)
  | other seq ptsMs hseq => exact .inr (.other seq ptsMs hseq)
  | control hstep => exact .inl rfl

theorem Step.commands (hstep : Step sessionId render s s') :
    s'.control = s.control ∨ Control.Step s.control s'.control := by
  cases hstep with
  | ask htask hplan => exact .inr (.call _ _)
  | control hstep => exact .inr hstep.step
  | _ => exact .inl rfl

theorem planPolicy_settled {live : String × UInt64} {policy : PolicyRevision Schema Zone}
    {applyLive : Bool} {expectedGeneration : Option UInt64} {application : LiveApplication}
    (h : planPolicy (some live) policy applyLive expectedGeneration = .settled (.ok application)) :
    applyLive = false ∨ policy.content.prompt = none := by
  dsimp only [planPolicy] at h
  split at h
  · next hlive => exact .inl (by simpa using hlive)
  · split at h
    · cases h
    · split at h
      · cases h
      · split at h
        · next hprompt => exact .inr hprompt
        · cases h

theorem planPolicy_update {live : String × UInt64} {policy : PolicyRevision Schema Zone}
    {applyLive : Bool} {expectedGeneration : Option UInt64} {sessionId : String}
    {generation : UInt64} {prompt : String} {outputSchema : Option Schema}
    (h : planPolicy (some live) policy applyLive expectedGeneration =
      .update sessionId generation prompt outputSchema) :
    applyLive = true ∧ policy.content.prompt = some prompt ∧
      policy.content.outputSchema = outputSchema := by
  dsimp only [planPolicy] at h
  split at h
  · cases h
  · next hlive =>
    split at h
    · cases h
    · split at h
      · cases h
      · split at h
        · cases h
        · next hprompt =>
          cases h
          exact ⟨by simpa using hlive, hprompt, rfl⟩

theorem Step.grows {initial : Config} (hcontrol : Control.Inv initial s.control)
    (hstep : Step sessionId render s s') : Grows s.control s'.control := by
  rcases hstep.commands with hsame | hchanged
  · rw [hsame]
    exact Grows.refl s.control
  · exact fun id call hcall ↦ Control.call_step hcontrol hchanged hcall

theorem tied_fresh {control : Control} {task : Task Schema Zone} (hfresh : task.Fresh) :
    Tied render control task := by
  cases task with
  | create | activate | rollback => trivial
  | _ => cases hfresh

theorem tied_look {control : Control} (log : List (PolicyEvent Schema Zone))
    {task : Task Schema Zone} (hfresh : task.Fresh) : Tied render control (task.look log) := by
  cases task with
  | create | activate | rollback =>
    dsimp only [Task.look]
    split <;> trivial
  | _ => cases hfresh

theorem tied_appended {control : Control} (task : Task Schema Zone) (seq : Nat) :
    Tied render control (task.appended seq) := by
  cases task <;> trivial

/-- Requests know what they need about their calls. -/
structure Linked (render : Schema → String) (s : LiveRun Schema Zone) : Prop where
  inTime : ∀ call, ¬Told s.control call .timedOut
  tied : ∀ (id : Nat) (task : Task Schema Zone), s.requests.tasks[id]? = some task →
    Tied render s.control task
  confirmed : ∀ call ∈ s.acknowledged, Told s.control call .accepted

theorem tied_set {tasks : List (Task Schema Zone)} {control : Control}
    (h : ∀ (id : Nat) (task : Task Schema Zone), tasks[id]? = some task →
      Tied render control task) {id : Nat} {changed : Task Schema Zone}
    (hchanged : Tied render control changed) (other : Nat) (task : Task Schema Zone)
    (hother : (tasks.set id changed)[other]? = some task) : Tied render control task := by
  rw [List.getElem?_set] at hother
  split at hother
  · split at hother
    · cases hother
      exact hchanged
    · cases hother
  · exact h other task hother

theorem Linked.step {initial : Config} (hcontrol : Control.Inv initial s.control)
    (h : Linked render s) (hstep : Step sessionId render s s') : Linked render s' := by
  have hgrows := hstep.grows hcontrol
  have htied : ∀ (id : Nat) (task : Task Schema Zone), s.requests.tasks[id]? = some task →
      Tied render s'.control task := fun id task htask ↦ hgrows.tied (h.tied id task htask)
  have hconfirmed : ∀ call ∈ s.acknowledged, Told s'.control call .accepted :=
    fun call hcall ↦ hgrows.told (h.confirmed call hcall)
  cases hstep with
  | @arrive task hfresh =>
    refine ⟨h.inTime, fun id other hother ↦ ?_, hconfirmed⟩
    dsimp only at hother
    rw [List.getElem?_append] at hother
    split at hother
    · exact htied id other hother
    · rw [List.getElem?_singleton] at hother
      split at hother
      · cases hother
        exact tied_fresh hfresh
      · cases hother
  | look htask hfresh => exact ⟨h.inTime, tied_set htied (tied_look _ hfresh), hconfirmed⟩
  | @append id task payload htask hpayload seq ptsMs hseq =>
    refine ⟨h.inTime, tied_set htied (tied_appended task seq), fun call hcall ↦ ?_⟩
    rcases List.mem_append.mp hcall with hold | hnew
    · exact hconfirmed call hold
    · have htasks := h.tied id task htask
      unfold Task.update at hnew
      split at hnew
      · cases List.mem_singleton.mp hnew
        exact htasks.2
      · cases hnew
  | @settle id transition expectedGeneration seen requestSeq result htask hplan =>
    refine ⟨h.inTime, tied_set htied ?_, hconfirmed⟩
    cases result with
    | ok application => exact planPolicy_settled hplan
    | error error => trivial
  | @ask id transition expectedGeneration seen requestSeq generation prompt outputSchema htask
      hplan =>
    obtain ⟨hlive, hprompt, hschema⟩ := planPolicy_update hplan
    refine ⟨?_, tied_set htied ⟨hlive, prompt, hprompt, ?_⟩, hconfirmed⟩
    · rintro call ⟨asked, hasked, hphase⟩
      dsimp only at hasked
      rw [List.getElem?_append] at hasked
      split at hasked
      · exact h.inTime call ⟨asked, hasked, hphase⟩
      · rw [List.getElem?_singleton] at hasked
        split at hasked
        · cases hasked
          cases hphase
        · cases hasked
    · rw [Control.configOf, List.getElem?_concat_length, Option.map_some, hschema]
  | @answer id transition seen requestSeq generation call asked outcome htask hasked htold =>
    refine ⟨h.inTime, tied_set htied ?_, hconfirmed⟩
    have hasks : Asks render s.control transition call := h.tied id _ htask
    cases outcome with
    | accepted => exact ⟨hasks, asked, hasked, htold⟩
    | rejected error => exact ⟨hasks, error, asked, hasked, htold⟩
    | timedOut => exact absurd ⟨asked, hasked, htold⟩ (h.inTime call)
  | other seq ptsMs hseq => exact ⟨h.inTime, htied, hconfirmed⟩
  | control hstep =>
    refine ⟨?_, htied, hconfirmed⟩
    rintro call ⟨asked, hasked, hphase⟩
    exact hstep.inTime call asked hasked hphase

/-- Each call is that of a request, or its update is acknowledged in the log, or rejected. -/
def Owned (s : LiveRun Schema Zone) : Prop :=
  ∀ call < s.control.calls.length,
    (∃ (id : Nat) (task : Task Schema Zone), s.requests.tasks[id]? = some task ∧
      task.call = some call) ∨
      call ∈ s.acknowledged ∨ ∃ error, Told s.control call (.rejected error)

/-- A request that changes keeps its call, or is done with it. -/
theorem owned_set {tasks : List (Task Schema Zone)} {id : Nat} {task changed : Task Schema Zone}
    (htask : tasks[id]? = some task) {call : Nat} {done : Prop}
    (hchanged : task.call = some call → changed.call = some call ∨ done)
    (h : ∃ (id : Nat) (task : Task Schema Zone), tasks[id]? = some task ∧ task.call = some call) :
    (∃ (other : Nat) (task : Task Schema Zone), (tasks.set id changed)[other]? = some task ∧
      task.call = some call) ∨ done := by
  obtain ⟨other, found, hfound, hcall⟩ := h
  by_cases hsame : id = other
  · subst hsame
    rw [htask] at hfound
    cases hfound
    refine (hchanged hcall).imp_left fun hkept ↦ ⟨id, changed, ?_, hkept⟩
    exact List.getElem?_set_self (List.getElem?_eq_some_iff.mp htask).1
  · exact .inl ⟨other, found, by rw [List.getElem?_set_ne hsame, hfound], hcall⟩

theorem Owned.step {initial : Config} (hcontrol : Control.Inv initial s.control)
    (hlinked : Linked render s) (h : Owned s) (hstep : Step sessionId render s s') :
    Owned s' := by
  have hgrows := hstep.grows hcontrol
  have hrest {call : Nat}
      (hdone : call ∈ s.acknowledged ∨ ∃ error, Told s.control call (.rejected error)) :
      call ∈ s.acknowledged ∨ ∃ error, Told s'.control call (.rejected error) :=
    hdone.imp_right fun ⟨error, htold⟩ ↦ ⟨error, hgrows.told htold⟩
  have hfresh {task : Task Schema Zone} (hfresh : task.Fresh) (call : Nat) :
      task.call ≠ some call := by
    cases task with
    | create | activate | rollback => exact nofun
    | _ => cases hfresh
  cases hstep with
  | arrive _ =>
    intro call hcall
    refine (h call hcall).imp (fun ⟨id, task, htask, hcalls⟩ ↦ ⟨id, task, ?_, hcalls⟩) hrest
    dsimp only
    rw [List.getElem?_append_left (List.getElem?_eq_some_iff.mp htask).1, htask]
  | look htask htaskFresh =>
    intro call hcall
    rcases h call hcall with howned | hdone
    · exact owned_set htask (fun hcalls ↦ absurd hcalls (hfresh htaskFresh call)) howned
    · exact .inr (hrest hdone)
  | @append id task payload htask hpayload seq ptsMs hseq =>
    intro call hcall
    rcases h call hcall with howned | hacknowledged | hrejected
    · refine owned_set htask (fun hcalls ↦ .inr ?_) howned
      cases task with
      | applied transition seen requestSeq asked result =>
        cases hcalls
        cases result with
        | ok application => exact .inl (List.mem_append_right _ (List.mem_singleton_self call))
        | error error => exact .inr (hlinked.tied id _ htask).2
      | updating transition seen requestSeq sessionId generation asked => cases hpayload
      | _ => cases hcalls
    · exact .inr (.inl (List.mem_append_left _ hacknowledged))
    · exact .inr (.inr hrejected)
  | settle htask hplan =>
    intro call hcall
    rcases h call hcall with howned | hdone
    · exact owned_set htask nofun howned
    · exact .inr (hrest hdone)
  | @ask id transition expectedGeneration seen requestSeq generation prompt outputSchema htask
      hplan =>
    intro call hcall
    dsimp only at hcall
    rw [List.length_append, List.length_singleton] at hcall
    by_cases hold : call < s.control.calls.length
    · rcases h call hold with howned | hdone
      · exact owned_set htask nofun howned
      · exact .inr (hrest hdone)
    · have hnew : call = s.control.calls.length := by omega
      subst hnew
      exact .inl ⟨id, _, List.getElem?_set_self (List.getElem?_eq_some_iff.mp htask).1, rfl⟩
  | answer htask hasked htold =>
    intro call hcall
    rcases h call hcall with howned | hdone
    · exact owned_set htask .inl howned
    · exact .inr (hrest hdone)
  | other seq ptsMs hseq => exact h
  | control hstep =>
    intro call hcall
    dsimp only at hcall
    rw [hstep.nobody] at hcall
    exact (h call hcall).imp_right hrest

/-! ### The active policy -/

/-- The configuration of the update that was acknowledged last. -/
def lastAcknowledged (s : LiveRun Schema Zone) (initial : Config) : Config :=
  (s.acknowledged.getLast?.bind s.control.configOf).getD initial

/-- The active policy asks for what the update that was acknowledged last asked for. -/
def Shown (render : Schema → String) (initial : Config) (s : LiveRun Schema Zone) : Prop :=
  ∀ revision content prompt,
    statusOf (reconstructPolicies s.requests.log) revision = some .active →
    contentOf (reconstructPolicies s.requests.log) revision = some content →
    content.prompt = some prompt →
    wanted render prompt content.outputSchema = s.lastAcknowledged initial

theorem active_concat {log : List (PolicyEvent Schema Zone)} {event : PolicyEvent Schema Zone}
    (hnumbered : Numbered (log ++ [event])) {revision : Nat} {content : PolicyContent Schema Zone}
    (hstatus : statusOf (reconstructPolicies (log ++ [event])) revision = some .active)
    (hcontent : contentOf (reconstructPolicies (log ++ [event])) revision = some content) :
    activated event = some revision ∨
      activated event = none ∧ statusOf (reconstructPolicies log) revision = some .active ∧
        contentOf (reconstructPolicies log) revision = some content := by
  rw [reconstructPolicies_concat hnumbered, statusOf_applyEvent] at hstatus
  refine (active_of_advance hstatus).imp_right fun ⟨hnone, hactive⟩ ↦ ⟨hnone, hactive, ?_⟩
  obtain ⟨policy, hpolicy, -⟩ := Option.map_eq_some_iff.mp hactive
  have hold : contentOf (reconstructPolicies log) revision = some policy.content := by
    rw [contentOf, hpolicy, Option.map_some]
  rw [hold, ← contentOf_append hnumbered hold]
  exact hcontent

/-- Only an acknowledgement of a policy that is to be applied makes a policy active. -/
theorem applied_of_activated {task : Task Schema Zone} {payload : PolicyPayload Schema Zone}
    {seq : Nat} {ptsMs : UInt64} {revision : Nat} (hpayload : task.payload = some payload)
    (h : activated (⟨seq, ptsMs, payload⟩ : PolicyEvent Schema Zone) = some revision) :
    ∃ transition seen requestSeq call application,
      task = .applied transition seen requestSeq call (.ok application) ∧
        transition.applyLive = true ∧ transition.policy.revision = revision := by
  cases task with
  | creating parentRevision content seen =>
    cases hpayload
    cases h
  | checked transition expectedGeneration seen =>
    cases hpayload
    cases transition <;> cases h
  | applied transition seen requestSeq call result =>
    cases hpayload
    cases result with
    | error error => cases transition <;> cases h
    | ok application =>
      refine ⟨transition, seen, requestSeq, call, application, rfl, ?_⟩
      cases transition with
      | deploy policy stage =>
        dsimp only [Transition.outcomePayload, activated] at h
        split at h
        · next hstage => exact ⟨decide_eq_true hstage, Option.some.inj h⟩
        · cases h
      | rollback target current => exact ⟨rfl, Option.some.inj h⟩
  | _ => cases hpayload

theorem activated_of_applied {transition : Transition Schema Zone} {requestSeq seq : Nat}
    {ptsMs : UInt64} {application : LiveApplication} (hlive : transition.applyLive = true) :
    activated (⟨seq, ptsMs, transition.outcomePayload requestSeq (.ok application)⟩ :
      PolicyEvent Schema Zone) = some transition.policy.revision := by
  cases transition with
  | deploy policy stage => exact if_pos (of_decide_eq_true hlive)
  | rollback target current => rfl

theorem contentOf_sound {log : List (PolicyEvent Schema Zone)} (hnumbered : Numbered log)
    {seen : Nat} {transition : Transition Schema Zone} (hsound : transition.Sound (log.take seen)) :
    contentOf (reconstructPolicies log) transition.policy.revision =
      some transition.policy.content := by
  have hfound : findRevision (reconstructPolicies (log.take seen)) transition.policy.revision =
      some transition.policy := by
    cases transition with
    | deploy policy stage => exact hsound.1
    | rollback target current => exact hsound.1
  rw [← List.take_append_drop seen log] at hnumbered ⊢
  apply contentOf_append hnumbered
  rw [contentOf, hfound, Option.map_some]

theorem Shown.append {initial : Config} (hrequests : Requests.Inv s.requests)
    (hlinked : Linked render s) (h : Shown render initial s) {id : Nat} {task : Task Schema Zone}
    {payload : PolicyPayload Schema Zone} (htask : s.requests.tasks[id]? = some task)
    (hpayload : task.payload = some payload) {seq : Nat} {ptsMs : UInt64}
    (hseq : ∀ event ∈ s.requests.log, event.seq < seq) :
    Shown render initial
      { s with
        requests := ⟨s.requests.log ++ [⟨seq, ptsMs, payload⟩],
          s.requests.tasks.set id (task.appended seq)⟩
        acknowledged := s.acknowledged ++ task.update } := by
  intro revision content prompt hstatus hcontent hprompt
  have hnumbered : Numbered (s.requests.log ++ [⟨seq, ptsMs, payload⟩]) :=
    numbered_concat hrequests.numbered hseq
  have hpolicy {transition : Transition Schema Zone} {seen : Nat}
      (hsound : transition.Sound (s.requests.log.take seen))
      (hrevision : transition.policy.revision = revision) :
      transition.policy.content = content := by
    have hkept := contentOf_append hnumbered (contentOf_sound hrequests.numbered hsound)
    rw [hrevision] at hkept
    exact Option.some.inj (hkept.symm.trans hcontent)
  rcases active_concat hnumbered hstatus hcontent with hactivated | ⟨hnone, hbefore, hbeforeContent⟩
  · obtain ⟨transition, seen, requestSeq, call, application, rfl, hlive, hrevision⟩ :=
      applied_of_activated hpayload hactivated
    have hsame := hpolicy (hrequests.sound id _ htask).2 hrevision
    have htied := hlinked.tied id _ htask
    cases call with
    | none =>
      rcases htied with hnot | hnoPrompt
      · rw [hlive] at hnot
        cases hnot
      · rw [hsame, hprompt] at hnoPrompt
        cases hnoPrompt
    | some call =>
      obtain ⟨⟨-, asked, hasked, hconfig⟩, -⟩ := htied
      rw [hsame] at hasked hconfig
      cases hasked.symm.trans hprompt
      rw [lastAcknowledged, Task.update, List.getLast?_concat, Option.bind_some, hconfig]
      rfl
  · have hsame : task.update = [] := by
      unfold Task.update
      split
      · next transition seen requestSeq call application =>
        cases hpayload
        rw [activated_of_applied (hlinked.tied id _ htask).1.1] at hnone
        cases hnone
      · rfl
    rw [lastAcknowledged, hsame, List.append_nil]
    exact h revision content prompt hbefore hbeforeContent hprompt

theorem Shown.step {initial : Config} (hrequests : Requests.Inv s.requests)
    (hcontrol : Control.Inv initial s.control) (hlinked : Linked render s)
    (h : Shown render initial s) (hstep : Step sessionId render s s') :
    Shown render initial s' := by
  have hgrows := hstep.grows hcontrol
  have hlast (hsame : s'.acknowledged = s.acknowledged) :
      s'.lastAcknowledged initial = s.lastAcknowledged initial := by
    rw [lastAcknowledged, lastAcknowledged, hsame]
    cases hgetLast : s.acknowledged.getLast? with
    | none => rfl
    | some call =>
      obtain ⟨asked, hasked, -⟩ := hlinked.confirmed call (List.mem_of_getLast? hgetLast)
      have hconfig : s.control.configOf call = some asked.config := by
        rw [Control.configOf, hasked, Option.map_some]
      rw [Option.bind_some, Option.bind_some, hconfig, hgrows.configOf hconfig]
  have hquiet (hlog : s'.requests.log = s.requests.log)
      (hsame : s'.acknowledged = s.acknowledged) : Shown render initial s' := by
    intro revision content prompt
    rw [hlog, hlast hsame]
    exact h revision content prompt
  cases hstep with
  | append htask hpayload seq ptsMs hseq =>
    exact h.append hrequests hlinked htask hpayload hseq
  | other seq ptsMs hseq =>
    intro revision content prompt hstatus hcontent hprompt
    rcases active_concat (numbered_concat hrequests.numbered hseq) hstatus hcontent with
      hactivated | ⟨-, hbefore, hbeforeContent⟩
    · cases hactivated
    · exact h revision content prompt hbefore hbeforeContent hprompt
  | _ => exact hquiet rfl rfl

/-! ### Runs -/

/-- What holds in every run. -/
structure Inv (render : Schema → String) (initial : Config) (s : LiveRun Schema Zone) : Prop where
  requests : Requests.Inv s.requests
  control : Control.Inv initial s.control
  linked : Linked render s
  owned : Owned s
  shown : Shown render initial s

theorem Starts.inv (h : s.Starts render) : Inv render s.control.config s := by
  have hcontrol := Control.inv_start s.control.generation s.control.config
  rw [← h.noCall] at hcontrol
  have hcalls : s.control.calls = [] := by rw [h.noCall]; rfl
  refine ⟨⟨h.numbered, ?_⟩, hcontrol, ⟨?_, ?_, ?_⟩, ?_, ?_⟩
  · intro id task htask
    rw [h.noRequest, List.getElem?_nil] at htask
    cases htask
  · rintro call ⟨asked, hasked, -⟩
    rw [hcalls, List.getElem?_nil] at hasked
    cases hasked
  · intro id task htask
    rw [h.noRequest, List.getElem?_nil] at htask
    cases htask
  · intro call hcall
    rw [h.noUpdate] at hcall
    cases hcall
  · intro call hcall
    rw [hcalls] at hcall
    cases hcall
  · intro revision content prompt hstatus hcontent hprompt
    obtain ⟨policy, hpolicy, hactive⟩ := Option.map_eq_some_iff.mp hstatus
    rw [contentOf, hpolicy, Option.map_some] at hcontent
    cases hcontent
    rw [lastAcknowledged, h.noUpdate]
    exact (h.active policy (List.mem_of_find?_eq_some hpolicy) hactive prompt hprompt).symm

theorem Inv.step {initial : Config} (h : Inv render initial s)
    (hstep : Step sessionId render s s') : Inv render initial s' := by
  refine ⟨?_, ?_, h.linked.step h.control hstep, h.owned.step h.control h.linked hstep,
    h.shown.step h.requests h.control h.linked hstep⟩
  · rcases hstep.requests with hsame | hchanged
    · rw [hsame]
      exact h.requests
    · exact h.requests.step hchanged
  · rcases hstep.commands with hsame | hchanged
    · rw [hsame]
      exact h.control
    · exact h.control.step hchanged

theorem Inv.active {initial : Config} (h : Inv render initial s)
    {policy : PolicyRevision Schema Zone} (hpolicy : policy ∈ reconstructPolicies s.requests.log)
    (hactive : policy.status = .active) {prompt : String}
    (hprompt : policy.content.prompt = some prompt) :
    wanted render prompt policy.content.outputSchema = s.lastAcknowledged initial := by
  apply h.shown policy.revision policy.content prompt
  · rw [statusOf_of_mem h.requests.numbered hpolicy, hactive]
  · rw [contentOf, findRevision_of_mem h.requests.numbered hpolicy, Option.map_some]
  · exact hprompt

theorem Inv.applied {initial : Config} (h : Inv render initial s) {call : Nat}
    (hcall : call ∈ s.acknowledged) : call ∈ s.control.applied := by
  obtain ⟨asked, hasked, hphase⟩ := h.linked.confirmed call hcall
  exact h.control.guarantees.accepted call asked hasked hphase

/-- Updates are acknowledged in the order in which they were applied. -/
def Ordered (s : LiveRun Schema Zone) : Prop :=
  s.acknowledged.Pairwise fun earlier later ↦
    s.control.applied.idxOf earlier < s.control.applied.idxOf later

theorem applied_grows {control control' : Control} (hstep : Control.Step control control') :
    control.applied <+: control'.applied := by
  cases hstep with
  | apply _ _ => exact List.prefix_append _ _
  | _ => exact List.prefix_rfl

theorem Ordered.step {initial : Config} (hinv : Inv render initial s) (h : Ordered s)
    (hstep : Step sessionId render s s') (hinOrder : InOrder s s') : Ordered s' := by
  have hgrows : s.control.applied <+: s'.control.applied := by
    rcases hstep.commands with hsame | hchanged
    · rw [hsame]
    · exact applied_grows hchanged
  have hindex {call : Nat} (hcall : call ∈ s.control.applied) :
      s'.control.applied.idxOf call = s.control.applied.idxOf call := by
    obtain ⟨rest, hrest⟩ := hgrows
    rw [← hrest, List.idxOf_append_of_mem hcall]
  have hkept : s.acknowledged.Pairwise fun earlier later ↦
      s'.control.applied.idxOf earlier < s'.control.applied.idxOf later := by
    apply h.imp_of_mem
    intro earlier later hearlier hlater hlt
    rwa [hindex (hinv.applied hearlier), hindex (hinv.applied hlater)]
  cases hstep with
  | @append id task payload htask hpayload seq ptsMs hseq =>
    apply List.pairwise_append.mpr
    refine ⟨h, ?_, fun earlier hearlier later hlater ↦ ?_⟩
    · unfold Task.update
      split
      · exact List.pairwise_singleton _ _
      · exact List.Pairwise.nil
    · have hupdate : task.update = [later] := by
        unfold Task.update at hlater ⊢
        split at hlater
        · cases List.mem_singleton.mp hlater
          rfl
        · cases hlater
      exact hinOrder later (by rw [← hupdate]) earlier hearlier
  | _ => exact hkept

/-- Once every request has come to its end, the update that was applied last is the one that was
acknowledged last. -/
theorem Ordered.last {initial : Config} (hinv : Inv render initial s) (h : Ordered s)
    (hfinished : s.Finished) : s.acknowledged.getLast? = s.control.applied.getLast? := by
  rcases List.eq_nil_or_concat s.control.applied with hnone | ⟨front, last, hlast⟩
  · have hacknowledged : s.acknowledged = [] := by
      apply List.eq_nil_iff_forall_not_mem.mpr
      intro call hcall
      have happlied := hinv.applied hcall
      rw [hnone] at happlied
      cases happlied
    rw [hacknowledged, hnone]
  · rw [List.concat_eq_append] at hlast
    have hmem : last ∈ s.control.applied := by
      rw [hlast]
      exact List.mem_append_right _ (List.mem_singleton_self last)
    have hacknowledged : last ∈ s.acknowledged := by
      rcases hinv.owned last (hinv.control.known last (hinv.control.applied_sent hmem)) with
        ⟨id, task, htask, hcall⟩ | hacknowledged | ⟨error, asked, hasked, hphase⟩
      · rw [hfinished task (List.mem_of_getElem? htask)] at hcall
        cases hcall
      · exact hacknowledged
      · exact absurd hmem (hinv.control.guarantees.rejected last asked error hasked hphase)
    have hindex : s.control.applied.idxOf last = front.length := by
      have hnodup := hinv.control.guarantees.once
      rw [hlast] at hnodup ⊢
      have hnot : last ∉ front := fun hfront ↦
        (List.nodup_append.mp hnodup).2.2 last hfront last (List.mem_singleton_self last) rfl
      rw [List.idxOf_append_of_notMem hnot, List.idxOf_cons_self, Nat.add_zero]
    rcases List.eq_nil_or_concat s.acknowledged with hnone | ⟨before, final, hfinal⟩
    · rw [hnone] at hacknowledged
      cases hacknowledged
    · rw [List.concat_eq_append] at hfinal
      rw [Ordered, hfinal, List.pairwise_append] at h
      rw [hlast, hfinal, List.getLast?_concat, List.getLast?_concat]
      rw [hfinal] at hacknowledged
      rcases List.mem_append.mp hacknowledged with hbefore | hsame
      · have hlt := h.2.2 last hbefore final (List.mem_singleton_self final)
        have hbound : s.control.applied.idxOf final < s.control.applied.length := by
          apply List.idxOf_lt_length_of_mem
          apply hinv.applied
          rw [hfinal]
          exact List.mem_append_right _ (List.mem_singleton_self final)
        rw [hindex] at hlt
        rw [hlast, List.length_append, List.length_singleton] at hbound
        rw [hlast] at hlt
        omega
      · rw [List.mem_singleton.mp hsame]

/-- In runs that acknowledge updates in the order in which these were applied, the session runs the
active policy once every request has come to its end. In every run the session runs what was applied
last, and the active policy is what was acknowledged last. -/
theorem active_runs (sessionId : String) (render : Schema → String) :
    (∀ s : LiveRun Schema Zone, ReachableInOrder sessionId render s → s.Finished →
      s.RunsActive render) ∧
      ∀ s : LiveRun Schema Zone, Reachable sessionId render s → ∃ initial,
        s.control.config = s.control.lastApplied initial ∧
          ∀ policy ∈ reconstructPolicies s.requests.log, policy.status = .active →
            ∀ prompt, policy.content.prompt = some prompt →
              wanted render prompt policy.content.outputSchema = s.lastAcknowledged initial := by
  constructor
  · rintro s ⟨start, hstarts, hsteps⟩ hfinished policy hpolicy hactive prompt hprompt
    have hboth : Inv render start.control.config s ∧ Ordered s := by
      clear hfinished hpolicy
      induction hsteps with
      | refl =>
        refine ⟨hstarts.inv, ?_⟩
        rw [Ordered, hstarts.noUpdate]
        exact List.Pairwise.nil
      | tail _ hstep ih => exact ⟨ih.1.step hstep.1, ih.2.step ih.1 hstep.1 hstep.2⟩
    rw [hboth.1.active hpolicy hactive hprompt, hboth.1.control.config, lastAcknowledged,
      hboth.2.last hboth.1 hfinished]
    rfl
  · rintro s ⟨start, hstarts, hsteps⟩
    have hinv : Inv render start.control.config s := by
      induction hsteps with
      | refl => exact hstarts.inv
      | tail _ hstep ih => exact ih.step hstep
    exact ⟨start.control.config, hinv.control.config,
      fun policy hpolicy hactive prompt hprompt ↦ hinv.active hpolicy hactive hprompt⟩

/-! ### Out of order -/

theorem reachable_control {control' : Control}
    (h : Relation.ReflTransGen GoesOn s.control control') :
    Relation.ReflTransGen (Step sessionId render) s { s with control := control' } := by
  induction h with
  | refl => exact .refl
  | tail _ hstep ih => exact ih.tail (.control hstep)

/-- The worker applies two updates in the order in which they were asked for. -/
theorem two_updates (first second old : Config) (generation : UInt64) :
    Relation.ReflTransGen GoesOn
      ⟨generation, false, [⟨first, generation, .begun, none⟩, ⟨second, generation, .begun, none⟩],
        [], .idle, old, [], []⟩
      ⟨generation, false, [⟨first, generation, .told .accepted, some (.ok ())⟩,
        ⟨second, generation, .told .accepted, some (.ok ())⟩], [], .idle, second, [0, 1],
        [0, 1]⟩ := by
  have hinTime {c d : Call} (hc : c.phase ≠ .told .timedOut) (hd : d.phase ≠ .told .timedOut)
      (id : Nat) (call : Call) (hcall : [c, d][id]? = some call) :
      call.phase ≠ .told .timedOut := by
    rcases List.mem_pair.mp (List.mem_of_getElem? hcall) with rfl | rfl
    · exact hc
    · exact hd
  exact .head ⟨@Control.Step.accept _ 0 _ rfl rfl rfl, rfl, hinTime nofun nofun⟩ <|
    .head ⟨@Control.Step.send _ 0 _ rfl rfl nofun (by decide : 0 < 8), rfl, hinTime nofun nofun⟩ <|
    .head ⟨@Control.Step.accept _ 1 _ rfl rfl rfl, rfl, hinTime nofun nofun⟩ <|
    .head ⟨@Control.Step.send _ 1 _ rfl rfl nofun (by decide : 1 < 8), rfl, hinTime nofun nofun⟩ <|
    .head ⟨@Control.Step.take _ 0 _ rfl rfl, rfl, hinTime nofun nofun⟩ <|
    .head ⟨@Control.Step.check _ 0 _ rfl rfl nofun rfl, rfl, hinTime nofun nofun⟩ <|
    .head ⟨@Control.Step.apply _ 0 _ rfl rfl, rfl, hinTime nofun nofun⟩ <|
    .head ⟨@Control.Step.acknowledge _ 0 _ rfl rfl, rfl, hinTime nofun nofun⟩ <|
    .head ⟨@Control.Step.hear _ 0 ⟨first, generation, .waiting, some (.ok ())⟩ (.ok ()) rfl rfl rfl,
      rfl, hinTime nofun nofun⟩ <|
    .head ⟨@Control.Step.take _ 1 _ rfl rfl, rfl, hinTime nofun nofun⟩ <|
    .head ⟨@Control.Step.check _ 1 _ rfl rfl nofun rfl, rfl, hinTime nofun nofun⟩ <|
    .head ⟨@Control.Step.apply _ 1 _ rfl rfl, rfl, hinTime nofun nofun⟩ <|
    .head ⟨@Control.Step.acknowledge _ 1 _ rfl rfl, rfl, hinTime nofun nofun⟩ <|
    .single ⟨@Control.Step.hear _ 1 ⟨second, generation, .waiting, some (.ok ())⟩ (.ok ()) rfl rfl
      rfl, rfl, hinTime nofun nofun⟩

theorem Step.look_to {id : Nat} {task changed : Task Schema Zone}
    (htask : s.requests.tasks[id]? = some task) (hfresh : task.Fresh)
    (hlook : task.look s.requests.log = changed) :
    Step sessionId render s
      { s with requests := { s.requests with tasks := s.requests.tasks.set id changed } } := by
  rw [← hlook]
  exact .look htask hfresh

end LiveRun

open LiveRun

/-- Two revisions that are promoted to canary. -/
def canaryLog : List (PolicyEvent Unit Unit) :=
  let application : LiveApplication := ⟨some "sess-1", some 7, false, false, [],
    "shadow and canary stages are replay-only in this release"⟩
  [⟨1, 0, .created none ⟨some "count the people", none, none⟩⟩,
    ⟨2, 0, .created (some 1) ⟨some "count the cars", none, none⟩⟩,
    ⟨3, 0, .deployRequested 1 .draft .shadow none⟩,
    ⟨4, 0, .deployAcknowledged 1 3 .shadow application⟩,
    ⟨5, 0, .deployRequested 1 .shadow .canary none⟩,
    ⟨6, 0, .deployAcknowledged 1 5 .canary application⟩,
    ⟨7, 0, .deployRequested 2 .draft .shadow none⟩,
    ⟨8, 0, .deployAcknowledged 2 7 .shadow application⟩,
    ⟨9, 0, .deployRequested 2 .shadow .canary none⟩,
    ⟨10, 0, .deployAcknowledged 2 9 .canary application⟩]

/-- A revision of `canaryLog`. -/
def canaryPolicy (revision : Nat) (parentRevision : Option Nat) (prompt : String) :
    PolicyRevision Unit Unit :=
  ⟨revision, parentRevision, .canary, ⟨some prompt, none, none⟩, 0, 0, some 7, false, []⟩

theorem numbered_canaryLog : Numbered canaryLog := by
  simp [Numbered, canaryLog]

theorem policies_canaryLog : reconstructPolicies canaryLog =
    [canaryPolicy 1 none "count the people", canaryPolicy 2 (some 1) "count the cars"] := by
  rw [reconstructPolicies_eq numbered_canaryLog]
  rfl

theorem look_canaryLog {revision : Nat} {policy : PolicyRevision Unit Unit}
    (hfound : findRevision [canaryPolicy 1 none "count the people",
      canaryPolicy 2 (some 1) "count the cars"] revision = some policy)
    (hcanary : policy.status = .canary) :
    Task.look canaryLog (.activate revision .active (some 7)) =
      .checked (.deploy policy .active) (some 7) 10 := by
  dsimp only [Task.look, activatePolicy]
  rw [policies_canaryLog, hfound]
  dsimp only
  rw [hcanary]
  rfl

/-- The updates of two activations are applied in one order and acknowledged in the other: the first
revision is active and the session runs the second. -/
theorem acknowledged_out_of_order : ∃ s : LiveRun Unit Unit,
    Reachable "sess-1" (fun _ ↦ "") s ∧ s.Finished ∧ ¬s.RunsActive fun _ ↦ "" := by
  let first : Transition Unit Unit := .deploy (canaryPolicy 1 none "count the people") .active
  let second : Transition Unit Unit := .deploy (canaryPolicy 2 (some 1) "count the cars") .active
  let start : LiveRun Unit Unit := ⟨⟨canaryLog, []⟩, Control.start 7 ⟨"old", none⟩, []⟩
  let log := canaryLog ++ [⟨11, 0, first.requestPayload (some 7)⟩] ++
    [⟨12, 0, second.requestPayload (some 7)⟩]
  let control : Control := ⟨7, false,
    [⟨⟨"count the people", none⟩, 7, .told .accepted, some (.ok ())⟩,
      ⟨⟨"count the cars", none⟩, 7, .told .accepted, some (.ok ())⟩],
    [], .idle, ⟨"count the cars", none⟩, [0, 1], [0, 1]⟩
  let application (transition : Transition Unit Unit) :=
    liveApplication transition.policy "sess-1" 7 true
  have hstarts : start.Starts fun _ ↦ "" := by
    refine ⟨numbered_canaryLog, rfl, rfl, rfl, fun policy hpolicy hactive ↦ ?_⟩
    rw [policies_canaryLog] at hpolicy
    rcases List.mem_pair.mp hpolicy with rfl | rfl <;> cases hactive
  have hasked : Relation.ReflTransGen (Step "sess-1" fun _ ↦ "") start
      ⟨⟨log, [.updating first 10 11 "sess-1" 7 0, .updating second 10 12 "sess-1" 7 1]⟩,
        { start.control with calls :=
            [⟨⟨"count the people", none⟩, 7, .begun, none⟩,
              ⟨⟨"count the cars", none⟩, 7, .begun, none⟩] }, []⟩ :=
    .head (@Step.arrive _ _ _ _ _ (.activate 1 .active (some 7)) trivial) <|
    .head (@Step.arrive _ _ _ _ _ (.activate 2 .active (some 7)) trivial) <|
    .head (@Step.look_to _ _ _ _ _ 0 _ _ rfl trivial (look_canaryLog rfl rfl)) <|
    .head (@Step.look_to _ _ _ _ _ 1 _ _ rfl trivial (look_canaryLog rfl rfl)) <|
    .head (@Step.append _ _ _ _ _ 0 _ _ rfl rfl 11 0 (by decide)) <|
    .head (@Step.append _ _ _ _ _ 1 _ _ rfl rfl 12 0 (by decide)) <|
    .head (@Step.ask _ _ _ _ _ 0 first (some 7) 10 11 7 "count the people" none rfl rfl) <|
    .single (@Step.ask _ _ _ _ _ 1 second (some 7) 10 12 7 "count the cars" none rfl rfl)
  have hanswered := hasked.trans (reachable_control (two_updates _ _ _ _))
  have hdone : Relation.ReflTransGen (Step "sess-1" fun _ ↦ "") start
      ⟨⟨log ++ [⟨13, 0, second.outcomePayload 12 (.ok (application second))⟩] ++
        [⟨14, 0, first.outcomePayload 11 (.ok (application first))⟩], [.done, .done]⟩,
        control, [1, 0]⟩ := by
    refine hanswered.trans <|
      .head (@Step.answer _ _ _ _ _ 0 first 10 11 7 0 _ .accepted rfl rfl rfl) <|
      .head (@Step.answer _ _ _ _ _ 1 second 10 12 7 1 _ .accepted rfl rfl rfl) <|
      .head (@Step.append _ _ _ _ _ 1 (.applied second 10 12 (some 1) (.ok (application second))) _
        rfl rfl 13 0 ?_) <|
      .single (@Step.append _ _ _ _ _ 0 (.applied first 10 11 (some 0) (.ok (application first))) _
        rfl rfl 14 0 ?_)
    all_goals decide
  refine ⟨_, ⟨start, hstarts, hdone⟩, ?_, ?_⟩
  · intro task htask
    rcases List.mem_pair.mp htask with rfl | rfl <;> rfl
  · intro hruns
    have hconfig := hruns ⟨1, none, .active, ⟨some "count the people", none, none⟩, 0, 0, some 7,
      true, []⟩ (by
        rw [reconstructPolicies_eq (by simp [Numbered, canaryLog, log])]
        exact List.mem_cons_self) rfl "count the people" rfl
    exact absurd hconfig (by decide)

end Vidarax.Policy
