import Mathlib.Data.List.Nodup
import Vidarax.Session.Control

/-!
# Acknowledged configuration commands

Package `vidarax-core`, `crates/vidarax-core/src/webrtc/runtime.rs:187–243`. An accepted update is
applied and a rejected one is not, in the order of the queue. The worker looks once whether a caller
is still waiting, so an update is applied after its timeout if and only if the call is abandoned
after that look.
-/

namespace Vidarax.Session

namespace Control

variable {s s' : Control} {initial : Config}

/-- The command that the worker has taken. -/
def held : Worker → List Nat
  | .taken id | .checked id | .stale id | .set id => [id]
  | .idle | .ended => []

/-- The command that is applied and not yet answered. -/
def setting : Worker → List Nat
  | .set id => [id]
  | _ => []

/-- The configuration that a call asks for. -/
def configOf (s : Control) (id : Nat) : Option Config := s.calls[id]?.map Call.config

/-- The configuration that was applied last. -/
def lastApplied (s : Control) (initial : Config) : Config :=
  (s.applied.getLast?.bind s.configOf).getD initial

/-- What holds of the queue, the worker and the answers. -/
structure Inv (initial : Config) (s : Control) : Prop where
  known : ∀ id ∈ s.sent, id < s.calls.length
  nodup : s.sent.Nodup
  order : ∃ done, s.sent = done ++ held s.worker ++ s.queue ∧
    s.applied.Sublist (done ++ setting s.worker)
  atWork : ∀ id, s.worker = .set id → id ∈ s.applied
  config : s.config = s.lastApplied initial
  fresh : ∀ (id : Nat) (call : Call), s.calls[id]? = some call → call.phase = .begun ∨ call.phase = .sending →
    id ∉ s.sent
  answered : ∀ (id : Nat) (call : Call), s.calls[id]? = some call → call.answer ≠ none →
    id ∈ s.sent ∧ id ∉ held s.worker ∧ id ∉ s.queue
  ok : ∀ (id : Nat) (call : Call), s.calls[id]? = some call → call.answer = some (.ok ()) →
    id ∈ s.applied
  error : ∀ (id : Nat) (call : Call) (e : SessionControlError), s.calls[id]? = some call →
    call.answer = some (.error e) → id ∉ s.applied
  accepted : ∀ (id : Nat) (call : Call), s.calls[id]? = some call → call.phase = .told .accepted →
    call.answer = some (.ok ())
  rejected : ∀ (id : Nat) (call : Call) (e : SessionControlError), s.calls[id]? = some call → call.phase = .told (.rejected e) →
    id ∉ s.sent ∨ call.answer = some (.error e)

theorem inv_start (generation : UInt64) (initial : Config) : Inv initial (start generation initial) where
  known := nofun
  nodup := List.nodup_nil
  order := ⟨[], rfl, List.Sublist.refl _⟩
  atWork := nofun
  config := rfl
  fresh := nofun
  answered := nofun
  ok := nofun
  error := nofun
  accepted := nofun
  rejected := nofun

theorem Inv.applied_sent (h : Inv initial s) {id : Nat} (hid : id ∈ s.applied) : id ∈ s.sent := by
  obtain ⟨done, hsent, hsub⟩ := h.order
  rw [hsent]
  rcases List.mem_append.mp (hsub.subset hid) with hdone | hset
  · exact List.mem_append_left _ (List.mem_append_left _ hdone)
  · apply List.mem_append_left
    apply List.mem_append_right
    cases hworker : s.worker with
    | set other =>
      rw [hworker] at hset
      exact hset
    | _ =>
      rw [hworker] at hset
      cases hset

/-- A command that the worker has taken and not applied. -/
theorem Inv.not_applied (h : Inv initial s) {id : Nat} (hheld : held s.worker = [id])
    (hsetting : setting s.worker = []) : id ∉ s.applied ∧ id ∉ s.queue := by
  obtain ⟨done, hsent, hsub⟩ := h.order
  have hnodup := h.nodup
  rw [hsent, hheld, List.append_assoc] at hnodup
  have hparts := List.nodup_append.mp hnodup
  rw [hsetting, List.append_nil] at hsub
  constructor
  · intro hid
    exact hparts.2.2 id (hsub.subset hid) id (List.mem_append_left _ (List.mem_singleton_self id)) rfl
  · intro hid
    exact (List.nodup_append.mp hparts.2.1).2.2 id (List.mem_singleton_self id) id hid rfl

theorem lookup_set {id : Nat} {call call' other : Call} {j : Nat} (hcall : s.calls[id]? = some call)
    (hj : (s.calls.set id call')[j]? = some other) :
    j = id ∧ other = call' ∨ j ≠ id ∧ s.calls[j]? = some other := by
  by_cases hsame : id = j
  · subst hsame
    rw [List.getElem?_set_self (List.getElem?_eq_some_iff.mp hcall).1] at hj
    exact .inl ⟨rfl, (Option.some.inj hj).symm⟩
  · rw [List.getElem?_set_ne hsame] at hj
    exact .inr ⟨fun heq ↦ hsame heq.symm, hj⟩

theorem configOf_set {id : Nat} {call call' : Call} (hcall : s.calls[id]? = some call)
    (hconfig : call'.config = call.config) (j : Nat) :
    (s.calls.set id call')[j]?.map Call.config = s.configOf j := by
  rw [configOf, List.getElem?_set]
  split
  · next heq =>
    subst heq
    rw [if_pos (List.getElem?_eq_some_iff.mp hcall).1, hcall, Option.map_some, Option.map_some,
      hconfig]
  · rfl

/-- A call goes on. -/
theorem Inv.move (h : Inv initial s) {id : Nat} {call : Call} (hcall : s.calls[id]? = some call)
    {phase : CallPhase} (hfresh : phase = .begun ∨ phase = .sending → id ∉ s.sent)
    (haccepted : phase = .told .accepted → call.answer = some (.ok ()))
    (hrejected : ∀ e, phase = .told (.rejected e) → id ∉ s.sent ∨ call.answer = some (.error e)) :
    Inv initial (s.move id call phase) := by
  refine ⟨fun j hj ↦ ?_, h.nodup, h.order, h.atWork, ?_, fun j other hj hphase ↦ ?_,
    fun j other hj hanswer ↦ ?_, fun j other hj hanswer ↦ ?_, fun j other e hj hanswer ↦ ?_,
    fun j other hj hphase ↦ ?_, fun j other e hj hphase ↦ ?_⟩
  · rw [Control.move, List.length_set]
    exact h.known j hj
  · have hconfig : (s.move id call phase).configOf = s.configOf :=
      funext (configOf_set hcall rfl)
    rw [lastApplied, hconfig]
    exact h.config
  · rcases lookup_set hcall hj with ⟨rfl, rfl⟩ | ⟨-, hold⟩
    · exact hfresh hphase
    · exact h.fresh j other hold hphase
  · rcases lookup_set hcall hj with ⟨rfl, rfl⟩ | ⟨-, hold⟩
    · exact h.answered _ call hcall hanswer
    · exact h.answered j other hold hanswer
  · rcases lookup_set hcall hj with ⟨rfl, rfl⟩ | ⟨-, hold⟩
    · exact h.ok _ call hcall hanswer
    · exact h.ok j other hold hanswer
  · rcases lookup_set hcall hj with ⟨rfl, rfl⟩ | ⟨-, hold⟩
    · exact h.error _ call e hcall hanswer
    · exact h.error j other e hold hanswer
  · rcases lookup_set hcall hj with ⟨rfl, rfl⟩ | ⟨-, hold⟩
    · exact haccepted hphase
    · exact h.accepted j other hold hphase
  · rcases lookup_set hcall hj with ⟨rfl, rfl⟩ | ⟨-, hold⟩
    · exact hrejected e hphase
    · exact h.rejected j other e hold hphase

/-- A call is queued. -/
theorem Inv.push (h : Inv initial s) {id : Nat} {call : Call} (hcall : s.calls[id]? = some call)
    (hwaiting : call.phase = .waiting) (hnew : id ∉ s.sent) :
    Inv initial { s with queue := s.queue ++ [id], sent := s.sent ++ [id] } := by
  obtain ⟨done, hsent, hsub⟩ := h.order
  refine ⟨fun j hj ↦ ?_, ?_, ⟨done, ?_, hsub⟩, h.atWork, h.config, fun j other hj hphase hmem ↦ ?_,
    fun j other hj hanswer ↦ ?_, h.ok, h.error, h.accepted, fun j other e hj hphase ↦ ?_⟩
  · rcases List.mem_append.mp hj with hold | hthis
    · exact h.known j hold
    · rw [List.mem_singleton.mp hthis]
      exact (List.getElem?_eq_some_iff.mp hcall).1
  · rw [List.nodup_append]
    refine ⟨h.nodup, List.nodup_singleton id, fun j hj k hk heq ↦ hnew ?_⟩
    rw [← List.mem_singleton.mp hk, ← heq]
    exact hj
  · rw [hsent]
    exact List.append_assoc _ _ _
  · rcases List.mem_append.mp hmem with hold | hthis
    · exact h.fresh j other hj hphase hold
    · rw [List.mem_singleton.mp hthis, hcall] at hj
      cases hj
      rw [hwaiting] at hphase
      rcases hphase with hphase | hphase <;> cases hphase
  · obtain ⟨hold, hheld, hqueue⟩ := h.answered j other hj hanswer
    refine ⟨List.mem_append_left _ hold, hheld, fun hmem ↦ ?_⟩
    rcases List.mem_append.mp hmem with hmem | hthis
    · exact hqueue hmem
    · rw [List.mem_singleton.mp hthis] at hold
      exact hnew hold
  · by_cases hsame : j = id
    · rw [hsame, hcall] at hj
      cases hj
      rw [hwaiting] at hphase
      cases hphase
    · refine (h.rejected j other e hj hphase).imp_left fun hold hmem ↦ ?_
      rcases List.mem_append.mp hmem with hmem | hthis
      · exact hold hmem
      · exact hsame (List.mem_singleton.mp hthis)

/-- A new call. -/
theorem Inv.call (h : Inv initial s) (config : Config) (generation : UInt64) :
    Inv initial { s with calls := s.calls ++ [⟨config, generation, .begun, none⟩] } := by
  have hlookup {j : Nat} {other : Call}
      (hj : (s.calls ++ [⟨config, generation, .begun, none⟩])[j]? = some other) :
      s.calls[j]? = some other ∨
        j = s.calls.length ∧ other = ⟨config, generation, .begun, none⟩ := by
    rcases Nat.lt_or_ge j s.calls.length with hlt | hge
    · rw [List.getElem?_append_left hlt] at hj
      exact .inl hj
    · rw [List.getElem?_append_right hge] at hj
      rw [List.getElem?_singleton] at hj
      split at hj
      · exact .inr ⟨by omega, (Option.some.inj hj).symm⟩
      · cases hj
  have hnew : s.calls.length ∉ s.sent := fun hmem ↦ Nat.lt_irrefl _ (h.known _ hmem)
  refine ⟨fun j hj ↦ ?_, h.nodup, h.order, h.atWork, ?_, fun j other hj hphase ↦ ?_,
    fun j other hj hanswer ↦ ?_, fun j other hj hanswer ↦ ?_, fun j other e hj hanswer ↦ ?_,
    fun j other hj hphase ↦ ?_, fun j other e hj hphase ↦ ?_⟩
  · rw [List.length_append]
    exact Nat.lt_add_right 1 (h.known j hj)
  · rw [h.config, lastApplied, lastApplied]
    cases hlast : s.applied.getLast? with
    | none => rfl
    | some id =>
      have hlt := h.known id (h.applied_sent (List.mem_of_getLast? hlast))
      simp only [Option.bind_some, configOf, List.getElem?_append_left hlt]
  · rcases hlookup hj with hold | ⟨rfl, -⟩
    · exact h.fresh j other hold hphase
    · exact hnew
  · rcases hlookup hj with hold | ⟨-, rfl⟩
    · exact h.answered j other hold hanswer
    · exact absurd rfl hanswer
  · rcases hlookup hj with hold | ⟨-, rfl⟩
    · exact h.ok j other hold hanswer
    · cases hanswer
  · rcases hlookup hj with hold | ⟨-, rfl⟩
    · exact h.error j other e hold hanswer
    · cases hanswer
  · rcases hlookup hj with hold | ⟨-, rfl⟩
    · exact h.accepted j other hold hphase
    · cases hphase
  · rcases hlookup hj with hold | ⟨-, rfl⟩
    · exact h.rejected j other e hold hphase
    · cases hphase

/-- The worker takes a command. -/
theorem Inv.take (h : Inv initial s) {id : Nat} {rest : List Nat} (hidle : s.worker = .idle)
    (hqueue : s.queue = id :: rest) : Inv initial { s with worker := .taken id, queue := rest } := by
  obtain ⟨done, hsent, hsub⟩ := h.order
  rw [hidle, hqueue] at hsent
  rw [hidle] at hsub
  refine ⟨h.known, h.nodup, ⟨done, ?_, hsub⟩, nofun, h.config, h.fresh,
    fun j other hj hanswer ↦ ?_, h.ok, h.error, h.accepted, h.rejected⟩
  · rw [hsent]
    show done ++ [] ++ id :: rest = done ++ [id] ++ rest
    simp only [List.append_nil, List.append_assoc, List.singleton_append]
  · obtain ⟨hold, -, hnot⟩ := h.answered j other hj hanswer
    rw [hqueue] at hnot
    refine ⟨hold, fun hmem ↦ hnot ?_, fun hmem ↦ hnot (List.mem_cons_of_mem id hmem)⟩
    rw [List.mem_singleton.mp hmem]
    exact List.mem_cons_self

/-- The worker goes on with the same command. -/
theorem Inv.goOn (h : Inv initial s) {worker : Worker} (hheld : held worker = held s.worker)
    (hsetting : setting worker = []) (hbefore : setting s.worker = []) :
    Inv initial { s with worker := worker } := by
  obtain ⟨done, hsent, hsub⟩ := h.order
  refine ⟨h.known, h.nodup, ⟨done, ?_, ?_⟩, fun id hset ↦ ?_, h.config, h.fresh,
    fun j other hj hanswer ↦ ?_, h.ok, h.error, h.accepted, h.rejected⟩
  · show s.sent = done ++ held worker ++ s.queue
    rw [hheld]
    exact hsent
  · show s.applied.Sublist (done ++ setting worker)
    rw [hsetting, ← hbefore]
    exact hsub
  · change worker = .set id at hset
    rw [hset] at hsetting
    cases hsetting
  · show j ∈ s.sent ∧ j ∉ held worker ∧ j ∉ s.queue
    rw [hheld]
    exact h.answered j other hj hanswer

/-- The worker is done with its command. -/
theorem Inv.release (h : Inv initial s) {id : Nat} (hheld : held s.worker = [id]) :
    Inv initial { s with worker := .idle } := by
  obtain ⟨done, hsent, hsub⟩ := h.order
  rw [hheld] at hsent
  refine ⟨h.known, h.nodup, ⟨done ++ [id], ?_, ?_⟩, nofun, h.config, h.fresh,
    fun j other hj hanswer ↦ ?_, h.ok, h.error, h.accepted, h.rejected⟩
  · rw [hsent]
    show done ++ [id] ++ s.queue = done ++ [id] ++ [] ++ s.queue
    rw [List.append_nil]
  · refine hsub.trans ?_
    show (done ++ setting s.worker).Sublist (done ++ [id] ++ [])
    rw [List.append_nil]
    apply List.Sublist.append_left
    cases hworker : s.worker with
    | set other =>
      rw [hworker] at hheld
      cases hheld
      exact List.Sublist.refl _
    | _ => exact List.nil_sublist _
  · obtain ⟨hold, -, hnot⟩ := h.answered j other hj hanswer
    exact ⟨hold, List.not_mem_nil, hnot⟩

/-- The answer of a call that the worker is done with. -/
theorem Inv.answer (h : Inv initial s) {id : Nat} {call : Call} (hcall : s.calls[id]? = some call)
    (hopen : call.phase ≠ .told .accepted ∧ ∀ e, call.phase ≠ .told (.rejected e))
    (hdone : id ∈ s.sent ∧ id ∉ held s.worker ∧ id ∉ s.queue)
    {answer : Except SessionControlError Unit} (hok : answer = .ok () → id ∈ s.applied)
    (herror : ∀ e, answer = .error e → id ∉ s.applied) :
    Inv initial { s with calls := s.calls.set id { call with answer := some answer } } := by
  refine ⟨fun j hj ↦ ?_, h.nodup, h.order, h.atWork, ?_, fun j other hj hphase ↦ ?_,
    fun j other hj hanswer ↦ ?_, fun j other hj hanswer ↦ ?_, fun j other e hj hanswer ↦ ?_,
    fun j other hj hphase ↦ ?_, fun j other e hj hphase ↦ ?_⟩
  · rw [List.length_set]
    exact h.known j hj
  · have hconfig : configOf { s with calls := s.calls.set id { call with answer := some answer } } =
      s.configOf := funext (configOf_set hcall rfl)
    rw [lastApplied, hconfig]
    exact h.config
  · rcases lookup_set hcall hj with ⟨rfl, rfl⟩ | ⟨-, hold⟩
    · exact h.fresh _ call hcall hphase
    · exact h.fresh j other hold hphase
  · rcases lookup_set hcall hj with ⟨rfl, rfl⟩ | ⟨-, hold⟩
    · exact hdone
    · exact h.answered j other hold hanswer
  · rcases lookup_set hcall hj with ⟨rfl, rfl⟩ | ⟨-, hold⟩
    · exact hok (Option.some.inj hanswer)
    · exact h.ok j other hold hanswer
  · rcases lookup_set hcall hj with ⟨rfl, rfl⟩ | ⟨-, hold⟩
    · exact herror e (Option.some.inj hanswer)
    · exact h.error j other e hold hanswer
  · rcases lookup_set hcall hj with ⟨rfl, rfl⟩ | ⟨-, hold⟩
    · exact absurd hphase hopen.1
    · exact h.accepted j other hold hphase
  · rcases lookup_set hcall hj with ⟨rfl, rfl⟩ | ⟨-, hold⟩
    · exact absurd hphase (hopen.2 e)
    · exact h.rejected j other e hold hphase

theorem Inv.untold (h : Inv initial s) {id : Nat} {call : Call} (hcall : s.calls[id]? = some call)
    (hheld : id ∈ held s.worker ∨ id ∈ s.queue) :
    call.phase ≠ .told .accepted ∧ ∀ e, call.phase ≠ .told (.rejected e) := by
  have hanswer : call.answer = none := by
    by_contra hanswer
    obtain ⟨-, hnot, hqueue⟩ := h.answered id call hcall hanswer
    rcases hheld with hmem | hmem
    · exact hnot hmem
    · exact hqueue hmem
  constructor
  · intro hphase
    have := h.accepted id call hcall hphase
    rw [hanswer] at this
    cases this
  · intro e hphase
    rcases h.rejected id call e hcall hphase with hunsent | hsome
    · obtain ⟨done, hsent, -⟩ := h.order
      rw [hsent, List.append_assoc] at hunsent
      exact hunsent (List.mem_append_right _ (List.mem_append.mpr hheld))
    · rw [hanswer] at hsome
      cases hsome

/-- The worker answers its command. -/
theorem Inv.reply (h : Inv initial s) {id : Nat} {call : Call} (hcall : s.calls[id]? = some call)
    (hheld : held s.worker = [id]) {answer : Except SessionControlError Unit}
    (hok : answer = .ok () → id ∈ s.applied) (herror : ∀ e, answer = .error e → id ∉ s.applied) :
    Inv initial (s.reply id call answer) := by
  have huntold := h.untold hcall (.inl (by rw [hheld]; exact List.mem_singleton_self id))
  obtain ⟨done, hsent, -⟩ := h.order
  rw [hheld, List.append_assoc] at hsent
  have hnodup := h.nodup
  rw [hsent] at hnodup
  refine (h.release hheld).answer hcall huntold ⟨?_, List.not_mem_nil, fun hmem ↦ ?_⟩ hok herror
  · rw [hsent]
    exact List.mem_append_right _ (List.mem_append_left _ (List.mem_singleton_self id))
  · exact (List.nodup_append.mp (List.nodup_append.mp hnodup).2.1).2.2 id
      (List.mem_singleton_self id) id hmem rfl

/-- The worker ends. -/
theorem Inv.dropCommands (h : Inv initial s) (hidle : s.worker = .idle) :
    Inv initial s.dropCommands := by
  obtain ⟨done, hsent, hsub⟩ := h.order
  rw [hidle] at hsent hsub
  have hsent : s.sent = done ++ s.queue := by
    rw [hsent]
    exact congrArg (· ++ s.queue) (List.append_nil done)
  have hsub : s.applied.Sublist done := by
    rw [← List.append_nil done]
    exact hsub
  have hnodup := h.nodup
  rw [hsent] at hnodup
  have hlookup {j : Nat} {other : Call} (hj : s.dropCommands.calls[j]? = some other) :
      ∃ call, s.calls[j]? = some call ∧ other.config = call.config ∧ other.phase = call.phase ∧
        (j ∈ s.queue ∧ other.answer = some (.error .closed) ∨ other.answer = call.answer) := by
    rw [Control.dropCommands, List.getElem?_mapIdx, Option.map_eq_some_iff] at hj
    obtain ⟨call, hcall, rfl⟩ := hj
    refine ⟨call, hcall, ?_⟩
    split
    · next hmem => exact ⟨rfl, rfl, .inl ⟨hmem, rfl⟩⟩
    · exact ⟨rfl, rfl, .inr rfl⟩
  have hconfig : s.dropCommands.configOf = s.configOf := by
    funext j
    rw [configOf, configOf, Control.dropCommands, List.getElem?_mapIdx, Option.map_map]
    congr 1
    funext call
    show (if j ∈ s.queue then { call with answer := some (.error .closed) } else call).config =
      call.config
    split <;> rfl
  refine ⟨fun j hj ↦ ?_, h.nodup, ⟨done ++ s.queue, ?_, ?_⟩, nofun, ?_, fun j other hj hphase ↦ ?_,
    fun j other hj hanswer ↦ ?_, fun j other hj hanswer ↦ ?_, fun j other e hj hanswer ↦ ?_,
    fun j other hj hphase ↦ ?_, fun j other e hj hphase ↦ ?_⟩
  · rw [Control.dropCommands, List.length_mapIdx]
    exact h.known j hj
  · show s.sent = done ++ s.queue ++ [] ++ []
    rw [List.append_nil, List.append_nil, hsent]
  · show s.applied.Sublist (done ++ s.queue ++ [])
    rw [List.append_nil]
    exact hsub.trans (List.sublist_append_left done s.queue)
  · rw [lastApplied, hconfig]
    exact h.config
  · obtain ⟨call, hcall, -, hsame, -⟩ := hlookup hj
    rw [hsame] at hphase
    exact h.fresh j call hcall hphase
  · obtain ⟨call, hcall, -, -, ⟨hmem, -⟩ | hsame⟩ := hlookup hj
    · refine ⟨?_, List.not_mem_nil, List.not_mem_nil⟩
      show j ∈ s.sent
      rw [hsent]
      exact List.mem_append_right _ hmem
    · rw [hsame] at hanswer
      exact ⟨(h.answered j call hcall hanswer).1, List.not_mem_nil, List.not_mem_nil⟩
  · obtain ⟨call, hcall, -, -, ⟨-, hclosed⟩ | hsame⟩ := hlookup hj
    · rw [hclosed] at hanswer
      cases hanswer
    · rw [hsame] at hanswer
      exact h.ok j call hcall hanswer
  · obtain ⟨call, hcall, -, -, ⟨hmem, -⟩ | hsame⟩ := hlookup hj
    · intro happlied
      exact (List.nodup_append.mp hnodup).2.2 j (hsub.subset happlied) j hmem rfl
    · rw [hsame] at hanswer
      exact h.error j call e hcall hanswer
  · obtain ⟨call, hcall, -, hsame, ⟨hmem, -⟩ | hanswer⟩ := hlookup hj
    · rw [hsame] at hphase
      exact absurd hphase (h.untold hcall (.inr hmem)).1
    · rw [hsame] at hphase
      rw [hanswer]
      exact h.accepted j call hcall hphase
  · obtain ⟨call, hcall, -, hsame, ⟨hmem, -⟩ | hanswer⟩ := hlookup hj
    · rw [hsame] at hphase
      exact absurd hphase ((h.untold hcall (.inr hmem)).2 e)
    · rw [hsame] at hphase
      rw [hanswer]
      exact h.rejected j call e hcall hphase

/-- The worker sets the configuration. -/
theorem Inv.apply (h : Inv initial s) {id : Nat} {call : Call} (hchecked : s.worker = .checked id)
    (hcall : s.calls[id]? = some call) :
    Inv initial { s with worker := .set id, config := call.config, applied := s.applied ++ [id] } := by
  obtain ⟨done, hsent, hsub⟩ := h.order
  rw [hchecked] at hsent hsub
  refine ⟨h.known, h.nodup, ⟨done, hsent, ?_⟩, fun j hset ↦ ?_, ?_, h.fresh,
    fun j other hj hanswer ↦ ?_, fun j other hj hanswer ↦ ?_, fun j other e hj hanswer hmem ↦ ?_,
    h.accepted, h.rejected⟩
  · have hsub : s.applied.Sublist done := by
      rw [← List.append_nil done]
      exact hsub
    exact hsub.append (List.Sublist.refl _)
  · cases hset
    exact List.mem_append_right _ (List.mem_singleton_self id)
  · rw [lastApplied, List.getLast?_concat, Option.bind_some, configOf, hcall]
    rfl
  · have := h.answered j other hj hanswer
    rw [hchecked] at this
    exact this
  · exact List.mem_append_left _ (h.ok j other hj hanswer)
  · rcases List.mem_append.mp hmem with hold | hthis
    · exact h.error j other e hj hanswer hold
    · rw [List.mem_singleton.mp hthis] at hj
      have hnot := (h.answered id other hj (by rw [hanswer]; exact nofun)).2.1
      rw [hchecked] at hnot
      exact hnot (List.mem_singleton_self id)

/-- Every operation keeps the invariant. -/
theorem Inv.step (h : Inv initial s) (hstep : Step s s') : Inv initial s' := by
  cases hstep with
  | call config generation => exact h.call config generation
  | refuse hcall hbegun _ =>
    exact h.move hcall nofun nofun fun e _ ↦ .inl (h.fresh _ _ hcall (.inl hbegun))
  | accept hcall hbegun _ =>
    exact h.move hcall (fun _ ↦ h.fresh _ _ hcall (.inl hbegun)) nofun nofun
  | @send id call hcall hsending _ _ =>
    have hnew := h.fresh _ _ hcall (.inr hsending)
    have hmoved : (s.move id call .waiting).calls[id]? = some { call with phase := .waiting } :=
      List.getElem?_set_self (List.getElem?_eq_some_iff.mp hcall).1
    have hwaiting : Inv initial (s.move id call .waiting) := h.move hcall nofun nofun nofun
    exact hwaiting.push hmoved rfl hnew
  | sendClosed hcall hsending _ =>
    exact h.move hcall nofun nofun fun e _ ↦ .inl (h.fresh _ _ hcall (.inr hsending))
  | @hear id call answer hcall _ hanswer =>
    refine h.move hcall nofun (fun hphase ↦ ?_) fun e hphase ↦ .inr ?_
    · cases answer with
      | ok _ => exact hanswer
      | error e => cases hphase
    · cases answer with
      | ok _ => cases hphase
      | error e' =>
        cases hphase
        exact hanswer
  | abandon hcall _ => exact h.move hcall nofun nofun nofun
  | stop => exact ⟨h.known, h.nodup, h.order, h.atWork, h.config, h.fresh, h.answered, h.ok, h.error,
      h.accepted, h.rejected⟩
  | take hidle hqueue => exact h.take hidle hqueue
  | skip htaken _ _ => exact h.release (by rw [htaken]; rfl)
  | check htaken _ _ _ =>
    exact h.goOn (by rw [htaken]; rfl) rfl (by rw [htaken]; rfl)
  | mismatch htaken _ _ _ =>
    exact h.goOn (by rw [htaken]; rfl) rfl (by rw [htaken]; rfl)
  | reject hstale hcall =>
    have hnot := (h.not_applied (by rw [hstale]; rfl) (by rw [hstale]; rfl)).1
    exact h.reply hcall (by rw [hstale]; rfl) nofun fun _ _ ↦ hnot
  | apply hchecked hcall => exact h.apply hchecked hcall
  | acknowledge hset hcall =>
    exact h.reply hcall (by rw [hset]; rfl) (fun _ ↦ h.atWork _ hset) nofun
  | finish hidle => exact h.dropCommands hidle

theorem inv_reachable {generation : UInt64} (hreachable : Reachable generation initial s) :
    Inv initial s := by
  induction hreachable with
  | refl => exact inv_start generation initial
  | tail _ hstep ih => exact ih.step hstep

/-! ### Timeouts -/

/-- A command in the queue or at the worker has no answer. -/
theorem Inv.unanswered (h : Inv initial s) {id : Nat} {call : Call}
    (hcall : s.calls[id]? = some call) (hheld : id ∈ held s.worker ∨ id ∈ s.queue) :
    call.answer = none := by
  by_contra hanswer
  obtain ⟨-, hnot, hqueue⟩ := h.answered id call hcall hanswer
  rcases hheld with hmem | hmem
  · exact hnot hmem
  · exact hqueue hmem

/-- What a call was told is final, and so are an acceptance and what the call asks for. -/
def Kept (call call' : Call) : Prop :=
  (∀ outcome, call.phase = .told outcome → call'.phase = .told outcome) ∧
    (call.answer = some (.ok ()) → call'.answer = some (.ok ())) ∧ call'.config = call.config

theorem kept_set {id j : Nat} {call other other' : Call} (hcall : s.calls[id]? = some call)
    (hother : s.calls[j]? = some other) (hkept : Kept other other') :
    ∃ call', (s.calls.set j other')[id]? = some call' ∧ Kept call call' := by
  by_cases hsame : j = id
  · subst hsame
    rw [hcall] at hother
    cases hother
    exact ⟨other', List.getElem?_set_self (List.getElem?_eq_some_iff.mp hcall).1, hkept⟩
  · exact ⟨call, by rw [List.getElem?_set_ne hsame, hcall], fun _ hphase ↦ hphase,
      fun hanswer ↦ hanswer, rfl⟩

theorem call_step (h : Inv initial s) (hstep : Step s s') {id : Nat} {call : Call}
    (hcall : s.calls[id]? = some call) : ∃ call', s'.calls[id]? = some call' ∧ Kept call call' := by
  have hsame : Kept call call := ⟨fun _ hphase ↦ hphase, fun hanswer ↦ hanswer, rfl⟩
  have hmove {other : Call} {phase : CallPhase} (hpending : ∀ outcome, other.phase ≠ .told outcome) :
      Kept other { other with phase := phase } :=
    ⟨fun outcome htold ↦ absurd htold (hpending outcome), fun hanswer ↦ hanswer, rfl⟩
  have hreply {other : Call} {answer : Except SessionControlError Unit} (hnone : other.answer = none) :
      Kept other { other with answer := some answer } := by
    refine ⟨fun _ hphase ↦ hphase, fun hanswer ↦ ?_, rfl⟩
    rw [hnone] at hanswer
    cases hanswer
  cases hstep with
  | call config generation =>
    refine ⟨call, ?_, hsame⟩
    rw [List.getElem?_append_left (List.getElem?_eq_some_iff.mp hcall).1, hcall]
  | refuse hother hbegun _ =>
    exact kept_set hcall hother (hmove fun _ ↦ by rw [hbegun]; exact nofun)
  | accept hother hbegun _ =>
    exact kept_set hcall hother (hmove fun _ ↦ by rw [hbegun]; exact nofun)
  | send hother hsending _ _ =>
    exact kept_set hcall hother (hmove fun _ ↦ by rw [hsending]; exact nofun)
  | sendClosed hother hsending _ =>
    exact kept_set hcall hother (hmove fun _ ↦ by rw [hsending]; exact nofun)
  | hear hother hwaiting _ =>
    exact kept_set hcall hother (hmove fun _ ↦ by rw [hwaiting]; exact nofun)
  | abandon hother hpending => exact kept_set hcall hother (hmove hpending)
  | stop => exact ⟨call, hcall, hsame⟩
  | take _ _ => exact ⟨call, hcall, hsame⟩
  | skip _ _ _ => exact ⟨call, hcall, hsame⟩
  | check _ _ _ _ => exact ⟨call, hcall, hsame⟩
  | mismatch _ _ _ _ => exact ⟨call, hcall, hsame⟩
  | @reject j _ hstale hother =>
    refine kept_set hcall hother (hreply (h.unanswered hother (.inl ?_)))
    rw [hstale]
    exact List.mem_singleton_self j
  | apply _ _ => exact ⟨call, hcall, hsame⟩
  | @acknowledge j _ hset hother =>
    refine kept_set hcall hother (hreply (h.unanswered hother (.inl ?_)))
    rw [hset]
    exact List.mem_singleton_self j
  | finish _ =>
    refine ⟨_, by rw [dropCommands, List.getElem?_mapIdx, hcall]; rfl, ?_⟩
    split
    · next hmem => exact hreply (h.unanswered hcall (.inr hmem))
    · exact hsame

/-- An applied command is answered, or is the next one to be. -/
def Answered (s : Control) : Prop :=
  ∀ id ∈ s.applied, s.worker = .set id ∨
    ∃ call, s.calls[id]? = some call ∧ call.answer = some (.ok ())

theorem Answered.step (h : Inv initial s) (hanswered : Answered s) (hstep : Step s s') :
    Answered s' := by
  have hkeep {id : Nat} (hmem : id ∈ s.applied) (hset : s.worker = .set id → s'.worker = .set id ∨
      ∃ call, s'.calls[id]? = some call ∧ call.answer = some (.ok ())) :
      s'.worker = .set id ∨ ∃ call, s'.calls[id]? = some call ∧ call.answer = some (.ok ()) := by
    rcases hanswered id hmem with hworker | ⟨call, hcall, hok⟩
    · exact hset hworker
    · obtain ⟨call', hcall', hkept⟩ := call_step h hstep hcall
      exact .inr ⟨call', hcall', hkept.2.1 hok⟩
  intro id hmem
  cases hstep with
  | call _ _ => exact hkeep hmem .inl
  | refuse _ _ _ => exact hkeep hmem .inl
  | accept _ _ _ => exact hkeep hmem .inl
  | send _ _ _ _ => exact hkeep hmem .inl
  | sendClosed _ _ _ => exact hkeep hmem .inl
  | hear _ _ _ => exact hkeep hmem .inl
  | abandon _ _ => exact hkeep hmem .inl
  | stop => exact hkeep hmem .inl
  | take hidle _ => exact hkeep hmem fun hset ↦ absurd (hidle.symm.trans hset) nofun
  | skip htaken _ _ => exact hkeep hmem fun hset ↦ absurd (htaken.symm.trans hset) nofun
  | check htaken _ _ _ => exact hkeep hmem fun hset ↦ absurd (htaken.symm.trans hset) nofun
  | mismatch htaken _ _ _ => exact hkeep hmem fun hset ↦ absurd (htaken.symm.trans hset) nofun
  | reject hstale _ => exact hkeep hmem fun hset ↦ absurd (hstale.symm.trans hset) nofun
  | apply hchecked _ =>
    rcases List.mem_append.mp hmem with hold | hthis
    · exact hkeep hold fun hset ↦ absurd (hchecked.symm.trans hset) nofun
    · rw [List.mem_singleton.mp hthis]
      exact .inl rfl
  | @acknowledge j call hset hcall =>
    refine hkeep hmem fun hset' ↦ .inr ?_
    cases hset.symm.trans hset'
    exact ⟨{ call with answer := some (.ok ()) },
      List.getElem?_set_self (List.getElem?_eq_some_iff.mp hcall).1, rfl⟩
  | finish hidle => exact hkeep hmem fun hset ↦ absurd (hidle.symm.trans hset) nofun

theorem accepted_of_set {id j : Nat} {call other other' : Call} (hother : s.calls[j]? = some other)
    (hanswer : other'.answer = some (.ok ()) → other.answer = some (.ok ()))
    (hcall : (s.calls.set j other')[id]? = some call) (hok : call.answer = some (.ok ())) :
    ∃ old, s.calls[id]? = some old ∧ old.answer = some (.ok ()) := by
  rcases lookup_set hother hcall with ⟨rfl, rfl⟩ | ⟨-, hold⟩
  · exact ⟨other, hother, hanswer hok⟩
  · exact ⟨call, hold, hok⟩

/-- A step puts an answer on its way only while its caller is waiting. -/
theorem answering_step (hstep : Step s s') {id : Nat} {call' : Call}
    (hcall' : s'.calls[id]? = some call') (hanswering : s'.Answering id) :
    s.Answering id ∨ ∀ outcome, call'.phase ≠ .told outcome := by
  have hback (hworker : s'.worker = s.worker ∨ ∀ j, s'.worker ≠ .checked j ∧ s'.worker ≠ .set j)
      (hanswers : ∀ call, s'.calls[id]? = some call → call.answer = some (.ok ()) →
        ∃ old, s.calls[id]? = some old ∧ old.answer = some (.ok ())) : s.Answering id := by
    rcases hanswering with hchecked | hset | ⟨call, hcall, hok⟩
    · rcases hworker with hsame | hother
      · exact .inl (hsame ▸ hchecked)
      · exact absurd hchecked (hother id).1
    · rcases hworker with hsame | hother
      · exact .inr (.inl (hsame ▸ hset))
      · exact absurd hset (hother id).2
    · exact .inr (.inr (hanswers call hcall hok))
  have hold (call : Call) (hcall : s.calls[id]? = some call) (hok : call.answer = some (.ok ())) :
      ∃ old, s.calls[id]? = some old ∧ old.answer = some (.ok ()) := ⟨call, hcall, hok⟩
  cases hstep with
  | call config generation =>
    refine .inl (hback (.inl rfl) fun call hcall hok ↦ ?_)
    rw [List.getElem?_append] at hcall
    split at hcall
    · exact ⟨call, hcall, hok⟩
    · rw [List.getElem?_singleton] at hcall
      split at hcall
      · cases hcall
        cases hok
      · cases hcall
  | refuse hother _ _ => exact .inl (hback (.inl rfl) fun _ ↦ accepted_of_set hother fun hok ↦ hok)
  | accept hother _ _ => exact .inl (hback (.inl rfl) fun _ ↦ accepted_of_set hother fun hok ↦ hok)
  | send hother _ _ _ => exact .inl (hback (.inl rfl) fun _ ↦ accepted_of_set hother fun hok ↦ hok)
  | sendClosed hother _ _ =>
    exact .inl (hback (.inl rfl) fun _ ↦ accepted_of_set hother fun hok ↦ hok)
  | hear hother _ _ => exact .inl (hback (.inl rfl) fun _ ↦ accepted_of_set hother fun hok ↦ hok)
  | abandon hother _ => exact .inl (hback (.inl rfl) fun _ ↦ accepted_of_set hother fun hok ↦ hok)
  | stop => exact .inl (hback (.inl rfl) hold)
  | take _ _ => exact .inl (hback (.inr fun _ ↦ ⟨nofun, nofun⟩) hold)
  | skip _ _ _ => exact .inl (hback (.inr fun _ ↦ ⟨nofun, nofun⟩) hold)
  | @check j call htaken hcall hopen _ =>
    rcases hanswering with hchecked | hset | hok
    · cases hchecked
      right
      cases hcall.symm.trans hcall'
      exact hopen
    · cases hset
    · exact .inl (.inr (.inr hok))
  | mismatch _ _ _ _ => exact .inl (hback (.inr fun _ ↦ ⟨nofun, nofun⟩) hold)
  | reject _ hother =>
    exact .inl (hback (.inr fun _ ↦ ⟨nofun, nofun⟩) fun _ ↦ accepted_of_set hother nofun)
  | @apply j _ hchecked _ =>
    left
    rcases hanswering with hchecked' | hset | hok
    · cases hchecked'
    · cases hset
      exact .inl hchecked
    · exact .inr (.inr hok)
  | @acknowledge j call hset hcall =>
    left
    rcases hanswering with hchecked | hset' | ⟨other, hother, hok⟩
    · cases hchecked
    · cases hset'
    · rcases lookup_set hcall hother with ⟨rfl, -⟩ | ⟨-, hother⟩
      · exact .inr (.inl hset)
      · exact .inr (.inr ⟨other, hother, hok⟩)
  | finish _ =>
    refine .inl (hback (.inr fun _ ↦ ⟨nofun, nofun⟩) fun call hcall hok ↦ ?_)
    rw [dropCommands, List.getElem?_mapIdx, Option.map_eq_some_iff] at hcall
    obtain ⟨old, hold, rfl⟩ := hcall
    split at hok
    · cases hok
    · exact ⟨old, hold, hok⟩

/-- The answer of a call that was abandoned is not on its way. -/
def Discarded (s : Control) : Prop :=
  ∀ id call, s.calls[id]? = some call → call.phase = .told .timedOut → ¬s.Answering id

theorem Discarded.step (hdiscarded : Discarded s) (hstep : Step s s') (htimely : Timely s s') :
    Discarded s' := by
  intro id call hcall hphase hanswering
  rcases answering_step hstep hcall hanswering with hbefore | hopen
  · obtain ⟨old, hold, htold⟩ := htimely id call hcall hphase hbefore
    exact hdiscarded id old hold htold hbefore
  · exact hopen _ hphase

/-- A command that was found waiting stays the next to be applied, or it is applied. -/
theorem applied_step (hstep : Step s s') {id : Nat}
    (hid : s.worker = .checked id ∨ id ∈ s.applied) :
    s'.worker = .checked id ∨ id ∈ s'.applied := by
  have happlied {worker : Worker} (hworker : s.worker = worker) (hother : worker ≠ .checked id) :
      id ∈ s.applied := hid.resolve_left fun hchecked ↦ hother (hworker.symm.trans hchecked)
  cases hstep with
  | call _ _ => exact hid
  | refuse _ _ _ => exact hid
  | accept _ _ _ => exact hid
  | send _ _ _ _ => exact hid
  | sendClosed _ _ _ => exact hid
  | hear _ _ _ => exact hid
  | abandon _ _ => exact hid
  | stop => exact hid
  | take hidle _ => exact .inr (happlied hidle nofun)
  | skip htaken _ _ => exact .inr (happlied htaken nofun)
  | check htaken _ _ _ => exact .inr (happlied htaken nofun)
  | mismatch htaken _ _ _ => exact .inr (happlied htaken nofun)
  | reject hstale _ => exact .inr (happlied hstale nofun)
  | apply hchecked _ =>
    right
    rcases hid with hthis | hold
    · cases hchecked.symm.trans hthis
      exact List.mem_append_right _ (List.mem_singleton_self id)
    · exact List.mem_append_left _ hold
  | acknowledge hset _ => exact .inr (happlied hset nofun)
  | finish hidle => exact .inr (happlied hidle nofun)

/-! ### Acknowledgements -/

/-- What holds of the updates at any time. -/
structure Guarantees (initial : Config) (s : Control) : Prop where
  accepted : ∀ id call, s.calls[id]? = some call → call.phase = .told .accepted → id ∈ s.applied
  rejected : ∀ id call error, s.calls[id]? = some call → call.phase = .told (.rejected error) →
    id ∉ s.applied
  once : s.applied.Nodup
  ordered : s.applied.Sublist s.sent
  config : s.config = s.lastApplied initial

theorem Inv.guarantees (h : Inv initial s) : Guarantees initial s := by
  have hordered : s.applied.Sublist s.sent := by
    obtain ⟨done, hsent, hsub⟩ := h.order
    rw [hsent]
    refine (hsub.trans ?_).trans (List.sublist_append_left _ s.queue)
    apply List.Sublist.append_left
    cases s.worker with
    | set id => exact List.Sublist.refl [id]
    | _ => exact List.nil_sublist _
  refine ⟨fun id call hcall hphase ↦ ?_, fun id call error hcall hphase happlied ↦ ?_,
    h.nodup.sublist hordered, hordered, h.config⟩
  · exact h.ok id call hcall (h.accepted id call hcall hphase)
  · rcases h.rejected id call error hcall hphase with hunsent | herror
    · exact hunsent (h.applied_sent happlied)
    · exact h.error id call error hcall herror happlied

/-- In every run an accepted update is applied, a rejected one is not, and the configuration is that
of the last applied one in the order of the queue. If no call is abandoned while its answer is on its
way, no update that has timed out is applied; and every update that is abandoned then is applied. -/
theorem updates_acknowledged (generation : UInt64) (initial : Config) :
    (∀ s, Reachable generation initial s → Guarantees initial s) ∧
      (∀ (s s' : Control) (id : Nat) (call : Call) (outcome : Outcome),
        Reachable generation initial s → Step s s' →
        s.calls[id]? = some call → call.phase = .told outcome →
          ∃ call', s'.calls[id]? = some call' ∧ call'.phase = .told outcome) ∧
      (∀ (s : Control) (id : Nat) (call : Call), ReachableTimely generation initial s → s.calls[id]? = some call →
        call.phase = .told .timedOut → id ∉ s.applied) ∧
      ∀ s t id, Reachable generation initial s → s.Answering id →
        Relation.ReflTransGen Step s t → t.worker = .checked id ∨ id ∈ t.applied := by
  have hboth {s : Control} (hreachable : Reachable generation initial s) :
      Inv initial s ∧ Answered s := by
    induction hreachable with
    | refl => exact ⟨inv_start generation initial, nofun⟩
    | tail _ hstep ih => exact ⟨ih.1.step hstep, ih.2.step ih.1 hstep⟩
  refine ⟨fun s hreachable ↦ (hboth hreachable).1.guarantees,
    fun s s' id call outcome hreachable hstep hcall hphase ↦ ?_,
    fun s id call htimely hcall hphase happlied ↦ ?_, fun s t id hreachable hanswering hruns ↦ ?_⟩
  · obtain ⟨call', hcall', hkept⟩ := call_step (hboth hreachable).1 hstep hcall
    exact ⟨call', hcall', hkept.1 outcome hphase⟩
  · have hreachable : Reachable generation initial s :=
      Relation.ReflTransGen.mono (fun _ _ (hstep : _ ∧ _) ↦ hstep.1) _ _ htimely
    have hdiscarded : Discarded s := by
      clear hcall happlied
      induction htimely with
      | refl => exact nofun
      | @tail s s' hbefore hstep ih =>
        have hreachable : Reachable generation initial s :=
          Relation.ReflTransGen.mono (fun _ _ (hstep : _ ∧ _) ↦ hstep.1) _ _ hbefore
        exact (ih hreachable).step hstep.1 hstep.2
    exact hdiscarded id call hcall hphase (.inr ((hboth hreachable).2 id happlied))
  · induction hruns with
    | refl =>
      have hinv := (hboth hreachable).1
      rcases hanswering with hchecked | hset | ⟨call, hcall, hok⟩
      · exact .inl hchecked
      · exact .inr (hinv.atWork id hset)
      · exact .inr (hinv.ok id call hcall hok)
    | tail _ hstep ih => exact applied_step hstep ih

/-- A call that times out between the look of the worker and its update. -/
theorem abandoned_applied : ∃ (s : Control) (call : Call),
    Reachable 0 ⟨"old", none⟩ s ∧ s.calls[0]? = some call ∧ call.phase = .told .timedOut ∧
      0 ∈ s.applied ∧ s.config = call.config := by
  refine ⟨⟨0, false, [⟨⟨"new", none⟩, 0, .told .timedOut, none⟩], [], .set 0, ⟨"new", none⟩, [0],
    [0]⟩, _, ?_, rfl, rfl, List.mem_singleton_self 0, rfl⟩
  exact .head (.call ⟨"new", none⟩ 0) <|
    .head (@Step.accept _ 0 ⟨⟨"new", none⟩, 0, .begun, none⟩ rfl rfl rfl) <|
    .head (@Step.send _ 0 ⟨⟨"new", none⟩, 0, .sending, none⟩ rfl rfl nofun (by decide)) <|
    .head (.take rfl rfl) <|
    .head (@Step.check _ 0 ⟨⟨"new", none⟩, 0, .waiting, none⟩ rfl rfl nofun rfl) <|
    .head (@Step.abandon _ 0 ⟨⟨"new", none⟩, 0, .waiting, none⟩ rfl nofun) <|
    .head (@Step.apply _ 0 ⟨⟨"new", none⟩, 0, .told .timedOut, none⟩ rfl rfl) .refl

end Control

end Vidarax.Session
