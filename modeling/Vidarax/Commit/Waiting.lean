import Vidarax.Commit.Progress

/-!
# Waiting for a deletion

A call that finds a deletion in flight waits for its end. It sleeps only while the deletion is in
flight or somebody is about to wake it, so that it is never left behind.
-/

namespace Vidarax.Commit

open Vidarax.Base Vidarax.Timeline Vidarax.Runs

/-- The call waits for the end of the deletion that is in flight for a run. -/
def CallState.Waits (run : Ref) : CallState → Prop
  | .spinning other | .listening other | .loading other _ | .awaiting other _ => other = run
  | _ => False

/-- Steps of a waiting call, once it is awake, until it looks the run up again. -/
def CallState.wait : CallState → Nat
  | .awaiting .. => 3
  | .listening _ => 2
  | .loading .. | .spinning _ => 1
  | _ => 0

theorem CallState.Done.not_waits {state : CallState} (h : state.Done) (run : Ref) :
    ¬ state.Waits run := by
  rcases h with rfl | ⟨result, rfl⟩ | rfl <;> exact fun hwaits ↦ hwaits

namespace System

variable {s s' : System} {id : Nat} {crc : Bytes → UInt32} {fromStr : String → Option Json}
  {stored : List TimelineEvent} {run : Ref} {actions : Nat → Action}

/-! ### No wake-up is lost -/

/-- Somebody wakes the calls that wait for a run next. -/
def Rousing (s : System) (run : Ref) : Prop :=
  s.wake = some run ∨ ∃ (id : Nat) (call : Call) (err : String), s.calls[id]? = some call ∧
    call.state = .waking run err

/-- A call sleeps only while the deletion is in flight, or if it is about to be woken. -/
def Alert (s : System) : Prop :=
  ∀ call ∈ s.calls, ∀ run, call.state = .awaiting run false →
    s.flag run = some .appendInFlight ∨ s.Rousing run

/-- The one who wakes is not the call that moves on. -/
theorem Rousing.setCall (h : s.Rousing run) {call : Call} (hcall : s.calls[id]? = some call)
    (hnot : ∀ err, call.state ≠ .waking run err) (state : CallState) :
    (s.setCall id state).Rousing run := by
  rcases h with hwake | ⟨other, waking, err, hwaking, hstate⟩
  · exact .inl hwake
  · right
    refine ⟨other, waking, err, ?_, hstate⟩
    have hother : id ≠ other := by
      rintro rfl
      obtain rfl := Option.some.inj (hcall.symm.trans hwaking)
      exact hnot err hstate
    rwa [getElem?_setCall_ne hother]

theorem Rousing.modify (h : s.Rousing run) (other : Ref) (f : RunState → RunState) :
    (s.modify other f).Rousing run := by
  rwa [Rousing, wake_modify, calls_modify]

/-- A call that wakes others is not woken. -/
theorem wake_of_waking {call : Call} {err : String} (h : call.state = .waking run err)
    (other : Ref) : call.wake other = call := by
  obtain ⟨mode, runId, streamId, kind, payload, state⟩ := call
  cases h
  rfl

/-- A call that sleeps for one run is not the one that another run's end wakes. -/
theorem wake_eq_awaiting {call : Call} {other : Ref}
    (h : (call.wake other).state = .awaiting run false) :
    call.state = .awaiting run false ∧ run ≠ other := by
  rcases call.wake_state other with hsame | ⟨name, woken, hstate, hwoken⟩ |
    ⟨name, woken, hstate, hwoken⟩
  · rw [hsame] at h
    refine ⟨h, ?_⟩
    rintro rfl
    unfold Call.wake at hsame
    rw [h] at hsame
    simp at hsame
  · rw [hwoken] at h
    cases h
  · rw [hwoken] at h
    obtain ⟨rfl, hasleep⟩ := CallState.awaiting.inj h
    rw [Bool.or_eq_false_iff] at hasleep
    rw [hstate, hasleep.1]
    exact ⟨rfl, of_decide_eq_false hasleep.2⟩

/-- The calls that wait for a run are woken. -/
theorem Alert.notify (h : s.Alert) (other : Ref) :
    ∀ call ∈ (s.notify other).calls, ∀ run, call.state = .awaiting run false →
      run ≠ other ∧ (s.flag run = some .appendInFlight ∨ s.Rousing run) := by
  intro call hcall run hasleep
  obtain ⟨old, hold, rfl⟩ := List.mem_map.mp hcall
  obtain ⟨hbefore, hother⟩ := wake_eq_awaiting hasleep
  exact ⟨hother, h old hold run hbefore⟩

/-- A call sets out to wake others, or stays so, when calls are woken. -/
theorem Rousing.notify (h : s.Rousing run) (other : Ref) : (s.notify other).Rousing run := by
  rcases h with hwake | ⟨id, waking, err, hwaking, hstate⟩
  · exact .inl hwake
  · refine .inr ⟨id, waking, err, ?_, hstate⟩
    rw [notify_calls, List.getElem?_map, hwaking, Option.map_some, wake_of_waking hstate]

theorem Alert.callMove (h : s.Alert) (hcoherent : Coherent stored s) (hmove : s.CallMove id s') :
    s'.Alert := by
  have hset {call : Call} {state : CallState} (hcall : s.calls[id]? = some call)
      (hnot : ∀ run err, call.state ≠ .waking run err)
      (hnew : ∀ run, state = .awaiting run false → s.flag run = some .appendInFlight) :
      (s.setCall id state).Alert := by
    intro call' hmem run hasleep
    rcases mem_setCall hcall hmem with hold | rfl
    · exact (h call' hold run hasleep).imp_right fun hrousing ↦
        hrousing.setCall hcall (hnot run) state
    · exact .inl (hnew run hasleep)
  cases hmove with
  | stay => exact h
  | @shift call state hcall hshift =>
    apply hset hcall
    · intro run err hwaking
      rw [hwaking] at hshift
      cases hshift
    · intro run hasleep
      generalize call.state = start at hshift
      cases hshift with
      | sleep hflag =>
        rwa [← (CallState.awaiting.inj hasleep).1]
      | @refused guard err | @late guard err | @full guard err => cases guard <;> cases hasleep
      | _ => cases hasleep
  | @claim call other hcall hstate hlive =>
    have hnot (run : Ref) (err : String) : call.state ≠ .waking run err := by
      rw [hstate]
      simp
    intro call' hmem run hasleep
    rw [System.setCall, calls_modify] at hmem
    rcases mem_modify hcall hmem with hold | rfl
    · rcases h call' hold run hasleep with hflag | hrousing
      · left
        show (s.modify other RunState.beginDeleteAppend).flag run = _
        rw [flag_beginDeleteAppend hlive]
        split
        · rfl
        · exact hflag
      · exact .inr ((hrousing.modify other _).setCall (by rw [calls_modify]; exact hcall)
          (hnot run) _)
    · cases hasleep
  | @send call guard hcall hstate =>
    have hnot (run : Ref) (err : String) : call.state ≠ .waking run err := by
      rw [hstate]
      simp
    have hsent (run : Ref) (hasleep : sent call = .awaiting run false) :
        s.flag run = some .appendInFlight := by
      unfold sent at hasleep
      split at hasleep <;> cases hasleep
    exact hset hcall hnot hsent
  | @withdraw call other err hcall hstate =>
    have hnot (run : Ref) (err : String) : call.state ≠ .waking run err := by
      rw [hstate]
      simp
    have hheld : other ∈ call.state.guards := by
      rw [hstate]
      exact List.mem_singleton.mpr rfl
    have hclaimed := hcoherent.claimed.flag_of_mem (mem_guards_of_call hcall hheld)
    have hcall' : (s.modify other RunState.rollbackDeleteAppend).calls[id]? = some call := by
      rw [calls_modify, hcall]
    intro call' hmem run hasleep
    rw [System.setCall, calls_modify] at hmem
    rcases mem_modify hcall hmem with hold | rfl
    · by_cases hother : run = other
      · subst hother
        exact .inr (.inr ⟨id, _, err, getElem?_setCall_eq hcall' _, rfl⟩)
      · rcases h call' hold run hasleep with hflag | hrousing
        · left
          show (s.modify other RunState.rollbackDeleteAppend).flag run = _
          rw [flag_rollbackDeleteAppend hclaimed, if_neg hother, hflag]
        · exact .inr ((hrousing.modify other _).setCall hcall' (hnot run) _)
    · cases hasleep
  | @wake call other err hcall hstate =>
    have hcall' : (s.notify other).calls[id]? = some (call.wake other) := by
      rw [notify_calls, List.getElem?_map, hcall]
      rfl
    intro call' hmem run hasleep
    rcases mem_setCall hcall' hmem with hold | rfl
    · obtain ⟨hother, hflag | hrousing⟩ := h.notify other call' hold run hasleep
      · exact .inl hflag
      · refine .inr ((hrousing.notify other).setCall hcall' (fun err hwaking ↦ ?_) _)
        rw [wake_of_waking hstate, hstate] at hwaking
        exact hother (CallState.waking.inj hwaking).1.symm
    · cases hasleep

/-- A step of the writer that wakes nobody. -/
theorem Alert.of_same (h : s.Alert) (hcoherent : Coherent stored s)
    (hmove : s.WriterMove crc fromStr s') (hcalls : s'.calls = s.calls)
    (hwake : s'.wake = s.wake ∨ s.wake = none) : s'.Alert := by
  intro call hcall run hasleep
  rw [hcalls] at hcall
  have hrouse (hrousing : s.Rousing run) : s'.Rousing run := by
    rcases hrousing with hrun | hwaking
    · rcases hwake with hsame | hnone
      · exact .inl (hsame.trans hrun)
      · rw [hnone] at hrun
        cases hrun
    · rw [Rousing, hcalls]
      exact .inr hwaking
  rcases h call hcall run hasleep with hflag | hrousing
  · rcases flag_writerMove hcoherent.claimed hmove run with hsame | hnew
    · exact .inl (hsame.trans hflag)
    · generalize s'.flag run = value at hnew ⊢
      have hfresh {name : String} (hrun : run = ⟨name, s.generation name + 1⟩) : False := by
        rw [hrun, flag, object, if_neg (Nat.succ_ne_self _),
          hcoherent.claimed.fresh ⟨name, s.generation name + 1⟩ (Nat.lt_succ_self _)] at hflag
        cases hflag
      cases hnew with
      | committed hdue hroused | dropped hdue hroused => exact .inr (.inl hroused)
      | recorded hfirst hrun hset => exact (hfresh hrun).elim
      | forgotten hrun => exact (hfresh hrun).elim
  · exact .inr (hrouse hrousing)

theorem Alert.writerMove (h : s.Alert) (hcoherent : Coherent stored s)
    (hmove : s.WriterMove crc fromStr s') : s'.Alert := by
  have hstep := hmove
  cases hmove with
  | @wake other hwake =>
    intro call hcall run hasleep
    obtain ⟨hother, hflag | hwaking | ⟨id, waking, err, hcall', hstate⟩⟩ :=
      h.notify other call hcall run hasleep
    · exact .inl hflag
    · rw [hwake] at hwaking
      exact absurd (Option.some.inj hwaking).symm hother
    · right; right
      refine ⟨id, waking, err, ?_, hstate⟩
      show (s.notify other).calls[id]? = some waking
      rw [notify_calls, List.getElem?_map, hcall', Option.map_some]
      unfold Call.wake
      rw [hstate]
  | @perform effect hwake heffect =>
    cases effect with
    | replied id result =>
      show (s.deliver id result).Alert
      unfold deliver
      split
      · next mode runId streamId kind payload hcall =>
        intro call' hmem run hasleep
        rcases mem_setCall hcall hmem with hold | rfl
        · exact (h call' hold run hasleep).imp_right fun hrousing ↦
            hrousing.setCall hcall (by simp) _
        · cases hasleep
      · exact h
    | guardCommitted other | guardDropped other =>
      exact h.of_same hcoherent hstep (calls_modify _ _) (.inr hwake)
    | failed | published | notified => exact h
  | nudge hphase hplain =>
    exact h.of_same hcoherent hstep (calls_modify _ _) (.inl (wake_modify _ _))
  | _ => exact h.of_same hcoherent hstep rfl (.inl rfl)

theorem Alert.step (h : s.Alert) (hcoherent : Coherent stored s) (action : Action) :
    (s.step crc fromStr action).Alert := by
  rcases step_cases crc fromStr s action with
    ⟨mode, runId, streamId, kind, payload, -, hstep⟩ | ⟨id, hmove⟩ | hmove
  · rw [hstep]
    intro call hcall run hasleep
    rcases List.mem_append.mp hcall with hold | hnew
    · rcases h call hold run hasleep with hflag | hwake | ⟨id, waking, err, hwaking, hstate⟩
      · exact .inl hflag
      · exact .inr (.inl hwake)
      · refine .inr (.inr ⟨id, waking, err, ?_, hstate⟩)
        exact (List.getElem?_append_left (List.getElem?_eq_some_iff.mp hwaking).1).trans hwaking
    · have hpointer := pointer_enter mode runId streamId kind payload
      rw [← List.mem_singleton.mp hnew, hasleep] at hpointer
      cases hpointer
  · exact h.callMove hcoherent hmove
  · exact h.writerMove hcoherent hmove

theorem Alert.after (h : s.Alert) (hcoherent : Coherent stored s) (actions : Nat → Action)
    (n : Nat) : (s.after crc fromStr actions n).Alert := by
  induction n with
  | zero => exact h
  | succ n ih => exact ih.step (hcoherent.after crc fromStr actions n) (actions n)

/-! ### Waiting calls get on -/

/-- The call sleeps. -/
def Asleep (s : System) (id : Nat) (run : Ref) : Prop :=
  ∃ call : Call, s.calls[id]? = some call ∧ call.state = .awaiting run false

theorem not_asleep_notify (s : System) (id : Nat) (run : Ref) : ¬ (s.notify run).Asleep id run := by
  rintro ⟨call, hcall, hasleep⟩
  rw [notify_calls, List.getElem?_map] at hcall
  obtain ⟨old, -, rfl⟩ := Option.map_eq_some_iff.mp hcall
  exact (wake_eq_awaiting hasleep).2 rfl

theorem not_asleep_setCall {other : Nat} {state : CallState} (h : ¬ s.Asleep id run)
    (hstate : state ≠ .awaiting run false) : ¬ (s.setCall other state).Asleep id run := by
  rintro ⟨call, hcall, hasleep⟩
  by_cases hother : other = id
  · subst hother
    rw [System.setCall, List.getElem?_modify_eq] at hcall
    obtain ⟨old, -, rfl⟩ := Option.map_eq_some_iff.mp hcall
    exact hstate hasleep
  · rw [getElem?_setCall_ne hother] at hcall
    exact h ⟨call, hcall, hasleep⟩

theorem wake_callMove (hmove : s.CallMove id s') : s'.wake = s.wake := by
  cases hmove with
  | claim hcall hstate hlive => exact wake_modify _ _
  | withdraw hcall hstate => exact wake_modify _ _
  | _ => rfl

/-- A call that the writer is about to wake is woken. -/
theorem exists_not_asleep_of_wake (hfair : Fair crc fromStr s actions) {n : Nat} (id : Nat)
    (hwake : (s.after crc fromStr actions n).wake = some run) :
    ∃ m, n ≤ m ∧ ¬ (s.after crc fromStr actions m).Asleep id run := by
  apply eventually_of_turn (fun k ↦ (s.after crc fromStr actions k).wake = some run) _
    hfair.writer hwake
  intro k _ hk
  rw [System.after]
  cases actions k with
  | enter mode runId streamId kind payload => exact .inl ⟨hk, by simp⟩
  | call other refused =>
    exact .inl ⟨(wake_callMove (callMove_callStep other refused)).trans hk, by simp⟩
  | cancel other => exact .inl ⟨(wake_callMove (callMove_cancel other)).trans hk, by simp⟩
  | writer input =>
    right
    show ¬ (writerStep crc fromStr _ input).Asleep id run
    unfold writerStep
    rw [hk]
    exact not_asleep_notify _ id run

/-- A call that another call is about to wake is woken. -/
theorem exists_not_asleep_of_waking (hfair : Fair crc fromStr s actions) {n other : Nat} (id : Nat)
    {waking : Call} {err : String}
    (hwaking : (s.after crc fromStr actions n).calls[other]? = some waking)
    (hstate : waking.state = .waking run err) :
    ∃ m, n ≤ m ∧ ¬ (s.after crc fromStr actions m).Asleep id run := by
  have hcalls := hfair.calls other ⟨n, (List.getElem?_eq_some_iff.mp hwaking).1⟩
  apply eventually_of_turn (fun k ↦ (s.after crc fromStr actions k).calls[other]? = some waking) _
    hcalls hwaking
  intro k _ hk
  by_cases hturn : ∃ refused, actions k = .call other refused
  · right
    obtain ⟨refused, haction⟩ := hturn
    rw [System.after, haction]
    show ¬ (callStep _ other refused).Asleep id run
    unfold callStep
    rw [hk]
    dsimp only
    rw [hstate]
    exact not_asleep_setCall (not_asleep_notify _ id run) (by simp)
  · left
    refine ⟨?_, hturn⟩
    rcases others_step crc fromStr hk (actions k) with hown | ⟨call', hcall', hothers⟩
    · exact absurd hown hturn
    · rw [System.after, hcall']
      cases hothers with
      | same => rfl
      | woken name => rw [wake_of_waking hstate]
      | answered hbefore hafter | abandoned hbefore hafter =>
        rw [hstate] at hbefore
        cases hbefore

/-- Every call that sleeps is woken. -/
theorem exists_not_asleep (hcoherent : Coherent stored s) (halert : s.Alert)
    (hfair : Fair crc fromStr s actions) (n id : Nat) (run : Ref) :
    ∃ m, n ≤ m ∧ ¬ (s.after crc fromStr actions m).Asleep id run := by
  obtain ⟨m, hm, hended⟩ := exists_not_inFlight hcoherent hfair n run
  by_cases hasleep : (s.after crc fromStr actions m).Asleep id run
  · obtain ⟨call, hcall, hstate⟩ := hasleep
    have hrouse : (s.after crc fromStr actions m).Alert := halert.after hcoherent actions m
    rcases hrouse call (List.mem_of_getElem? hcall) run hstate with hflag | hwake | ⟨other, waking, err, hwaking, hstate⟩
    · exact absurd hflag hended
    · obtain ⟨k, hk, hwoken⟩ := exists_not_asleep_of_wake hfair id hwake
      exact ⟨k, hm.trans hk, hwoken⟩
    · obtain ⟨k, hk, hwoken⟩ := exists_not_asleep_of_waking hfair id hwaking hstate
      exact ⟨k, hm.trans hk, hwoken⟩
  · exact ⟨m, hm, hasleep⟩

/-- The call waits for the end of a deletion that is in flight. -/
def Waiting (s : System) (id : Nat) (run : Ref) : Prop :=
  ∃ call : Call, s.calls[id]? = some call ∧ call.state.Waits run

/-- The call waits and is awake. -/
def Awake (s : System) (id : Nat) (run : Ref) : Prop :=
  s.Waiting id run ∧ ¬ s.Asleep id run

/-- What is left of the wait of a call. -/
def waitOf (s : System) (id : Nat) : Nat := (s.calls[id]?.map (·.state.wait)).getD 0

/-- A step of a waiting call that is awake, once the deletion is not in flight. -/
theorem callStep_of_awake (hawake : s.Awake id run) (hflag : s.flag run ≠ some .appendInFlight)
    (refused : Option String) :
    ¬ (s.callStep id refused).Waiting id run ∨
      (s.callStep id refused).Awake id run ∧ (s.callStep id refused).waitOf id < s.waitOf id := by
  obtain ⟨⟨call, hcall, hwaits⟩, hasleep⟩ := hawake
  have hset (state : CallState) := getElem?_setCall_eq hcall state
  have hleave {state : CallState} (hnot : ¬ state.Waits run) :
      ¬ (s.setCall id state).Waiting id run := by
    rintro ⟨call', hcall', hwaits'⟩
    obtain rfl := Option.some.inj ((hset state).symm.trans hcall')
    exact hnot hwaits'
  have hnext {state : CallState} (hwaits' : state.Waits run) (hawake : state ≠ .awaiting run false)
      (hless : state.wait < call.state.wait) :
      (s.setCall id state).Awake id run ∧ (s.setCall id state).waitOf id < s.waitOf id := by
    refine ⟨⟨⟨_, hset state, hwaits'⟩, not_asleep_setCall hasleep hawake⟩, ?_⟩
    rw [waitOf, waitOf, hset, hcall]
    exact hless
  unfold callStep
  rw [hcall]
  dsimp only
  generalize hstart : call.state = start at hwaits hnext
  cases start with
  | spinning other =>
    obtain rfl : other = run := hwaits
    dsimp only
    rw [if_neg hflag]
    exact .inl (hleave fun hlooking ↦ hlooking)
  | listening other =>
    obtain rfl : other = run := hwaits
    exact .inr (hnext rfl (by simp) (by simp [CallState.wait]))
  | loading other woken =>
    obtain rfl : other = run := hwaits
    dsimp only
    rw [if_neg hflag]
    exact .inl (hleave fun hlooking ↦ hlooking)
  | awaiting other woken =>
    obtain rfl : other = run := hwaits
    cases woken with
    | false => exact absurd ⟨call, hcall, hstart⟩ hasleep
    | true => exact .inr (hnext rfl (by simp) (by simp [CallState.wait]))
  | _ => cases hwaits

/-- A waiting call that is awake goes on waiting, or its caller gives up, while others make a
step. -/
theorem others_of_awake {call call' : Call} (hwaits : call.state.Waits run)
    (hasleep : call.state ≠ .awaiting run false) (h : Others call call') :
    ¬ call'.state.Waits run ∨ call'.state.Waits run ∧ call'.state ≠ .awaiting run false ∧
      call'.state.wait = call.state.wait := by
  cases h with
  | same => exact .inr ⟨hwaits, hasleep, rfl⟩
  | woken other =>
    right
    refine ⟨?_, fun hawaiting ↦ hasleep (wake_eq_awaiting hawaiting).1, ?_⟩ <;>
      rcases call.wake_state other with hsame | ⟨name, woken, hstate, hwoken⟩ |
        ⟨name, woken, hstate, hwoken⟩
    · rwa [hsame]
    · rw [hstate] at hwaits
      rwa [hwoken]
    · rw [hstate] at hwaits
      rwa [hwoken]
    · rw [hsame]
    · rw [hwoken, hstate]
      rfl
    · rw [hwoken, hstate]
      rfl
  | answered hbefore hafter | abandoned hbefore hafter => exact .inl (hafter.not_waits run)

/-- A waiting call leaves once the deletion is not in flight any more. -/
theorem exists_not_waiting (hcoherent : Coherent stored s) (halert : s.Alert)
    (hfair : Fair crc fromStr s actions) {n : Nat} (id : Nat)
    (hflag : ∀ k, n ≤ k → (s.after crc fromStr actions k).flag run ≠ some .appendInFlight) :
    ∃ m, n ≤ m ∧ ¬ (s.after crc fromStr actions m).Waiting id run := by
  obtain ⟨start, hstart, hwoken⟩ := exists_not_asleep hcoherent halert hfair n id run
  by_cases hwaiting : (s.after crc fromStr actions start).Waiting id run
  · have hown (k : Nat) (hk : start ≤ k) (hturn : ∃ refused, actions k = .call id refused)
        (hawake : (s.after crc fromStr actions k).Awake id run) :
        ¬ (s.after crc fromStr actions (k + 1)).Waiting id run ∨
          (s.after crc fromStr actions (k + 1)).Awake id run ∧
            (s.after crc fromStr actions (k + 1)).waitOf id <
              (s.after crc fromStr actions k).waitOf id := by
      obtain ⟨refused, haction⟩ := hturn
      rw [System.after, haction]
      exact callStep_of_awake hawake (hflag k (hstart.trans hk)) refused
    have hothers (k : Nat) (hturn : ¬ ∃ refused, actions k = .call id refused)
        (hawake : (s.after crc fromStr actions k).Awake id run) :
        ¬ (s.after crc fromStr actions (k + 1)).Waiting id run ∨
          (s.after crc fromStr actions (k + 1)).Awake id run ∧
            (s.after crc fromStr actions (k + 1)).waitOf id =
              (s.after crc fromStr actions k).waitOf id := by
      obtain ⟨⟨call, hcall, hwaits⟩, hasleep⟩ := hawake
      rcases others_step crc fromStr hcall (actions k) with hturn' | ⟨call', hcall', hstep⟩
      · exact absurd hturn' hturn
      · rw [System.after, waitOf, waitOf, hcall, hcall']
        rcases others_of_awake hwaits (fun hstate ↦ hasleep ⟨call, hcall, hstate⟩) hstep with
          hleft | ⟨hwaits', hawake', hsame⟩
        · left
          rintro ⟨call'', hcall'', hwaits'⟩
          obtain rfl := Option.some.inj (hcall'.symm.trans hcall'')
          exact hleft hwaits'
        · refine .inr ⟨⟨⟨call', hcall', hwaits'⟩, ?_⟩, hsame⟩
          rintro ⟨call'', hcall'', hstate⟩
          obtain rfl := Option.some.inj (hcall'.symm.trans hcall'')
          exact hawake' hstate
    have hcalls : Recurs fun k ↦ ∃ refused, actions k = .call id refused := by
      obtain ⟨call, hcall, -⟩ := hwaiting
      exact hfair.calls id ⟨start, (List.getElem?_eq_some_iff.mp hcall).1⟩
    have hends : ∃ m, start ≤ m ∧ ¬ (s.after crc fromStr actions m).Awake id run := by
      apply eventually_of_rank (fun k ↦ (s.after crc fromStr actions k).waitOf id) hcalls
      · intro k hk hawake hnext
        by_cases hturn : ∃ refused, actions k = .call id refused
        · rcases hown k hk hturn hawake with hleft | ⟨-, hless⟩
          · exact absurd hnext.1 hleft
          · exact hless.le
        · rcases hothers k hturn hawake with hleft | ⟨-, hsame⟩
          · exact absurd hnext.1 hleft
          · exact hsame.le
      · intro k hk hturn hawake hnext
        rcases hown k hk hturn hawake with hleft | ⟨-, hless⟩
        · exact absurd hnext.1 hleft
        · exact hless
    obtain ⟨m, hm, hpending, hended⟩ := exists_last ⟨hwaiting, hwoken⟩ hends
    have hawake := hpending m hm (Nat.le_refl m)
    refine ⟨m + 1, hstart.trans (Nat.le_succ_of_le hm), ?_⟩
    by_cases hturn : ∃ refused, actions m = .call id refused
    · rcases hown m hm hturn hawake with hleft | ⟨hnext, -⟩
      · exact hleft
      · exact absurd hnext hended
    · rcases hothers m hturn hawake with hleft | ⟨hnext, -⟩
      · exact hleft
      · exact absurd hnext hended
  · exact ⟨start, hstart, hwaiting⟩

/-- A call waits for good only if the deletion is claimed again for ever. -/
theorem exists_not_waiting_or (hcoherent : Coherent stored s) (halert : s.Alert)
    (hfair : Fair crc fromStr s actions) (n id : Nat) (run : Ref) :
    (∃ m, n ≤ m ∧ ¬ (s.after crc fromStr actions m).Waiting id run) ∨
      Recurs fun m ↦ (s.after crc fromStr actions m).flag run ≠ some .appendInFlight ∧
        (s.after crc fromStr actions (m + 1)).flag run = some .appendInFlight := by
  by_cases hagain : Recurs fun m ↦
    (s.after crc fromStr actions m).flag run ≠ some .appendInFlight ∧
      (s.after crc fromStr actions (m + 1)).flag run = some .appendInFlight
  · exact .inr hagain
  · left
    simp only [Recurs, not_forall, not_exists, not_and] at hagain
    obtain ⟨last, hlast⟩ := hagain
    obtain ⟨m, hm, hended⟩ := exists_not_inFlight hcoherent hfair (max n last) run
    have hflag (k : Nat) (hk : m ≤ k) :
        (s.after crc fromStr actions k).flag run ≠ some .appendInFlight := by
      induction k, hk using Nat.le_induction with
      | base => exact hended
      | succ k hk ih => exact hlast k ((le_max_right n last).trans (hm.trans hk)) ih
    obtain ⟨k, hk, hleft⟩ := exists_not_waiting hcoherent halert hfair id hflag
    exact ⟨k, (le_max_left n last).trans (hm.trans hk), hleft⟩

end System

end Vidarax.Commit
