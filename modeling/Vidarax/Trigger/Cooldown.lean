import Mathlib.Data.Nat.Bitwise
import Vidarax.Trigger.Correctness

/-!
# What a cooldown remembers

Package `vidarax-core`, `crates/vidarax-core/src/trigger.rs:158–173`. For any program, checked or
not, a slot that a cooldown has marked holds the time of the frame at which a cooldown of this slot
last let a condition through. The run is followed instruction by instruction.
-/

namespace Vidarax.Trigger

open Vidarax.Base

/-- The top of the stack is true. -/
def Frame.fires (f : Frame) : Bool := (f.stack[f.stackLen - 1]?).any truthy

/-- The frame at which each slot last fired, after an instruction at a frame. -/
def fired (last : UInt8 → Option Nat) (k : Nat) (f' : Frame) : TriggerInstruction → UInt8 → Option Nat
  | .cooldownMs slot _, slot' => if slot' = slot ∧ f'.fires then some k else last slot'
  | _, slot' => last slot'

/-- Where a machine can be, on frames in their order, each sampled at its time. -/
inductive Reached (pts : Nat → UInt64) (usable : Nat → Prop) (program : TriggerProgram) :
    TriggerVm → (UInt8 → Option Nat) → Nat → TriggerSample → Frame → Prop where
  | first {k : Nat} {sample : TriggerSample} (hk : usable k) (hpts : sample.ptsMs = pts k) :
    Reached pts usable program (.fresh program) (fun _ ↦ none) k sample .initial
  | exec {vm vm' : TriggerVm} {last : UInt8 → Option Nat} {k : Nat} {sample : TriggerSample}
    {f f' : Frame} {instruction : TriggerInstruction}
    (h : Reached pts usable program vm last k sample f)
    (hat : vm.program.instructions[f.pc]? = some instruction)
    (hexec : vm.exec sample f instruction = .ok (vm', f')) :
    Reached pts usable program vm' (fired last k f' instruction) k sample f'
  | next {vm : TriggerVm} {last : UInt8 → Option Nat} {k k' : Nat} {sample sample' : TriggerSample}
    {f : Frame} (h : Reached pts usable program vm last k sample f)
    (hend : ∀ instruction, vm.program.instructions[f.pc]? = some instruction →
      ∃ stop, vm.exec sample f instruction = .error stop)
    (hk : k < k') (husable : usable k') (hpts : sample'.ptsMs = pts k') :
    Reached pts usable program vm last k' sample' .initial

/-! ### Masks -/

theorem and_bit_eq_zero {x : UInt16} {slot : UInt8} (h : slot.toNat < MAX_TRIGGER_STATE_SLOTS) :
    x &&& UInt16.ofNat (2 ^ slot.toNat) = 0 ↔ x.toNat.testBit slot.toNat = false := by
  have hpow : 2 ^ slot.toNat < 2 ^ 16 := Nat.pow_lt_pow_right (by decide) h
  rw [← UInt16.toNat_inj, UInt16.toNat_and, UInt16.toNat_ofNat', Nat.mod_eq_of_lt hpow,
    Nat.and_two_pow]
  cases x.toNat.testBit slot.toNat with
  | true => simp
  | false => simp

/-- A slot outside of the arrays has no bit. -/
theorem and_bit_of_le {x : UInt16} {slot : UInt8} (h : MAX_TRIGGER_STATE_SLOTS ≤ slot.toNat) :
    x &&& UInt16.ofNat (2 ^ slot.toNat) = 0 := by
  have hdvd : 2 ^ 16 ∣ 2 ^ slot.toNat := Nat.pow_dvd_pow 2 h
  have hbit : UInt16.ofNat (2 ^ slot.toNat) = 0 := by
    rw [← UInt16.toNat_inj, UInt16.toNat_ofNat']
    exact Nat.mod_eq_zero_of_dvd hdvd
  rw [hbit, UInt16.and_zero]

/-- A bit of a mask other than the one that is set. -/
theorem or_and_other {x : UInt16} {slot slot' : UInt8} (hne : slot' ≠ slot)
    (hslot : slot.toNat < MAX_TRIGGER_STATE_SLOTS)
    (h : (x ||| UInt16.ofNat (2 ^ slot.toNat)) &&& UInt16.ofNat (2 ^ slot'.toNat) ≠ 0) :
    x &&& UInt16.ofNat (2 ^ slot'.toNat) ≠ 0 := by
  by_cases hslot' : slot'.toNat < MAX_TRIGGER_STATE_SLOTS
  · have hpow : 2 ^ slot.toNat < 2 ^ 16 := Nat.pow_lt_pow_right (by decide) hslot
    have hne' : slot.toNat ≠ slot'.toNat := fun heq ↦ hne (UInt8.toNat_inj.mp heq).symm
    rw [ne_eq, and_bit_eq_zero hslot'] at h ⊢
    rw [UInt16.toNat_or, UInt16.toNat_ofNat', Nat.mod_eq_of_lt hpow, Nat.testBit_or,
      Nat.testBit_two_pow_of_ne hne', Bool.or_false] at h
    exact h
  · exact absurd (and_bit_of_le (Nat.le_of_not_lt hslot')) h

/-! ### One instruction -/

/-- The top of a stack is an element of it. -/
theorem Frame.top_eq_ok {f : Frame} {value : F32} (h : f.top = .ok value) :
    f.stack[f.stackLen - 1]? = some value := by
  unfold Frame.top at h
  split at h
  · cases h
  · split at h
    · cases h
    · next found hfound =>
      cases h
      exact hfound

/-- A top that was set is seen. -/
theorem Frame.fires_setTop {f : Frame} {value : F32} (htop : f.top = .ok value) (b : Bool) :
    (f.setTop (boolValue b)).next.fires = b := by
  have hlt := (List.getElem?_eq_some_iff.mp (Frame.top_eq_ok htop)).1
  unfold Frame.fires Frame.setTop Frame.next
  dsimp only
  rw [List.getElem?_set_self hlt, Option.any_some, truthy_boolValue]

/-- A cooldown that is executed has a condition and a slot; it replaces the condition by whether it
let it through. -/
theorem exec_cooldownMs {vm vm' : TriggerVm} {sample : TriggerSample} {f f' : Frame} {slot : UInt8}
    {durationMs : UInt64} (h : vm.exec sample f (.cooldownMs slot durationMs) = .ok (vm', f')) :
    ∃ value last, f.top = .ok value ∧ vm.cooldownLastMs[slot.toNat]? = some last ∧
      f'.fires = (truthy value && cooldownAllows vm sample slot durationMs last) ∧
      vm' = if f'.fires then vm.restartCooldown sample slot else vm := by
  obtain ⟨value, htop, h⟩ := bind_eq_ok h
  split at h
  · cases h
  · next last hlast =>
    rw [Except.ok.injEq, Prod.mk.injEq] at h
    obtain ⟨rfl, rfl⟩ := h
    refine ⟨value, last, htop, hlast, Frame.fires_setTop htop _, ?_⟩
    rw [Frame.fires_setTop htop]
    rfl

/-- Instructions other than cooldowns leave the cooldowns alone. -/
theorem exec_keeps_cooldowns {vm vm' : TriggerVm} {sample : TriggerSample} {f f' : Frame}
    {instruction : TriggerInstruction} (h : vm.exec sample f instruction = .ok (vm', f'))
    (hother : ∀ slot durationMs, instruction ≠ .cooldownMs slot durationMs) :
    vm'.cooldownInitialized = vm.cooldownInitialized ∧ vm'.cooldownLastMs = vm.cooldownLastMs := by
  cases instruction with
  | cooldownMs slot durationMs => exact absurd rfl (hother slot durationMs)
  | sustainFrames slot frames =>
    obtain ⟨value, -, h⟩ := bind_eq_ok h
    split at h
    · cases h
    · cases h
      exact ⟨rfl, rfl⟩
  | risingEdge slot =>
    obtain ⟨value, -, h⟩ := bind_eq_ok h
    split at h
    · cases h
    · cases h
      exact ⟨rfl, rfl⟩
  | jumpIfFalse target =>
    obtain ⟨value, -, h⟩ := bind_eq_ok h
    dsimp only at h
    split at h
    · cases h
      exact ⟨rfl, rfl⟩
    · cases h
      exact ⟨rfl, rfl⟩
  | emit | capture | notify =>
    cases h
    exact ⟨rfl, rfl⟩
  | halt => cases h
  | load | constant | greaterThan | greaterOrEqual | lessThan | lessOrEqual | equal | and | or
  | not =>
    obtain ⟨_, -, h⟩ := bind_eq_ok h
    cases h
    exact ⟨rfl, rfl⟩

/-! ### Runs -/

/-- A marked slot holds the time of the frame at which it last fired. -/
structure Remembers (pts : Nat → UInt64) (usable : Nat → Prop) (vm : TriggerVm)
    (last : UInt8 → Option Nat) (k : Nat) : Prop where
  length : vm.cooldownLastMs.length = MAX_TRIGGER_STATE_SLOTS
  marked : ∀ slot : UInt8, vm.cooldownInitialized &&& UInt16.ofNat (2 ^ slot.toNat) ≠ 0 →
    ∃ i, last slot = some i ∧ i ≤ k ∧ usable i ∧ vm.cooldownLastMs[slot.toNat]? = some (pts i)

section

variable {pts : Nat → UInt64} {usable : Nat → Prop} {program : TriggerProgram}
  {vm vm' : TriggerVm} {last : UInt8 → Option Nat} {k : Nat} {sample : TriggerSample} {f f' : Frame}

/-- Firing a cooldown is remembered. -/
theorem Remembers.restart (h : Remembers pts usable vm last k) (husable : usable k)
    (hpts : sample.ptsMs = pts k) {slot : UInt8} (hslot : slot.toNat < MAX_TRIGGER_STATE_SLOTS) :
    Remembers pts usable (vm.restartCooldown sample slot)
      (fun slot' ↦ if slot' = slot then some k else last slot') k := by
  refine ⟨by rw [TriggerVm.restartCooldown, List.length_set, h.length], fun slot' hmarked ↦ ?_⟩
  by_cases hsame : slot' = slot
  · subst hsame
    refine ⟨k, if_pos rfl, Nat.le_refl k, husable, ?_⟩
    rw [← hpts]
    exact List.getElem?_set_self (by rw [h.length]; exact hslot)
  · obtain ⟨i, hi, hle, hu, hget⟩ := h.marked slot' (or_and_other hsame hslot hmarked)
    refine ⟨i, ?_, hle, hu, ?_⟩
    · rw [if_neg hsame, hi]
    · rw [← hget]
      apply List.getElem?_set_ne
      intro heq
      exact hsame (UInt8.toNat_inj.mp heq).symm

/-- An instruction keeps what is remembered. -/
theorem Remembers.exec (h : Remembers pts usable vm last k) (husable : usable k)
    (hpts : sample.ptsMs = pts k) {instruction : TriggerInstruction}
    (hexec : vm.exec sample f instruction = .ok (vm', f')) :
    Remembers pts usable vm' (fired last k f' instruction) k := by
  by_cases hother : ∀ slot durationMs, instruction ≠ .cooldownMs slot durationMs
  · obtain ⟨hinit, hlast⟩ := exec_keeps_cooldowns hexec hother
    have hfired : fired last k f' instruction = last := by
      funext slot'
      cases instruction with
      | cooldownMs slot durationMs => exact absurd rfl (hother slot durationMs)
      | _ => rfl
    rw [hfired]
    refine ⟨by rw [hlast, h.length], fun slot hmarked ↦ ?_⟩
    rw [hinit] at hmarked
    rw [hlast]
    exact h.marked slot hmarked
  · simp only [not_forall, not_not] at hother
    obtain ⟨slot, durationMs, rfl⟩ := hother
    obtain ⟨value, time, -, htime, -, rfl⟩ := exec_cooldownMs hexec
    have hslot : slot.toNat < MAX_TRIGGER_STATE_SLOTS := by
      rw [← h.length]
      exact (List.getElem?_eq_some_iff.mp htime).1
    cases hfires : f'.fires with
    | true =>
      have hfired : fired last k f' (.cooldownMs slot durationMs) =
          fun slot' ↦ if slot' = slot then some k else last slot' := by
        funext slot'
        simp [fired, hfires]
      rw [hfired]
      exact h.restart husable hpts hslot
    | false =>
      have hfired : fired last k f' (.cooldownMs slot durationMs) = last := by
        funext slot'
        simp [fired, hfires]
      rw [hfired]
      exact h

/-- What is remembered in a run. -/
theorem Reached.remembers (h : Reached pts usable program vm last k sample f) :
    Remembers pts usable vm last k ∧ usable k ∧ sample.ptsMs = pts k := by
  induction h with
  | first hk hpts =>
    refine ⟨⟨List.length_replicate, fun slot hmarked ↦ ?_⟩, hk, hpts⟩
    exact absurd UInt16.zero_and hmarked
  | exec h _ hexec ih =>
    obtain ⟨hremembers, hk, hpts⟩ := ih
    exact ⟨hremembers.exec hk hpts hexec, hk, hpts⟩
  | next h _ hk husable hpts ih =>
    refine ⟨⟨ih.1.length, fun slot hmarked ↦ ?_⟩, husable, hpts⟩
    obtain ⟨i, hi, hle, hu, hget⟩ := ih.1.marked slot hmarked
    exact ⟨i, hi, Nat.le_trans hle (Nat.le_of_lt hk), hu, hget⟩

/-- A true condition passes a cooldown that has not fired, or whose time has passed since the frame
at which it last fired. -/
theorem Reached.fires (h : Reached pts usable program vm last k sample f) {slot : UInt8}
    {durationMs : UInt64} {value : F32} (htop : f.top = .ok value) (htrue : truthy value = true)
    (hexec : vm.exec sample f (.cooldownMs slot durationMs) = .ok (vm', f'))
    (hlate : ∀ i, last slot = some i → i ≤ k → usable i →
      durationMs ≤ satSub (pts k) (pts i)) : f'.fires = true := by
  obtain ⟨hremembers, -, hpts⟩ := h.remembers
  obtain ⟨value', time, htop', htime, hfires, -⟩ := exec_cooldownMs hexec
  rw [htop] at htop'
  cases htop'
  rw [hfires, htrue, Bool.true_and, cooldownAllows]
  by_cases hmarked : vm.cooldownInitialized &&& UInt16.ofNat (2 ^ slot.toNat) ≠ 0
  · obtain ⟨i, hi, hle, hu, hget⟩ := hremembers.marked slot hmarked
    rw [htime] at hget
    cases hget
    rw [hpts, decide_eq_true (hlate i hi hle hu), Bool.or_true]
  · rw [decide_eq_false hmarked]
    rfl

end

end Vidarax.Trigger
