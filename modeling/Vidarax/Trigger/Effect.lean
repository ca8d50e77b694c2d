import Vidarax.Trigger.Machine

/-!
# Instructions as stack functions

Package `vidarax-core`, `crates/vidarax-core/src/trigger.rs:82–259`. Over the array machine,
an instruction that computes is a function of the slots and a list of values. The array
machine follows it as long as the stack has room.
-/

namespace Vidarax.Trigger

open Vidarax.Base

/-! ### Stacks -/

/-- The frame's array holds a stack, top first. -/
structure Holds (f : Frame) (values : List F32) : Prop where
  length_stack : f.stack.length = MAX_TRIGGER_STACK
  stackLen : f.stackLen = values.length
  get : ∀ k, k < values.length → f.stack[values.length - 1 - k]? = values[k]?

namespace Holds

variable {f : Frame} {values : List F32} {a b v : F32}

theorem initial : Holds .initial [] := ⟨rfl, rfl, nofun⟩

/-- Pushing on a stack with room. -/
theorem push (h : Holds f values) (hroom : values.length < MAX_TRIGGER_STACK) (v : F32) :
    ∃ f', f.push v = .ok f' ∧ Holds f' (v :: values) ∧ f'.pc = f.pc ∧
      f'.evaluation = f.evaluation := by
  have hlt : f.stackLen < f.stack.length := by rw [h.length_stack, h.stackLen]; exact hroom
  refine ⟨{ f with stack := f.stack.set f.stackLen v, stackLen := f.stackLen + 1 }, ?_, ?_, rfl,
    rfl⟩
  · rw [Frame.push, if_neg (by rw [h.stackLen]; omega), if_neg (Nat.not_le.mpr hlt)]
  · refine ⟨by simpa using h.length_stack, by simpa using h.stackLen, ?_⟩
    intro k hk
    cases k with
    | zero =>
      rw [List.length_cons, Nat.add_sub_cancel, Nat.sub_zero, ← h.stackLen]
      exact List.getElem?_set_self hlt
    | succ k =>
      have hk' : k < values.length := by simpa using hk
      rw [List.length_cons, List.getElem?_cons_succ, ← h.get k hk',
        List.getElem?_set_ne (by rw [h.stackLen]; omega)]
      congr 1
      omega

/-- The top of a stack. -/
theorem top (h : Holds f (v :: values)) : f.top = .ok v := by
  have hget := h.get 0 (Nat.succ_pos _)
  rw [Nat.sub_zero, ← h.stackLen, List.getElem?_cons_zero] at hget
  have hpos : f.stackLen ≠ 0 := by rw [h.stackLen]; exact Nat.succ_ne_zero _
  simp only [Frame.top, if_neg hpos, hget]

/-- Replacing the value at a depth. -/
theorem set (h : Holds f values) {rest : List F32} {depth : Nat} (w : F32)
    (hrest : values.drop depth = v :: rest) :
    Holds { f with stack := f.stack.set (f.stackLen - 1 - depth) w,
                   stackLen := f.stackLen - depth } (w :: rest) := by
  have hlen := congrArg List.length hrest
  rw [List.length_drop, List.length_cons] at hlen
  have hstack := h.stackLen
  have hlt : f.stackLen - 1 - depth < f.stack.length := by
    have hlast := h.get depth (by omega)
    rw [← h.stackLen] at hlast
    have hsome : values[depth]? = some v := by
      rw [← Nat.add_zero depth, ← List.getElem?_drop, hrest, List.getElem?_cons_zero]
    rw [hsome] at hlast
    exact (List.getElem?_eq_some_iff.mp hlast).1
  refine ⟨by simpa using h.length_stack, by simp only [List.length_cons]; omega, ?_⟩
  intro k hk
  cases k with
  | zero =>
    have hindex : (w :: rest).length - 1 - 0 = f.stackLen - 1 - depth := by
      simp only [List.length_cons]
      omega
    rw [hindex]
    exact List.getElem?_set_self hlt
  | succ k =>
    simp only [List.length_cons] at hk ⊢
    have hget := h.get (depth + (k + 1)) (by omega)
    rw [← List.getElem?_drop, hrest, List.getElem?_cons_succ] at hget
    rw [List.getElem?_cons_succ, ← hget, List.getElem?_set_ne (by omega)]
    congr 1
    omega

/-- Replacing the top. -/
theorem setTop (h : Holds f (v :: values)) (w : F32) : Holds (f.setTop w) (w :: values) :=
  h.set w List.drop_zero

/-- Combining the two topmost values. -/
theorem binary (h : Holds f (b :: a :: values)) (operation : F32 → F32 → Bool) :
    ∃ f', f.binary operation = .ok f' ∧ Holds f' (boolValue (operation a b) :: values) ∧
      f'.pc = f.pc ∧ f'.evaluation = f.evaluation := by
  have htwo : ¬ f.stackLen < 2 := by rw [h.stackLen]; simp
  have hright : f.stack[f.stackLen - 1]? = some b := by
    rw [h.stackLen]
    exact h.get 0 (Nat.succ_pos _)
  have hleft : f.stack[f.stackLen - 2]? = some a := by
    rw [h.stackLen]
    exact h.get 1 (Nat.succ_lt_succ (Nat.succ_pos _))
  have hdrop : (b :: a :: values).drop 1 = a :: values := rfl
  refine ⟨{ f with
    stack := f.stack.set (f.stackLen - 2) (boolValue (operation a b))
    stackLen := f.stackLen - 1 }, ?_, h.set _ hdrop, rfl, rfl⟩
  simp only [Frame.binary, if_neg htwo, hright, hleft]

/-- Dropping the top. -/
theorem pop (h : Holds f (v :: values)) : Holds { f with stackLen := f.stackLen - 1 } values := by
  refine ⟨h.length_stack, by simp only [h.stackLen, List.length_cons]; rfl, fun k hk ↦ ?_⟩
  have hget := h.get (k + 1) (by simpa using hk)
  rw [List.getElem?_cons_succ, List.length_cons] at hget
  rw [← hget]
  congr 1
  omega

/-- Program counter and report do not touch the stack. -/
theorem of_stack (h : Holds f values) {f' : Frame} (hs : f'.stack = f.stack)
    (hl : f'.stackLen = f.stackLen) : Holds f' values :=
  ⟨hs ▸ h.length_stack, hl ▸ h.stackLen, hs ▸ h.get⟩

end Holds

/-! ### Instructions that compute -/

/-- The arrays of the machine have their lengths. -/
structure Sized (vm : TriggerVm) : Prop where
  sustainStreaks : vm.sustainStreaks.length = MAX_TRIGGER_STATE_SLOTS
  edgeValues : vm.edgeValues.length = MAX_TRIGGER_STATE_SLOTS
  cooldownLastMs : vm.cooldownLastMs.length = MAX_TRIGGER_STATE_SLOTS

/-- The streak of a slot after one more frame. -/
def nextStreak (streak : UInt16) (condition : Bool) : UInt16 :=
  if condition then UInt16.ofNat (min (streak.toNat + 1) 65535) else 0

/-- The cooldown of a slot lets a true condition through. -/
def cooldownAllows (vm : TriggerVm) (sample : TriggerSample) (slot : UInt8)
    (durationMs last : UInt64) : Bool :=
  !decide (vm.cooldownInitialized &&& UInt16.ofNat (2 ^ slot.toNat) ≠ 0) ||
    decide (durationMs ≤ satSub sample.ptsMs last)

/-- The machine after a cooldown let a condition through. -/
def TriggerVm.restartCooldown (vm : TriggerVm) (sample : TriggerSample) (slot : UInt8) :
    TriggerVm :=
  { vm with
    cooldownInitialized := vm.cooldownInitialized ||| UInt16.ofNat (2 ^ slot.toNat)
    cooldownLastMs := vm.cooldownLastMs.set slot.toNat sample.ptsMs }

/-- What an instruction that computes does to the slots and the stack. -/
def TriggerVm.effect (vm : TriggerVm) (sample : TriggerSample) :
    TriggerInstruction → List F32 → Option (TriggerVm × List F32)
  | .load signal, values => some (vm, (readSignal sample signal).getD .nan :: values)
  | .constant value, values => some (vm, value :: values)
  | .greaterThan, b :: a :: values => some (vm, boolValue (b.lt a) :: values)
  | .greaterOrEqual, b :: a :: values => some (vm, boolValue (b.le a) :: values)
  | .lessThan, b :: a :: values => some (vm, boolValue (a.lt b) :: values)
  | .lessOrEqual, b :: a :: values => some (vm, boolValue (a.le b) :: values)
  | .equal, b :: a :: values => some (vm, boolValue (a.eq b) :: values)
  | .and, b :: a :: values => some (vm, boolValue (truthy a && truthy b) :: values)
  | .or, b :: a :: values => some (vm, boolValue (truthy a || truthy b) :: values)
  | .not, a :: values => some (vm, boolValue (!truthy a) :: values)
  | .sustainFrames slot frames, a :: values =>
    (vm.sustainStreaks[slot.toNat]?).map fun streak ↦
      ({ vm with sustainStreaks := vm.sustainStreaks.set slot.toNat (nextStreak streak (truthy a)) },
        boolValue (frames ≤ nextStreak streak (truthy a)) :: values)
  | .risingEdge slot, a :: values =>
    (vm.edgeValues[slot.toNat]?).map fun last ↦
      ({ vm with edgeValues := vm.edgeValues.set slot.toNat (truthy a) },
        boolValue (truthy a && !last) :: values)
  | .cooldownMs slot durationMs, a :: values =>
    (vm.cooldownLastMs[slot.toNat]?).map fun last ↦
      let allowed := truthy a && cooldownAllows vm sample slot durationMs last
      (if allowed then vm.restartCooldown sample slot else vm, boolValue allowed :: values)
  | _, _ => none

/-- A frame that goes on with the next instruction and reports the same actions. -/
structure Continues (f f' : Frame) : Prop where
  pc : f'.pc = f.pc + 1
  actionIndices : f'.evaluation.actionIndices = f.evaluation.actionIndices
  actionCount : f'.evaluation.actionCount = f.evaluation.actionCount

/-- Pushing instructions follow their effect. -/
private theorem exec_push {vm : TriggerVm} {f : Frame} {values : List F32} {v : F32}
    (hf : Holds f values) (hroom : (v :: values).length ≤ MAX_TRIGGER_STACK)
    (finish : Frame → Frame) (hstack : ∀ f', (finish f').stack = f'.stack)
    (hlen : ∀ f', (finish f').stackLen = f'.stackLen)
    (hcontinues : ∀ f', f'.pc = f.pc → f'.evaluation = f.evaluation → Continues f (finish f')) :
    ∃ f', (f.push v >>= fun f' ↦ Except.ok (vm, finish f')) = .ok (vm, f') ∧
      Holds f' (v :: values) ∧ Continues f f' := by
  obtain ⟨f', hpush, hholds, hpc, heval⟩ := hf.push hroom v
  exact ⟨finish f', by rw [hpush]; rfl, hholds.of_stack (hstack f') (hlen f'),
    hcontinues f' hpc heval⟩

/-- Combining instructions follow their effect. -/
private theorem exec_binary {vm : TriggerVm} {f : Frame} {values : List F32} {a b : F32}
    (hf : Holds f (b :: a :: values)) (operation : F32 → F32 → Bool) :
    ∃ f', (f.binary operation >>= fun f' ↦ Except.ok (vm, f'.next)) = .ok (vm, f') ∧
      Holds f' (boolValue (operation a b) :: values) ∧ Continues f f' := by
  obtain ⟨f', hbinary, hholds, hpc, heval⟩ := hf.binary operation
  refine ⟨f'.next, by rw [hbinary]; rfl, hholds.of_stack rfl rfl, ?_⟩
  exact ⟨congrArg (· + 1) hpc, congrArg _ heval, congrArg _ heval⟩

/-- An instruction that replaces the top goes on with the next one. -/
private theorem setTop_continues {f : Frame} {values : List F32} {a : F32}
    (hf : Holds f (a :: values)) (w : F32) :
    Holds (f.setTop w).next (w :: values) ∧ Continues f (f.setTop w).next :=
  ⟨(hf.setTop w).of_stack rfl rfl, rfl, rfl, rfl⟩

/-- The machine follows the effect of an instruction. -/
theorem exec_of_effect {vm vm' : TriggerVm} {sample : TriggerSample} {f : Frame}
    {instruction : TriggerInstruction} {values values' : List F32} (hf : Holds f values)
    (h : vm.effect sample instruction values = some (vm', values'))
    (hroom : values'.length ≤ MAX_TRIGGER_STACK) :
    ∃ f', vm.exec sample f instruction = .ok (vm', f') ∧ Holds f' values' ∧ Continues f f' := by
  unfold TriggerVm.effect at h
  split at h
  · obtain ⟨rfl, rfl⟩ := Prod.mk.inj (Option.some.inj h)
    exact exec_push hf hroom _ (fun _ ↦ rfl) (fun _ ↦ rfl) fun f' hpc heval ↦
      ⟨congrArg (· + 1) hpc, by rw [← heval]; rfl, by rw [← heval]; rfl⟩
  · obtain ⟨rfl, rfl⟩ := Prod.mk.inj (Option.some.inj h)
    exact exec_push hf hroom _ (fun _ ↦ rfl) (fun _ ↦ rfl) fun f' hpc heval ↦
      ⟨congrArg (· + 1) hpc, congrArg _ heval, congrArg _ heval⟩
  · obtain ⟨rfl, rfl⟩ := Prod.mk.inj (Option.some.inj h)
    exact exec_binary hf fun a b ↦ b.lt a
  · obtain ⟨rfl, rfl⟩ := Prod.mk.inj (Option.some.inj h)
    exact exec_binary hf fun a b ↦ b.le a
  · obtain ⟨rfl, rfl⟩ := Prod.mk.inj (Option.some.inj h)
    exact exec_binary hf F32.lt
  · obtain ⟨rfl, rfl⟩ := Prod.mk.inj (Option.some.inj h)
    exact exec_binary hf F32.le
  · obtain ⟨rfl, rfl⟩ := Prod.mk.inj (Option.some.inj h)
    exact exec_binary hf F32.eq
  · obtain ⟨rfl, rfl⟩ := Prod.mk.inj (Option.some.inj h)
    exact exec_binary hf fun a b ↦ truthy a && truthy b
  · obtain ⟨rfl, rfl⟩ := Prod.mk.inj (Option.some.inj h)
    exact exec_binary hf fun a b ↦ truthy a || truthy b
  · obtain ⟨rfl, rfl⟩ := Prod.mk.inj (Option.some.inj h)
    exact ⟨_, by simp only [TriggerVm.exec, hf.top]; rfl, setTop_continues hf _⟩
  · obtain ⟨streak, hslot, heq⟩ := Option.map_eq_some_iff.mp h
    obtain ⟨rfl, rfl⟩ := Prod.mk.inj heq
    refine ⟨_, ?_, setTop_continues hf _⟩
    have htop := hf.top
    simp only [TriggerVm.exec, htop, bind, Except.bind, hslot]
    rfl
  · obtain ⟨last, hslot, heq⟩ := Option.map_eq_some_iff.mp h
    obtain ⟨rfl, rfl⟩ := Prod.mk.inj heq
    refine ⟨_, ?_, setTop_continues hf _⟩
    have htop := hf.top
    simp only [TriggerVm.exec, htop, bind, Except.bind, hslot]
  · obtain ⟨last, hslot, heq⟩ := Option.map_eq_some_iff.mp h
    obtain ⟨rfl, rfl⟩ := Prod.mk.inj heq
    refine ⟨_, ?_, setTop_continues hf _⟩
    have htop := hf.top
    simp only [TriggerVm.exec, htop, bind, Except.bind, hslot]
    rfl
  · cases h

end Vidarax.Trigger
