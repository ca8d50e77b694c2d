import Vidarax.Base.Result
import Vidarax.Trigger.Verifier

/-!
# What the checker establishes

Package `vidarax-contracts`, `crates/vidarax-contracts/src/triggers.rs:185–431`.
A program that `validate` accepts ends with its only halt, jumps forward, has one stack
depth at every reachable instruction and one block of actions that is entered at its start.
-/

namespace Vidarax.Trigger

open Vidarax.Base

/-! ### The pass over the instructions -/

/-- The checks of a single instruction. -/
structure Checked (count index : Nat) (instruction : TriggerInstruction) : Prop where
  target : ∀ target, instruction = .jumpIfFalse target →
    index < target.toNat ∧ target.toNat < count
  slot : ∀ slot, instruction.slot? = some slot → slot.toNat < MAX_TRIGGER_STATE_SLOTS
  frames : ∀ slot frames, instruction = .sustainFrames slot frames →
    0 < frames.toNat ∧ frames.toNat ≤ 10000

/-- Numbers of emits, actions and halts of one instruction. -/
structure Advances (pass pass' : Pass) (instruction : TriggerInstruction) : Prop where
  emitCount : pass'.emitCount = pass.emitCount + if instruction.isEmit then 1 else 0
  actionCount : pass'.actionCount = pass.actionCount + if instruction.isAction then 1 else 0
  halted : pass'.halted = (pass.halted || decide (instruction = .halt))

variable {count index : Nat} {pass pass' : Pass}

theorem requireStack_ok {available needed : Nat}
    (h : requireStack index available needed = .ok ()) : needed ≤ available :=
  Nat.not_lt.mp (guard_eq_ok h).1

theorem validateSlot_ok {slot : UInt8} (h : validateSlot index slot = .ok ()) :
    slot.toNat < MAX_TRIGGER_STATE_SLOTS :=
  Nat.not_le.mp (guard_eq_ok h).1

/-- An instruction without operands to check is checked. -/
theorem checked_plain {instruction : TriggerInstruction} (hslot : instruction.slot? = none)
    (hjump : ∀ target, instruction ≠ .jumpIfFalse target) : Checked count index instruction where
  target target h := absurd h (hjump target)
  slot slot h := by rw [hslot] at h; cases h
  frames slot frames h := by subst h; cases hslot

/-- The pass advances as the instruction says. -/
theorem advances_of_checkInstruction {instruction : TriggerInstruction}
    (h : checkInstruction count index pass instruction = .ok pass') :
    Advances pass pass' instruction := by
  have hbinary (h : checkBinary index pass = .ok pass') :
      pass' = { pass with stackDepth := pass.stackDepth - 1 } := by
    obtain ⟨_, -, h⟩ := bind_eq_ok h
    exact (Except.ok.inj h).symm
  cases instruction with
  | load signal =>
    obtain ⟨_, -, h⟩ := bind_eq_ok h
    obtain rfl := Except.ok.inj h
    exact ⟨rfl, rfl, by simp⟩
  | constant value =>
    obtain rfl := Except.ok.inj (guard_eq_ok h).2
    exact ⟨rfl, rfl, by simp⟩
  | greaterThan | greaterOrEqual | lessThan | lessOrEqual | equal | and | or =>
    obtain rfl := hbinary h
    exact ⟨rfl, rfl, by simp⟩
  | not =>
    obtain ⟨_, -, h⟩ := bind_eq_ok h
    obtain rfl := Except.ok.inj h
    exact ⟨rfl, rfl, by simp⟩
  | risingEdge slot =>
    obtain ⟨_, -, h⟩ := bind_eq_ok h
    obtain ⟨_, -, h⟩ := bind_eq_ok h
    obtain rfl := Except.ok.inj h
    exact ⟨rfl, rfl, by simp⟩
  | sustainFrames slot frames | cooldownMs slot durationMs =>
    obtain ⟨_, -, h⟩ := bind_eq_ok h
    obtain ⟨_, -, h⟩ := bind_eq_ok h
    obtain rfl := Except.ok.inj (guard_eq_ok h).2
    exact ⟨rfl, rfl, by simp⟩
  | jumpIfFalse target =>
    obtain ⟨_, -, h⟩ := bind_eq_ok h
    obtain rfl := Except.ok.inj (guard_eq_ok h).2
    exact ⟨rfl, rfl, by simp⟩
  | emit eventType =>
    obtain ⟨_, -, h⟩ := bind_eq_ok h
    obtain rfl := Except.ok.inj h
    exact ⟨rfl, rfl, by simp⟩
  | capture kind beforeMs afterMs =>
    obtain rfl := Except.ok.inj (guard_eq_ok h).2
    exact ⟨rfl, rfl, by simp⟩
  | notify channel | halt =>
    obtain rfl := Except.ok.inj h
    exact ⟨rfl, rfl, by simp⟩

/-- What the pass accepts is checked. -/
theorem checked_of_checkInstruction {instruction : TriggerInstruction}
    (h : checkInstruction count index pass instruction = .ok pass') :
    Checked count index instruction := by
  cases instruction with
  | sustainFrames slot frames =>
    obtain ⟨_, -, h⟩ := bind_eq_ok h
    obtain ⟨_, hslot, h⟩ := bind_eq_ok h
    have hframes := (guard_eq_ok h).1
    refine ⟨nofun, fun s hs ↦ ?_, fun s n hn ↦ ?_⟩
    · cases hs
      exact validateSlot_ok hslot
    · cases hn
      rw [not_or, gt_iff_lt, UInt16.lt_iff_toNat_lt, Nat.not_lt] at hframes
      refine ⟨Nat.pos_of_ne_zero fun h0 ↦ hframes.1 ?_, hframes.2⟩
      exact UInt16.toNat_inj.mp h0
  | risingEdge slot =>
    obtain ⟨_, -, h⟩ := bind_eq_ok h
    obtain ⟨_, hslot, -⟩ := bind_eq_ok h
    refine ⟨nofun, fun s hs ↦ ?_, nofun⟩
    cases hs
    exact validateSlot_ok hslot
  | cooldownMs slot durationMs =>
    obtain ⟨_, -, h⟩ := bind_eq_ok h
    obtain ⟨_, hslot, -⟩ := bind_eq_ok h
    refine ⟨nofun, fun s hs ↦ ?_, nofun⟩
    cases hs
    exact validateSlot_ok hslot
  | jumpIfFalse target =>
    obtain ⟨_, -, h⟩ := bind_eq_ok h
    have hjump := (guard_eq_ok h).1
    refine ⟨fun t ht ↦ ?_, nofun, nofun⟩
    cases ht
    omega
  | _ => exact checked_plain rfl nofun

/-- What an accepted pass says about the instructions. -/
structure Passed (count index : Nat) (pass pass' : Pass) (code : List TriggerInstruction) :
    Prop where
  checked : ∀ i instruction, code[i]? = some instruction → Checked count (index + i) instruction
  emitCount : pass'.emitCount = pass.emitCount + code.countP TriggerInstruction.isEmit
  actionCount : pass'.actionCount = pass.actionCount + code.countP TriggerInstruction.isAction
  actions_le : code ≠ [] → pass'.actionCount ≤ MAX_TRIGGER_ACTIONS
  halted : pass'.halted → pass.halted = false → ∃ body, code = body ++ [.halt] ∧ .halt ∉ body
  ended : pass.halted → code = []

theorem passed_of_checkInstructions {code : List TriggerInstruction}
    (h : checkInstructions count index pass code = .ok pass') :
    Passed count index pass pass' code := by
  induction code generalizing index pass with
  | nil =>
    obtain rfl := Except.ok.inj h
    refine ⟨?_, rfl, rfl, fun h ↦ absurd rfl h, fun h h' ↦ ?_, fun _ ↦ rfl⟩
    · intro i instruction hi
      cases hi
    · rw [h'] at h
      cases h
  | cons instruction code ih =>
    obtain ⟨hrun, h⟩ := guard_eq_ok h
    obtain ⟨mid, hmid, h⟩ := bind_eq_ok h
    obtain ⟨mid', hlimits, h⟩ := bind_eq_ok h
    obtain ⟨hdepth, hlimits⟩ := guard_eq_ok hlimits
    obtain ⟨hactions, hlimits⟩ := guard_eq_ok hlimits
    obtain rfl := Except.ok.inj hlimits
    have hadv := advances_of_checkInstruction hmid
    have hrest := ih h
    refine ⟨?_, ?_, ?_, ?_, ?_, ?_⟩
    · intro i ins hi
      cases i with
      | zero =>
        obtain rfl := Option.some_inj.mp hi
        exact checked_of_checkInstruction hmid
      | succ i =>
        have := hrest.checked i ins hi
        rwa [Nat.add_assoc, Nat.add_comm 1 i] at this
    · rw [hrest.emitCount, hadv.emitCount, List.countP_cons]
      omega
    · rw [hrest.actionCount, hadv.actionCount, List.countP_cons]
      omega
    · intro _
      cases code with
      | nil =>
        obtain rfl := Except.ok.inj h
        omega
      | cons next code => exact hrest.actions_le (List.cons_ne_nil _ _)
    · intro hend hstart
      by_cases hhalt : instruction = .halt
      · have hcode := hrest.ended (by rw [hadv.halted, hhalt]; simp)
        exact ⟨[], by rw [hcode, hhalt]; rfl, List.not_mem_nil⟩
      · obtain ⟨body, hbody, hnot⟩ := hrest.halted hend (by rw [hadv.halted, hstart]; simp [hhalt])
        refine ⟨instruction :: body, by rw [hbody]; rfl, ?_⟩
        rw [List.mem_cons, not_or]
        exact ⟨fun h ↦ hhalt h.symm, hnot⟩
    · exact fun h ↦ absurd h hrun

/-! ### Stack depths -/

/-- Stack depth after an instruction. -/
def TriggerInstruction.depthAfter (instruction : TriggerInstruction) (depth : Nat) : Nat :=
  depth - instruction.required + instruction.produced

/-- Every instruction that can be reached has one depth, which suffices for it. -/
structure Depths (code : List TriggerInstruction) (depths : Nat → Option Nat) : Prop where
  start : depths 0 = some 0
  required : ∀ i depth instruction, depths i = some depth → code[i]? = some instruction →
    instruction.required ≤ depth ∧ instruction.depthAfter depth ≤ MAX_TRIGGER_STACK
  step : ∀ i depth instruction, depths i = some depth → code[i]? = some instruction →
    ∀ j ∈ instruction.successors code.length i, depths j = some (instruction.depthAfter depth)

theorem at_initialDepths {code : List TriggerInstruction} {i depth : Nat} :
    Flow.At (initialDepths code) i depth ↔ i = 0 ∧ depth = 0 ∧ code ≠ [] := by
  cases code with
  | nil => simp [Flow.At, initialDepths]
  | cons instruction code =>
    cases i with
    | zero => simp [Flow.At, initialDepths, eq_comm]
    | succ i =>
      simp only [Flow.At, initialDepths]
      rw [List.getElem?_set_ne (Nat.succ_ne_zero i).symm, List.getElem?_replicate]
      split <;> simp

theorem exists_depths {code : List TriggerInstruction} (hne : code ≠ [])
    (h : validateStackControlFlow code = .ok ()) : ∃ depths, Depths code depths := by
  unfold validateStackControlFlow at h
  split at h
  · cases h
  · next final hlabel =>
    have hinv : (stackFlow code).Inv (initialDepths code) [0] := by
      intro i depth hi
      obtain ⟨rfl, -, -⟩ := at_initialDepths.mp hi
      exact .inl (List.mem_singleton_self 0)
    obtain ⟨hgrow, hsettled⟩ := Flow.settled_of_label hlabel hinv
    refine ⟨fun i ↦ final[i]?.join, ?_⟩
    have hat {i depth : Nat} : final[i]?.join = some depth ↔ Flow.At final i depth := by
      rw [Flow.At, Option.join_eq_some_iff]
    have hvisit {i depth : Nat} {instruction : TriggerInstruction}
        (hi : final[i]?.join = some depth) (hcode : code[i]? = some instruction) :
        instruction.required ≤ depth ∧ instruction.depthAfter depth ≤ MAX_TRIGGER_STACK ∧
          ∀ j ∈ instruction.successors code.length i,
            final[j]?.join = some (instruction.depthAfter depth) := by
      obtain ⟨out, successors, hv, hout⟩ := hsettled i depth (hat.mp hi)
      simp only [stackFlow, visitInstruction, hcode] at hv
      obtain ⟨hreq, hv⟩ := guard_eq_ok hv
      obtain ⟨hmax, hv⟩ := guard_eq_ok hv
      obtain ⟨rfl, rfl⟩ := Prod.mk.inj (Except.ok.inj hv)
      exact ⟨Nat.not_lt.mp hreq, Nat.not_lt.mp hmax, fun j hj ↦ hat.mpr (hout j hj)⟩
    constructor
    · exact hat.mpr (hgrow 0 0 (at_initialDepths.mpr ⟨rfl, rfl, hne⟩))
    · exact fun i depth instruction hi hcode ↦ ⟨(hvisit hi hcode).1, (hvisit hi hcode).2.1⟩
    · exact fun i depth instruction hi hcode ↦ (hvisit hi hcode).2.2

/-! ### The action block -/

/-- The actions are the instructions from `first` to the halt, and nothing jumps between
them. -/
structure Block (code : List TriggerInstruction) (first : Nat) : Prop where
  first_lt : first < code.length
  before : ∀ i instruction, i < first → code[i]? = some instruction → ¬ instruction.isAction
  within : ∀ i instruction, first ≤ i → i + 1 < code.length → code[i]? = some instruction →
    instruction.isAction
  jump : ∀ i target, i < first → code[i]? = some (.jumpIfFalse target) →
    target.toNat ≤ first ∨ target.toNat + 1 = code.length

theorem exists_block {code : List TriggerInstruction}
    (h : validateAtomicActionBlock code = .ok ()) : ∃ first, Block code first := by
  unfold validateAtomicActionBlock at h
  simp only at h
  split at h
  · cases h
  · next first hfirst =>
    obtain ⟨hle, h⟩ := guard_eq_ok h
    obtain ⟨hall, h⟩ := guard_eq_ok h
    split at h
    · cases h
    · next hjump =>
      obtain ⟨hlt, -, hbefore⟩ := List.findIdx?_eq_some_iff_getElem.mp hfirst
      refine ⟨first, hlt, ?_, ?_, ?_⟩
      · intro i instruction hi hcode
        obtain ⟨hilt, rfl⟩ := List.getElem?_eq_some_iff.mp hcode
        exact hbefore i hi
      · intro i instruction hi hilt hcode
        rw [not_not, List.all_eq_true] at hall
        apply hall
        apply List.mem_of_getElem? (i := i - first)
        rw [List.getElem?_drop, Nat.add_sub_cancel' hi, List.getElem?_take_of_lt (by omega), hcode]
      · intro i target hi hcode
        rw [List.findIdx?_eq_none_iff] at hjump
        have hmem : TriggerInstruction.jumpIfFalse target ∈ code.take first := by
          apply List.mem_of_getElem? (i := i)
          rw [List.getElem?_take_of_lt hi, hcode]
        have hinto := hjump _ hmem
        simp only [jumpsInto, decide_eq_false_iff_not] at hinto
        omega

/-! ### Accepted programs -/

/-- What `validate` establishes about the instructions of a program. -/
structure Verified (code : List TriggerInstruction) : Prop where
  length_le : code.length ≤ MAX_TRIGGER_INSTRUCTIONS
  halts : ∃ body, code = body ++ [.halt] ∧ .halt ∉ body
  checked : ∀ i instruction, code[i]? = some instruction → Checked code.length i instruction
  emits : code.countP TriggerInstruction.isEmit = 1
  actions_le : code.countP TriggerInstruction.isAction ≤ MAX_TRIGGER_ACTIONS
  depths : ∃ depths, Depths code depths
  block : ∃ first, Block code first

/-- Soundness of the checker. -/
theorem verified_of_validate {p : TriggerProgram} (h : p.validate = .ok ()) :
    Verified p.instructions := by
  unfold TriggerProgram.validate at h
  obtain ⟨-, h⟩ := guard_eq_ok h
  obtain ⟨_, -, h⟩ := bind_eq_ok h
  obtain ⟨-, h⟩ := guard_eq_ok h
  obtain ⟨hcount, h⟩ := guard_eq_ok h
  obtain ⟨pass, hpass, h⟩ := bind_eq_ok h
  obtain ⟨hhalted, h⟩ := guard_eq_ok h
  obtain ⟨hemit, h⟩ := guard_eq_ok h
  obtain ⟨_, hflow, h⟩ := bind_eq_ok h
  have hpassed := passed_of_checkInstructions hpass
  rw [not_or, Nat.not_lt] at hcount
  refine ⟨hcount.2, hpassed.halted (not_not.mp hhalted) rfl, ?_, ?_, ?_,
    exists_depths hcount.1 hflow, exists_block h⟩
  · intro i instruction hi
    have := hpassed.checked i instruction hi
    rwa [Nat.zero_add] at this
  · have hcounted := hpassed.emitCount
    rw [Nat.zero_add] at hcounted
    rw [← hcounted]
    exact not_not.mp hemit
  · have := hpassed.actions_le hcount.1
    rw [hpassed.actionCount] at this
    omega

/-! ### The checker does not panic -/

section Panics

variable {α : Type}

/-- A guard that rejects does not panic. -/
theorem guard_panicked {c : Prop} [Decidable c] {message : String} {x : Except Failure α}
    (h : (if c then reject message else x) = .error .panicked) : ¬ c ∧ x = .error .panicked := by
  split at h
  · cases h
  · next hc => exact ⟨hc, h⟩

theorem requireStack_not_panicked {available needed : Nat} :
    requireStack index available needed ≠ .error .panicked := fun h ↦ by
  cases (guard_panicked h).2

theorem validateSlot_not_panicked {slot : UInt8} :
    validateSlot index slot ≠ .error .panicked := fun h ↦ by
  cases (guard_panicked h).2

theorem validateIdentifier_not_panicked {value field : String} :
    validateIdentifier value field ≠ .error .panicked := fun h ↦ by
  cases (guard_panicked h).2

/-- Two checks in a row panic only if one of them does. -/
theorem bind_not_panicked {β : Type} {x : Except Failure α} {f : α → Except Failure β}
    (hx : x ≠ .error .panicked) (hf : ∀ a, x = .ok a → f a ≠ .error .panicked) :
    (x >>= f) ≠ .error .panicked := by
  intro h
  rcases bind_eq_error h with h | ⟨a, ha, h⟩
  · exact hx h
  · exact hf a ha h

theorem validateSignal_not_panicked (signal : TriggerSignal) :
    validateSignal signal ≠ .error .panicked := by
  cases signal with
  | objectCount label zone =>
    apply bind_not_panicked validateIdentifier_not_panicked
    intro _ _
    cases zone with
    | none => exact nofun
    | some zone => exact validateIdentifier_not_panicked
  | minimumDistanceMm left right | timeToCollisionMs left right | dwellMs left right =>
    exact bind_not_panicked validateIdentifier_not_panicked
      fun _ _ ↦ validateIdentifier_not_panicked
  | audioEventConfidence label => exact validateIdentifier_not_panicked
  | _ => exact nofun

theorem checkInstruction_not_panicked (count index : Nat) (pass : Pass)
    (instruction : TriggerInstruction) :
    checkInstruction count index pass instruction ≠ .error .panicked := by
  have hbinary : checkBinary index pass ≠ .error .panicked :=
    bind_not_panicked requireStack_not_panicked fun _ _ ↦ nofun
  cases instruction with
  | load signal => exact bind_not_panicked (validateSignal_not_panicked signal) fun _ _ ↦ nofun
  | constant value => exact fun h ↦ by cases (guard_panicked h).2
  | greaterThan | greaterOrEqual | lessThan | lessOrEqual | equal | and | or => exact hbinary
  | not => exact bind_not_panicked requireStack_not_panicked fun _ _ ↦ nofun
  | sustainFrames slot frames | cooldownMs slot durationMs =>
    apply bind_not_panicked requireStack_not_panicked
    intro _ _
    apply bind_not_panicked validateSlot_not_panicked
    exact fun _ _ h ↦ by cases (guard_panicked h).2
  | risingEdge slot =>
    exact bind_not_panicked requireStack_not_panicked
      fun _ _ ↦ bind_not_panicked validateSlot_not_panicked fun _ _ ↦ nofun
  | jumpIfFalse target =>
    exact bind_not_panicked requireStack_not_panicked
      fun _ _ h ↦ by cases (guard_panicked h).2
  | emit eventType => exact bind_not_panicked validateIdentifier_not_panicked fun _ _ ↦ nofun
  | capture kind beforeMs afterMs => exact fun h ↦ by cases (guard_panicked h).2
  | notify | halt => exact nofun

theorem checkInstructions_not_panicked (code : List TriggerInstruction) :
    checkInstructions count index pass code ≠ .error .panicked := by
  induction code generalizing index pass with
  | nil => exact nofun
  | cons instruction code ih =>
    intro h
    obtain ⟨-, h⟩ := guard_panicked h
    refine bind_not_panicked (checkInstruction_not_panicked _ _ _ _) (fun mid _ ↦ ?_) h
    refine bind_not_panicked (fun h ↦ ?_) fun _ _ ↦ ih
    obtain ⟨-, h⟩ := guard_panicked h
    cases (guard_panicked h).2

/-- Jumps of a passed program stay inside it, so its labelling does. -/
theorem closed_stackFlow {code : List TriggerInstruction}
    (hchecked : ∀ i instruction, code[i]? = some instruction → Checked code.length i instruction) :
    (stackFlow code).Closed code.length where
  visit_ne i depth hi h := by
    simp only [stackFlow, visitInstruction, List.getElem?_eq_getElem hi] at h
    obtain ⟨-, h⟩ := guard_panicked h
    cases (guard_panicked h).2
  conflict_ne _ _ _ := nofun
  successors_lt i depth out successors h j hj := by
    simp only [stackFlow, visitInstruction] at h
    split at h
    · cases h
    · next instruction hi =>
      obtain ⟨-, h⟩ := guard_eq_ok h
      obtain ⟨-, h⟩ := guard_eq_ok h
      obtain ⟨-, rfl⟩ := Prod.mk.inj (Except.ok.inj h)
      have hnext : j ∈ (if i + 1 < code.length then [i + 1] else []) → j < code.length := by
        split <;> simp_all
      cases instruction with
      | halt => cases hj
      | jumpIfFalse target =>
        rcases List.mem_append.mp hj with hj | hj
        · exact hnext hj
        · rw [List.mem_singleton.mp hj]
          exact ((hchecked i _ hi).target target rfl).2
      | _ => exact hnext hj

theorem validateStackControlFlow_not_panicked {code : List TriggerInstruction} (hne : code ≠ [])
    (hchecked : ∀ i instruction, code[i]? = some instruction → Checked code.length i instruction) :
    validateStackControlFlow code ≠ .error .panicked := by
  have hpos := List.length_pos_iff.mpr hne
  have hstart : (List.replicate code.length (none : Option Nat))[0]? = some none := by
    rw [List.getElem?_replicate, if_pos hpos]
  have hcount := Flow.unlabelled_set hstart 0
  rw [Flow.unlabelled, Flow.unlabelled, List.countP_replicate] at hcount
  have hlabel : (stackFlow code).label code.length (initialDepths code) [0] ≠
      .error (stackFlow code).fault := by
    apply Flow.label_ne_fault (closed_stackFlow hchecked)
    · rw [initialDepths, List.length_set, List.length_replicate]
    · intro i hi
      rw [List.mem_singleton.mp hi]
      exact ⟨0, at_initialDepths.mpr ⟨rfl, rfl, hne⟩⟩
    · rw [List.length_singleton, Nat.add_comm, Flow.unlabelled, initialDepths, hcount]
      simp
  unfold validateStackControlFlow
  split
  · next e he =>
    intro h
    exact hlabel (he.trans (congrArg Except.error (Except.error.inj h)))
  · intro h
    cases h

theorem validateAtomicActionBlock_not_panicked {code : List TriggerInstruction}
    (hemit : code.countP TriggerInstruction.isEmit ≠ 0) :
    validateAtomicActionBlock code ≠ .error .panicked := by
  unfold validateAtomicActionBlock
  simp only
  split
  · next hnone =>
    rw [List.findIdx?_eq_none_iff] at hnone
    refine absurd (List.countP_eq_zero.mpr fun instruction hmem h ↦ ?_) hemit
    have := hnone instruction hmem
    cases instruction with
    | emit => cases this
    | _ => cases h
  · next first hfirst =>
    obtain ⟨hlt, -, -⟩ := List.findIdx?_eq_some_iff_getElem.mp hfirst
    rw [if_neg (by omega)]
    intro h
    obtain ⟨-, h⟩ := guard_panicked h
    split at h <;> cases h

end Panics

end Vidarax.Trigger
