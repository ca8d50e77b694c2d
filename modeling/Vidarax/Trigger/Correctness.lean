import Vidarax.Trigger.Reading
import Vidarax.Trigger.Soundness

/-!
# Correctness of the trigger compiler

Packages `vidarax-contracts` and `vidarax-core`,
`crates/vidarax-contracts/src/triggers.rs:518–784`, `crates/vidarax-core/src/trigger.rs:82–259`.
The slots of the machine describe the samples so far: streaks of the sustained conditions,
the last edge value and the last firing. Under this relation the compiled code decides what
the rule of the source decides.
-/

namespace Vidarax.Trigger

open Vidarax.Base

/-! ### Runs of computing instructions -/

/-- The effect of several instructions, as long as the stack has room. -/
def TriggerVm.effects (vm : TriggerVm) (sample : TriggerSample) :
    List TriggerInstruction → List F32 → Option (TriggerVm × List F32)
  | [], values => some (vm, values)
  | instruction :: rest, values =>
    match vm.effect sample instruction values with
    | none => none
    | some (vm', values') =>
      if values'.length ≤ MAX_TRIGGER_STACK then vm'.effects sample rest values' else none

variable {vm vm' : TriggerVm} {sample : TriggerSample}

theorem effects_cons {instruction : TriggerInstruction} {rest : List TriggerInstruction}
    {values values' : List F32} (h : vm.effect sample instruction values = some (vm', values'))
    (hroom : values'.length ≤ MAX_TRIGGER_STACK) :
    vm.effects sample (instruction :: rest) values = vm'.effects sample rest values' := by
  simp only [TriggerVm.effects, h, if_pos hroom]

theorem effects_append {first last : List TriggerInstruction} {values values' : List F32}
    (h : vm.effects sample first values = some (vm', values')) :
    vm.effects sample (first ++ last) values = vm'.effects sample last values' := by
  induction first generalizing vm values with
  | nil =>
    obtain ⟨rfl, rfl⟩ := Prod.mk.inj (Option.some.inj h)
    rfl
  | cons instruction first ih =>
    rw [TriggerVm.effects] at h
    split at h
    · cases h
    · next mid values₁ heffect =>
      split at h
      · next hroom =>
        rw [List.cons_append, effects_cons heffect hroom]
        exact ih h
      · cases h

/-- Instructions with an effect compute and keep the program. -/
theorem effect_computes {instruction : TriggerInstruction} {values values' : List F32}
    (h : vm.effect sample instruction values = some (vm', values')) :
    instruction.computes ∧ vm'.program = vm.program := by
  unfold TriggerVm.effect at h
  split at h
  -- instructions without a slot
  any_goals
    obtain ⟨rfl, -⟩ := Prod.mk.inj (Option.some.inj h)
    exact ⟨rfl, rfl⟩
  · obtain ⟨streak, -, heq⟩ := Option.map_eq_some_iff.mp h
    obtain ⟨rfl, -⟩ := Prod.mk.inj heq
    exact ⟨rfl, rfl⟩
  · obtain ⟨last, -, heq⟩ := Option.map_eq_some_iff.mp h
    obtain ⟨rfl, -⟩ := Prod.mk.inj heq
    exact ⟨rfl, rfl⟩
  · obtain ⟨last, -, heq⟩ := Option.map_eq_some_iff.mp h
    obtain ⟨rfl, -⟩ := Prod.mk.inj heq
    refine ⟨rfl, ?_⟩
    split <;> rfl
  · cases h

/-- The machine runs through a segment of its program as the effects say. -/
theorem loop_effects {before segment after : List TriggerInstruction} {f : Frame}
    {values values' : List F32} (hprogram : vm.program.instructions = before ++ segment ++ after)
    (hpc : f.pc = before.length) (hf : Holds f values)
    (h : vm.effects sample segment values = some (vm', values')) :
    ∃ f', Holds f' values' ∧ f'.pc = before.length + segment.length ∧
      f'.evaluation.actionIndices = f.evaluation.actionIndices ∧
      f'.evaluation.actionCount = f.evaluation.actionCount ∧ vm'.program = vm.program ∧
      ∀ fuel steps, TriggerVm.loop sample (segment.length + fuel) steps vm f =
        TriggerVm.loop sample fuel (steps + segment.length) vm' f' := by
  induction segment generalizing before vm f values with
  | nil =>
    obtain ⟨rfl, rfl⟩ := Prod.mk.inj (Option.some.inj h)
    refine ⟨f, hf, hpc, rfl, rfl, rfl, fun fuel steps ↦ ?_⟩
    rw [List.length_nil, Nat.zero_add, Nat.add_zero]
  | cons instruction segment ih =>
    rw [TriggerVm.effects] at h
    split at h
    · cases h
    · next mid values₁ heffect =>
      split at h
      · next hroom =>
        obtain ⟨f₁, hexec, hf₁, hcont⟩ := exec_of_effect hf heffect hroom
        obtain ⟨-, hmid⟩ := effect_computes heffect
        have hsplit : mid.program.instructions = (before ++ [instruction]) ++ segment ++ after := by
          rw [hmid, hprogram]
          simp
        obtain ⟨f', hf', hpc', hindices, hcount, hprogram', hloop⟩ :=
          ih hsplit (by rw [hcont.pc, hpc]; simp) hf₁ h
        refine ⟨f', hf', ?_, hindices.trans hcont.actionIndices, hcount.trans hcont.actionCount,
          hprogram'.trans hmid, fun fuel steps ↦ ?_⟩
        · rw [hpc']
          simp only [List.length_append, List.length_cons, List.length_nil]
          omega
        · have hfetch : vm.program.instructions[f.pc]? = some instruction := by
            rw [hprogram, hpc, List.append_assoc, List.getElem?_append_right (Nat.le_refl _),
              Nat.sub_self]
            rfl
          have hfuel : (instruction :: segment).length + fuel = segment.length + fuel + 1 := by
            rw [List.length_cons]
            omega
          rw [hfuel, TriggerVm.loop, hfetch]
          simp only [hexec]
          rw [hloop, List.length_cons]
          congr 1
          omega
      · cases h

/-! ### Conditions -/

/-- The number of newest samples in a row at which a condition holds. -/
def streak (c : Condition) (history : List TriggerSample) : Nat :=
  (history.takeWhile c.holdsAt).length

theorem streak_cons (c : Condition) (sample : TriggerSample) (history : List TriggerSample) :
    streak c (sample :: history) = if c.holdsAt sample then streak c history + 1 else 0 := by
  rw [streak, List.takeWhile_cons]
  split <;> rfl

/-- A condition has held for as many samples as its streak is long. -/
theorem heldFor_iff (c : Condition) (n : Nat) (history : List TriggerSample) :
    c.heldFor n history ↔ n ≤ streak c history := by
  induction history generalizing n with
  | nil => simp [Condition.heldFor, streak]
  | cons sample history ih =>
    cases n with
    | zero => simp [Condition.heldFor]
    | succ n =>
      rw [streak_cons]
      have hcons : c.heldFor (n + 1) (sample :: history) =
          (c.holdsAt sample && c.heldFor n history) := by
        rw [Bool.eq_iff_iff, Bool.and_eq_true]
        simp only [Condition.heldFor, List.length_cons, List.take_succ_cons, List.mem_cons,
          forall_eq_or_imp, decide_eq_true_eq]
        constructor
        · exact fun ⟨hlen, hnow, hall⟩ ↦ ⟨hnow, by omega, hall⟩
        · exact fun ⟨hnow, hlen, hall⟩ ↦ ⟨by omega, hnow, hall⟩
      rw [hcons, Bool.and_eq_true, ih]
      by_cases hnow : c.holdsAt sample <;> simp [hnow]

/-- A streak as its slot counts it. -/
def streakWord (n : Nat) : UInt16 := UInt16.ofNat (min n 65535)

theorem toNat_streakWord (n : Nat) : (streakWord n).toNat = min n 65535 := by
  rw [streakWord, UInt16.toNat_ofNat_of_lt']
  exact Nat.lt_of_le_of_lt (Nat.min_le_right _ _) (by decide)

theorem nextStreak_streakWord (c : Condition) (sample : TriggerSample)
    (history : List TriggerSample) :
    nextStreak (streakWord (streak c history)) (c.holdsAt sample) =
      streakWord (streak c (sample :: history)) := by
  rw [nextStreak, streak_cons]
  split
  · rw [toNat_streakWord, streakWord]
    congr 1
    omega
  · rfl

/-- The slots hold the streaks of the sustained conditions. -/
def StreaksAt (vm : TriggerVm) (history : List TriggerSample) : UInt8 → List Condition → Prop
  | _, [] => True
  | slot, c :: rest =>
    (c.sustainFrames.isSome →
      vm.sustainStreaks[slot.toNat]? = some (streakWord (streak c history))) ∧
      StreaksAt vm history (slotAfter slot c) rest

theorem le_slotAfter (slot : UInt8) (c : Condition) : slot.toNat ≤ (slotAfter slot c).toNat := by
  rw [slotAfter]
  split
  · rw [nextSlot, UInt8.toNat_ofNat_of_lt' 
      (Nat.lt_of_le_of_lt (Nat.min_le_right _ _) (by decide))]
    have := slot.toNat_lt
    omega
  · exact Nat.le_refl _

/-- Streaks depend on the slots from the first one on. -/
theorem StreaksAt.congr {history : List TriggerSample} {slot : UInt8} {cs : List Condition}
    (h : StreaksAt vm history slot cs)
    (hsame : ∀ i, slot.toNat ≤ i → vm'.sustainStreaks[i]? = vm.sustainStreaks[i]?) :
    StreaksAt vm' history slot cs := by
  induction cs generalizing slot with
  | nil => trivial
  | cons c cs ih =>
    refine ⟨fun hs ↦ ?_, ih h.2 fun i hi ↦ hsame i ((le_slotAfter slot c).trans hi)⟩
    rw [hsame _ (Nat.le_refl _)]
    exact h.1 hs

theorem truthy_boolValue (b : Bool) : truthy (boolValue b) = b := by
  cases b <;> decide

/-- A comparison with a missing signal is false. -/
theorem Comparison.holds_nan (comparison : Comparison) (b : F32) :
    comparison.holds .nan b = false := by
  obtain ⟨h₁, h₂, h₃, h₄, h₅⟩ := F32.comparison_nan b
  cases comparison with
  | greaterThan => exact h₃
  | greaterOrEqual => exact h₄
  | lessThan => exact h₁
  | lessOrEqual => exact h₂
  | equal => exact h₅

theorem Condition.holdsAt_eq (c : Condition) (sample : TriggerSample) :
    c.comparison.holds ((readSignal sample c.signal).getD .nan) c.value = c.holdsAt sample := by
  rw [Condition.holdsAt]
  cases readSignal sample c.signal with
  | none => exact c.comparison.holds_nan c.value
  | some value => rfl

/-- A comparison instruction compares. -/
theorem effect_comparison (comparison : Comparison) (a b : F32) (values : List F32) :
    vm.effect sample comparison.instruction (b :: a :: values) =
      some (vm, boolValue (comparison.holds a b) :: values) := by
  cases comparison <;> rfl

/-- Code whose slots exist and whose frame counts are positive. -/
def Usable (code : List TriggerInstruction) : Prop :=
  ∀ instruction ∈ code, (∀ slot, instruction.slot? = some slot →
    slot.toNat < MAX_TRIGGER_STATE_SLOTS) ∧
      ∀ slot frames, instruction = .sustainFrames slot frames → 0 < frames.toNat

/-- The slots after one condition has seen a sample. -/
def TriggerVm.observe (vm : TriggerVm) (c : Condition) (slot : UInt8)
    (history : List TriggerSample) : TriggerVm :=
  if c.sustainFrames.isSome then
    { vm with sustainStreaks := vm.sustainStreaks.set slot.toNat (streakWord (streak c history)) }
  else vm

/-- The code of a condition pushes whether it is met. -/
theorem effects_conditionCode {c : Condition} {slot : UInt8} {history : List TriggerSample}
    {values : List F32} (hroom : values.length + 2 ≤ MAX_TRIGGER_STACK)
    (husable : Usable (conditionCode slot c))
    (hstreak : c.sustainFrames.isSome →
      vm.sustainStreaks[slot.toNat]? = some (streakWord (streak c history))) :
    vm.effects sample (conditionCode slot c) values =
      some (vm.observe c slot (sample :: history),
        boolValue (c.met (sample :: history)) :: values) := by
  have hload : vm.effect sample (.load c.signal) values =
      some (vm, (readSignal sample c.signal).getD .nan :: values) := rfl
  have hconstant : vm.effect sample (.constant c.value)
      ((readSignal sample c.signal).getD .nan :: values) =
        some (vm, c.value :: (readSignal sample c.signal).getD .nan :: values) := rfl
  rw [conditionCode, List.cons_append, effects_cons hload (Nat.le_of_succ_le hroom),
    List.cons_append, effects_cons hconstant hroom, List.cons_append,
    effects_cons (effect_comparison ..) (Nat.le_of_succ_le hroom), c.holdsAt_eq, List.nil_append]
  cases hframes : c.sustainFrames with
  | none =>
    have hmet : c.met (sample :: history) = c.holdsAt sample := by
      simp [Condition.met, hframes]
    have hobserve : vm.observe c slot (sample :: history) = vm := by
      simp [TriggerVm.observe, hframes]
    rw [hmet, hobserve]
    rfl
  | some frames =>
    have hpos : 0 < frames.toNat := by
      have hmem : TriggerInstruction.sustainFrames slot frames ∈ conditionCode slot c := by
        simp [conditionCode, hframes]
      exact (husable _ hmem).2 slot frames rfl
    have hslot := hstreak (by rw [hframes]; rfl)
    have hmet : c.met (sample :: history) =
        decide (frames ≤ streakWord (streak c (sample :: history))) := by
      rw [Bool.eq_iff_iff, decide_eq_true_iff, UInt16.le_iff_toNat_le, toNat_streakWord]
      simp only [Condition.met, hframes, Option.all_some, Bool.and_eq_true, heldFor_iff]
      have hfit := frames.toNat_lt
      rw [streak_cons]
      by_cases hnow : c.holdsAt sample
      · simp only [hnow, if_true, true_and]
        omega
      · simp only [hnow, Bool.false_eq_true, if_false, false_and]
        exact ⟨False.elim, fun h ↦ by omega⟩
    have hobserve : vm.observe c slot (sample :: history) = { vm with
        sustainStreaks :=
          vm.sustainStreaks.set slot.toNat (streakWord (streak c (sample :: history))) } := by
      simp [TriggerVm.observe, hframes]
    have heffect : vm.effect sample (.sustainFrames slot frames)
        (boolValue (c.holdsAt sample) :: values) =
          some (vm.observe c slot (sample :: history),
            boolValue (c.met (sample :: history)) :: values) := by
      rw [hmet, hobserve]
      simp only [TriggerVm.effect, hslot, Option.map_some, truthy_boolValue,
        nextStreak_streakWord]
    rw [effects_cons heffect (Nat.le_of_succ_le hroom)]
    rfl

/-- The machine after a condition differs in the streaks only, from its slot on. -/
structure OnlyStreaks (slot : UInt8) (vm vm' : TriggerVm) : Prop where
  program : vm'.program = vm.program
  edgeValues : vm'.edgeValues = vm.edgeValues
  cooldownLastMs : vm'.cooldownLastMs = vm.cooldownLastMs
  cooldownInitialized : vm'.cooldownInitialized = vm.cooldownInitialized
  below : ∀ i, i < slot.toNat → vm'.sustainStreaks[i]? = vm.sustainStreaks[i]?

theorem OnlyStreaks.refl (slot : UInt8) (vm : TriggerVm) : OnlyStreaks slot vm vm :=
  ⟨rfl, rfl, rfl, rfl, fun _ _ ↦ rfl⟩

theorem OnlyStreaks.trans {slot slot' : UInt8} {vm₁ vm₂ vm₃ : TriggerVm}
    (h : OnlyStreaks slot vm₁ vm₂) (h' : OnlyStreaks slot' vm₂ vm₃)
    (hle : slot.toNat ≤ slot'.toNat) : OnlyStreaks slot vm₁ vm₃ where
  program := h'.program.trans h.program
  edgeValues := h'.edgeValues.trans h.edgeValues
  cooldownLastMs := h'.cooldownLastMs.trans h.cooldownLastMs
  cooldownInitialized := h'.cooldownInitialized.trans h.cooldownInitialized
  below i hi := (h'.below i (Nat.lt_of_lt_of_le hi hle)).trans (h.below i hi)

theorem onlyStreaks_observe (c : Condition) (slot : UInt8) (history : List TriggerSample) :
    OnlyStreaks slot vm (vm.observe c slot history) := by
  unfold TriggerVm.observe
  split
  · exact ⟨rfl, rfl, rfl, rfl, fun i hi ↦ List.getElem?_set_ne (Nat.ne_of_gt hi)⟩
  · exact .refl slot vm

/-- The code after a slot that exists uses the slots after it. -/
theorem lt_slotAfter {slot : UInt8} {c : Condition} (husable : Usable (conditionCode slot c))
    (hs : c.sustainFrames.isSome) : slot.toNat < (slotAfter slot c).toNat := by
  obtain ⟨frames, hframes⟩ := Option.isSome_iff_exists.mp hs
  have hmem : TriggerInstruction.sustainFrames slot frames ∈ conditionCode slot c := by
    simp [conditionCode, hframes]
  have hlt := (husable _ hmem).1 slot rfl
  rw [MAX_TRIGGER_STATE_SLOTS] at hlt
  rw [slotAfter, if_pos hs, nextSlot, UInt8.toNat_ofNat_of_lt'
    (Nat.lt_of_le_of_lt (Nat.min_le_right _ _) (by decide))]
  omega

/-- A condition leaves the streaks of the later ones, and its own is counted. -/
theorem StreaksAt.observe {c : Condition} {rest : List Condition} {slot : UInt8}
    {history : List TriggerSample} (h : StreaksAt vm history slot (c :: rest))
    (husable : Usable (conditionCode slot c)) (sample : TriggerSample) :
    StreaksAt (vm.observe c slot (sample :: history)) history (slotAfter slot c) rest ∧
      (c.sustainFrames.isSome →
        (vm.observe c slot (sample :: history)).sustainStreaks[slot.toNat]? =
          some (streakWord (streak c (sample :: history)))) := by
  unfold TriggerVm.observe
  split
  · next hs =>
    refine ⟨h.2.congr fun i hi ↦ ?_, fun _ ↦ ?_⟩
    · exact List.getElem?_set_ne (Nat.ne_of_lt (Nat.lt_of_lt_of_le (lt_slotAfter husable hs) hi))
    · exact List.getElem?_set_self (List.getElem?_eq_some_iff.mp (h.1 hs)).1
  · next hs => exact ⟨h.2, fun hs' ↦ absurd hs' hs⟩

/-- The code of conditions after the first one conjoins them to the value on the stack. -/
theorem effects_conditionsCode {cs : List Condition} (index : Nat) {slot : UInt8}
    {history : List TriggerSample} (acc : Bool)
    (husable : Usable (conditionsCode (index + 1) slot cs).1)
    (hstreaks : StreaksAt vm history slot cs) :
    ∃ vm', vm.effects sample (conditionsCode (index + 1) slot cs).1 [boolValue acc] =
        some (vm', [boolValue (acc && cs.all (·.met (sample :: history)))]) ∧
      StreaksAt vm' (sample :: history) slot cs ∧ OnlyStreaks slot vm vm' := by
  induction cs generalizing vm slot index acc with
  | nil =>
    refine ⟨vm, ?_, trivial, .refl slot vm⟩
    rw [List.all_nil, Bool.and_true]
    rfl
  | cons c cs ih =>
    have hcode : (conditionsCode (index + 1) slot (c :: cs)).1 =
        conditionCode slot c ++ (.and :: (conditionsCode (index + 1 + 1) (slotAfter slot c) cs).1) := by
      simp [conditionsCode]
    rw [hcode] at husable ⊢
    have husable₁ : Usable (conditionCode slot c) := fun i hi ↦
      husable i (List.mem_append_left _ hi)
    have husable₂ : Usable (conditionsCode (index + 1 + 1) (slotAfter slot c) cs).1 := fun i hi ↦
      husable i (List.mem_append_right _ (List.mem_cons_of_mem _ hi))
    obtain ⟨hrest, hown⟩ := hstreaks.observe husable₁ sample
    obtain ⟨vm', heffects, hstreaks', honly⟩ :=
      ih (index + 1) (acc && c.met (sample :: history)) husable₂ hrest
    have hand : (vm.observe c slot (sample :: history)).effect sample .and
        [boolValue (c.met (sample :: history)), boolValue acc] =
          some (vm.observe c slot (sample :: history),
            [boolValue (acc && c.met (sample :: history))]) := by
      simp only [TriggerVm.effect, truthy_boolValue]
    refine ⟨vm', ?_, ⟨fun hs ↦ ?_, hstreaks'⟩,
      (onlyStreaks_observe c slot _).trans honly (le_slotAfter slot c)⟩
    · rw [effects_append (effects_conditionCode (Nat.le_of_ble_eq_true rfl) husable₁ hstreaks.1),
        effects_cons hand (Nat.le_of_ble_eq_true rfl), heffects, List.all_cons, Bool.and_assoc]
    · rw [honly.below _ (lt_slotAfter husable₁ hs)]
      exact hown hs

/-- The code of all conditions pushes whether they are met. -/
theorem effects_conditions {cs : List Condition} (hne : cs ≠ []) {history : List TriggerSample}
    (husable : Usable (conditionsCode 0 0 cs).1) (hstreaks : StreaksAt vm history 0 cs) :
    ∃ vm', vm.effects sample (conditionsCode 0 0 cs).1 [] =
        some (vm', [boolValue (cs.all (·.met (sample :: history)))]) ∧
      StreaksAt vm' (sample :: history) 0 cs ∧ OnlyStreaks 0 vm vm' := by
  obtain ⟨c, cs, rfl⟩ := List.exists_cons_of_ne_nil hne
  have hcode : (conditionsCode 0 0 (c :: cs)).1 =
      conditionCode 0 c ++ (conditionsCode (0 + 1) (slotAfter 0 c) cs).1 := by
    simp [conditionsCode]
  rw [hcode] at husable ⊢
  have husable₁ : Usable (conditionCode 0 c) := fun i hi ↦ husable i (List.mem_append_left _ hi)
  have husable₂ : Usable (conditionsCode (0 + 1) (slotAfter 0 c) cs).1 := fun i hi ↦
    husable i (List.mem_append_right _ hi)
  obtain ⟨hrest, hown⟩ := hstreaks.observe husable₁ sample
  obtain ⟨vm', heffects, hstreaks', honly⟩ :=
    effects_conditionsCode 0 (c.met (sample :: history)) husable₂ hrest
  refine ⟨vm', ?_, ⟨fun hs ↦ ?_, hstreaks'⟩,
    (onlyStreaks_observe c 0 _).trans honly (le_slotAfter 0 c)⟩
  · rw [effects_append (effects_conditionCode (by decide) husable₁ hstreaks.1), heffects,
      List.all_cons]
  · rw [honly.below _ (lt_slotAfter husable₁ hs)]
    exact hown hs

/-! ### Edge and cooldown -/

/-- The edge slot holds whether the conditions were met last. -/
def EdgeAt (rule : Rule) (vm : TriggerVm) (slot : UInt8) (history : List TriggerSample) : Prop :=
  rule.edge → vm.edgeValues[slot.toNat]? = some (rule.met history)

/-- The cooldown slot holds the last firing. -/
def CooldownAt (rule : Rule) (vm : TriggerVm) (slot : UInt8) (history : List TriggerSample) :
    Prop :=
  rule.cooldown.isSome → ∃ last, vm.cooldownLastMs[slot.toNat]? = some last ∧
    rule.lastFiring history =
      if vm.cooldownInitialized &&& UInt16.ofNat (2 ^ slot.toNat) = 0 then none else some last

/-- The edge code pushes whether the rule is triggered. -/
theorem effects_edgeCode {rule : Rule} {slot : UInt8} {history : List TriggerSample}
    (h : EdgeAt rule vm slot history) (sample : TriggerSample) :
    ∃ vm', vm.effects sample (edgeCode rule.edge slot) [boolValue (rule.met (sample :: history))] =
        some (vm', [boolValue (rule.triggered (sample :: history))]) ∧
      EdgeAt rule vm' slot (sample :: history) ∧
      ∃ edgeValues, vm' = { vm with edgeValues := edgeValues } := by
  unfold edgeCode
  cases hedge : rule.edge with
  | false =>
    refine ⟨vm, ?_, fun hs ↦ ?_, _, rfl⟩
    · have htriggered : rule.triggered (sample :: history) = rule.met (sample :: history) := by
        simp [Rule.triggered, hedge]
      rw [htriggered]
      rfl
    · rw [hedge] at hs
      cases hs
  | true =>
    have hslot := h hedge
    have htriggered : rule.triggered (sample :: history) =
        (rule.met (sample :: history) && !rule.met history) := by
      simp [Rule.triggered, hedge]
    have heffect : vm.effect sample (.risingEdge slot)
        [boolValue (rule.met (sample :: history))] =
          some ({ vm with edgeValues := vm.edgeValues.set slot.toNat (rule.met (sample :: history)) },
            [boolValue (rule.triggered (sample :: history))]) := by
      rw [htriggered]
      simp only [TriggerVm.effect, hslot, Option.map_some, truthy_boolValue]
    refine ⟨{ vm with edgeValues := vm.edgeValues.set slot.toNat (rule.met (sample :: history)) },
      ?_, fun _ ↦ ?_, _, rfl⟩
    · rw [if_pos rfl, effects_cons heffect (Nat.le_of_ble_eq_true rfl)]
      rfl
    · exact List.getElem?_set_self (List.getElem?_eq_some_iff.mp hslot).1

/-- A bit that was set is set. -/
theorem or_and_bit (x b : UInt16) : (x ||| b) &&& b = b := by
  apply UInt16.toBitVec_inj.mp
  rw [UInt16.toBitVec_and, UInt16.toBitVec_or]
  ext i hi
  simp only [BitVec.getElem_and, BitVec.getElem_or]
  cases x.toBitVec[i] <;> cases b.toBitVec[i] <;> rfl

theorem bit_ne_zero {slot : UInt8} (h : slot.toNat < MAX_TRIGGER_STATE_SLOTS) :
    UInt16.ofNat (2 ^ slot.toNat) ≠ 0 := by
  have hall : ∀ k < 16, UInt16.ofNat (2 ^ k) ≠ 0 := by decide
  exact hall _ h

theorem Rule.fires_cons (rule : Rule) (sample : TriggerSample) (history : List TriggerSample) :
    rule.fires (sample :: history) =
      (rule.triggered (sample :: history) && rule.rested (rule.lastFiring history) sample.ptsMs) :=
  rfl

theorem Rule.lastFiring_cons (rule : Rule) (sample : TriggerSample)
    (history : List TriggerSample) :
    rule.lastFiring (sample :: history) =
      if rule.fires (sample :: history) then some sample.ptsMs else rule.lastFiring history := rfl

/-- The cooldown code pushes whether the rule fires. -/
theorem effects_cooldownCode {rule : Rule} {slot : UInt8} {history : List TriggerSample}
    (husable : Usable (cooldownCode rule.cooldown slot)) (h : CooldownAt rule vm slot history)
    (sample : TriggerSample) :
    ∃ vm', vm.effects sample (cooldownCode rule.cooldown slot)
        [boolValue (rule.triggered (sample :: history))] =
          some (vm', [boolValue (rule.fires (sample :: history))]) ∧
      CooldownAt rule vm' slot (sample :: history) ∧
      vm'.sustainStreaks = vm.sustainStreaks ∧ vm'.edgeValues = vm.edgeValues := by
  unfold cooldownCode
  cases hcooldown : rule.cooldown with
  | none =>
    refine ⟨vm, ?_, fun hs ↦ ?_, rfl, rfl⟩
    · have hfires : rule.fires (sample :: history) = rule.triggered (sample :: history) := by
        simp [Rule.fires_cons, Rule.rested, hcooldown]
      rw [hfires]
      rfl
    · rw [hcooldown] at hs
      cases hs
  | some duration =>
    obtain ⟨last, hlast, hfiring⟩ := h (by rw [hcooldown]; rfl)
    have hslot : slot.toNat < MAX_TRIGGER_STATE_SLOTS :=
      (husable (.cooldownMs slot duration) (by simp [cooldownCode, hcooldown])).1 slot rfl
    have hfires : rule.fires (sample :: history) =
        (rule.triggered (sample :: history) && cooldownAllows vm sample slot duration last) := by
      rw [Rule.fires_cons, hfiring, cooldownAllows, Rule.rested, hcooldown, Option.all_some]
      by_cases hbit : vm.cooldownInitialized &&& UInt16.ofNat (2 ^ slot.toNat) = 0 <;> simp [hbit]
    have heffect : vm.effect sample (.cooldownMs slot duration)
        [boolValue (rule.triggered (sample :: history))] =
          some (if rule.fires (sample :: history) then vm.restartCooldown sample slot else vm,
            [boolValue (rule.fires (sample :: history))]) := by
      rw [hfires]
      simp only [TriggerVm.effect, hlast, Option.map_some, truthy_boolValue]
    refine ⟨_, by rw [effects_cons heffect (Nat.le_of_ble_eq_true rfl)]; rfl, fun _ ↦ ?_, ?_, ?_⟩
    · by_cases hf : rule.fires (sample :: history)
      · rw [if_pos hf, Rule.lastFiring_cons, if_pos hf]
        refine ⟨sample.ptsMs, List.getElem?_set_self (List.getElem?_eq_some_iff.mp hlast).1, ?_⟩
        simp only [TriggerVm.restartCooldown, or_and_bit]
        rw [if_neg (bit_ne_zero hslot)]
      · rw [if_neg hf, Rule.lastFiring_cons, if_neg hf]
        exact ⟨last, hlast, hfiring⟩
    · split <;> rfl
    · split <;> rfl

/-! ### The decision -/

theorem computes_conditionsCode (cs : List Condition) (index : Nat) (slot : UInt8) :
    ∀ i ∈ (conditionsCode index slot cs).1, i.computes := by
  induction cs generalizing index slot with
  | nil => exact nofun
  | cons c cs ih =>
    intro i hi
    simp only [conditionsCode, List.mem_append] at hi
    rcases hi with (hi | hi) | hi
    · have hcomparison : c.comparison.instruction.computes := by cases c.comparison <;> rfl
      cases hframes : c.sustainFrames <;> simp [conditionCode, hframes] at hi <;>
        rcases hi with rfl | rfl | rfl | rfl <;> first | rfl | exact hcomparison
    · split at hi
      · rw [List.mem_singleton.mp hi]
        rfl
      · cases hi
    · exact ih _ _ i hi

/-- Slots of the edge and of the cooldown in the code of a draft. -/
def Draft.edgeSlot (draft : Draft) : UInt8 := (conditionsCode 0 0 draft.conditions).2

def Draft.cooldownSlot (draft : Draft) : UInt8 :=
  if draft.edge then nextSlot draft.edgeSlot else draft.edgeSlot

theorem Draft.decision_eq (draft : Draft) :
    draft.decision = (conditionsCode 0 0 draft.conditions).1 ++
      (edgeCode draft.edge draft.edgeSlot ++
        cooldownCode draft.cooldownMs draft.cooldownSlot) := by
  simp [Draft.decision, Draft.edgeSlot, Draft.cooldownSlot]

/-- The decision only computes. -/
theorem Draft.computes_decision (draft : Draft) : ∀ i ∈ draft.decision, i.computes := by
  intro i hi
  rw [Draft.decision_eq, List.mem_append, List.mem_append] at hi
  rcases hi with hi | hi | hi
  · exact computes_conditionsCode _ _ _ i hi
  · unfold edgeCode at hi
    split at hi
    · rw [List.mem_singleton.mp hi]
      rfl
    · cases hi
  · unfold cooldownCode at hi
    split at hi
    · cases hi
    · rw [List.mem_singleton.mp hi]
      rfl

/-- The rule a draft holds. -/
def Draft.rule (draft : Draft) : Rule :=
  ⟨draft.conditions, draft.edge, draft.cooldownMs, draft.actions⟩

/-- The machine has seen a history of samples. -/
structure Seen (draft : Draft) (vm : TriggerVm) (history : List TriggerSample) : Prop where
  streaks : StreaksAt vm history 0 draft.conditions
  edge : EdgeAt draft.rule vm draft.edgeSlot history
  cooldown : CooldownAt draft.rule vm draft.cooldownSlot history

/-- The code of a draft decides what its rule decides. -/
theorem Seen.effects {draft : Draft} {history : List TriggerSample}
    (h : Seen draft vm history) (hne : draft.conditions ≠ []) (husable : Usable draft.decision)
    (sample : TriggerSample) :
    ∃ vm', vm.effects sample draft.decision [] =
        some (vm', [boolValue (draft.rule.fires (sample :: history))]) ∧
      Seen draft vm' (sample :: history) := by
  rw [Draft.decision_eq] at husable ⊢
  have husable₁ : Usable (conditionsCode 0 0 draft.conditions).1 := fun i hi ↦
    husable i (List.mem_append_left _ hi)
  have husable₂ : Usable (cooldownCode draft.cooldownMs draft.cooldownSlot) := fun i hi ↦
    husable i (List.mem_append_right _ (List.mem_append_right _ hi))
  obtain ⟨vm₁, heffects₁, hstreaks, honly⟩ := effects_conditions hne husable₁ h.streaks
  have hmet : draft.conditions.all (·.met (sample :: history)) =
      draft.rule.met (sample :: history) := by
    simp [Rule.met, Draft.rule]
  rw [hmet] at heffects₁
  have hedge : EdgeAt draft.rule vm₁ draft.edgeSlot history := by
    intro hs
    rw [honly.edgeValues]
    exact h.edge hs
  obtain ⟨vm₂, heffects₂, hedge', values, rfl⟩ := effects_edgeCode hedge sample
  have hcooldown : CooldownAt draft.rule { vm₁ with edgeValues := values } draft.cooldownSlot
      history := by
    intro hs
    simp only [honly.cooldownLastMs, honly.cooldownInitialized]
    exact h.cooldown hs
  obtain ⟨vm₃, heffects₃, hcooldown', hstreaks₃, hedge₃⟩ :=
    effects_cooldownCode husable₂ hcooldown sample
  refine ⟨vm₃, ?_, ⟨?_, ?_, hcooldown'⟩⟩
  · rw [effects_append heffects₁]
    exact (effects_append heffects₂).trans heffects₃
  · exact hstreaks.congr fun i _ ↦ by rw [hstreaks₃]
  · intro hs
    rw [hedge₃]
    exact hedge' hs

/-- A fresh machine has seen nothing. -/
theorem seen_fresh {draft : Draft} (husable : Usable draft.decision) (p : TriggerProgram) :
    Seen draft (.fresh p) [] := by
  rw [Draft.decision_eq] at husable
  have hget {α : Type} (a : α) {slot : UInt8} (h : slot.toNat < MAX_TRIGGER_STATE_SLOTS) :
      (List.replicate MAX_TRIGGER_STATE_SLOTS a)[slot.toNat]? = some a := by
    rw [List.getElem?_replicate, if_pos h]
  have hstreaks (cs : List Condition) (index : Nat) (slot : UInt8)
      (h : Usable (conditionsCode index slot cs).1) : StreaksAt (.fresh p) [] slot cs := by
    induction cs generalizing index slot with
    | nil => trivial
    | cons c cs ih =>
      simp only [conditionsCode] at h
      refine ⟨fun hs ↦ ?_, ih (index + 1) _ fun i hi ↦ h i (List.mem_append_right _ hi)⟩
      obtain ⟨frames, hframes⟩ := Option.isSome_iff_exists.mp hs
      have hmem : TriggerInstruction.sustainFrames slot frames ∈ conditionCode slot c := by
        simp [conditionCode, hframes]
      exact hget _ ((h _ (List.mem_append_left _ (List.mem_append_left _ hmem))).1 slot rfl)
  refine ⟨hstreaks _ 0 0 fun i hi ↦ husable i (List.mem_append_left _ hi), fun hs ↦ ?_, fun hs ↦ ?_⟩
  · have hmem : TriggerInstruction.risingEdge draft.edgeSlot ∈ edgeCode draft.edge draft.edgeSlot := by
      have hedge : draft.edge = true := hs
      simp [edgeCode, hedge]
    exact hget _ ((husable _ (List.mem_append_right _ (List.mem_append_left _ hmem))).1 _ rfl)
  · obtain ⟨duration, hduration⟩ := Option.isSome_iff_exists.mp hs
    have hmem : TriggerInstruction.cooldownMs draft.cooldownSlot duration ∈
        cooldownCode draft.cooldownMs draft.cooldownSlot := by
      have hcooldown : draft.cooldownMs = some duration := hduration
      simp [cooldownCode, hcooldown]
    refine ⟨0, hget _ ((husable _ (List.mem_append_right _ (List.mem_append_right _ hmem))).1 _ rfl), ?_⟩
    have hzero : (TriggerVm.fresh p).cooldownInitialized &&&
        UInt16.ofNat (2 ^ draft.cooldownSlot.toNat) = 0 := UInt16.zero_and
    rw [if_pos hzero]
    rfl

/-! ### Evaluations -/

/-- Running into actions and the halt after them reports the actions. -/
theorem loop_actions (before acts : List TriggerInstruction) (f : Frame)
    (hprogram : vm.program.instructions = before ++ acts ++ [.halt])
    (hpc : f.pc = before.length) (hacts : ∀ a ∈ acts, a.isAction) (hsized : f.evaluation.Sized)
    (hroom : f.evaluation.actionCount + acts.length ≤ MAX_TRIGGER_ACTIONS)
    (hindex : before.length + acts.length ≤ 256) (steps : Nat) :
    let run := TriggerVm.loop sample (acts.length + 1) steps vm f
    run.stop = .halt ∧ run.vm = vm ∧
      run.evaluation.actionCount = f.evaluation.actionCount + acts.length ∧
      run.evaluation.reported = f.evaluation.reported ++ List.range' before.length acts.length := by
  induction acts generalizing before f steps with
  | nil =>
    have hfetch : vm.program.instructions[f.pc]? = some .halt := by
      rw [hprogram, hpc, List.append_nil, List.getElem?_append_right (Nat.le_refl _), Nat.sub_self]
      rfl
    simp only [TriggerVm.loop, hfetch]
    exact ⟨rfl, rfl, rfl, (List.append_nil _).symm⟩
  | cons action acts ih =>
    have hfetch : vm.program.instructions[f.pc]? = some action := by
      rw [hprogram, hpc, List.append_assoc, List.getElem?_append_right (Nat.le_refl _), Nat.sub_self]
      rfl
    have hexec : vm.exec sample f action =
        .ok (vm, { f with evaluation := f.evaluation.pushAction f.pc }.next) := by
      have haction := hacts action (List.mem_cons_self ..)
      cases action with
      | emit | capture | notify => rfl
      | _ => cases haction
    rw [List.length_cons] at hroom hindex
    obtain ⟨hsized', hreported⟩ := hsized.pushAction (by omega) f.pc (by omega)
    have hcount : (f.evaluation.pushAction f.pc).actionCount = f.evaluation.actionCount + 1 := by
      rw [TriggerEvaluation.pushAction, if_neg (by omega)]
    obtain ⟨hstop, hvm, hcount', hreported'⟩ :=
      ih (before ++ [action]) { f with evaluation := f.evaluation.pushAction f.pc }.next
        (by rw [hprogram]; simp)
        (by simp [Frame.next, hpc]) (fun a ha ↦ hacts a (List.mem_cons_of_mem _ ha)) hsized'
        (by simp only [Frame.next, hcount]; omega) (by simp; omega) (steps + 1)
    have hloop : TriggerVm.loop sample ((action :: acts).length + 1) steps vm f =
        TriggerVm.loop sample (acts.length + 1) (steps + 1) vm
          { f with evaluation := f.evaluation.pushAction f.pc }.next := by
      rw [List.length_cons, TriggerVm.loop, hfetch]
      simp only [hexec]
    rw [hloop]
    refine ⟨hstop, hvm, ?_, ?_⟩
    · rw [hcount', Frame.next, hcount, List.length_cons]
      omega
    · rw [hreported', Frame.next, hreported, List.length_append, List.length_singleton, hpc,
        List.append_assoc, List.length_cons, List.range'_succ]
      rfl

/-- Index of the halt in the code of a draft. -/
def Draft.haltIndex (draft : Draft) : Nat := draft.decision.length + 1 + draft.actions.length

/-- The jump over the actions. -/
def Draft.jump (draft : Draft) : TriggerInstruction := .jumpIfFalse (UInt8.ofNat draft.haltIndex)

/-- The program that a draft was laid out as. -/
structure Compiled (draft : Draft) (p : TriggerProgram) : Prop where
  valid : p.validate = .ok ()
  conditions_ne : draft.conditions ≠ []
  halt_le : draft.haltIndex ≤ 255
  instructions : p.instructions = draft.decision ++ [draft.jump] ++ draft.actions ++ [.halt]
  actions : ∀ a ∈ draft.actions, a.isAction

/-- Before the jump of a program: the decision is on the stack and nothing is reported. -/
structure Decided (draft : Draft) (vm : TriggerVm) (f : Frame) (decision : Bool) : Prop where
  holds : Holds f [boolValue decision]
  pc : f.pc = draft.decision.length
  sized : f.evaluation.Sized
  reported : f.evaluation.reported = []

namespace Compiled

variable {draft : Draft} {p : TriggerProgram} {history : List TriggerSample} {f : Frame}

theorem usable (h : Compiled draft p) : Usable draft.decision := by
  intro instruction hmem
  have hverified := verified_of_validate h.valid
  have hmem' : instruction ∈ p.instructions := by
    rw [h.instructions]
    simp [hmem]
  obtain ⟨i, hi⟩ := List.mem_iff_getElem?.mp hmem'
  have hchecked := hverified.checked i instruction hi
  exact ⟨hchecked.slot, fun slot frames heq ↦ (hchecked.frames slot frames heq).1⟩

theorem actions_le (h : Compiled draft p) : draft.actions.length ≤ MAX_TRIGGER_ACTIONS := by
  have hle := (verified_of_validate h.valid).actions_le
  have hall : draft.actions.countP TriggerInstruction.isAction = draft.actions.length :=
    List.countP_eq_length.mpr h.actions
  rw [h.instructions, List.countP_append, List.countP_append, hall] at hle
  omega

theorem length_instructions (h : Compiled draft p) :
    p.instructions.length = draft.decision.length + (draft.actions.length + 1 + 1) := by
  rw [h.instructions]
  simp only [List.length_append, List.length_singleton]
  omega

/-- The jump is fetched after the decision. -/
theorem fetch_jump (h : Compiled draft p) : p.instructions[draft.decision.length]? = some draft.jump := by
  rw [h.instructions, List.append_assoc, List.append_assoc,
    List.getElem?_append_right (Nat.le_refl _), Nat.sub_self]
  rfl

/-- The jump leads to the halt. -/
theorem fetch_halt (h : Compiled draft p) :
    p.instructions[(UInt8.ofNat draft.haltIndex).toNat]? = some .halt := by
  have hindex : (UInt8.ofNat draft.haltIndex).toNat =
      (draft.decision ++ [draft.jump] ++ draft.actions).length := by
    rw [UInt8.toNat_ofNat_of_lt' (Nat.lt_succ_of_le h.halt_le), Draft.haltIndex]
    simp only [List.length_append, List.length_singleton]
  rw [h.instructions, hindex, List.getElem?_append_right (Nat.le_refl _), Nat.sub_self]
  rfl

/-- A true decision runs into the actions. -/
theorem loop_true (h : Compiled draft p) (hprogram : vm.program = p)
    (hf : Decided draft vm f true) (sample : TriggerSample) (steps : Nat) :
    let run := TriggerVm.loop sample (draft.actions.length + 1 + 1) steps vm f
    run.stop = .halt ∧ run.vm = vm ∧ run.evaluation.actionCount = draft.actions.length ∧
      run.evaluation.actions p = some draft.actions := by
  have hfetch : vm.program.instructions[f.pc]? = some draft.jump := by
    rw [hprogram, hf.pc, h.fetch_jump]
  have htop := hf.holds.top
  have hexec : vm.exec sample f draft.jump =
      .ok (vm, { f with stackLen := f.stackLen - 1 }.next) := by
    simp only [Draft.jump, TriggerVm.exec, htop, bind, Except.bind, truthy_boolValue]
    rfl
  have hcount : f.evaluation.actionCount = 0 := by
    rw [← hf.sized.length_reported, hf.reported, List.length_nil]
  have hle := h.actions_le
  obtain ⟨hstop, hvm, hactions, hrange⟩ := loop_actions (draft.decision ++ [draft.jump])
    draft.actions { f with stackLen := f.stackLen - 1 }.next
    (hprogram ▸ h.instructions) (by simp [Frame.next, hf.pc]) h.actions hf.sized
    (by simp only [Frame.next, hcount]; omega)
    (by have hhalt := h.halt_le; simp only [Draft.haltIndex] at hhalt; simp; omega) (steps + 1)
  rw [TriggerVm.loop, hfetch]
  simp only [hexec]
  refine ⟨hstop, hvm, ?_, ?_⟩
  · rw [hactions, Frame.next, hcount, Nat.zero_add]
  · have hlen : (draft.decision ++ [draft.jump]).length + draft.actions.length ≤
        p.instructions.length := by
      rw [h.length_instructions]
      simp only [List.length_append, List.length_singleton]
      omega
    rw [TriggerEvaluation.actions_eq, hrange, Frame.next, hf.reported, List.nil_append,
      mapM_range' _ _ _ hlen, h.instructions, List.append_assoc, List.drop_left, List.take_left]

/-- A false decision jumps to the halt. -/
theorem loop_false (h : Compiled draft p) (hprogram : vm.program = p)
    (hf : Decided draft vm f false) (sample : TriggerSample) (steps : Nat) :
    let run := TriggerVm.loop sample (draft.actions.length + 1 + 1) steps vm f
    run.stop = .halt ∧ run.vm = vm ∧ run.evaluation.actionCount = 0 ∧
      run.evaluation.actions p = some [] := by
  have hfetch : vm.program.instructions[f.pc]? = some draft.jump := by
    rw [hprogram, hf.pc, h.fetch_jump]
  have htop := hf.holds.top
  have hexec : vm.exec sample f draft.jump =
      .ok (vm, { f with stackLen := f.stackLen - 1
                        pc := (UInt8.ofNat draft.haltIndex).toNat }) := by
    simp only [Draft.jump, TriggerVm.exec, htop, bind, Except.bind, truthy_boolValue]
    rfl
  have hhalt : vm.program.instructions[(UInt8.ofNat draft.haltIndex).toNat]? = some .halt := by
    rw [hprogram, h.fetch_halt]
  rw [TriggerVm.loop, hfetch]
  simp only [hexec, TriggerVm.loop, hhalt]
  have hcount : f.evaluation.actionCount = 0 := by
    rw [← hf.sized.length_reported, hf.reported, List.length_nil]
  have hactions : f.evaluation.actions p = some [] := by
    rw [TriggerEvaluation.actions_eq, hf.reported]
    rfl
  exact ⟨rfl, rfl, hcount, hactions⟩

/-- One evaluation: the machine fires as the rule does, and reports all its actions. -/
theorem evaluate (h : Compiled draft p) (hprogram : vm.program = p)
    (hseen : Seen draft vm history) (sample : TriggerSample) :
    let run := vm.evaluate sample
    let fires := draft.rule.fires (sample :: history)
    run.stop = .halt ∧ run.vm.program = p ∧ Seen draft run.vm (sample :: history) ∧
      run.evaluation.actionCount = (if fires then draft.actions.length else 0) ∧
      run.evaluation.actions p = some (if fires then draft.actions else []) := by
  obtain ⟨vm', heffects, hseen'⟩ := hseen.effects h.conditions_ne h.usable sample
  have hcode : vm.program.instructions = [] ++ draft.decision ++
      (draft.jump :: (draft.actions ++ [.halt])) := by
    rw [hprogram, h.instructions]
    simp
  obtain ⟨f, hholds, hpc, hindices, hcount, hprogram', hloop⟩ :=
    loop_effects hcode rfl .initial heffects
  have hsized : f.evaluation.Sized := ⟨by rw [hindices]; rfl, by rw [hcount]; exact Nat.zero_le _⟩
  have hdecided : Decided draft vm' f (draft.rule.fires (sample :: history)) := by
    refine ⟨hholds, by simpa using hpc, hsized, ?_⟩
    rw [TriggerEvaluation.reported, hindices, hcount]
    rfl
  have hrun : vm.evaluate sample =
      TriggerVm.loop sample (draft.actions.length + 1 + 1) draft.decision.length vm' f := by
    rw [TriggerVm.evaluate, hprogram, h.length_instructions, hloop, Nat.zero_add]
  simp only [hrun]
  cases hfires : draft.rule.fires (sample :: history) with
  | true =>
    rw [hfires] at hdecided
    obtain ⟨hstop, hvm, hactions, hreport⟩ :=
      h.loop_true (hprogram'.trans hprogram) hdecided sample draft.decision.length
    rw [hvm]
    exact ⟨hstop, hprogram'.trans hprogram, hseen', hactions, hreport⟩
  | false =>
    rw [hfires] at hdecided
    obtain ⟨hstop, hvm, hactions, hreport⟩ :=
      h.loop_false (hprogram'.trans hprogram) hdecided sample draft.decision.length
    rw [hvm]
    exact ⟨hstop, hprogram'.trans hprogram, hseen', hactions, hreport⟩

/-- A program has at least its emit to report. -/
theorem actions_pos (h : Compiled draft p) : 0 < draft.actions.length := by
  have hemits := (verified_of_validate h.valid).emits
  have hnone : draft.decision.countP TriggerInstruction.isEmit = 0 := by
    rw [List.countP_eq_zero]
    intro instruction hmem hemit
    have hcomputes := draft.computes_decision instruction hmem
    cases instruction with
    | emit => cases hcomputes
    | _ => cases hemit
  rw [h.instructions, List.countP_append, List.countP_append, List.countP_append, hnone] at hemits
  have hjump : [draft.jump].countP TriggerInstruction.isEmit = 0 := rfl
  have hhalt : [TriggerInstruction.halt].countP TriggerInstruction.isEmit = 0 := rfl
  have hle := List.countP_le_length (p := TriggerInstruction.isEmit) (l := draft.actions)
  omega

end Compiled

/-! ### Sources -/

theorem isAction_of_actionOf {fields : List String} {action : TriggerInstruction}
    (h : actionOf fields = some action) : action.isAction := by
  unfold actionOf at h
  split at h
  · split at h
    · cases h
      rfl
    split at h
    · cases h
      rfl
    split at h
    · obtain ⟨channel, -, rfl⟩ := Option.map_eq_some_iff.mp h
      rfl
    · cases h
  · split at h
    · obtain ⟨before, -, h⟩ := Option.bind_eq_some_iff.mp h
      obtain ⟨after, -, h⟩ := Option.bind_eq_some_iff.mp h
      cases h
      rfl
    · cases h
  · cases h

/-- A source that compiles is laid out from a draft that holds its rule. -/
theorem compiled_of_compileTrigger {parseF32 : String → Option F32} {source : String}
    {p : TriggerProgram} (h : compileTrigger parseF32 source = .ok p) :
    ∃ draft, Compiled draft p ∧ draft.rule = ruleOf parseF32 source := by
  obtain ⟨draft, hdraft, h⟩ := bind_eq_ok h
  obtain ⟨hconditions, hedge, hcooldown, hactions⟩ := reads_source hdraft
  have hrule : draft.rule = ruleOf parseF32 source := by
    rw [Draft.rule, hconditions, hedge, hcooldown, hactions]
  unfold Draft.assemble at h
  split at h
  · cases h
  · obtain ⟨hne, h⟩ := guard_eq_ok h
    obtain ⟨-, h⟩ := guard_eq_ok h
    obtain ⟨hhalt, h⟩ := guard_eq_ok h
    obtain ⟨_, hvalid, h⟩ := bind_eq_ok h
    obtain rfl := Except.ok.inj h
    refine ⟨draft, ⟨hvalid, hne, Nat.not_lt.mp hhalt, rfl, fun a ha ↦ ?_⟩, hrule⟩
    rw [hactions] at ha
    obtain ⟨fields, -, hfields⟩ := List.mem_filterMap.mp ha
    exact isAction_of_actionOf hfields

/-- The machine of a compiled source after any samples has seen them. -/
theorem seen_feed {draft : Draft} {p : TriggerProgram} (h : Compiled draft p)
    (samples : List TriggerSample) :
    ((TriggerVm.fresh p).feed samples).program = p ∧
      Seen draft ((TriggerVm.fresh p).feed samples) samples.reverse := by
  induction samples using List.reverseRecOn with
  | nil => exact ⟨rfl, seen_fresh h.usable p⟩
  | append_singleton samples sample ih =>
    obtain ⟨-, hprogram, hseen, -⟩ := h.evaluate ih.1 ih.2 sample
    rw [TriggerVm.feed, List.foldl_append, List.reverse_append]
    exact ⟨hprogram, hseen⟩

/-- A rule with a signal missing in one of its conditions does not fire. -/
theorem Rule.fires_missing (rule : Rule) {sample : TriggerSample} {c : Condition}
    (hc : c ∈ rule.conditions) (hmissing : readSignal sample c.signal = none)
    (history : List TriggerSample) : rule.fires (sample :: history) = false := by
  have hmet : rule.met (sample :: history) = false := by
    rw [Rule.met, Bool.and_eq_false_iff]
    right
    rw [List.all_eq_false]
    exact ⟨c, hc, by simp [Condition.met, Condition.holdsAt, hmissing]⟩
  rw [Rule.fires_cons, Rule.triggered, hmet]
  rfl

/-- Correctness of the compiler: the machine of a source that compiles can be made, and after
any samples it halts on the next one and fires there exactly if the rule of the source does.
Then it reports the actions of the source in order, and otherwise none. A sample without the
signal of some condition never fires. -/
theorem compile_correct (parseF32 : String → Option F32) (source : String) (p : TriggerProgram)
    (h : compileTrigger parseF32 source = .ok p) :
    TriggerVm.tryNew p = .ok (.fresh p) ∧ ∀ earlier sample,
      let rule := ruleOf parseF32 source
      let fires := rule.fires (sample :: earlier.reverse)
      let run := ((TriggerVm.fresh p).feed earlier).evaluate sample
      run.stop = .halt ∧ run.evaluation.fired = fires ∧
        run.evaluation.actions p = some (if fires then rule.actions else []) ∧
        ((∃ c ∈ rule.conditions, readSignal sample c.signal = none) →
          run.evaluation.fired = false) := by
  obtain ⟨draft, hcompiled, hrule⟩ := compiled_of_compileTrigger h
  refine ⟨by rw [TriggerVm.tryNew, hcompiled.valid]; rfl, fun earlier sample ↦ ?_⟩
  obtain ⟨hprogram, hseen⟩ := seen_feed hcompiled earlier
  obtain ⟨hstop, -, -, hcount, hactions⟩ := hcompiled.evaluate hprogram hseen sample
  rw [hrule] at hcount hactions
  have hdraft : draft.actions = (ruleOf parseF32 source).actions := by rw [← hrule]; rfl
  have hpos := hcompiled.actions_pos
  have hfired : (((TriggerVm.fresh p).feed earlier).evaluate sample).evaluation.fired =
      (ruleOf parseF32 source).fires (sample :: earlier.reverse) := by
    rw [TriggerEvaluation.fired, hcount]
    cases (ruleOf parseF32 source).fires (sample :: earlier.reverse) with
    | true => simpa using hpos
    | false => rfl
  refine ⟨hstop, hfired, ?_, ?_⟩
  · rw [hactions, hdraft]
  · rintro ⟨c, hc, hmissing⟩
    rw [hfired]
    exact (ruleOf parseF32 source).fires_missing hc hmissing earlier.reverse

/-- A source with a sustained condition, an edge and a cooldown. -/
theorem compile_correct_sample :
    let parseF32 : String → Option F32 := fun s ↦ if s = "0.5" then some ⟨0x3F000000⟩ else none
    let source := "trigger motion version 1\nwhen motion_score > 0.5 for 2 frames\n" ++
      "edge rising\ncooldown 500ms\nemit moved\nnotify webhook\nend\n"
    let p : TriggerProgram := ⟨1, "motion", 1, [.load .motionScore, .constant ⟨0x3F000000⟩,
      .greaterThan, .sustainFrames 0 2, .risingEdge 1, .cooldownMs 2 500, .jumpIfFalse 9,
      .emit "moved", .notify .webhook, .halt]⟩
    TriggerVm.tryNew p = .ok (.fresh p) ∧ ∀ earlier sample,
      let rule := ruleOf parseF32 source
      let fires := rule.fires (sample :: earlier.reverse)
      let run := ((TriggerVm.fresh p).feed earlier).evaluate sample
      run.stop = .halt ∧ run.evaluation.fired = fires ∧
        run.evaluation.actions p = some (if fires then rule.actions else []) ∧
        ((∃ c ∈ rule.conditions, readSignal sample c.signal = none) →
          run.evaluation.fired = false) := by
  intro parseF32 source p
  have h : compileTrigger parseF32 source = .ok p := by decide +kernel
  exact compile_correct parseF32 source p h

end Vidarax.Trigger
