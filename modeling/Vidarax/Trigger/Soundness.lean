import Vidarax.Trigger.Effect
import Vidarax.Trigger.Verified

/-!
# Soundness of the checker

Packages `vidarax-contracts` and `vidarax-core`,
`crates/vidarax-contracts/src/triggers.rs:185–431`, `crates/vidarax-core/src/trigger.rs:62–204`.
The machine of an accepted program halts on every sample, within its arrays, and reports
the whole action block or nothing.
-/

namespace Vidarax.Trigger

open Vidarax.Base

/-! ### Effects of checked instructions -/

/-- Instructions that are functions of the slots and the stack. -/
def TriggerInstruction.computes : TriggerInstruction → Bool
  | .jumpIfFalse _ | .emit _ | .capture .. | .notify _ | .halt => false
  | _ => true

/-- Computing instructions are no actions. -/
theorem TriggerInstruction.not_isAction_of_computes {instruction : TriggerInstruction}
    (h : instruction.computes) : ¬ instruction.isAction := by
  cases instruction with
  | emit | capture | notify => cases h
  | _ => exact Bool.false_ne_true

/-- The next instruction may follow any that does not halt. -/
theorem TriggerInstruction.succ_mem_successors {instruction : TriggerInstruction} {count i : Nat}
    (hne : instruction ≠ .halt) (hlt : i + 1 < count) :
    i + 1 ∈ instruction.successors count i := by
  cases instruction with
  | halt => exact absurd rfl hne
  | jumpIfFalse target => simp [successors, hlt]
  | _ => simp [successors, hlt]

/-- The machine after an effect: the same program, arrays of the same length. -/
structure Keeps (vm vm' : TriggerVm) : Prop where
  program : vm'.program = vm.program
  sized : Sized vm → Sized vm'

theorem Keeps.refl (vm : TriggerVm) : Keeps vm vm := ⟨rfl, id⟩

private theorem exists_cons {values : List F32} (h : 1 ≤ values.length) :
    ∃ a rest, values = a :: rest :=
  List.exists_cons_of_length_pos h

private theorem exists_cons_cons {values : List F32} (h : 2 ≤ values.length) :
    ∃ b a rest, values = b :: a :: rest := by
  obtain ⟨b, rest, rfl⟩ := exists_cons (Nat.le_of_succ_le h)
  obtain ⟨a, rest, rfl⟩ := exists_cons (Nat.le_of_succ_le_succ h)
  exact ⟨b, a, rest, rfl⟩

/-- A computing instruction has an effect where the stack suffices and its slot exists. -/
theorem effect_exists {vm : TriggerVm} (hvm : Sized vm) (sample : TriggerSample)
    {instruction : TriggerInstruction} {values : List F32} (hc : instruction.computes)
    (hslot : ∀ slot, instruction.slot? = some slot → slot.toNat < MAX_TRIGGER_STATE_SLOTS)
    (hreq : instruction.required ≤ values.length) :
    ∃ vm' values', vm.effect sample instruction values = some (vm', values') ∧ Keeps vm vm' ∧
      values'.length = instruction.depthAfter values.length := by
  cases instruction with
  | load signal => exact ⟨_, _, rfl, .refl vm, rfl⟩
  | constant value => exact ⟨_, _, rfl, .refl vm, rfl⟩
  | greaterThan | greaterOrEqual | lessThan | lessOrEqual | equal | and | or =>
    obtain ⟨b, a, rest, rfl⟩ := exists_cons_cons hreq
    exact ⟨_, _, rfl, .refl vm, rfl⟩
  | not =>
    obtain ⟨a, rest, rfl⟩ := exists_cons hreq
    exact ⟨_, _, rfl, .refl vm, rfl⟩
  | sustainFrames slot frames =>
    obtain ⟨a, rest, rfl⟩ := exists_cons hreq
    have hlt : slot.toNat < vm.sustainStreaks.length := hvm.sustainStreaks ▸ hslot slot rfl
    have hget := List.getElem?_eq_getElem hlt
    simp only [TriggerVm.effect, hget, Option.map_some]
    refine ⟨_, _, rfl, ⟨rfl, fun h ↦ ⟨?_, h.2, h.3⟩⟩, rfl⟩
    rw [List.length_set]
    exact h.1
  | risingEdge slot =>
    obtain ⟨a, rest, rfl⟩ := exists_cons hreq
    have hlt : slot.toNat < vm.edgeValues.length := hvm.edgeValues ▸ hslot slot rfl
    have hget := List.getElem?_eq_getElem hlt
    simp only [TriggerVm.effect, hget, Option.map_some]
    refine ⟨_, _, rfl, ⟨rfl, fun h ↦ ⟨h.1, ?_, h.3⟩⟩, rfl⟩
    rw [List.length_set]
    exact h.2
  | cooldownMs slot durationMs =>
    obtain ⟨a, rest, rfl⟩ := exists_cons hreq
    have hlt : slot.toNat < vm.cooldownLastMs.length := hvm.cooldownLastMs ▸ hslot slot rfl
    have hget := List.getElem?_eq_getElem hlt
    simp only [TriggerVm.effect, hget, Option.map_some]
    refine ⟨_, _, rfl, ?_, rfl⟩
    split
    · refine ⟨rfl, fun h ↦ ⟨h.1, h.2, ?_⟩⟩
      rw [TriggerVm.restartCooldown, List.length_set]
      exact h.3
    · exact .refl vm
  | jumpIfFalse | emit | capture | notify | halt => cases hc

/-! ### Reported actions -/

namespace TriggerEvaluation

/-- Indices of the reported instructions. -/
def reported (e : TriggerEvaluation) : List Nat :=
  (e.actionIndices.take e.actionCount).map UInt8.toNat

/-- The array of an evaluation has its length and holds the count. -/
structure Sized (e : TriggerEvaluation) : Prop where
  length : e.actionIndices.length = MAX_TRIGGER_ACTIONS
  count_le : e.actionCount ≤ MAX_TRIGGER_ACTIONS

theorem Sized.length_reported {e : TriggerEvaluation} (h : e.Sized) :
    e.reported.length = e.actionCount := by
  rw [reported, List.length_map, List.length_take, h.length]
  exact Nat.min_eq_left h.count_le

/-- An action is added to the report while there is room. -/
theorem Sized.pushAction {e : TriggerEvaluation} (h : e.Sized)
    (hroom : e.actionCount < MAX_TRIGGER_ACTIONS) (index : Nat) (hindex : index < 256) :
    (e.pushAction index).Sized ∧ (e.pushAction index).reported = e.reported ++ [index] := by
  rw [TriggerEvaluation.pushAction, if_neg (Nat.not_le.mpr hroom)]
  refine ⟨⟨by rw [List.length_set, h.length], hroom⟩, ?_⟩
  have hlt : e.actionCount < e.actionIndices.length := h.length ▸ hroom
  simp only [reported]
  rw [List.take_add_one, List.take_set_of_le (Nat.le_refl _), List.getElem?_set_self hlt,
    List.map_append]
  congr 1
  simp only [Option.toList_some, List.map_singleton, UInt8.toNat_ofNat']
  rw [Nat.mod_eq_of_lt hindex]

/-- The reported instructions are looked up by their indices. -/
theorem actions_eq (e : TriggerEvaluation) (p : TriggerProgram) :
    e.actions p = e.reported.mapM (p.instructions[·]?) := by
  rw [actions, reported, List.mapM_map]
  rfl

end TriggerEvaluation

/-- Looking up consecutive indices. -/
theorem mapM_range' {α : Type} (xs : List α) (start n : Nat) (h : start + n ≤ xs.length) :
    (List.range' start n).mapM (xs[·]?) = some ((xs.drop start).take n) := by
  induction n generalizing start with
  | zero => simp
  | succ n ih =>
    have hlt : start < xs.length := by omega
    rw [List.range'_succ, List.mapM_cons, ih (start + 1) (by omega),
      List.getElem?_eq_getElem hlt, List.drop_eq_getElem_cons hlt]
    rfl

/-! ### The action block -/

/-- Actions of a program in order. -/
def actionBlock (code : List TriggerInstruction) : List TriggerInstruction :=
  code.filter TriggerInstruction.isAction

namespace Block

variable {code : List TriggerInstruction} {first : Nat}

/-- The instructions before the actions. -/
theorem filter_take (h : Block code first) :
    (code.take first).filter TriggerInstruction.isAction = [] := by
  rw [List.filter_eq_nil_iff]
  intro instruction hmem
  obtain ⟨i, hi, heq⟩ := List.mem_take_iff_getElem.mp hmem
  exact h.before i instruction (by omega) (List.getElem?_eq_some_iff.mpr ⟨by omega, heq⟩)

/-- The instructions from the first action to the halt. -/
theorem filter_between (h : Block code first) :
    (((code.drop first).take (code.length - 1 - first)).filter TriggerInstruction.isAction) =
      (code.drop first).take (code.length - 1 - first) := by
  rw [List.filter_eq_self]
  intro instruction hmem
  obtain ⟨i, hi, heq⟩ := List.mem_take_iff_getElem.mp hmem
  rw [List.length_drop] at hi
  rw [List.getElem_drop] at heq
  exact h.within (first + i) instruction (by omega) (by omega)
    (List.getElem?_eq_some_iff.mpr ⟨by omega, heq⟩)

/-- A program is what precedes its actions, its actions and the halt. -/
theorem split (h : Block code first) (hhalt : ∃ body, code = body ++ [.halt]) :
    code = code.take first ++ (code.drop first).take (code.length - 1 - first) ++ [.halt] ∧
      actionBlock code = (code.drop first).take (code.length - 1 - first) := by
  have hlast : code.drop (code.length - 1) = [.halt] := by
    obtain ⟨body, rfl⟩ := hhalt
    simp
  have hsplit : code =
      code.take first ++ (code.drop first).take (code.length - 1 - first) ++ [.halt] := by
    have hlt := h.first_lt
    rw [← hlast, List.append_assoc]
    have hdrop : code.drop (code.length - 1) = (code.drop first).drop (code.length - 1 - first) := by
      rw [List.drop_drop]
      congr 1
      omega
    rw [hdrop, List.take_append_drop, List.take_append_drop]
  refine ⟨hsplit, ?_⟩
  rw [actionBlock]
  conv_lhs => rw [hsplit]
  rw [List.filter_append, List.filter_append, h.filter_take, h.filter_between]
  exact List.append_nil _

end Block

/-! ### Runs of an accepted program -/

/-- The report is empty, or holds the actions up to the program counter. -/
def Reports (first last pc : Nat) (e : TriggerEvaluation) : Prop :=
  e.reported = [] ∧ (pc ≤ first ∨ pc = last) ∨
    first ≤ pc ∧ e.reported = List.range' first (pc - first)

/-- What holds before each instruction of a run. -/
structure Running (code : List TriggerInstruction) (depths : Nat → Option Nat) (first : Nat)
    (vm : TriggerVm) (f : Frame) : Prop where
  program : vm.program.instructions = code
  sized : Sized vm
  pc_lt : f.pc < code.length
  holds : ∃ values, Holds f values ∧ depths f.pc = some values.length
  report : f.evaluation.Sized
  reports : Reports first (code.length - 1) f.pc f.evaluation

/-- Before the block nothing is reported. -/
theorem Running.reported_nil {code : List TriggerInstruction} {depths : Nat → Option Nat}
    {first : Nat} {vm : TriggerVm} {f : Frame} (h : Running code depths first vm f)
    (hlt : f.pc < first) : f.evaluation.reported = [] := by
  rcases h.reports with ⟨hnil, -⟩ | ⟨hle, -⟩
  · exact hnil
  · exact absurd hlt (Nat.not_lt.mpr hle)

/-- A program that the checker accepts, with its depths and its block. -/
structure Sound (code : List TriggerInstruction) (depths : Nat → Option Nat) (first : Nat) :
    Prop where
  verified : Verified code
  depths : Depths code depths
  block : Block code first

namespace Sound

variable {code : List TriggerInstruction} {depths : Nat → Option Nat} {first : Nat}

/-- The halt is the last instruction, and the only one. -/
theorem halt_iff (h : Sound code depths first) {i : Nat} {instruction : TriggerInstruction}
    (hi : code[i]? = some instruction) : instruction = .halt ↔ i = code.length - 1 := by
  obtain ⟨body, rfl, hbody⟩ := h.verified.halts
  rw [List.length_append, List.length_singleton, Nat.add_sub_cancel]
  rcases Nat.lt_trichotomy i body.length with hlt | rfl | hgt
  · rw [List.getElem?_append_left hlt] at hi
    have hne : instruction ≠ .halt := by
      rintro rfl
      exact hbody (List.mem_of_getElem? hi)
    exact ⟨fun h ↦ absurd h hne, fun h ↦ absurd h (Nat.ne_of_lt hlt)⟩
  · rw [List.getElem?_append_right (Nat.le_refl _), Nat.sub_self, List.getElem?_cons_zero,
      Option.some_inj] at hi
    exact ⟨fun _ ↦ rfl, fun _ ↦ hi.symm⟩
  · rw [List.getElem?_eq_none (by simp; omega)] at hi
    cases hi

/-- The block fits the array of an evaluation. -/
theorem block_le (h : Sound code depths first) :
    code.length - 1 - first ≤ MAX_TRIGGER_ACTIONS := by
  obtain ⟨body, hbody, -⟩ := h.verified.halts
  have hlen := congrArg List.length (h.block.split ⟨body, hbody⟩).2
  have hle := h.verified.actions_le
  rw [List.countP_eq_length_filter] at hle
  have hlt := h.block.first_lt
  rw [actionBlock, List.length_take, List.length_drop] at hlen
  omega

variable {vm : TriggerVm} {f : Frame}

/-- Another instruction follows one that does not halt. -/
theorem succ_lt (h : Sound code depths first) {i : Nat} {instruction : TriggerInstruction}
    (hi : code[i]? = some instruction) (hne : instruction ≠ .halt) : i + 1 < code.length := by
  have hlt := (List.getElem?_eq_some_iff.mp hi).1
  have hlast := mt (h.halt_iff hi).mpr hne
  omega

/-- Other instructions precede the block. -/
theorem lt_first (h : Sound code depths first) {i : Nat} {instruction : TriggerInstruction}
    (hi : code[i]? = some instruction) (hne : instruction ≠ .halt)
    (hact : ¬ instruction.isAction) : i < first := by
  by_contra hle
  exact hact (h.block.within i instruction (Nat.not_lt.mp hle) (h.succ_lt hi hne) hi)

/-- A computing instruction goes forward. -/
theorem step_computes (h : Sound code depths first) (hr : Running code depths first vm f)
    (sample : TriggerSample) {instruction : TriggerInstruction}
    (hi : code[f.pc]? = some instruction) (hc : instruction.computes) :
    ∃ vm' f', vm.exec sample f instruction = .ok (vm', f') ∧ Running code depths first vm' f' ∧
      vm'.program = vm.program ∧ f.pc < f'.pc := by
  have hne : instruction ≠ .halt := by rintro rfl; cases hc
  have hsucc := TriggerInstruction.succ_mem_successors hne (h.succ_lt hi hne)
  obtain ⟨values, hholds, hdepth⟩ := hr.holds
  obtain ⟨hreq, hroom⟩ := h.depths.required _ _ _ hdepth hi
  obtain ⟨vm', values', heffect, hkeeps, hlen⟩ :=
    effect_exists hr.sized sample hc (h.verified.checked _ _ hi).slot hreq
  obtain ⟨f', hexec, hholds', hcont⟩ := exec_of_effect hholds heffect (hlen ▸ hroom)
  have hlt := h.lt_first hi hne (TriggerInstruction.not_isAction_of_computes hc)
  have hreported : f'.evaluation.reported = [] := by
    rw [TriggerEvaluation.reported, hcont.actionIndices, hcont.actionCount]
    exact hr.reported_nil hlt
  refine ⟨vm', f', hexec, ⟨?_, ?_, ?_, ⟨values', hholds', ?_⟩, ?_, ?_⟩, hkeeps.program, ?_⟩
  · rw [hkeeps.program, hr.program]
  · exact hkeeps.sized hr.sized
  · rw [hcont.pc]
    exact h.succ_lt hi hne
  · rw [hcont.pc, hlen]
    exact h.depths.step _ _ _ hdepth hi _ hsucc
  · refine ⟨?_, ?_⟩
    · rw [hcont.actionIndices]
      exact hr.report.length
    · rw [hcont.actionCount]
      exact hr.report.count_le
  · exact .inl ⟨hreported, .inl (by rw [hcont.pc]; omega)⟩
  · rw [hcont.pc]
    exact Nat.lt_succ_self _

/-- An action is reported and goes forward. -/
theorem step_action (h : Sound code depths first) (hr : Running code depths first vm f)
    {instruction : TriggerInstruction} (hi : code[f.pc]? = some instruction)
    (hact : instruction.isAction) :
    Running code depths first vm { f with evaluation := f.evaluation.pushAction f.pc }.next := by
  have hne : instruction ≠ .halt := by rintro rfl; cases hact
  have hsucc := h.succ_lt hi hne
  have hfirst : first ≤ f.pc := by
    by_contra hlt
    exact h.block.before _ _ (Nat.not_le.mp hlt) hi hact
  have hreported : f.evaluation.reported = List.range' first (f.pc - first) := by
    rcases hr.reports with ⟨hnil, hpc⟩ | ⟨-, hrange⟩
    · have hpc : f.pc - first = 0 := by omega
      rw [hnil, hpc, List.range'_zero]
    · exact hrange
  have hroom : f.evaluation.actionCount < MAX_TRIGGER_ACTIONS := by
    rw [← hr.report.length_reported, hreported, List.length_range']
    have := h.block_le
    omega
  have hindex : f.pc < 256 := by
    have := h.verified.length_le
    rw [MAX_TRIGGER_INSTRUCTIONS] at this
    omega
  obtain ⟨hsized, hpush⟩ := hr.report.pushAction hroom _ hindex
  obtain ⟨values, hholds, hdepth⟩ := hr.holds
  refine ⟨hr.program, hr.sized, hsucc, ⟨values, hholds.of_stack rfl rfl, ?_⟩, hsized, .inr ⟨?_, ?_⟩⟩
  · have hstep := h.depths.step _ _ _ hdepth hi _
      (TriggerInstruction.succ_mem_successors hne hsucc)
    cases instruction <;>
      first | exact hstep | cases hact
  · exact Nat.le_succ_of_le hfirst
  · rw [Frame.next, hpush, hreported, Nat.succ_sub hfirst, List.range'_1_concat,
      Nat.add_sub_cancel' hfirst]

/-- One instruction before the halt goes forward. -/
theorem step (h : Sound code depths first) (hr : Running code depths first vm f)
    (sample : TriggerSample) {instruction : TriggerInstruction}
    (hi : code[f.pc]? = some instruction) (hne : instruction ≠ .halt) :
    ∃ vm' f', vm.exec sample f instruction = .ok (vm', f') ∧ Running code depths first vm' f' ∧
      vm'.program = vm.program ∧ f.pc < f'.pc := by
  cases hc : instruction.computes with
  | true => exact h.step_computes hr sample hi hc
  | false =>
    cases instruction with
    | emit | capture | notify =>
      exact ⟨vm, _, rfl, h.step_action hr hi rfl, rfl, Nat.lt_succ_self _⟩
    | halt => exact absurd rfl hne
    | jumpIfFalse target =>
      obtain ⟨values, hholds, hdepth⟩ := hr.holds
      obtain ⟨hreq, -⟩ := h.depths.required _ _ _ hdepth hi
      obtain ⟨a, rest, rfl⟩ := exists_cons hreq
      have hstep := h.depths.step _ _ _ hdepth hi
      have hlt := h.lt_first hi hne Bool.false_ne_true
      have hsucc := h.succ_lt hi hne
      have hnil := hr.reported_nil hlt
      obtain ⟨hforward, hbound⟩ := (h.verified.checked _ _ hi).target target rfl
      have htop := hholds.top
      by_cases ht : truthy a
      · refine ⟨vm, { f with stackLen := f.stackLen - 1 }.next, ?_, ?_, rfl, Nat.lt_succ_self _⟩
        · simp only [TriggerVm.exec, htop, bind, Except.bind, ht]
          rfl
        · refine ⟨hr.program, hr.sized, hsucc, ⟨rest, hholds.pop.of_stack rfl rfl, ?_⟩, hr.report,
            .inl ⟨hnil, .inl hlt⟩⟩
          exact hstep _ (TriggerInstruction.succ_mem_successors hne hsucc)
      · refine ⟨vm, { f with stackLen := f.stackLen - 1, pc := target.toNat }, ?_, ?_, rfl, hforward⟩
        · simp only [TriggerVm.exec, htop, bind, Except.bind, ht]
          rfl
        · refine ⟨hr.program, hr.sized, hbound, ⟨rest, hholds.pop.of_stack rfl rfl, ?_⟩, hr.report,
            .inl ⟨hnil, ?_⟩⟩
          · exact hstep _ (by simp [TriggerInstruction.successors])
          · have := h.block.jump _ _ hlt hi
            simp only
            omega
    | _ => cases hc

/-- A run that goes on halts, with one step at most for each instruction left. -/
theorem loop (h : Sound code depths first) (sample : TriggerSample) {fuel : Nat} (steps : Nat)
    (hr : Running code depths first vm f) (hfuel : code.length - f.pc ≤ fuel) :
    let run := TriggerVm.loop sample fuel steps vm f
    run.stop = .halt ∧ run.steps ≤ steps + (code.length - f.pc) ∧
      run.vm.program = vm.program ∧ Sized run.vm ∧
      Reports first (code.length - 1) (code.length - 1) run.evaluation := by
  induction fuel generalizing steps vm f with
  | zero =>
    have := hr.pc_lt
    omega
  | succ fuel ih =>
    have hlt := hr.pc_lt
    have hi := List.getElem?_eq_getElem hlt
    simp only [TriggerVm.loop, hr.program, hi]
    by_cases hhalt : code[f.pc] = .halt
    · rw [hhalt]
      have hlast := (h.halt_iff hi).mp hhalt
      refine ⟨rfl, ?_, rfl, hr.sized, ?_⟩
      · simp only [TriggerVm.exec]
        omega
      · have hreports := hr.reports
        rw [hlast] at hreports
        exact hreports
    · obtain ⟨vm', f', hexec, hr', hprogram, hforward⟩ := h.step hr sample hi hhalt
      obtain ⟨hstop, hsteps, hprogram', hsized, hreports⟩ := ih (steps + 1) hr' (by omega)
      simp only [hexec]
      exact ⟨hstop, by omega, hprogram'.trans hprogram, hsized, hreports⟩

end Sound

/-- A machine that `try_new` made, after any samples. -/
structure Loaded (p : TriggerProgram) (vm : TriggerVm) : Prop where
  program : vm.program = p
  sized : Sized vm

theorem loaded_of_tryNew {p : TriggerProgram} {vm : TriggerVm} (h : TriggerVm.tryNew p = .ok vm) :
    Loaded p vm ∧ p.validate = .ok () := by
  obtain ⟨_, hvalid, h⟩ := bind_eq_ok h
  obtain rfl := Except.ok.inj h
  exact ⟨⟨rfl, ⟨rfl, rfl, rfl⟩⟩, hvalid⟩

variable {p : TriggerProgram} {vm : TriggerVm} {depths : Nat → Option Nat} {first : Nat}

/-- An evaluation starts at the first instruction with an empty stack. -/
theorem Loaded.running (hvm : Loaded p vm) (h : Sound p.instructions depths first) :
    Running p.instructions depths first vm .initial where
  program := by rw [hvm.program]
  sized := hvm.sized
  pc_lt := Nat.zero_lt_of_lt h.block.first_lt
  holds := ⟨[], .initial, h.depths.start⟩
  report := ⟨rfl, Nat.zero_le _⟩
  reports := .inl ⟨rfl, .inl (Nat.zero_le _)⟩

/-- One sample: the machine halts and reports all actions or none. -/
theorem Loaded.evaluate (hvm : Loaded p vm) (h : Sound p.instructions depths first)
    (sample : TriggerSample) :
    let run := vm.evaluate sample
    Loaded p run.vm ∧ run.stop = .halt ∧ run.steps ≤ p.instructions.length ∧
      (run.evaluation.actions p = some [] ∨
        run.evaluation.actions p = some (actionBlock p.instructions)) := by
  have hfuel : p.instructions.length - Frame.initial.pc ≤ vm.program.instructions.length := by
    rw [hvm.program]
    exact Nat.sub_le _ _
  obtain ⟨hstop, hsteps, hprogram, hsized, hreports⟩ :=
    h.loop sample 0 (hvm.running h) hfuel
  refine ⟨⟨hprogram.trans hvm.program, hsized⟩, hstop, ?_, ?_⟩
  · rw [Nat.zero_add] at hsteps
    exact hsteps
  · obtain ⟨body, hbody, -⟩ := h.verified.halts
    have hblock := (h.block.split ⟨body, hbody⟩).2
    have hlt := h.block.first_lt
    rw [TriggerEvaluation.actions_eq, hblock]
    rcases hreports with ⟨hnil, -⟩ | ⟨-, hrange⟩
    · left
      rw [TriggerVm.evaluate, hnil]
      rfl
    · right
      rw [TriggerVm.evaluate, hrange, mapM_range' _ _ _ (by omega)]

/-- Samples keep the machine loaded. -/
theorem Loaded.feed (hvm : Loaded p vm) (h : Sound p.instructions depths first)
    (samples : List TriggerSample) : Loaded p (vm.feed samples) := by
  induction samples generalizing vm with
  | nil => exact hvm
  | cons sample samples ih => exact ih (hvm.evaluate h sample).1

/-- Soundness: the machine of an accepted program, after any samples, halts on the next one
after at most as many steps as it has instructions, and never stops otherwise. It reports no
action, or all of the program's in order; these stand together before the halt and contain
one emit. -/
theorem evaluate_sound (p : TriggerProgram) (vm : TriggerVm) (h : TriggerVm.tryNew p = .ok vm) :
    ∃ before block, p.instructions = before ++ block ++ [.halt] ∧
      (∀ instruction ∈ before, ¬ instruction.isAction) ∧
      (∀ instruction ∈ block, instruction.isAction) ∧
      block.countP TriggerInstruction.isEmit = 1 ∧
      ∀ samples sample,
        let run := (vm.feed samples).evaluate sample
        run.stop = .halt ∧ run.steps ≤ p.instructions.length ∧
          (run.evaluation.actions p = some [] ∨ run.evaluation.actions p = some block) := by
  obtain ⟨hloaded, hvalid⟩ := loaded_of_tryNew h
  have hverified := verified_of_validate hvalid
  obtain ⟨depths, hdepths⟩ := hverified.depths
  obtain ⟨first, hblock⟩ := hverified.block
  have hsound : Sound p.instructions depths first := ⟨hverified, hdepths, hblock⟩
  obtain ⟨body, hbody, -⟩ := hverified.halts
  obtain ⟨hsplit, hfilter⟩ := hblock.split ⟨body, hbody⟩
  refine ⟨p.instructions.take first, actionBlock p.instructions, ?_, ?_, ?_, ?_, ?_⟩
  · rw [hfilter]
    exact hsplit
  · intro instruction hmem
    exact List.filter_eq_nil_iff.mp hblock.filter_take instruction hmem
  · intro instruction hmem
    exact (List.mem_filter.mp hmem).2
  · have hemit : (fun i ↦ TriggerInstruction.isEmit i && TriggerInstruction.isAction i) =
        TriggerInstruction.isEmit := by
      funext instruction
      cases instruction <;> rfl
    rw [actionBlock, List.countP_filter, hemit]
    exact hverified.emits
  · intro samples sample
    exact ((hloaded.feed hsound samples).evaluate hsound sample).2

/-- The machine of a program with a jump over its two actions. -/
theorem evaluate_sound_sample :
    let p : TriggerProgram := ⟨1, "motion", 1, [.load .motionScore, .constant .one, .greaterThan,
      .risingEdge 0, .jumpIfFalse 7, .emit "moved", .notify .webhook, .halt]⟩
    ∃ before block, p.instructions = before ++ block ++ [.halt] ∧
      (∀ instruction ∈ before, ¬ instruction.isAction) ∧
      (∀ instruction ∈ block, instruction.isAction) ∧
      block.countP TriggerInstruction.isEmit = 1 ∧
      ∀ samples sample,
        let run := ((TriggerVm.fresh p).feed samples).evaluate sample
        run.stop = .halt ∧ run.steps ≤ p.instructions.length ∧
          (run.evaluation.actions p = some [] ∨ run.evaluation.actions p = some block) := by
  intro p
  have hvalid : p.validate = .ok () := by decide +kernel
  exact evaluate_sound p (.fresh p) (by rw [TriggerVm.tryNew, hvalid]; rfl)

end Vidarax.Trigger
