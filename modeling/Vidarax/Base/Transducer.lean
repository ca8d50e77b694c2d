import Mathlib.Data.List.Basic

/-!
# Transducers

Library `Base`. A step function that answers every input with an output, run over a list of
inputs. A list that falls into segments is run segment by segment.
-/

namespace Vidarax.Base

variable {σ ι ω : Type*} (step : σ → ι → σ × ω)

/-- State after a list of inputs. -/
def stateAfter (s : σ) (inputs : List ι) : σ := inputs.foldl (fun s i ↦ (step s i).1) s

/-- Outputs of a run, one for each input. -/
def outputs : σ → List ι → List ω
  | _, [] => []
  | s, i :: rest => (step s i).2 :: outputs (step s i).1 rest

@[simp] theorem stateAfter_nil (s : σ) : stateAfter step s [] = s := rfl

@[simp] theorem stateAfter_cons (s : σ) (i : ι) (rest : List ι) :
    stateAfter step s (i :: rest) = stateAfter step (step s i).1 rest := rfl

@[simp] theorem outputs_nil (s : σ) : outputs step s [] = [] := rfl

@[simp] theorem outputs_cons (s : σ) (i : ι) (rest : List ι) :
    outputs step s (i :: rest) = (step s i).2 :: outputs step (step s i).1 rest := rfl

/-- A run in two parts. -/
theorem outputs_append (s : σ) (first last : List ι) :
    outputs step s (first ++ last) =
      outputs step s first ++ outputs step (stateAfter step s first) last := by
  induction first generalizing s with
  | nil => rfl
  | cons i first ih => simp [ih]

theorem stateAfter_append (s : σ) (first last : List ι) :
    stateAfter step s (first ++ last) = stateAfter step (stateAfter step s first) last :=
  List.foldl_append

@[simp] theorem length_outputs (s : σ) (inputs : List ι) :
    (outputs step s inputs).length = inputs.length := by
  induction inputs generalizing s with
  | nil => rfl
  | cons i inputs ih => exact congrArg Nat.succ (ih _)

/-- The first outputs are those of the first inputs. -/
theorem take_outputs (s : σ) (inputs : List ι) (n : Nat) :
    (outputs step s inputs).take n = outputs step s (inputs.take n) := by
  induction inputs generalizing s n with
  | nil => rw [List.take_nil]; exact List.take_nil
  | cons i inputs ih =>
    cases n with
    | zero => rfl
    | succ n => exact congrArg (_ :: ·) (ih _ n)

/-- An output is that of its input in the state that the inputs before it lead to. -/
theorem getElem?_outputs (s : σ) (inputs : List ι) (n : Nat) :
    (outputs step s inputs)[n]? =
      inputs[n]?.map fun i ↦ (step (stateAfter step s (inputs.take n)) i).2 := by
  induction inputs generalizing s n with
  | nil => rfl
  | cons i inputs ih =>
    cases n with
    | zero => rfl
    | succ n => exact ih _ n

/-- A run over segments, where each finds the state ready for it and leaves it ready for the
rest, answers each segment on its own. -/
theorem outputs_flatMap {α : Type*} (input : α → List ι) (output : α → List ω)
    (ready : σ → List α → Prop)
    (h : ∀ s segment rest, ready s (segment :: rest) →
      outputs step s (input segment) = output segment ∧
        ready (stateAfter step s (input segment)) rest)
    (segments : List α) (s : σ) (hs : ready s segments) :
    outputs step s (segments.flatMap input) = segments.flatMap output := by
  induction segments generalizing s with
  | nil => rfl
  | cons segment rest ih =>
    obtain ⟨houtput, hrest⟩ := h s segment rest hs
    rw [List.flatMap_cons, List.flatMap_cons, outputs_append, houtput, ih _ hrest]

/-- A run over segments, where each finds the state ready for it, is answered as some relation
allows and leaves the state ready for the rest: the outputs are those of the segments in order. -/
theorem exists_outputs_flatMap {α : Type*} (input : α → List ι) (answered : α → List ω → Prop)
    (ready : σ → List α → Prop)
    (h : ∀ s segment rest, ready s (segment :: rest) →
      answered segment (outputs step s (input segment)) ∧
        ready (stateAfter step s (input segment)) rest)
    (segments : List α) (s : σ) (hs : ready s segments) :
    ∃ answers, outputs step s (segments.flatMap input) = answers.flatten ∧
      List.Forall₂ answered segments answers := by
  induction segments generalizing s with
  | nil => exact ⟨[], rfl, .nil⟩
  | cons segment rest ih =>
    obtain ⟨hanswered, hrest⟩ := h s segment rest hs
    obtain ⟨answers, houtputs, hanswers⟩ := ih _ hrest
    refine ⟨outputs step s (input segment) :: answers, ?_, .cons hanswered hanswers⟩
    rw [List.flatMap_cons, outputs_append, houtputs, List.flatten_cons]

/-- A last part of the inputs of segments is that of some last segments, or begins inside a
segment. -/
theorem suffix_flatMap {α : Type*} {input : α → List ι} {segments : List α} {part : List ι}
    (h : part <:+ segments.flatMap input) :
    (∃ front back, segments = front ++ back ∧ part = back.flatMap input) ∨
      ∃ front segment back inside, segments = front ++ segment :: back ∧
        part = inside ++ back.flatMap input ∧ inside <:+ input segment ∧ inside ≠ [] ∧
          inside ≠ input segment := by
  induction segments with
  | nil => exact .inl ⟨[], [], rfl, List.suffix_nil.mp h⟩
  | cons segment rest ih =>
    obtain ⟨missing, hmissing⟩ := h
    rw [List.flatMap_cons, List.append_eq_append_iff] at hmissing
    rcases hmissing with ⟨inside, hsegment, hpart⟩ | ⟨more, -, hrest⟩
    · by_cases hinside : inside = []
      · subst hinside
        exact .inl ⟨[segment], rest, rfl, hpart⟩
      · by_cases hwhole : inside = input segment
        · exact .inl ⟨[], segment :: rest, rfl, by rw [hpart, hwhole, List.flatMap_cons]⟩
        · exact .inr ⟨[], segment, rest, inside, rfl, hpart, ⟨missing, hsegment.symm⟩, hinside,
            hwhole⟩
    · rcases ih ⟨more, hrest.symm⟩ with
        ⟨front, back, rfl, hpart⟩ | ⟨front, next, back, inside, rfl, hpart⟩
      · exact .inl ⟨segment :: front, back, rfl, hpart⟩
      · exact .inr ⟨segment :: front, next, back, inside, rfl, hpart⟩

/-! ### Simulation

A step function simulates another one where, on valid inputs, its steps from the states of a
map give the states of that map, and the outputs of the other through an answer. -/

section Simulation

variable {step} {τ ο : Type*} {other : τ → ι → τ × ο} {concrete : τ → σ} {answer : ι → ο → ω}
  {valid : ι → Prop}
  (h : ∀ t i, valid i → step (concrete t) i = (concrete (other t i).1, answer i (other t i).2))

include h

/-- The runs of a simulation end in states of the map. -/
theorem stateAfter_simulation {inputs : List ι} (hvalid : ∀ i ∈ inputs, valid i) (t : τ) :
    stateAfter step (concrete t) inputs = concrete (stateAfter other t inputs) := by
  induction inputs generalizing t with
  | nil => rfl
  | cons i rest ih =>
    rw [stateAfter_cons, stateAfter_cons, h t i (hvalid i List.mem_cons_self)]
    exact ih (fun j hj ↦ hvalid j (List.mem_cons_of_mem i hj)) _

/-- The runs of a simulation give the outputs of the other through the answer. -/
theorem outputs_simulation {inputs : List ι} (hvalid : ∀ i ∈ inputs, valid i) (t : τ) :
    outputs step (concrete t) inputs = List.zipWith answer inputs (outputs other t inputs) := by
  induction inputs generalizing t with
  | nil => rfl
  | cons i rest ih =>
    rw [outputs_cons, outputs_cons, h t i (hvalid i List.mem_cons_self), List.zipWith_cons_cons]
    rw [ih (fun j hj ↦ hvalid j (List.mem_cons_of_mem i hj))]

end Simulation

end Vidarax.Base
