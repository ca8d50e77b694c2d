import Mathlib.Data.List.Basic

/-!
# Runs of a step function

A run folds a step function over its inputs. Properties of runs follow from what one step
preserves, where each step may have to meet a condition on its state and input.
-/

namespace Vidarax.Base

variable {σ ι : Type*} {step : σ → ι → σ} {cond : σ → ι → Prop}

/-- Every step of the run from a state meets a condition. -/
def Meets (step : σ → ι → σ) (cond : σ → ι → Prop) : σ → List ι → Prop
  | _, [] => True
  | s, i :: inputs => cond s i ∧ Meets step cond (step s i) inputs

/-- What every step preserves holds after the run. -/
theorem Meets.foldl {s : σ} {inputs : List ι} (h : Meets step cond s inputs) (inv : σ → Prop)
    (hs : inv s) (hstep : ∀ s i, inv s → cond s i → inv (step s i)) : inv (inputs.foldl step s) := by
  induction inputs generalizing s with
  | nil => exact hs
  | cons i inputs ih => exact ih h.2 (hstep s i hs h.1)

end Vidarax.Base
