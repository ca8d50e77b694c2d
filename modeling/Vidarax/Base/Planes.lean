import Mathlib.Data.List.Basic

/-!
# Planes of samples

Library `Base`. A plane is a list of rows of equal length, one after another. A rectangle of it is
copied row by row from slices of the list, each of which has to lie inside the list.
-/

namespace Vidarax.Base

variable {α : Type}

/-- The elements from one place on up to another one, if these are places of the list in order. -/
def slice? (xs : List α) (start stop : Nat) : Option (List α) :=
  if start ≤ stop ∧ stop ≤ xs.length then some ((xs.take stop).drop start) else none

/-- Slices of equal length one after another, unless one of them does not lie in the list. -/
def copyRows? (xs : List α) (start : Nat → Nat) (width : Nat) : Nat → Option (List α)
  | 0 => some []
  | rows + 1 => do
    let front ← copyRows? xs start width rows
    let row ← slice? xs (start rows) (start rows + width)
    pure (front ++ row)

/-- The list has rows, each of them copied from its place in another one. -/
structure Copied (xs : List α) (start : Nat → Nat) (width rows : Nat) (ys : List α) : Prop where
  length_eq : ys.length = rows * width
  sample : ∀ row < rows, ∀ col < width, ys[row * width + col]? = xs[start row + col]?

variable {xs ys : List α} {start : Nat → Nat} {width rows : Nat}

/-- Rows that lie in the list are copied. -/
theorem exists_copyRows? (h : ∀ row < rows, start row + width ≤ xs.length) :
    ∃ ys, copyRows? xs start width rows = some ys ∧ Copied xs start width rows ys := by
  induction rows with
  | zero => exact ⟨[], rfl, by simp, fun _ hrow ↦ absurd hrow (Nat.not_lt_zero _)⟩
  | succ rows ih =>
    obtain ⟨front, hfront, hlength, hsample⟩ := ih fun row hrow ↦ h row (Nat.lt_succ_of_lt hrow)
    have hin := h rows (Nat.lt_succ_self rows)
    have hslice : slice? xs (start rows) (start rows + width) =
        some ((xs.take (start rows + width)).drop (start rows)) :=
      if_pos ⟨Nat.le_add_right _ _, hin⟩
    refine ⟨front ++ (xs.take (start rows + width)).drop (start rows), ?_, ?_, ?_⟩
    · rw [copyRows?, hfront, hslice]
      rfl
    · rw [List.length_append, hlength, List.length_drop, List.length_take, Nat.min_eq_left hin,
        Nat.add_sub_cancel_left, Nat.succ_mul]
    · intro row hrow col hcol
      by_cases hlast : row = rows
      · subst hlast
        rw [List.getElem?_append_right (by omega), hlength, Nat.add_sub_cancel_left,
          List.getElem?_drop, List.getElem?_take_of_lt (by omega)]
      · have hbefore : row + 1 ≤ rows := by omega
        have hplace : row * width + col < rows * width := by
          calc row * width + col < (row + 1) * width := by rw [Nat.succ_mul]; omega
            _ ≤ rows * width := Nat.mul_le_mul_right _ hbefore
        rw [List.getElem?_append_left (by omega)]
        exact hsample row (by omega) col hcol

end Vidarax.Base
