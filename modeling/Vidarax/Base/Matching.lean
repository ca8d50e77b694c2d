import Mathlib.Data.List.Infix

/-!
# Reading up to a number of matches

Library `Base`. A page reader walks a list and stops after a number of elements
that match a predicate. What it walked over is a prefix of the list, and what it
collected are the first matches.
-/

namespace Vidarax.Base

variable {α : Type}

/-- The shortest prefix with `n` matches, or the whole list when there are fewer. -/
def takeMatching (p : α → Bool) : Nat → List α → List α
  | 0, _ => []
  | _ + 1, [] => []
  | n + 1, x :: xs => x :: takeMatching p (if p x then n else n + 1) xs

@[simp] theorem takeMatching_zero (p : α → Bool) (xs : List α) : takeMatching p 0 xs = [] := by
  cases xs <;> rfl

@[simp] theorem takeMatching_nil (p : α → Bool) (n : Nat) : takeMatching p n [] = [] := by
  cases n <;> rfl

/-- What was walked over is a prefix. -/
theorem takeMatching_prefix (p : α → Bool) (n : Nat) (xs : List α) :
    takeMatching p n xs <+: xs := by
  induction xs generalizing n with
  | nil => simp
  | cons x xs ih =>
    cases n with
    | zero => simp
    | succ n => exact List.cons_prefix_cons.mpr ⟨rfl, ih _⟩

/-- The matches in it are the first matches of the list. -/
theorem filter_takeMatching (p : α → Bool) (n : Nat) (xs : List α) :
    (takeMatching p n xs).filter p = (xs.filter p).take n := by
  induction xs generalizing n with
  | nil => simp
  | cons x xs ih =>
    cases n with
    | zero => simp
    | succ n =>
      by_cases hx : p x
      · simp [takeMatching, hx, ih]
      · simp [takeMatching, hx, ih]

end Vidarax.Base
