import Mathlib.Data.List.Basic

/-!
# One entry of a list

Library `Base`. A list that is opened at one of its entries, of which tasks that take steps in any
order are a case: what is in it, and how many, when the entry is replaced or removed.
-/

namespace Vidarax.Base

variable {α : Type} {xs l r : List α} {x x' y : α}

theorem mem_focus (hat : xs = l ++ x :: r) : x ∈ xs := by
  rw [hat]
  exact List.mem_append_right l List.mem_cons_self

theorem mem_replace (hat : xs = l ++ x :: r) (hy : y ∈ l ++ x' :: r) : y = x' ∨ y ∈ xs := by
  rw [hat, List.mem_append, List.mem_cons]
  rcases List.mem_append.mp hy with hy | hy
  · exact .inr (.inl hy)
  · rcases List.mem_cons.mp hy with hy | hy
    · exact .inl hy
    · exact .inr (.inr (.inr hy))

theorem mem_remove (hat : xs = l ++ x :: r) (hy : y ∈ l ++ r) : y ∈ xs := by
  rw [hat, List.mem_append, List.mem_cons]
  rcases List.mem_append.mp hy with hy | hy
  · exact .inl hy
  · exact .inr (.inr hy)

theorem countP_focus (p : α → Bool) (l r : List α) (x : α) :
    (l ++ x :: r).countP p = (l ++ r).countP p + if p x then 1 else 0 := by
  simp only [List.countP_append, List.countP_cons]
  omega

end Vidarax.Base
