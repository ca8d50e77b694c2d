import Mathlib.Data.List.Basic
import Mathlib.Logic.Function.Iterate

/-!
# Items numbered by a wrapping counter

Library `Base`. Consecutive items carry consecutive numbers of a counter that may wrap. Where
fewer items are lost than the counter has values, the number after a gap shows the gap.
-/

namespace Vidarax.Base

variable {α β : Type*} {next : β → β} {number : α → β}

/-- Items with consecutive numbers from a first one on. -/
def Numbered (next : β → β) (number : α → β) : β → List α → Prop
  | _, [] => True
  | b, x :: rest => number x = b ∧ Numbered next number (next b) rest

/-- Items in two parts. -/
theorem numbered_append {b : β} {first last : List α} :
    Numbered next number b (first ++ last) ↔
      Numbered next number b first ∧ Numbered next number (next^[first.length] b) last := by
  induction first generalizing b with
  | nil => simp [Numbered]
  | cons x first ih => simp [Numbered, ih, and_assoc]

/-- The first items of some. -/
theorem Numbered.of_front {b : β} {items front : List α} (h : Numbered next number b items)
    (hfront : front <+: items) : Numbered next number b front := by
  obtain ⟨rest, rfl⟩ := hfront
  exact (numbered_append.mp h).1

/-- The number of an item is that of its place. -/
theorem Numbered.number_eq {b : β} {items : List α} (h : Numbered next number b items) {i : Nat}
    {x : α} (hx : items[i]? = some x) : number x = next^[i] b := by
  induction items generalizing b i with
  | nil => cases hx
  | cons y items ih =>
    cases i with
    | zero =>
      cases hx
      exact h.1
    | succ i => exact ih h.2 hx

/-- Items behind a number are those from its place on. -/
theorem Numbered.filter_eq_drop {number : α → Nat} {b : Nat} {items : List α}
    (h : Numbered Nat.succ number b items) (n : Nat) :
    (items.filter fun x ↦ n < number x) = items.drop (n + 1 - b) := by
  induction items generalizing b with
  | nil => rw [List.drop_nil, List.filter_nil]
  | cons x items ih =>
    obtain ⟨hx, hrest⟩ := h
    rw [List.filter_cons, ih hrest, hx]
    by_cases hn : n < b
    · rw [if_pos (decide_eq_true hn), Nat.sub_eq_zero_of_le (by omega : n + 1 ≤ b),
        Nat.sub_eq_zero_of_le (by omega : n + 1 ≤ b.succ)]
      rfl
    · obtain ⟨k, hk⟩ : ∃ k, n + 1 - b = k + 1 := ⟨n - b, by omega⟩
      rw [if_neg (by simpa using hn), hk, List.drop_succ_cons]
      congr 1
      omega

/-- The first of the items left over has the number of its place. -/
theorem Numbered.head_of_sublist {b : β} {items rest : List α} {y : α}
    (h : Numbered next number b items) (hsub : (y :: rest).Sublist items) :
    ∃ k, number y = next^[k] b ∧ k + (y :: rest).length ≤ items.length := by
  induction items generalizing b with
  | nil => cases hsub
  | cons x items ih =>
    cases hsub with
    | cons _ hsub =>
      obtain ⟨k, hk, hlength⟩ := ih h.2 hsub
      refine ⟨k + 1, hk, ?_⟩
      rw [List.length_cons (a := x)]
      omega
    | cons_cons _ hsub =>
      refine ⟨0, h.1, ?_⟩
      have := hsub.length_le
      simp only [List.length_cons]
      omega

/-- After a loss the next item does not have the number that was due. -/
theorem Numbered.number_ne_of_lost {b : β} {x y : α} {items rest : List α} {period : Nat}
    (hperiod : ∀ b k, 0 < k → k < period → next^[k] b ≠ b)
    (h : Numbered next number b (x :: items)) (hsub : (y :: rest).Sublist items)
    (hlost : (x :: items).length < (y :: rest).length + period) : number y ≠ b := by
  obtain ⟨k, hk, hlength⟩ := h.2.head_of_sublist hsub
  rw [hk, ← Function.iterate_succ_apply]
  apply hperiod b (k + 1) (Nat.succ_pos k)
  simp only [List.length_cons] at hlost hlength
  omega

end Vidarax.Base
