import Mathlib.Data.List.Perm.Basic
import Vidarax.Base.FloatArith

/-!
# The greatest of some numbers

Library `Base`. A loop that replaces what it holds by every greater number finds a greatest one, and
passes over what is not a number. In another order it may find the other zero, but nothing else.
-/

namespace Vidarax.Base.F32

variable {α : Type*} {a b start : F32} {xs ys : List α}

/-- The last of the numbers that were greater than all before them. -/
def greatest (start : F32) (f : α → F32) (xs : List α) : F32 :=
  xs.foldl (fun m x ↦ if m.lt (f x) then f x else m) start

/-- The place on the line of what is found. -/
theorem position_greatest (f : α → F32) (xs : List α) (hstart : start.isNan = false) :
    (greatest start f xs).isNan = false ∧ (greatest start f xs).position =
      xs.foldl (fun p x ↦ if (f x).isNan then p else max p (f x).position) start.position := by
  induction xs generalizing start with
  | nil => exact ⟨hstart, rfl⟩
  | cons x xs ih =>
    rw [greatest, List.foldl_cons, List.foldl_cons]
    by_cases hlt : start.lt (f x) = true
    · obtain ⟨-, hx, hpos⟩ := of_decide_eq_true hlt
      have hx : (f x).isNan = false := Bool.eq_false_iff.mpr hx
      rw [if_pos hlt, hx, if_neg Bool.false_ne_true, max_eq_right (Int.le_of_lt hpos)]
      exact ih hx
    · rw [if_neg hlt]
      have hpos : (if (f x).isNan then start.position else max start.position (f x).position) =
          start.position := by
        split
        · rfl
        · next hx =>
          apply max_eq_left
          by_contra hgt
          apply hlt
          exact decide_eq_true ⟨Bool.eq_false_iff.mp hstart, hx, Int.not_le.mp hgt⟩
      rw [hpos]
      exact ih hstart

/-- In another order a number of the same place is found. -/
theorem position_greatest_perm (f : α → F32) (h : xs.Perm ys) (hstart : start.isNan = false) :
    (greatest start f xs).position = (greatest start f ys).position := by
  rw [(position_greatest f xs hstart).2, (position_greatest f ys hstart).2]
  apply h.foldl_eq'
  intro x _ y _ p
  by_cases hx : (f x).isNan = true
  · simp only [if_pos hx]
  · by_cases hy : (f y).isNan = true
    · simp only [if_pos hy]
    · simp only [if_neg hx, if_neg hy]
      exact max_right_comm _ _ _

/-- Numbers of one place are equal, or both zeros. -/
theorem eq_or_zeros (h : a.position = b.position) : a = b ∨ a.magnitude = 0 ∧ b.magnitude = 0 := by
  by_cases hzero : a.magnitude = 0
  · refine .inr ⟨hzero, ?_⟩
    have ha : a.position = 0 := by
      unfold position
      split <;> omega
    rw [ha] at h
    unfold position at h
    split at h <;> omega
  · left
    rw [← signed_magnitude a, ← signed_magnitude b]
    unfold position at h
    cases ha : a.negative <;> cases hb : b.negative <;> simp only [ha, hb] at h <;>
      simp only [if_true, Bool.false_eq_true, if_false] at h
    · rw [Int.ofNat_inj.mp h]
    · omega
    · omega
    · rw [Int.ofNat_inj.mp (Int.neg_inj.mp h)]

/-- One minus a number depends on the place of the number only. -/
theorem one_sub_eq (h : a.position = b.position) : one.sub a = one.sub b := by
  rcases eq_or_zeros h with rfl | ⟨ha, hb⟩
  · rfl
  · have hsub {x : F32} (hx : x.magnitude = 0) : one.sub x = one.sub zero := by
      rcases eq_zero_or hx with rfl | rfl
      · rfl
      · decide +kernel
    rw [hsub ha, hsub hb]

end Vidarax.Base.F32
