import Mathlib.Data.List.Rotate

/-!
# Rings of cells

Library `Base`. A fixed number of cells that are written one after the other, the first again after
the last. Read from the next one to be written on they hold what was written last, and before the
first round is over what they held at the start.
-/

namespace Vidarax.Base

variable {α : Type*} {initial written cells : List α} {cursor : Nat}

private theorem rotate_set_succ (h : cursor < cells.length) (x : α) :
    (cells.set cursor x).rotate (cursor + 1) = (cells.rotate cursor).tail ++ [x] := by
  have hne : cells.drop cursor ≠ [] := by
    rw [ne_eq, List.drop_eq_nil_iff]
    omega
  rw [List.rotate_eq_drop_append_take (by rw [List.length_set]; omega),
    List.rotate_eq_drop_append_take (Nat.le_of_lt h), List.tail_append_of_ne_nil hne,
    List.tail_drop, List.drop_set_of_lt (Nat.lt_succ_self cursor), List.append_assoc,
    List.take_add_one, List.take_set_of_le (Nat.le_refl cursor), List.getElem?_set_self h]
  rfl

/-- Cells that began with some contents, after some writes. -/
structure RingOf (initial written cells : List α) (cursor : Nat) : Prop where
  length_eq : cells.length = initial.length
  cursor_eq : cursor = written.length % initial.length
  rotate_eq : cells.rotate cursor = (initial ++ written).drop written.length

namespace RingOf

theorem start (initial : List α) : RingOf initial [] initial 0 where
  length_eq := rfl
  cursor_eq := (Nat.zero_mod _).symm
  rotate_eq := by rw [List.rotate_zero, List.append_nil]; rfl

theorem write (h : RingOf initial written cells cursor) (hpos : 0 < initial.length) (x : α) :
    RingOf initial (written ++ [x]) (cells.set cursor x) ((cursor + 1) % initial.length) where
  length_eq := by rw [List.length_set, h.length_eq]
  cursor_eq := by
    rw [h.cursor_eq, Nat.mod_add_mod, List.length_append, List.length_singleton]
  rotate_eq := by
    have hcursor : cursor < cells.length := by
      rw [h.length_eq, h.cursor_eq]
      exact Nat.mod_lt _ hpos
    have hlength : (cells.set cursor x).length = initial.length := by
      rw [List.length_set, h.length_eq]
    have hdrop : (initial ++ written).drop written.length ≠ [] := by
      rw [ne_eq, List.drop_eq_nil_iff, List.length_append]
      omega
    rw [← hlength, List.rotate_mod, rotate_set_succ hcursor, h.rotate_eq, List.tail_drop,
      List.length_append, List.length_singleton, ← List.append_assoc]
    symm
    apply List.drop_append_of_le_length
    rw [List.length_append]
    omega

/-- What the cells hold, in some order. -/
theorem perm (h : RingOf initial written cells cursor) :
    cells.Perm ((initial ++ written).drop written.length) := by
  rw [← h.rotate_eq]
  exact (List.rotate_perm cells cursor).symm

/-- The first round is not over. -/
theorem eq_of_le (h : RingOf initial written cells cursor)
    (hle : written.length ≤ initial.length) : cells = written ++ initial.drop written.length := by
  have hrotate := h.rotate_eq
  rw [h.cursor_eq, ← h.length_eq, List.rotate_mod, List.rotate_eq_drop_append_take
    (by rw [h.length_eq]; exact hle), List.drop_append_of_le_length hle] at hrotate
  obtain ⟨hrest, hfront⟩ := List.append_inj hrotate (by
    rw [List.length_drop, List.length_drop, h.length_eq])
  calc cells = cells.take written.length ++ cells.drop written.length :=
        (List.take_append_drop _ _).symm
    _ = written ++ initial.drop written.length := by rw [hfront, hrest]

/-- The cells that were written, counted up to all of them, hold what was written last. -/
theorem take_perm (h : RingOf initial written cells cursor) :
    (cells.take (min written.length initial.length)).Perm
      (written.drop (written.length - initial.length)) := by
  rcases Nat.le_total written.length initial.length with hle | hle
  · rw [Nat.min_eq_left hle, Nat.sub_eq_zero_of_le hle, h.eq_of_le hle, List.take_left]
    exact .refl _
  · rw [Nat.min_eq_right hle, ← h.length_eq, List.take_length]
    have hperm := h.perm
    rwa [List.drop_append, List.drop_eq_nil_of_le hle, List.nil_append, ← h.length_eq] at hperm

end RingOf

end Vidarax.Base
