import Mathlib.Data.List.Infix
import Mathlib.Data.List.TakeDrop

/-!
# Windows of a growing list

Library `Base`. A reader goes through a list from some place on and keeps the elements that a
predicate selects. What it has kept up to a place is a window of the list. The list may grow at its
end, and a reader that begins again behind the last element it has kept goes on with the same window.
-/

namespace Vidarax.Base

variable {α : Type*} {p : α → Bool} {start stop : Nat} {items more : List α}

/-- Selected elements from a place on up to another one. -/
def window (p : α → Bool) (start stop : Nat) (items : List α) : List α :=
  ((items.take stop).drop start).filter p

/-- What a reader keeps in the long run. -/
theorem window_front (p : α → Bool) (start stop : Nat) (items : List α) :
    window p start stop items <+: (items.drop start).filter p := by
  rw [window, List.drop_take]
  exact (List.take_prefix _ _).filter p

@[simp] theorem window_self (p : α → Bool) (start : Nat) (items : List α) :
    window p start start items = [] := by
  rw [window, List.drop_take, Nat.sub_self]
  rfl

/-- A window that has been read does not change when the list grows. -/
theorem window_append (h : stop = start ∨ stop ≤ items.length) :
    window p start stop (items ++ more) = window p start stop items := by
  rcases h with rfl | hstop
  · rw [window_self, window_self]
  · rw [window, window, List.take_append_of_le_length hstop]

/-- The next element is read. -/
theorem window_succ {x : α} (hx : items[stop]? = some x) (hstart : start ≤ stop) :
    window p start (stop + 1) items = window p start stop items ++ (if p x then [x] else []) := by
  have hlt : stop < items.length := (List.getElem?_eq_some_iff.mp hx).1
  have hlength : (items.take stop).length = stop := List.length_take_of_le (Nat.le_of_lt hlt)
  rw [window, window, List.take_add_one, hx, List.drop_append_of_le_length (by omega),
    List.filter_append]
  exact congrArg (_ ++ ·) List.filter_cons

/-- A selected element that has been read is kept. -/
theorem mem_window {i : Nat} {x : α} (hx : items[i]? = some x) (hstart : start ≤ i)
    (hstop : i < stop) (hp : p x = true) : x ∈ window p start stop items := by
  apply List.mem_filter.mpr
  refine ⟨?_, hp⟩
  apply List.mem_of_getElem? (i := i - start)
  rw [List.getElem?_drop, Nat.add_sub_cancel' hstart, List.getElem?_take_of_lt hstop]
  exact hx

/-- The elements kept up to one of them are the window up to its place. -/
theorem exists_window_of_front {kept : List α} {x : α}
    (h : kept ++ [x] <+: (items.drop start).filter p) :
    ∃ i, items[i]? = some x ∧ start ≤ i ∧ kept ++ [x] = window p start (i + 1) items := by
  obtain ⟨rest, hrest⟩ := h
  rw [List.append_assoc, List.singleton_append] at hrest
  obtain ⟨before, after, hitems, hbefore, hafter⟩ := List.filter_eq_append_iff.mp hrest.symm
  obtain ⟨skipped, last, rfl, hskipped, hp, -⟩ := List.filter_eq_cons_iff.mp hafter
  rw [← List.append_assoc] at hitems
  have hx : items[start + (before ++ skipped).length]? = some x := by
    rw [← List.getElem?_drop, hitems, List.getElem?_append_right (Nat.le_refl _), Nat.sub_self]
    rfl
  refine ⟨_, hx, Nat.le_add_right _ _, ?_⟩
  have htake : (items.take (start + (before ++ skipped).length + 1)).drop start =
      before ++ skipped ++ [x] := by
    rw [List.drop_take, hitems, Nat.add_assoc, Nat.add_sub_cancel_left]
    rw [show before ++ skipped ++ x :: last = (before ++ skipped ++ [x]) ++ last by simp]
    exact List.take_left' (by rw [List.length_append, List.length_singleton])
  rw [window, htake, List.filter_append, List.filter_append, hbefore,
    List.filter_eq_nil_iff.mpr hskipped, List.append_nil, List.filter_singleton, hp]
  rfl

end Vidarax.Base
