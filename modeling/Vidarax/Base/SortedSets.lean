import Mathlib.Data.Finset.Card
import Mathlib.Data.List.Sort

/-!
# Sets as sorted buffers

Library `Base`. A set is kept as a strictly sorted list at the front of a buffer: a sorted buffer is
collapsed in place, and common elements of two sets are counted by walking both at once.
-/

namespace Vidarax.Base

variable {α : Type} [LinearOrder α]

/-! ### Collapsing in place -/

/-- One turn of the loop: an element that differs from the last one kept is kept. -/
def collapseStep (state : List α × Nat) (r : Nat) : List α × Nat :=
  let (buf, unique) := state
  match buf[r]? with
  | none => (buf, unique)
  | some x =>
    if unique = 0 ∨ buf[unique - 1]? ≠ some x then (buf.set unique x, unique + 1)
    else (buf, unique)

/-- Runs of equal elements are collapsed in place; the number of elements kept. -/
def collapse (buf : List α) : List α × Nat :=
  (List.range buf.length).foldl collapseStep (buf, 0)

/-- After some turns the front of the buffer is the set of the elements seen, and the elements not
seen are where they were. -/
structure Collapsed (xs : List α) (r : Nat) (state : List α × Nat) : Prop where
  length_eq : state.1.length = xs.length
  le : state.2 ≤ r
  sorted : (state.1.take state.2).Pairwise (· < ·)
  mem_iff : ∀ x, x ∈ state.1.take state.2 ↔ x ∈ xs.take r
  unseen : state.1.drop r = xs.drop r

theorem collapsed_zero (xs : List α) : Collapsed xs 0 (xs, 0) :=
  ⟨rfl, le_rfl, List.Pairwise.nil, fun _ ↦ Iff.rfl, rfl⟩

variable {xs : List α} {r : Nat} {state : List α × Nat}

/-- The last element kept is the largest one seen. -/
private theorem Collapsed.last_le (h : Collapsed xs r state) (hr : r ≤ xs.length)
    (hpos : state.2 ≠ 0) : ∃ last, state.1[state.2 - 1]? = some last ∧
      last ∈ xs.take r ∧ ∀ x ∈ xs.take r, x ≤ last := by
  have hle := h.le
  have hlength := h.length_eq
  have hin : state.2 - 1 < state.1.length := by omega
  refine ⟨state.1[state.2 - 1], List.getElem?_eq_getElem hin, ?_, ?_⟩
  · rw [← h.mem_iff]
    exact List.mem_take_iff_getElem.mpr ⟨state.2 - 1, by omega, rfl⟩
  · intro x hx
    obtain ⟨i, hi, rfl⟩ := List.mem_take_iff_getElem.mp ((h.mem_iff x).mpr hx)
    rcases Nat.lt_or_ge i (state.2 - 1) with hlt | hge
    · have hsorted := List.pairwise_iff_getElem.mp h.sorted i (state.2 - 1)
        (by rw [List.length_take]; omega) (by rw [List.length_take]; omega) hlt
      rw [List.getElem_take, List.getElem_take] at hsorted
      exact hsorted.le
    · have heq : i = state.2 - 1 := by omega
      subst heq
      exact le_rfl

/-- One turn of the loop sees one more element. -/
theorem Collapsed.step (h : Collapsed xs r state) (hsorted : xs.Pairwise (· ≤ ·))
    (hr : r < xs.length) : Collapsed xs (r + 1) (collapseStep state r) := by
  obtain ⟨buf, unique⟩ := state
  have hlength := h.length_eq
  have hle := h.le
  have hunseen := h.unseen
  dsimp only at hlength hle hunseen
  have hget : buf[r]? = some xs[r] := by
    have := congrArg List.head? hunseen
    rwa [List.head?_drop, List.head?_drop, List.getElem?_eq_getElem hr] at this
  have hdrop : buf.drop (r + 1) = xs.drop (r + 1) := by
    rw [← List.tail_drop, hunseen, List.tail_drop]
  have htake : xs.take (r + 1) = xs.take r ++ [xs[r]] := List.take_succ_eq_append_getElem hr
  have hbelow : ∀ x ∈ xs.take r, x ≤ xs[r] := by
    rw [← List.take_append_drop r xs, List.pairwise_append] at hsorted
    exact fun x hx ↦ hsorted.2.2 x hx _ (List.mem_drop_iff_getElem.mpr ⟨0, by simpa using hr, by simp⟩)
  have hlast := h.last_le hr.le
  unfold collapseStep
  dsimp only at hlast ⊢
  rw [hget]
  dsimp only
  by_cases hkeep : unique = 0 ∨ buf[unique - 1]? ≠ some xs[r]
  · rw [if_pos hkeep]
    have hfront : (buf.set unique xs[r]).take (unique + 1) = buf.take unique ++ [xs[r]] := by
      rw [List.take_succ_eq_append_getElem (by rw [List.length_set]; omega), List.getElem_set_self,
        List.take_set_of_le le_rfl]
    have habove : ∀ x ∈ buf.take unique, x < xs[r] := by
      intro x hx
      have hseen := (h.mem_iff x).mp hx
      rcases hkeep with rfl | hne
      · cases hx
      · have hpos : unique ≠ 0 := by
          rintro rfl
          cases hx
        obtain ⟨last, hlast, hmem, hlargest⟩ := hlast hpos
        have hlt : last < xs[r] :=
          lt_of_le_of_ne (hbelow last hmem) fun he ↦ hne (he ▸ hlast)
        exact lt_of_le_of_lt (hlargest x hseen) hlt
    refine ⟨by simpa using hlength, Nat.succ_le_succ hle, ?_, ?_, ?_⟩
    · dsimp only
      rw [hfront, List.pairwise_append]
      exact ⟨h.sorted, List.pairwise_singleton _ _, fun x hx y hy ↦
        List.mem_singleton.mp hy ▸ habove x hx⟩
    · intro x
      dsimp only
      rw [hfront, htake, List.mem_append, List.mem_append, h.mem_iff]
    · dsimp only
      rw [List.drop_set_of_lt (by omega), hdrop]
  · rw [if_neg hkeep]
    rw [not_or, not_not] at hkeep
    have hmem : xs[r] ∈ xs.take r := by
      obtain ⟨last, hlast, hmem, -⟩ := hlast hkeep.1
      rwa [← Option.some.inj (hlast.symm.trans hkeep.2)]
    refine ⟨hlength, Nat.le_succ_of_le hle, h.sorted, ?_, hdrop⟩
    intro x
    rw [h.mem_iff, htake, List.mem_append, List.mem_singleton]
    exact ⟨.inl, fun hx ↦ hx.elim id fun he ↦ he ▸ hmem⟩

/-- A sorted buffer is collapsed to the set of its elements. -/
theorem collapse_spec (hsorted : xs.Pairwise (· ≤ ·)) :
    ((collapse xs).1.take (collapse xs).2).Pairwise (· < ·) ∧
      (∀ x, x ∈ (collapse xs).1.take (collapse xs).2 ↔ x ∈ xs) ∧
      ((collapse xs).1.take (collapse xs).2).length = (collapse xs).2 := by
  have hrun : ∀ r ≤ xs.length, Collapsed xs r ((List.range r).foldl collapseStep (xs, 0)) := by
    intro r hr
    induction r with
    | zero => exact collapsed_zero xs
    | succ r ih =>
      rw [List.range_succ, List.foldl_append]
      exact (ih (by omega)).step hsorted (by omega)
  have hall := hrun xs.length le_rfl
  refine ⟨hall.sorted, fun x ↦ ?_, ?_⟩
  · have hmem := hall.mem_iff x
    rwa [List.take_length] at hmem
  · rw [List.length_take]
    exact min_eq_left (hall.le.trans hall.length_eq.ge)

/-! ### Walking two sets -/

/-- Common elements of two sorted lists, counted by a walk along both. -/
def mergeCount : List α → List α → Nat
  | x :: xs, y :: ys =>
    if x < y then mergeCount xs (y :: ys)
    else if y < x then mergeCount (x :: xs) ys
    else mergeCount xs ys + 1
  | [], _ => 0
  | _ :: _, [] => 0
  termination_by xs ys => xs.length + ys.length

/-- The walk counts the intersection. -/
theorem mergeCount_eq_card {ys : List α} (hxs : xs.Pairwise (· < ·)) (hys : ys.Pairwise (· < ·)) :
    mergeCount xs ys = (xs.toFinset ∩ ys.toFinset).card := by
  fun_induction mergeCount xs ys with
  | case1 x xs y ys hlt ih =>
    -- the smaller head is in no other place
    have hnot : x ∉ (y :: ys).toFinset := by
      rw [List.mem_toFinset, List.mem_cons, not_or]
      exact ⟨hlt.ne, fun hmem ↦ lt_asymm hlt ((List.pairwise_cons.mp hys).1 x hmem)⟩
    rw [ih hxs.of_cons hys, List.toFinset_cons (a := x), Finset.insert_inter_of_notMem hnot]
  | case2 x xs y ys hlt hgt ih =>
    have hnot : y ∉ (x :: xs).toFinset := by
      rw [List.mem_toFinset, List.mem_cons, not_or]
      exact ⟨hgt.ne, fun hmem ↦ lt_asymm hgt ((List.pairwise_cons.mp hxs).1 y hmem)⟩
    rw [ih hxs hys.of_cons, List.toFinset_cons (a := y), Finset.inter_insert_of_notMem hnot]
  | case3 x xs y ys hlt hgt ih =>
    obtain rfl : x = y := le_antisymm (not_lt.mp hgt) (not_lt.mp hlt)
    have hnot : x ∉ xs.toFinset := by
      rw [List.mem_toFinset]
      exact fun hmem ↦ lt_irrefl x ((List.pairwise_cons.mp hxs).1 x hmem)
    rw [ih hxs.of_cons hys.of_cons, List.toFinset_cons, List.toFinset_cons,
      ← Finset.insert_inter_distrib, Finset.card_insert_of_notMem fun hmem ↦
        hnot (Finset.mem_inter.mp hmem).1]
  | case4 ys => simp
  | case5 x xs => simp

end Vidarax.Base
