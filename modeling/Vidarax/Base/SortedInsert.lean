import Mathlib.Data.List.Perm.Subperm
import Mathlib.Order.Lattice

/-!
# Insertion into sorted lists

Library `Base`. An element goes behind those with an equal or smaller key, at a place that is found
by halving. The foremost elements of a collection are kept in a sorted list of limited length, which
stays right when elements are inserted, and when they are removed from outside of it.
-/

namespace Vidarax.Base

variable {α κ : Type*}

/-! ### Halving -/

/-- The end of the elements with a property, which all come first, between two places. -/
def upperBound (P : α → Bool) (xs : List α) : Nat → Nat → Nat → Nat
  | 0, lo, _ => lo
  | fuel + 1, lo, hi =>
    if lo < hi then
      let mid := (lo + hi) / 2
      if xs[mid]?.any P then upperBound P xs fuel (mid + 1) hi else upperBound P xs fuel lo mid
    else lo

section

variable {P : α → Bool} {xs : List α}

/-- Elements with a property come first. -/
theorem filter_append_filter (h : xs.Pairwise fun a b ↦ P b = true → P a = true) :
    xs.filter P ++ xs.filter (!P ·) = xs := by
  induction xs with
  | nil => rfl
  | cons x xs ih =>
    obtain ⟨hx, hxs⟩ := List.pairwise_cons.mp h
    cases hP : P x with
    | true =>
      rw [List.filter_cons_of_pos hP, List.filter_cons_of_neg (by simp [hP]), List.cons_append, ih hxs]
    | false =>
      have hnone : ∀ y ∈ xs, P y = false := fun y hy ↦ by
        cases hPy : P y with
        | false => rfl
        | true => rw [hx y hy hPy] at hP; cases hP
      rw [List.filter_cons_of_neg (by simp [hP]), List.filter_cons_of_pos (by simp [hP]),
        List.filter_eq_nil_iff.mpr fun y hy ↦ by simp [hnone y hy],
        List.filter_eq_self.mpr fun y hy ↦ by simp [hnone y hy], List.nil_append]

theorem any_getElem?_iff (h : xs.Pairwise fun a b ↦ P b = true → P a = true)
    (i : Nat) : xs[i]?.any P = true ↔ i < (xs.filter P).length := by
  have hparts := filter_append_filter h
  constructor
  · intro hP
    by_contra hge
    rw [← hparts, List.getElem?_append_right (Nat.not_lt.mp hge)] at hP
    cases hx : (xs.filter (!P ·))[i - (xs.filter P).length]? with
    | none => rw [hx] at hP; cases hP
    | some x =>
      rw [hx, Option.any_some] at hP
      have hmem := (List.mem_filter.mp (List.mem_of_getElem? hx)).2
      rw [hP] at hmem
      cases hmem
  · intro hlt
    rw [← hparts, List.getElem?_append_left hlt, List.getElem?_eq_getElem hlt, Option.any_some]
    exact (List.mem_filter.mp (List.getElem_mem hlt)).2

theorem upperBound_eq (h : xs.Pairwise fun a b ↦ P b = true → P a = true) (fuel lo hi : Nat)
    (hlo : lo ≤ (xs.filter P).length) (hhi : (xs.filter P).length ≤ hi) (hle : hi ≤ xs.length)
    (hfuel : hi - lo ≤ fuel) : upperBound P xs fuel lo hi = (xs.filter P).length := by
  induction fuel generalizing lo hi with
  | zero =>
    unfold upperBound
    omega
  | succ fuel ih =>
    unfold upperBound
    split
    · next hlt =>
      dsimp only
      have hmid := any_getElem?_iff h ((lo + hi) / 2)
      split
      · next hP => exact ih _ _ (hmid.mp hP) hhi hle (by omega)
      · next hP => exact ih _ _ hlo (Nat.not_lt.mp fun hlt ↦ hP (hmid.mpr hlt)) (by omega) (by omega)
    · omega

end

/-! ### Sorted lists -/

section

variable [LinearOrder κ] {key : α → κ} {p : α → Bool} {x : α} {xs : List α}

variable (key) in
/-- Keys do not descend. -/
def Ascending (xs : List α) : Prop := xs.Pairwise fun a b ↦ key a ≤ key b

variable (key) in
/-- An element goes behind those with an equal or smaller key. -/
def inserted (x : α) (xs : List α) : List α :=
  xs.filter (key · ≤ key x) ++ x :: xs.filter (key x < key ·)

theorem Ascending.filter (h : Ascending key xs) (p : α → Bool) : Ascending key (xs.filter p) :=
  List.Pairwise.filter p h

/-- Elements with an equal or smaller key come first. -/
theorem Ascending.front (h : Ascending key xs) (x : α) :
    xs.Pairwise fun a b ↦ decide (key b ≤ key x) = true → decide (key a ≤ key x) = true :=
  List.Pairwise.imp (fun hle hP ↦ decide_eq_true (hle.trans (of_decide_eq_true hP))) h

/-- A sorted list in two parts. -/
theorem Ascending.parts (h : Ascending key xs) (x : α) :
    xs.filter (key · ≤ key x) ++ xs.filter (key x < key ·) = xs := by
  have hparts := filter_append_filter (h.front x)
  simpa only [← decide_not, not_le] using hparts

/-- The place is found by halving. -/
theorem Ascending.upperBound_eq (h : Ascending key xs) {P : α → Bool} (x : α)
    (hP : ∀ y, P y = decide (key y ≤ key x)) : xs.take (upperBound P xs xs.length 0 xs.length) ++
      x :: xs.drop (upperBound P xs xs.length 0 xs.length) = inserted key x xs := by
  obtain rfl : P = fun y ↦ decide (key y ≤ key x) := funext hP
  rw [Base.upperBound_eq (h.front x) _ _ _ (Nat.zero_le _) (List.length_filter_le _ _)
    (Nat.le_refl _) (by omega)]
  have hparts := h.parts x
  have htake : xs.take (xs.filter (key · ≤ key x)).length = xs.filter (key · ≤ key x) := by
    conv_lhs => rw [← hparts]
    rw [List.take_left' (by rw [hparts])]
  have hdrop : xs.drop (xs.filter (key · ≤ key x)).length = xs.filter (key x < key ·) := by
    conv_lhs => rw [← hparts]
    rw [List.drop_left' (by rw [hparts])]
  rw [htake, hdrop, inserted]

theorem Ascending.inserted (h : Ascending key xs) (x : α) : Ascending key (inserted key x xs) := by
  refine List.pairwise_append.mpr ⟨h.filter _, List.pairwise_cons.mpr ⟨?_, h.filter _⟩, ?_⟩
  · intro y hy
    exact (of_decide_eq_true (List.mem_filter.mp hy).2).le
  · intro a ha b hb
    have hax : key a ≤ key x := of_decide_eq_true (List.mem_filter.mp ha).2
    rcases List.mem_cons.mp hb with rfl | hb
    · exact hax
    · exact hax.trans (of_decide_eq_true (List.mem_filter.mp hb).2 : key x < key b).le

theorem Ascending.perm_inserted (h : Ascending key xs) (x : α) :
    (Base.inserted key x xs).Perm (x :: xs) := by
  conv_rhs => rw [← h.parts x]
  exact List.perm_middle

/-- An element that goes behind all others. -/
theorem inserted_eq_concat (h : ∀ y ∈ xs, key y ≤ key x) : inserted key x xs = xs ++ [x] := by
  rw [inserted, List.filter_eq_self.mpr fun y hy ↦ decide_eq_true (h y hy),
    List.filter_eq_nil_iff.mpr fun y hy ↦ by simpa using h y hy]

/-- An element that is kept is inserted among those that are kept. -/
theorem filter_inserted_of_pos (h : p x = true) :
    (inserted key x xs).filter p = inserted key x (xs.filter p) := by
  unfold inserted
  rw [List.filter_append, List.filter_cons_of_pos h, List.filter_filter, List.filter_filter,
    List.filter_filter, List.filter_filter]
  simp only [Bool.and_comm]

theorem Ascending.filter_inserted_of_neg (h : Ascending key xs) (hx : ¬p x = true) :
    (Base.inserted key x xs).filter p = xs.filter p := by
  rw [Base.inserted, List.filter_append, List.filter_cons_of_neg hx, ← List.filter_append, h.parts x]

/-! ### The foremost elements -/

variable (key) in
/-- At most so many of all elements, as many as there are, that come before the others. -/
structure Foremost (n : Nat) (all chosen : List α) : Prop where
  ascending : Ascending key chosen
  length_eq : chosen.length = min n all.length
  rest : ∃ rest, (chosen ++ rest).Perm all ∧ ∀ y ∈ chosen, ∀ z ∈ rest, key y ≤ key z

namespace Foremost

variable {n : Nat} {all all' chosen : List α} {y : α}

theorem nil (key : α → κ) (n : Nat) : Foremost key n [] [] :=
  ⟨List.Pairwise.nil, (Nat.min_zero n).symm, [], List.Perm.refl _, nofun⟩

theorem perm (h : Foremost key n all chosen) (hperm : all.Perm all') : Foremost key n all' chosen := by
  obtain ⟨rest, hrest, hle⟩ := h.rest
  exact ⟨h.ascending, hperm.length_eq ▸ h.length_eq, rest, hrest.trans hperm, hle⟩

theorem subset (h : Foremost key n all chosen) : chosen ⊆ all := by
  obtain ⟨rest, hrest, -⟩ := h.rest
  exact fun y hy ↦ hrest.subset (List.mem_append_left _ hy)

theorem nodup (h : Foremost key n all chosen) (hall : all.Nodup) : chosen.Nodup := by
  obtain ⟨rest, hrest, -⟩ := h.rest
  exact (List.nodup_append.mp (hrest.nodup_iff.mpr hall)).1

/-- The foremost elements of a collection without duplicates. -/
theorem iff_of_nodup (hall : all.Nodup) : Foremost key n all chosen ↔
    Ascending key chosen ∧ chosen.length = min n all.length ∧ chosen.Nodup ∧ chosen ⊆ all ∧
      ∀ z ∈ all, z ∉ chosen → ∀ y ∈ chosen, key y ≤ key z := by
  classical
  constructor
  · intro h
    obtain ⟨rest, hrest, hle⟩ := h.rest
    refine ⟨h.ascending, h.length_eq, h.nodup hall, h.subset, fun z hz hout y hy ↦ hle y hy z ?_⟩
    exact (List.mem_append.mp (hrest.symm.subset hz)).resolve_left hout
  · rintro ⟨hascending, hlength, hnodup, hsubset, hle⟩
    refine ⟨hascending, hlength, all.filter (· ∉ chosen), ?_, fun y hy z hz ↦ ?_⟩
    · refine (List.perm_ext_iff_of_nodup (List.nodup_append.mpr ⟨hnodup, hall.filter _, ?_⟩) hall).mpr
        fun z ↦ ?_
      · rintro y hy z hz rfl
        exact of_decide_eq_true (List.mem_filter.mp hz).2 hy
      · rw [List.mem_append, List.mem_filter, decide_eq_true_iff]
        constructor
        · rintro (hz | hz)
          · exact hsubset hz
          · exact hz.1
        · intro hz
          by_cases hin : z ∈ chosen
          · exact .inl hin
          · exact .inr ⟨hz, hin⟩
    · obtain ⟨hz, hout⟩ := List.mem_filter.mp hz
      exact hle z hz (of_decide_eq_true hout) y hy

/-- What is left when one more element is inserted. -/
theorem insert (h : Foremost key n all chosen) (x : α) :
    Foremost key n (x :: all) ((inserted key x chosen).take n) := by
  obtain ⟨rest, hrest, hle⟩ := h.rest
  have hperm := h.ascending.perm_inserted x
  have hlength := hrest.length_eq
  rw [List.length_append] at hlength
  have hchosen := h.length_eq
  refine ⟨List.Pairwise.take (h.ascending.inserted x), ?_, (inserted key x chosen).drop n ++ rest, ?_, ?_⟩
  · rw [List.length_take, hperm.length_eq, List.length_cons, List.length_cons]
    omega
  · rw [← List.append_assoc, List.take_append_drop]
    exact (hperm.append_right rest).trans (hrest.cons x)
  · intro y hy z hout
    rcases List.mem_append.mp hout with hz | hz
    · have hsorted := h.ascending.inserted x
      rw [← List.take_append_drop n (inserted key x chosen)] at hsorted
      exact (List.pairwise_append.mp hsorted).2.2 y hy z hz
    · rcases List.mem_cons.mp (hperm.subset (List.mem_of_mem_take hy)) with rfl | hy'
      · cases hback : chosen.filter (key y < key ·) with
        | nil =>
          -- the element comes last, and there is no place for it
          have hall : ∀ w ∈ chosen, key w ≤ key y := fun w hw ↦ by
            simpa using List.filter_eq_nil_iff.mp hback w hw
          have hfull : n = chosen.length := by
            have := List.length_pos_of_mem hz
            omega
          rw [inserted_eq_concat hall, List.take_left' hfull.symm] at hy
          exact hle y hy z hz
        | cons w back =>
          have hw : w ∈ chosen.filter (key y < key ·) := by
            rw [hback]
            exact List.mem_cons_self
          obtain ⟨hw, hlt⟩ := List.mem_filter.mp hw
          exact (of_decide_eq_true hlt : key y < key w).le.trans (hle w hw z hz)
      · exact hle y hy' z hz

/-- Elements go unless they have a property. -/
theorem filter_iff (h : Foremost key n all chosen) (hall : all.Nodup) (p : α → Bool) :
    Foremost key n (all.filter p) (chosen.filter p) ↔
      (∀ y ∈ chosen, p y = true) ∨ ∀ z ∈ all, p z = true → z ∈ chosen := by
  obtain ⟨rest, hrest, hle⟩ := h.rest
  have hlength := hrest.length_eq
  have hfiltered := (hrest.filter p).length_eq
  rw [List.length_append] at hlength
  rw [List.filter_append, List.length_append] at hfiltered
  have hchosen := h.length_eq
  constructor
  · intro hforemost
    have hkept := hforemost.length_eq
    by_cases hsome : ∀ y ∈ chosen, p y = true
    · exact .inl hsome
    · have hless : (chosen.filter p).length < chosen.length := by
        refine Nat.lt_of_le_of_ne (List.length_filter_le _ _) fun heq ↦ hsome ?_
        exact List.length_filter_eq_length_iff.mp heq
      have hnone : rest.filter p = [] := List.eq_nil_of_length_eq_zero (by omega)
      refine .inr fun z hz hp ↦ (List.mem_append.mp (hrest.symm.subset hz)).resolve_right fun hin ↦ ?_
      exact List.filter_eq_nil_iff.mp hnone z hin hp
  · intro hkeep
    refine ⟨h.ascending.filter p, ?_, rest.filter p, ?_, fun y hy z hz ↦
      hle y (List.mem_of_mem_filter hy) z (List.mem_of_mem_filter hz)⟩
    · rcases hkeep with hkeep | hkeep
      · rw [List.filter_eq_self.mpr hkeep] at hfiltered ⊢
        have := List.length_filter_le p rest
        omega
      · have hnone : rest.filter p = [] := by
          refine List.filter_eq_nil_iff.mpr fun z hz hp ↦ ?_
          have hdisjoint := (List.nodup_append.mp (hrest.nodup_iff.mpr hall)).2.2
          exact hdisjoint z (hkeep z (hrest.subset (List.mem_append_right _ hz)) hp) z hz rfl
        have := List.length_filter_le p chosen
        rw [hnone, List.length_nil] at hfiltered
        omega
    · rw [← List.filter_append]
      exact hrest.filter p

variable [DecidableEq α]

/-- One of the foremost elements is replaced by one with the same key. -/
theorem replace (h : Foremost key n all chosen) (hy : y ∈ chosen) (hkey : key x = key y) :
    Foremost key n (x :: all.erase y) ((inserted key x (chosen.erase y)).take n) := by
  obtain ⟨rest, hrest, hle⟩ := h.rest
  have hascending : Ascending key (chosen.erase y) := h.ascending.sublist List.erase_sublist
  have hperm := hascending.perm_inserted x
  have hpos := List.length_pos_of_mem hy
  have hlength : (inserted key x (chosen.erase y)).length = chosen.length := by
    rw [hperm.length_eq, List.length_cons, List.length_erase_of_mem hy]
    omega
  have hall := h.length_eq
  have hmem := List.length_erase_of_mem (h.subset hy)
  have hallpos := List.length_pos_of_mem (h.subset hy)
  rw [List.take_of_length_le (by omega)]
  refine ⟨hascending.inserted x, ?_, rest, ?_, ?_⟩
  · rw [hlength, hall, List.length_cons, hmem]
    omega
  · refine (hperm.append_right rest).trans (List.Perm.cons x ?_)
    have herased := hrest.erase y
    rwa [List.erase_append_left _ hy] at herased
  · intro w hw z hz
    rcases List.mem_cons.mp (hperm.subset hw) with rfl | hw
    · rw [hkey]
      exact hle y hy z hz
    · exact hle w (List.mem_of_mem_erase hw) z hz

/-- An element goes that is none of the foremost. -/
theorem erase (h : Foremost key n all chosen) (hy : y ∈ all) (hout : y ∉ chosen) :
    Foremost key n (all.erase y) chosen := by
  obtain ⟨rest, hrest, hle⟩ := h.rest
  have hin : y ∈ rest := (List.mem_append.mp (hrest.symm.subset hy)).resolve_left hout
  have hlength := hrest.length_eq
  rw [List.length_append] at hlength
  have hchosen := h.length_eq
  have hpos := List.length_pos_of_mem hin
  have herase := List.length_erase_of_mem hy
  refine ⟨h.ascending, by omega, rest.erase y, ?_, fun w hw z hz ↦ hle w hw z (List.mem_of_mem_erase hz)⟩
  rw [← List.erase_append_right _ hout]
  exact hrest.erase y

/-- An element goes, of more than can be chosen. -/
theorem erase_iff (h : Foremost key n all chosen) (hy : y ∈ all) (hmany : n < all.length) :
    Foremost key n (all.erase y) (chosen.erase y) ↔ y ∉ chosen := by
  constructor
  · intro herased hin
    have hlength := h.length_eq
    have herase := herased.length_eq
    have hpos := List.length_pos_of_mem hin
    rw [List.length_erase_of_mem hin, List.length_erase_of_mem hy] at herase
    omega
  · intro hout
    rw [List.erase_of_not_mem hout]
    exact h.erase hy hout

end Foremost

/-- Which elements are left when one more is inserted into a full list. -/
theorem mem_take_inserted {chosen : List α} {y : α} (hascending : Ascending key chosen)
    (hnodup : chosen.Nodup) (hne : y ≠ x) : y ∈ (inserted key x chosen).take chosen.length ↔
      y ∈ chosen ∧ ¬(chosen.getLast? = some y ∧ key x < key y) := by
  rcases List.eq_nil_or_concat (chosen.filter (key x < key ·)) with hback | ⟨back, w, hback⟩
  · have hall : ∀ z ∈ chosen, key z ≤ key x := fun z hz ↦ by
      simpa using List.filter_eq_nil_iff.mp hback z hz
    rw [inserted_eq_concat hall, List.take_left' rfl, iff_self_and]
    rintro hy ⟨-, hlt⟩
    exact absurd (hall y hy) hlt.not_ge
  · rw [List.concat_eq_append] at hback
    have hparts := hascending.parts x
    rw [hback, ← List.append_assoc] at hparts
    have hw : key x < key w := by
      have hmem : w ∈ chosen.filter (key x < key ·) := by
        rw [hback]
        exact List.mem_append_right _ List.mem_cons_self
      exact of_decide_eq_true (List.mem_filter.mp hmem).2
    have hlast : chosen.getLast? = some w := by rw [← hparts, List.getLast?_concat]
    have htake : (inserted key x chosen).take chosen.length =
        chosen.filter (key · ≤ key x) ++ x :: back := by
      have hlength := congrArg List.length hparts
      have hsplit : inserted key x chosen = chosen.filter (key · ≤ key x) ++ x :: back ++ [w] := by
        rw [inserted, hback, ← List.cons_append, List.append_assoc]
      rw [hsplit, List.take_left']
      rw [List.length_append, List.length_append] at hlength
      rw [← hlength, List.length_append, List.length_cons, List.length_singleton]
      omega
    have hfresh : w ∉ chosen.filter (key · ≤ key x) ++ back := by
      rw [← hparts] at hnodup
      exact fun hin ↦ (List.nodup_append.mp hnodup).2.2 w hin w List.mem_cons_self rfl
    have hmem : y ∈ chosen ↔ y ∈ chosen.filter (key · ≤ key x) ++ back ∨ y = w := by
      conv_lhs => rw [← hparts]
      rw [List.mem_append, List.mem_singleton]
    rw [htake, hlast, hmem, List.mem_append, List.mem_cons, List.mem_append]
    rw [List.mem_append] at hfresh
    constructor
    · rintro (hy | rfl | hy)
      · exact ⟨.inl (.inl hy), fun hsame ↦ hfresh (.inl (Option.some.inj hsame.1 ▸ hy))⟩
      · exact absurd rfl hne
      · exact ⟨.inl (.inr hy), fun hsame ↦ hfresh (.inr (Option.some.inj hsame.1 ▸ hy))⟩
    · rintro ⟨(hy | hy) | rfl, hnot⟩
      · exact .inl hy
      · exact .inr (.inr hy)
      · exact absurd ⟨rfl, hw⟩ hnot

end

end Vidarax.Base
