import Mathlib.Data.Nat.Find
import Mathlib.Order.WellFounded

/-!
# Progress of infinite runs

What is pending in a run ends if its rank never grows, drops at some turns, and there are always
more turns to come.
-/

namespace Vidarax.Base

/-- There is always a later one. -/
def Recurs (turn : Nat → Prop) : Prop := ∀ n, ∃ m, n ≤ m ∧ turn m

/-- What holds now and not for ever ends with a step. -/
theorem exists_last {p : Nat → Prop} {n : Nat} (hn : p n) (h : ∃ m, n ≤ m ∧ ¬ p m) :
    ∃ m, n ≤ m ∧ (∀ k, n ≤ k → k ≤ m → p k) ∧ ¬ p (m + 1) := by
  classical
  obtain ⟨hle, hnot⟩ := Nat.find_spec h
  have hbefore (k : Nat) (hnk : n ≤ k) (hk : k < Nat.find h) : p k := by
    by_contra hp
    exact Nat.find_min h hk ⟨hnk, hp⟩
  have hlt : n < Nat.find h := Nat.lt_of_le_of_ne hle fun hsame ↦ hnot (hsame ▸ hn)
  refine ⟨Nat.find h - 1, by omega, fun k hnk hk ↦ hbefore k hnk (by omega), ?_⟩
  rwa [Nat.sub_add_cancel (Nat.one_le_of_lt hlt)]

/-- What holds until a turn leads to what the turn makes of it. -/
theorem eventually_of_turn (p q : Nat → Prop) {turn : Nat → Prop} {n : Nat} (hturn : Recurs turn) (hn : p n)
    (hstep : ∀ k, n ≤ k → p k → p (k + 1) ∧ ¬ turn k ∨ q (k + 1)) : ∃ m, n ≤ m ∧ q m := by
  by_contra hnever
  have hp (k : Nat) (hk : n ≤ k) : p k := by
    induction k, hk using Nat.le_induction with
    | base => exact hn
    | succ k hk ih =>
      rcases hstep k hk ih with ⟨hnext, -⟩ | hq
      · exact hnext
      · exact absurd ⟨k + 1, Nat.le_succ_of_le hk, hq⟩ hnever
  obtain ⟨m, hm, hnow⟩ := hturn n
  rcases hstep m hm (hp m hm) with ⟨-, hnot⟩ | hq
  · exact hnot hnow
  · exact hnever ⟨m + 1, Nat.le_succ_of_le hm, hq⟩

variable {α : Type*} [Preorder α] {rank : Nat → α} {turn pending : Nat → Prop} {n : Nat}

/-- A rank that never grows. -/
theorem rank_le_of_le (hpending : ∀ k, n ≤ k → pending k)
    (hle : ∀ k, n ≤ k → pending k → pending (k + 1) → rank (k + 1) ≤ rank k) {m : Nat}
    (hm : n ≤ m) : rank m ≤ rank n := by
  induction m, hm using Nat.le_induction with
  | base => exact le_refl _
  | succ m hm ih =>
    exact (hle m hm (hpending m hm) (hpending (m + 1) (Nat.le_succ_of_le hm))).trans ih

variable (rank) in
/-- What is pending ends. -/
theorem eventually_of_rank [WellFoundedLT α] (hturn : Recurs turn)
    (hle : ∀ k, n ≤ k → pending k → pending (k + 1) → rank (k + 1) ≤ rank k)
    (hlt : ∀ k, n ≤ k → turn k → pending k → pending (k + 1) → rank (k + 1) < rank k) :
    ∃ m, n ≤ m ∧ ¬ pending m := by
  by_contra hnever
  have hpending (k : Nat) (hk : n ≤ k) : pending k := by
    by_contra hnot
    exact hnever ⟨k, hk, hnot⟩
  -- from every state on there is one with a smaller rank
  have hsmaller (k : Nat) (hk : n ≤ k) : ∃ m, n ≤ m ∧ rank m < rank k := by
    obtain ⟨m, hkm, hm⟩ := hturn k
    have hnm := hk.trans hkm
    refine ⟨m + 1, Nat.le_succ_of_le hnm, ?_⟩
    have hdrop := hlt m hnm hm (hpending m hnm) (hpending (m + 1) (Nat.le_succ_of_le hnm))
    exact hdrop.trans_le (rank_le_of_le (fun i hi ↦ hpending i (hk.trans hi))
      (fun i hi ↦ hle i (hk.trans hi)) hkm)
  obtain ⟨least, ⟨k, hk, rfl⟩, hleast⟩ :=
    wellFounded_lt.has_min { r | ∃ k, n ≤ k ∧ rank k = r } ⟨rank n, n, le_refl n, rfl⟩
  obtain ⟨m, hm, hdrop⟩ := hsmaller k hk
  exact hleast (rank m) ⟨m, hm, rfl⟩ hdrop

end Vidarax.Base
