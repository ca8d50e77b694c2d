import Vidarax.Runs.Slots

/-!
# Reservations and guards

Package `vidarax-api`, `crates/vidarax-api/src/state.rs:348–369,1469–1526`. The count that the map
of reservations holds for a principal is that of its live guards, and the creator that holds the
entry has read it.
-/

namespace Vidarax.Runs

open Vidarax.Base Vidarax.Timeline

namespace Creation

/-- The count that a creator has read while it holds the entry. -/
def readCount : Creation → Option (String × Nat)
  | entered p _ n | counting p _ n _ _ => some (p, n)
  | _ => none

/-- The worker acknowledges a creation that waits for the event. -/
theorem acknowledge_cases (event : TimelineEvent) (c : Creation) :
    (c.acknowledge event = c ∧ ∀ q, c ≠ durable q event) ∨
      ∃ q, c = durable q event ∧ c.acknowledge event = applied q event := by
  cases c with
  | durable q e =>
    rw [acknowledge]
    by_cases hsame : e = event
    · subst hsame
      exact .inr ⟨q, rfl, if_pos rfl⟩
    · refine .inl ⟨if_neg hsame, ?_⟩
      intro q' heq
      cases heq
      exact hsame rfl
  | _ => exact .inl ⟨rfl, fun q ↦ Creation.noConfusion⟩

section Acknowledge

variable (p : String) (event : TimelineEvent) (c : Creation)

@[simp] theorem guards_acknowledge : (c.acknowledge event).guards p = c.guards p := by
  rcases acknowledge_cases event c with ⟨hsame, -⟩ | ⟨q, rfl, hnew⟩
  · rw [hsame]
  · rw [hnew]
    rfl

@[simp] theorem locks_acknowledge : (c.acknowledge event).locks p = c.locks p := by
  rcases acknowledge_cases event c with ⟨hsame, -⟩ | ⟨q, rfl, hnew⟩
  · rw [hsame]
  · rw [hnew]
    rfl

@[simp] theorem pends_acknowledge : (c.acknowledge event).pends p = c.pends p := by
  rcases acknowledge_cases event c with ⟨hsame, -⟩ | ⟨q, rfl, hnew⟩
  · rw [hsame]
  · rw [hnew]
    rfl

@[simp] theorem created_acknowledge : (c.acknowledge event).created = c.created := by
  rcases acknowledge_cases event c with ⟨hsame, -⟩ | ⟨q, rfl, hnew⟩
  · rw [hsame]
  · rw [hnew]
    rfl

@[simp] theorem readCount_acknowledge : (c.acknowledge event).readCount = c.readCount := by
  rcases acknowledge_cases event c with ⟨hsame, -⟩ | ⟨q, rfl, hnew⟩
  · rw [hsame]
  · rw [hnew]
    rfl

end Acknowledge

theorem locks_of_readCount {c : Creation} {p : String} {n : Nat} (h : c.readCount = some (p, n)) :
    c.locks p = true := by
  cases c with
  | entered q _ m => simp_all [readCount, locks]
  | counting q _ m _ _ => simp_all [readCount, locks]
  | _ => cases h

end Creation

namespace Slots

theorem get?_reserve (reservations : Table String Nat) (p q : String) :
    (reserve reservations p)[q]? =
      if q = p then some (reservations[p]?.getD 0 + 1) else reservations[q]? := by
  unfold reserve
  by_cases hq : q = p
  · subst hq
    rw [if_pos rfl]
    cases hcount : reservations[q]? with
    | none => simp
    | some n => simp
  · rw [if_neg hq]
    cases reservations[p]? with
    | none => exact Table.get?_insert_ne _ _ hq
    | some n => exact Table.get?_insert_ne _ _ hq

theorem get?_release (reservations : Table String Nat) (p q : String) :
    (release reservations p)[q]? =
      if q = p ∧ reservations[p]?.getD 0 ≤ 1 then none
      else if q = p then some (reservations[p]?.getD 0 - 1) else reservations[q]? := by
  unfold release
  by_cases hq : q = p
  · subst hq
    cases hcount : reservations[q]? with
    | none => simp [hcount]
    | some n => by_cases hlow : n ≤ 1 <;> simp [hlow]
  · simp only [hq, false_and, if_false]
    cases reservations[p]? with
    | none => rfl
    | some n =>
      dsimp only
      split
      · exact Table.get?_erase_ne _ hq
      · exact Table.get?_insert_ne _ _ hq

/-- The map counts the guards, and no two creators hold the entry of one principal. -/
structure Counted (s : Slots) : Prop where
  counts : ∀ p : String, s.reservations[p]? = if s.guards p = 0 then none else some (s.guards p)
  alone : ∀ p, s.creations.countP (Creation.locks p) ≤ 1
  read : ∀ c ∈ s.creations, ∀ p n, c.readCount = some (p, n) → n = s.guards p

variable {s s' : Slots}

/-- Steps that change neither guards nor locks keep the counts. -/
theorem Counted.congr (h : Counted s) (hreservations : s'.reservations = s.reservations)
    (hguards : ∀ p, s'.guards p = s.guards p)
    (hlocks : ∀ p, s'.creations.countP (Creation.locks p) = s.creations.countP (Creation.locks p))
    (hread : ∀ c' ∈ s'.creations, ∀ p n, c'.readCount = some (p, n) →
      ∃ c ∈ s.creations, c.readCount = some (p, n)) : Counted s' where
  counts p := by rw [hreservations, hguards, h.counts]
  alone p := by rw [hlocks]; exact h.alone p
  read c' hc' p n hn := by
    obtain ⟨c, hc, hsame⟩ := hread c' hc' p n hn
    rw [hguards]
    exact h.read c hc p n hsame

/-- So do steps of one creator that keep what it holds. -/
theorem Counted.replace (h : Counted s) {l r : List Creation} {c c' : Creation}
    (hat : s.creations = l ++ c :: r) (hreservations : s'.reservations = s.reservations)
    (hnow : s'.creations = l ++ c' :: r) (hguards : ∀ p, c'.guards p = c.guards p)
    (hlocks : ∀ p, c'.locks p = c.locks p) (hread : c'.readCount = c.readCount) : Counted s' := by
  apply h.congr hreservations
  · intro p
    simp only [guards, hat, hnow, List.countP_append, List.countP_cons, hguards]
  · intro p
    simp only [hat, hnow, List.countP_append, List.countP_cons, hlocks]
  · intro a ha p n hn
    rw [hnow] at ha
    rw [hat]
    rcases List.mem_append.mp ha with ha | ha
    · exact ⟨a, List.mem_append_left _ ha, hn⟩
    · rcases List.mem_cons.mp ha with rfl | ha
      · exact ⟨c, by simp, by rw [← hread, hn]⟩
      · exact ⟨a, by simp [ha], hn⟩

theorem Unlocked.countP_eq_zero {p : String} (h : s.Unlocked p) :
    s.creations.countP (Creation.locks p) = 0 :=
  List.countP_eq_zero.mpr fun c hc ↦ ne_true_of_eq_false (h c hc)

/-- A creator that reads the count under the lock reads the number of guards. -/
theorem Counted.getD_eq (h : Counted s) (p : String) :
    s.reservations[p]?.getD 0 = s.guards p := by
  rw [h.counts]
  split
  · next hzero => exact hzero.symm
  · rfl

/-- Dropping a guard is counted. -/
theorem Counted.drop (h : Counted s) {p : String} (hfree : s.Unlocked p)
    (hreservations : s'.reservations = Slots.release s.reservations p)
    (hguards : ∀ q, s.guards q = s'.guards q + if q = p then 1 else 0)
    (hlocks : ∀ q, s'.creations.countP (Creation.locks q) = s.creations.countP (Creation.locks q))
    (hread : ∀ c' ∈ s'.creations, ∀ q n, c'.readCount = some (q, n) → c' ∈ s.creations) :
    Counted s' where
  counts q := by
    rw [hreservations, get?_release, h.getD_eq]
    have hq := hguards q
    by_cases hsame : q = p
    · subst hsame
      rw [if_pos rfl] at hq
      simp only [true_and, if_true]
      by_cases hlast : s'.guards q = 0
      · rw [if_pos hlast, if_pos (by omega)]
      · rw [if_neg hlast, if_neg (by omega)]
        congr 1
        omega
    · rw [if_neg hsame, Nat.add_zero] at hq
      simp only [hsame, false_and, if_false]
      rw [h.counts, hq]
  alone q := by rw [hlocks]; exact h.alone q
  read c' hc' q n hn := by
    have hc := hread c' hc' q n hn
    have hne : q ≠ p := by
      intro hsame
      subst hsame
      have hlock := Creation.locks_of_readCount hn
      rw [hfree c' hc] at hlock
      exact Bool.noConfusion hlock
    have hq := hguards q
    rw [if_neg hne, Nat.add_zero] at hq
    rw [← hq]
    exact h.read c' hc q n hn

variable {config : SlotConfig} {fromStr : String → Option Json}

/-- Every step keeps the counts. -/
theorem Counted.step (h : Counted s) (hstep : Step config fromStr s s') : Counted s' := by
  cases hstep with
  | enter p nowMs hfree =>
    have hguards (q : String) : guards { s with
        creations := s.creations ++ [.entered p nowMs (s.reservations[p]?.getD 0)]
        times := nowMs :: s.times } q = s.guards q := by
      simp [guards, Creation.guards]
    refine ⟨fun q ↦ by rw [hguards]; exact h.counts q, ?_, ?_⟩
    · intro q
      have halone := h.alone q
      rw [List.countP_append, List.countP_singleton]
      by_cases hq : p = q
      · subst hq
        rw [hfree.countP_eq_zero, Nat.zero_add]
        split <;> omega
      · simp only [Creation.locks, decide_eq_false hq]
        exact halone
    · intro c hc q n hn
      rw [hguards]
      rcases List.mem_append.mp hc with hc | hc
      · exact h.read c hc q n hn
      · rw [List.mem_singleton.mp hc] at hn
        cases hn
        exact h.getD_eq p
  | opens ids hat _ _ => exact h.replace hat rfl rfl (fun _ ↦ rfl) (fun _ ↦ rfl) rfl
  | look hat => exact h.replace hat rfl rfl (fun _ ↦ rfl) (fun _ ↦ rfl) rfl
  | commit event hat _ _ _ => exact h.replace hat rfl rfl (fun _ ↦ rfl) (fun _ ↦ rfl) rfl
  | commitEnd event _ => exact ⟨h.counts, h.alone, h.read⟩
  | index before after _ _ _ _ _ _ => exact ⟨h.counts, h.alone, h.read⟩
  | nudge _ _ _ _ _ => exact ⟨h.counts, h.alone, h.read⟩
  | finish isProtected hqueue hindexed =>
    refine h.congr rfl ?_ ?_ ?_
    · intro p
      simp [guards, List.countP_map, Function.comp_def]
    · intro p
      simp [List.countP_map, Function.comp_def]
    · intro c' hc' p n hn
      obtain ⟨c, hc, rfl⟩ := List.mem_map.mp hc'
      exact ⟨c, hc, by rw [← hn, Creation.readCount_acknowledge]⟩
  | @refuse l r p nowMs reserved committed hat hfull =>
    have hguards (q : String) : guards { s with creations := l ++ r } q = s.guards q := by
      simp [guards, hat, Creation.guards]
    refine ⟨fun q ↦ by rw [hguards]; exact h.counts q, ?_, ?_⟩
    · intro q
      have halone := h.alone q
      rw [hat, List.countP_append, List.countP_cons] at halone
      rw [List.countP_append]
      omega
    · intro c hc q n hn
      rw [hguards]
      exact h.read c (by rw [hat]; simp_all only [List.mem_append, List.mem_cons]; tauto) q n hn
  | @grant l r p nowMs reserved committed hat hroom =>
    have hguards (q : String) : guards { s with
        reservations := reserve s.reservations p
        creations := l ++ .holding p :: r } q = s.guards q + if q = p then 1 else 0 := by
      simp only [guards, hat, List.countP_append, List.countP_cons, Creation.guards]
      by_cases hq : p = q
      · simp [hq]
        omega
      · simp [hq, Ne.symm hq]
    have halone := h.alone p
    rw [hat, List.countP_append, List.countP_cons] at halone
    refine ⟨?_, ?_, ?_⟩
    · intro q
      rw [hguards, get?_reserve, h.getD_eq]
      by_cases hq : q = p
      · subst hq
        rw [if_pos rfl, if_pos rfl, if_neg (Nat.succ_ne_zero _)]
      · rw [if_neg hq, if_neg hq, Nat.add_zero]
        exact h.counts q
    · intro q
      have halone := h.alone q
      rw [hat, List.countP_append, List.countP_cons] at halone
      have hnone : Creation.locks q (.holding p) = false := rfl
      rw [List.countP_append, List.countP_cons, hnone, if_neg Bool.false_ne_true]
      omega
    · intro c hc q n hn
      have hother : c ∈ l ∨ c ∈ r := by
        rcases List.mem_append.mp hc with hc | hc
        · exact .inl hc
        · rcases List.mem_cons.mp hc with rfl | hc
          · cases hn
          · exact .inr hc
      -- the creator that is granted is the only one at the entry of its principal
      have hne : q ≠ p := by
        intro hq
        subst hq
        have hlock := Creation.locks_of_readCount hn
        simp only [Creation.locks, decide_true, if_true] at halone
        rcases hother with hc | hc
        · have := List.countP_pos_iff.mpr ⟨c, hc, hlock⟩
          omega
        · have := List.countP_pos_iff.mpr ⟨c, hc, hlock⟩
          omega
      rw [hguards, if_neg hne, Nat.add_zero]
      refine h.read c ?_ q n hn
      rw [hat, List.mem_append, List.mem_cons]
      tauto
  | @release l r p event hat hfree =>
    refine h.drop hfree rfl ?_ ?_ ?_
    · intro q
      simp only [guards, hat, List.countP_append, List.countP_cons, Creation.guards]
      by_cases hq : p = q
      · simp [hq]
        omega
      · simp [hq, Ne.symm hq]
    · intro q
      simp [hat, Creation.locks]
    · intro c' hc' q n hn
      rw [hat]
      rcases List.mem_append.mp hc' with hc' | hc'
      · exact List.mem_append_left _ hc'
      · rcases List.mem_cons.mp hc' with rfl | hc'
        · cases hn
        · simp [hc']
  | @fail l r p hat hfree =>
    refine h.drop hfree rfl ?_ ?_ ?_
    · intro q
      simp only [guards, hat, List.countP_append, List.countP_cons, Creation.guards]
      by_cases hq : p = q
      · simp [hq]
        omega
      · simp [hq, Ne.symm hq]
    · intro q
      simp [hat, Creation.locks]
    · intro c' hc' q n hn
      rw [hat]
      rcases List.mem_append.mp hc' with hc' | hc'
      · exact List.mem_append_left _ hc'
      · simp [hc']

end Slots

end Vidarax.Runs
