import Mathlib.Data.List.DropRight
import Mathlib.Data.List.Infix

/-!
# Switches with hysteresis

Library `Base`. A switch changes its mode when the last samples, as many as its mode asks for, all
speak for the other one. The samples are counted from the last change on, and a sample that does not
speak for a change makes the count start again.
-/

namespace Vidarax.Base

variable {α : Type*} {p : α → Bool} {n : Nat} {items : List α} {x : α}

/-! ### The last samples -/

/-- There are so many items, and the last ones are all accepted. -/
def Held (p : α → Bool) (n : Nat) (items : List α) : Prop :=
  n ≤ items.length ∧ ∀ x ∈ items.drop (items.length - n), p x = true

/-- The items are held, and were not before the last one came. -/
def FirstHeld (p : α → Bool) (n : Nat) (items : List α) : Prop :=
  Held p n items ∧ ∀ front, front <+: items → front ≠ items → ¬Held p n front

theorem held_concat : Held p (n + 1) (items ++ [x]) ↔ Held p n items ∧ p x = true := by
  have hstart : items.length + 1 - (n + 1) = items.length - n := Nat.add_sub_add_right _ _ _
  simp only [Held, List.length_append, List.length_singleton, hstart, Nat.add_le_add_iff_right,
    List.drop_append_of_le_length (Nat.sub_le items.length n), List.forall_mem_append,
    List.forall_mem_singleton, and_assoc]

/-- The accepted items at the end are enough. -/
theorem held_iff : Held p n items ↔ n ≤ (items.rtakeWhile p).length := by
  induction items using List.reverseRecOn generalizing n with
  | nil => simp [Held]
  | append_singleton items x ih =>
    cases n with
    | zero => simp [Held]
    | succ n =>
      rw [held_concat, ih, List.rtakeWhile_concat]
      split
      · next hx => simp [hx]
      · next hx => simp [hx]

/-! ### Switches -/

/-- A mode and the number of samples in a row that speak for its change. -/
structure Switch where
  mode : Bool
  streak : Nat

namespace Switch

variable (accepts : Bool → α → Bool) (needed : Bool → Nat)

/-- One sample: the mode that is left, and the next state. -/
def step (s : Switch) (x : α) : Option Bool × Switch :=
  if accepts s.mode x then
    if needed s.mode ≤ s.streak + 1 then (some s.mode, ⟨!s.mode, 0⟩)
    else (none, ⟨s.mode, s.streak + 1⟩)
  else (none, ⟨s.mode, 0⟩)

/-- The samples of a run, each with the mode that was left at it. -/
def reports (s : Switch) : List α → List (α × Option Bool)
  | [] => []
  | x :: xs => (x, (s.step accepts needed x).1) :: reports (s.step accepts needed x).2 xs

variable {β : Type*}

/-- What was reported, in order. -/
def changes (reports : List (α × Option β)) : List β := reports.filterMap Prod.snd

/-- The samples since the last report. -/
def since (reports : List (α × Option β)) : List α :=
  (reports.rtakeWhile fun r ↦ r.2.isNone).map Prod.fst

/-- The mode that was entered last. -/
def modeAfter (reports : List (α × Option Bool)) : Bool :=
  ((changes reports).getLast?.map not).getD false

theorem since_concat (earlier : List (α × Option β)) (x : α) (report : Option β) :
    since (earlier ++ [(x, report)]) = if report.isNone then since earlier ++ [x] else [] := by
  cases report <;> simp [since]

theorem changes_concat (earlier : List (α × Option β)) (x : α) (report : Option β) :
    changes (earlier ++ [(x, report)]) = changes earlier ++ report.toList := by
  cases report <;> simp [changes]

/-- What a switch remembers of its run: the mode, and how many of the last samples since the last
change are accepted. They have never been enough. The modes that were left alternate. -/
structure Remembers (s : Switch) (earlier : List (α × Option Bool)) : Prop where
  mode_eq : s.mode = modeAfter earlier
  streak_eq : s.streak = ((since earlier).rtakeWhile (accepts s.mode)).length
  not_held : ∀ front, front <+: since earlier → ¬Held (accepts s.mode) (needed s.mode) front
  parity : s.mode = decide ((changes earlier).length % 2 = 1)
  alternate : ∀ (i : Nat) (m : Bool), (changes earlier)[i]? = some m → m = decide (i % 2 = 1)

variable {accepts needed} {s : Switch} {earlier : List (α × Option Bool)}

theorem Remembers.start (hneeded : 0 < needed false) :
    Remembers accepts needed ⟨false, 0⟩ ([] : List (α × Option Bool)) where
  mode_eq := rfl
  streak_eq := rfl
  not_held front hfront := by
    rw [List.prefix_nil.mp hfront, held_iff]
    exact Nat.not_le.mpr hneeded
  parity := rfl
  alternate i m h := by cases h

/-- One more sample is at most enough. -/
theorem Remembers.streak_lt (h : Remembers accepts needed s earlier) : s.streak < needed s.mode := by
  rw [h.streak_eq]
  exact Nat.not_le.mp fun hle ↦ h.not_held (since earlier) List.prefix_rfl (held_iff.mpr hle)

/-- A step changes the mode when the samples since the last change are held, and counts the last
accepted ones when they are not. -/
theorem Remembers.step_eq (h : Remembers accepts needed s earlier) (hpos : ∀ m, 0 < needed m)
    (x : α) : (Held (accepts s.mode) (needed s.mode) (since earlier ++ [x]) ∧
        s.step accepts needed x = (some s.mode, ⟨!s.mode, 0⟩)) ∨
      (¬Held (accepts s.mode) (needed s.mode) (since earlier ++ [x]) ∧ s.step accepts needed x =
        (none, ⟨s.mode, ((since earlier ++ [x]).rtakeWhile (accepts s.mode)).length⟩)) := by
  rw [held_iff, List.rtakeWhile_concat, step]
  by_cases hx : accepts s.mode x = true
  · rw [if_pos hx, if_pos hx, List.length_append, List.length_singleton, ← h.streak_eq]
    by_cases hle : needed s.mode ≤ s.streak + 1
    · exact .inl ⟨hle, if_pos hle⟩
    · exact .inr ⟨hle, if_neg hle⟩
  · rw [if_neg hx, if_neg hx]
    exact .inr ⟨Nat.not_le.mpr (hpos _), rfl⟩

/-- One more sample is remembered. -/
theorem Remembers.step (h : Remembers accepts needed s earlier) (hpos : ∀ m, 0 < needed m) (x : α) :
    Remembers accepts needed (s.step accepts needed x).2
      (earlier ++ [(x, (s.step accepts needed x).1)]) := by
  rcases h.step_eq hpos x with ⟨-, hstep⟩ | ⟨hheld, hstep⟩ <;> rw [hstep]
  · refine ⟨?_, ?_, ?_, ?_, ?_⟩
    · rw [modeAfter, changes_concat]
      simp
    · rw [since_concat]
      rfl
    · intro front hfront
      rw [since_concat] at hfront
      rw [List.prefix_nil.mp hfront, held_iff]
      exact Nat.not_le.mpr (hpos _)
    · rw [changes_concat, h.parity, List.length_append, ← decide_not, decide_eq_decide]
      simp only [Option.toList_some, List.length_singleton]
      omega
    · intro i m hi
      rw [changes_concat, List.getElem?_append] at hi
      split at hi
      · exact h.alternate i m hi
      · next hge =>
        rw [Option.toList_some, List.getElem?_singleton] at hi
        split at hi
        · next hzero =>
          cases hi
          rw [h.parity, Nat.le_antisymm (Nat.sub_eq_zero_iff_le.mp hzero) (Nat.not_lt.mp hge)]
        · cases hi
  · refine ⟨?_, ?_, ?_, ?_, ?_⟩
    · rw [modeAfter, changes_concat, Option.toList_none, List.append_nil, h.mode_eq, modeAfter]
    · rw [since_concat]
      rfl
    · intro front hfront
      rw [since_concat, if_pos Option.isNone_none, List.prefix_concat_iff] at hfront
      rcases hfront with rfl | hfront
      · exact hheld
      · exact h.not_held front hfront
    · rw [changes_concat, Option.toList_none, List.append_nil, h.parity]
    · rw [changes_concat, Option.toList_none, List.append_nil]
      exact h.alternate

/-- What is remembered when a sample of the run comes. -/
theorem Remembers.at_sample (hpos : ∀ m, 0 < needed m) {before earlier later : List (α × Option Bool)}
    {samples : List α} {x : α} {report : Option Bool} (h : Remembers accepts needed s before)
    (hrun : s.reports accepts needed samples = earlier ++ (x, report) :: later) :
    ∃ state : Switch, Remembers accepts needed state (before ++ earlier) ∧
      report = (state.step accepts needed x).1 := by
  induction earlier generalizing s before samples with
  | nil =>
    cases samples with
    | nil => cases hrun
    | cons y samples =>
      obtain ⟨hhead, -⟩ := List.cons_eq_cons.mp hrun
      cases hhead
      exact ⟨s, by rwa [List.append_nil], rfl⟩
  | cons r earlier ih =>
    cases samples with
    | nil => cases hrun
    | cons y samples =>
      obtain ⟨rfl, hrest⟩ := List.cons_eq_cons.mp hrun
      obtain ⟨state, hstate, hreport⟩ := ih (h.step hpos y) hrest
      rw [List.append_assoc] at hstate
      exact ⟨state, hstate, hreport⟩

/-- What is remembered of a whole run. -/
theorem Remembers.reports (hpos : ∀ m, 0 < needed m) {before : List (α × Option Bool)}
    (h : Remembers accepts needed s before) (samples : List α) :
    ∃ state : Switch, Remembers accepts needed state
      (before ++ s.reports accepts needed samples) := by
  induction samples generalizing s before with
  | nil => exact ⟨s, by rwa [Switch.reports, List.append_nil]⟩
  | cons x samples ih =>
    obtain ⟨state, hstate⟩ := ih (h.step hpos x)
    rw [List.append_assoc] at hstate
    exact ⟨state, hstate⟩

/-- In a run a mode is left exactly at the samples at which, for the first time since it was
entered, enough samples in a row have spoken against it. -/
theorem report_iff (hpos : ∀ m, 0 < needed m) {earlier later : List (α × Option Bool)}
    {samples : List α} {x : α} {report : Option Bool} {m : Bool}
    (hrun : (Switch.mk false 0).reports accepts needed samples = earlier ++ (x, report) :: later) :
    report = some m ↔
      modeAfter earlier = m ∧ FirstHeld (accepts m) (needed m) (since earlier ++ [x]) := by
  obtain ⟨state, hstate, hreport⟩ := (Remembers.start (hpos false)).at_sample hpos hrun
  rw [List.nil_append] at hstate
  rw [← hstate.mode_eq]
  rcases hstate.step_eq hpos x with ⟨hheld, hstep⟩ | ⟨hheld, hstep⟩ <;> rw [hreport, hstep]
  · rw [Option.some.injEq]
    refine ⟨?_, And.left⟩
    rintro rfl
    refine ⟨rfl, hheld, fun front hfront hne ↦ ?_⟩
    exact hstate.not_held front ((List.prefix_concat_iff.mp hfront).resolve_left hne)
  · refine ⟨nofun, ?_⟩
    rintro ⟨rfl, hfirst⟩
    exact absurd hfirst.1 hheld

/-- The modes that a run leaves alternate. -/
theorem changes_reports (hpos : ∀ m, 0 < needed m) {samples : List α} {i : Nat} {m : Bool}
    (h : (changes ((Switch.mk false 0).reports accepts needed samples))[i]? = some m) :
    m = decide (i % 2 = 1) := by
  obtain ⟨state, hstate⟩ := (Remembers.start (hpos false)).reports hpos samples
  exact hstate.alternate i m h

end Switch

end Vidarax.Base
