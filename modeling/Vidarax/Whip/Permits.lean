import Vidarax.Base.Focus
import Vidarax.Whip.Capacity

/-!
# Owners of permits

Package `vidarax-api`, `crates/vidarax-api/src/state.rs:747–812` and
`crates/vidarax-api/src/whip.rs:579–699`. A permit is released once. As long as no permit is filed
under a session that has one, that of an inserted session is released by its own supervisor, after
the last thread. The map is keyed by the session alone, so a session id that is drawn again while the
permit of its first session is kept gives that permit away.
-/

namespace Vidarax.Whip

open Vidarax.Base

namespace Media

/-! ### Permits are released once -/

/-- The start has the permit of a generation to come. -/
def keeps (g : Nat) (t : Start) : Bool := t.attempt.generation = g ∧ t.phase ≠ .published

/-- How often the permit of a generation exists or was released. -/
def held (s : Media) (g : Nat) : Nat :=
  s.starts.countP (keeps g) + s.mediaReservations.countP (fun x ↦ x.2.generation = g) +
    s.released.countP (fun x ↦ x.permit.generation = g)

/-- How many tasks work for a generation. -/
def tasks (s : Media) (g : Nat) : Nat :=
  s.starts.countP (fun t ↦ t.attempt.generation = g) +
    s.supervisors.countP (fun v ↦ v.attempt.generation = g)

/-- Generations, their permits and their tasks are told apart, and every drop is of a release. -/
structure Distinct (s : Media) : Prop where
  once : ∀ g, s.held g ≤ 1
  alone : ∀ g, s.tasks g ≤ 1
  fresh : ∀ g, s.nextGeneration ≤ g → s.held g = 0 ∧ s.tasks g = 0
  drops : ∀ g, s.dropping.countP (fun p ↦ p.generation = g) +
    s.halves.countP (fun p ↦ p.generation = g) ≤ s.released.countP fun x ↦ x.permit.generation = g

variable {limits : MediaLimits} {s s' : Media} {label : Option String}

theorem distinct_initial : Distinct initial :=
  ⟨fun _ ↦ Nat.zero_le _, fun _ ↦ Nat.zero_le _, fun _ _ ↦ ⟨rfl, rfl⟩, fun _ ↦ Nat.le_refl _⟩

theorem countP_filed (g : Nat) (s : Media) (sessId : String) :
    (s.unfiled sessId).countP (fun x ↦ x.2.generation = g) +
      (s.filed sessId).countP (fun p ↦ p.generation = g) =
        s.mediaReservations.countP fun x ↦ x.2.generation = g := by
  unfold unfiled filed
  induction s.mediaReservations with
  | nil => rfl
  | cons x media ih =>
    by_cases hx : x.1 = sessId
    · simp [hx, List.countP_cons] at ih ⊢
      omega
    · simp [hx, List.countP_cons] at ih ⊢
      omega

/-- What a drop adds to the releases. -/
theorem countP_drop (s : Media) (releaser : Releaser) (permits : List MediaResourcePermit) (g : Nat) :
    (drop s releaser permits).released.countP (fun x ↦ x.permit.generation = g) =
      s.released.countP (fun x ↦ x.permit.generation = g) +
        permits.countP fun p ↦ p.generation = g := by
  simp [drop, List.countP_map, Function.comp_def]

/-- An operation keeps generations apart if it creates no permit and no task. -/
theorem Distinct.congr (h : Distinct s) (hheld : ∀ g, s'.held g ≤ s.held g)
    (htasks : ∀ g, s'.tasks g ≤ s.tasks g) (hnext : s'.nextGeneration = s.nextGeneration)
    (hdrops : ∀ g, s'.dropping.countP (fun p ↦ p.generation = g) +
      s'.halves.countP (fun p ↦ p.generation = g) +
      s.released.countP (fun x ↦ x.permit.generation = g) ≤
      s.dropping.countP (fun p ↦ p.generation = g) +
      s.halves.countP (fun p ↦ p.generation = g) +
      s'.released.countP (fun x ↦ x.permit.generation = g)) : Distinct s' where
  once g := Nat.le_trans (hheld g) (h.once g)
  alone g := Nat.le_trans (htasks g) (h.alone g)
  fresh g hg := by
    obtain ⟨hh, ht⟩ := h.fresh g (by rw [← hnext]; exact hg)
    have := hheld g
    have := htasks g
    omega
  drops g := by
    have := h.drops g
    have := hdrops g
    omega

/-- One start among the others. -/
private theorem counts_starts (l r : List Start) (t : Start) (g : Nat) :
    (l ++ t :: r).countP (keeps g) = (l ++ r).countP (keeps g) + (if keeps g t then 1 else 0) ∧
      (l ++ t :: r).countP (fun t ↦ t.attempt.generation = g) =
        (l ++ r).countP (fun t ↦ t.attempt.generation = g) +
          if t.attempt.generation = g then 1 else 0 := by
  rw [countP_focus, countP_focus]
  simp only [decide_eq_true_eq, and_self]

/-- A start goes on with its permit. -/
theorem Distinct.advance (h : Distinct s) {l r : List Start} {a : Attempt} {phase : StartPhase}
    (phase' : StartPhase) (hat : s.starts = l ++ ⟨a, phase⟩ :: r)
    (hphase : phase ≠ .published) (hstarts : s'.starts = l ++ ⟨a, phase'⟩ :: r)
    (hmedia : s'.mediaReservations = s.mediaReservations)
    (hsupervisors : s'.supervisors = s.supervisors) (hreleased : s'.released = s.released)
    (hnext : s'.nextGeneration = s.nextGeneration) (hdropping : s'.dropping = s.dropping)
    (hhalves : s'.halves = s.halves) : Distinct s' := by
  refine h.congr (fun g ↦ ?_) (fun g ↦ ?_) hnext fun g ↦ ?_
  · have hkeep : keeps g ⟨a, phase'⟩ = true → keeps g ⟨a, phase⟩ = true := by
      intro hkeeps
      exact decide_eq_true ⟨(of_decide_eq_true hkeeps).1, hphase⟩
    rw [held, held, hat, hstarts, hmedia, hreleased, (counts_starts l r _ g).1,
      (counts_starts l r _ g).1]
    by_cases hkeeps : keeps g ⟨a, phase'⟩ = true
    · rw [if_pos hkeeps, if_pos (hkeep hkeeps)]
    · rw [if_neg hkeeps]
      omega
  · rw [tasks, tasks, hat, hstarts, hsupervisors, (counts_starts l r _ g).2,
      (counts_starts l r _ g).2]
  · rw [hdropping, hhalves, hreleased]

/-- A start ends, and drops its permit if it has one. -/
theorem Distinct.leave (h : Distinct s) {l r : List Start} {a : Attempt} {phase : StartPhase}
    (hat : s.starts = l ++ ⟨a, phase⟩ :: r) (hphase : phase ≠ .published)
    {permits : List MediaResourcePermit} (hpermits : permits = [] ∨ permits = [a.permit])
    (hstarts : s'.starts = l ++ r) (hmedia : s'.mediaReservations = s.mediaReservations)
    (hsupervisors : s'.supervisors = s.supervisors)
    (hreleased : ∀ g, s'.released.countP (fun x ↦ x.permit.generation = g) =
      s.released.countP (fun x ↦ x.permit.generation = g) +
        permits.countP fun p ↦ p.generation = g)
    (hnext : s'.nextGeneration = s.nextGeneration) (hdropping : s'.dropping = s.dropping ++ permits)
    (hhalves : s'.halves = s.halves) : Distinct s' := by
  refine h.congr (fun g ↦ ?_) (fun g ↦ ?_) hnext fun g ↦ ?_
  · have hkeeps : keeps g ⟨a, phase⟩ = decide (a.permit.generation = g) := by simp [keeps, hphase]
    have hone : permits.countP (fun p ↦ p.generation = g) ≤
        if a.permit.generation = g then 1 else 0 := by
      rcases hpermits with rfl | rfl
      · exact Nat.zero_le _
      · simp [List.countP_singleton]
    rw [held, held, hat, hstarts, hmedia, hreleased, (counts_starts l r _ g).1, hkeeps]
    simp only [decide_eq_true_eq]
    omega
  · rw [tasks, tasks, hat, hstarts, hsupervisors, (counts_starts l r _ g).2]
    omega
  · rw [hdropping, hhalves, hreleased, List.countP_append]
    omega

/-- A supervisor goes on. -/
theorem Distinct.supervisor (h : Distinct s) {l r : List Supervisor} {a : Attempt} {n : Nat}
    {phase : SupervisorPhase} (hat : s.supervisors = l ++ ⟨a, n, phase⟩ :: r) (n' : Nat)
    (phase' : SupervisorPhase) :
    Distinct { s with supervisors := l ++ ⟨a, n', phase'⟩ :: r } := by
  refine h.congr (fun g ↦ Nat.le_refl _) (fun g ↦ ?_) rfl fun g ↦ Nat.le_refl _
  simp only [tasks, hat, List.countP_append, List.countP_cons]
  exact Nat.le_refl _

/-- Every operation keeps generations apart. -/
theorem Distinct.step (h : Distinct s) (hstep : Step limits s label s') : Distinct s' := by
  cases hstep with
  | begin sessId runId resources =>
    have hnew (g : Nat) : (if s.nextGeneration = g then 1 else 0) = 0 ∨
        s.nextGeneration = g ∧ s.held g = 0 ∧ s.tasks g = 0 := by
      by_cases hg : s.nextGeneration = g
      · exact .inr ⟨hg, h.fresh g (Nat.le_of_eq hg)⟩
      · exact .inl (if_neg hg)
    have hheld (g : Nat) : held { s with
        starts := s.starts ++ [⟨⟨sessId, runId, ⟨s.nextGeneration, resources⟩⟩, .reserving⟩]
        nextGeneration := s.nextGeneration + 1 } g =
          s.held g + if s.nextGeneration = g then 1 else 0 := by
      simp only [held, List.countP_append, List.countP_singleton, keeps, decide_eq_true_eq, ne_eq,
        reduceCtorEq, not_false_eq_true, and_true, Attempt.generation]
      omega
    have htasks (g : Nat) : tasks { s with
        starts := s.starts ++ [⟨⟨sessId, runId, ⟨s.nextGeneration, resources⟩⟩, .reserving⟩]
        nextGeneration := s.nextGeneration + 1 } g =
          s.tasks g + if s.nextGeneration = g then 1 else 0 := by
      simp only [tasks, List.countP_append, List.countP_singleton, decide_eq_true_eq,
        Attempt.generation]
      omega
    refine ⟨fun g ↦ ?_, fun g ↦ ?_, fun g hg ↦ ?_, h.drops⟩
    · rw [hheld]
      rcases hnew g with hold | ⟨hg, hnone, -⟩
      · rw [hold]
        exact h.once g
      · rw [if_pos hg, hnone]
    · rw [htasks]
      rcases hnew g with hold | ⟨hg, -, hnone⟩
      · rw [hold]
        exact h.alone g
      · rw [if_pos hg, hnone]
    · have hlt : s.nextGeneration < g := hg
      rw [hheld, htasks, if_neg (Nat.ne_of_lt hlt)]
      exact h.fresh g (Nat.le_of_lt hlt)
  | reserveBytes hat _ =>
    exact h.advance .bytesReserved hat (by decide) rfl rfl rfl rfl rfl rfl rfl
  | refuseBytes hat _ =>
    exact h.leave hat (by decide) (.inl rfl) rfl rfl rfl (fun _ ↦ rfl) rfl
      (List.append_nil _).symm rfl
  | reserveThreads hat _ => exact h.advance .holding hat (by decide) rfl rfl rfl rfl rfl rfl rfl
  | refuseThreads hat _ => exact h.advance .rollingBack hat (by decide) rfl rfl rfl rfl rfl rfl rfl
  | rollBack hat =>
    exact h.leave hat (by decide) (.inl rfl) rfl rfl rfl (fun _ ↦ rfl) rfl
      (List.append_nil _).symm rfl
  | appendFailed hat =>
    exact h.leave hat (by decide) (.inr rfl) rfl rfl rfl (countP_drop _ _ _) rfl rfl rfl
  | takeSlot hat _ => exact h.advance .slotted hat (by decide) rfl rfl rfl rfl rfl rfl rfl
  | refuseSlot hat _ =>
    exact h.leave hat (by decide) (.inr rfl) rfl rfl rfl (countP_drop _ _ _) rfl rfl rfl
  | insert hat _ => exact h.advance .inserted hat (by decide) rfl rfl rfl rfl rfl rfl rfl
  | collide hat _ => exact h.advance .colliding hat (by decide) rfl rfl rfl rfl rfl rfl rfl
  | giveSlotBack hat =>
    exact h.leave hat (by decide) (.inr rfl) rfl rfl rfl (countP_drop _ _ _) rfl rfl rfl
  | @publish l r a hat =>
    refine h.congr (fun g ↦ ?_) (fun g ↦ ?_) rfl fun g ↦ ?_
    · have hfiled := countP_filed g s a.sessId
      have hbefore : keeps g ⟨a, .inserted⟩ = decide (a.permit.generation = g) := by simp [keeps]
      have hafter : keeps g ⟨a, .published⟩ = false := by simp [keeps]
      rw [held, held, countP_drop, hat]
      dsimp only [drop]
      rw [(counts_starts l r _ g).1, (counts_starts l r _ g).1, hbefore, hafter,
        List.countP_cons, ← hfiled]
      simp only [Bool.false_eq_true, if_false, decide_eq_true_eq]
      omega
    · rw [tasks, tasks, hat]
      dsimp only [drop]
      rw [(counts_starts l r _ g).2, (counts_starts l r _ g).2]
    · rw [countP_drop]
      dsimp only [drop]
      rw [List.countP_append]
      omega
  | @supervise l r a hat =>
    refine h.congr (fun g ↦ ?_) (fun g ↦ ?_) rfl fun g ↦ Nat.le_refl _
    · have hbefore : keeps g ⟨a, .published⟩ = false := by simp [keeps]
      rw [held, held, hat, (counts_starts l r _ g).1, hbefore, if_neg Bool.false_ne_true]
      exact Nat.le_refl _
    · simp only [tasks, hat, List.countP_append, List.countP_cons, List.countP_nil,
        decide_eq_true_eq]
      omega
  | spawn hat => exact h.supervisor hat _ _
  | started hat => exact h.supervisor hat _ _
  | exit hat => exact h.supervisor hat _ _
  | abandon hat _ => exact h.supervisor hat _ _
  | @stop l r a phase hat _ =>
    refine h.congr (fun g ↦ ?_) (fun g ↦ ?_) rfl fun g ↦ ?_
    · have hfiled := countP_filed g s a.sessId
      rw [held, held, countP_drop, ← hfiled]
      dsimp only [drop]
      omega
    · simp only [tasks, drop, hat, List.countP_append, List.countP_cons]
      exact Nat.le_refl _
    · rw [countP_drop]
      dsimp only [drop]
      rw [List.countP_append]
      omega
  | remove hat => exact ⟨h.once, h.alone, h.fresh, h.drops⟩
  | removed _ => exact ⟨h.once, h.alone, h.fresh, h.drops⟩
  | dropBytes hat =>
    refine h.congr (fun _ ↦ Nat.le_refl _) (fun _ ↦ Nat.le_refl _) rfl fun g ↦ ?_
    simp only [hat, List.countP_append, List.countP_cons]
    omega
  | dropThreads hat =>
    refine h.congr (fun _ ↦ Nat.le_refl _) (fun _ ↦ Nat.le_refl _) rfl fun g ↦ ?_
    simp only [hat, List.countP_append, List.countP_cons]
    omega

/-! ### Permits are released by their supervisors -/

/-- What an inserted session keeps: its permit is filed under it while a task works for it, and is
released by its supervisor, without a thread left and none to come. -/
structure Owned (s : Media) : Prop where
  published : ∀ a, ⟨a, .published⟩ ∈ s.starts → s.filed a.sessId = [a.permit]
  active : ∀ v ∈ s.supervisors, v.phase ≠ .finished →
    s.filed v.attempt.sessId = [v.attempt.permit]
  unseen : ∀ t ∈ s.starts, t.phase ≠ .inserted → t.phase ≠ .published →
    t.attempt.generation ∉ s.inserted
  known : ∀ g ∈ s.inserted, g < s.nextGeneration
  owner : ∀ x ∈ s.released, x.permit.generation ∈ s.inserted →
    x.releaser = .supervisor x.permit.generation ∧ x.attached = 0
  idle : ∀ x ∈ s.released, x.permit.generation ∈ s.inserted →
    (∀ v ∈ s.supervisors, v.attempt.generation = x.permit.generation →
      v.attached = 0 ∧ v.phase = .finished) ∧
    ∀ t ∈ s.starts, t.attempt.generation ≠ x.permit.generation

theorem owned_initial : Owned initial where
  published _ hb := absurd hb List.not_mem_nil
  active _ hv := absurd hv List.not_mem_nil
  unseen _ ht := absurd ht List.not_mem_nil
  known _ hg := absurd hg List.not_mem_nil
  owner _ hx := absurd hx List.not_mem_nil
  idle _ hx := absurd hx List.not_mem_nil

theorem attached_eq_zero {g : Nat}
    (h : ∀ v ∈ s.supervisors, v.attempt.generation = g → v.attached = 0) : s.attached g = 0 := by
  apply List.sum_eq_zero
  intro n hn
  obtain ⟨v, hv, rfl⟩ := List.mem_map.mp hn
  obtain ⟨hmem, hgeneration⟩ := List.mem_filter.mp hv
  exact h v hmem (of_decide_eq_true hgeneration)

theorem filed_unfiled {media : List (String × MediaResourcePermit)} {sessId other : String}
    (hmedia : media = s.unfiled sessId) (hne : other ≠ sessId) :
    (media.filter fun x ↦ x.1 = other).map Prod.snd = s.filed other := by
  rw [hmedia, unfiled, filed, List.filter_filter]
  congr 1
  apply List.filter_congr
  intro x _
  by_cases hx : x.1 = other
  · simp [hx, hne]
  · simp [hx]

/-- A task of a generation is the only one. -/
theorem Distinct.ne_of_supervisor (h : Distinct s) {l r : List Supervisor} {v w : Supervisor}
    (hat : s.supervisors = l ++ v :: r) (hw : w ∈ l ∨ w ∈ r) :
    w.attempt.generation ≠ v.attempt.generation := by
  intro hsame
  have halone := h.alone v.attempt.generation
  rw [tasks, hat, List.countP_append, List.countP_cons, if_pos (by simp)] at halone
  rcases hw with hw | hw
  · have : 0 < l.countP fun u ↦ u.attempt.generation = v.attempt.generation :=
      List.countP_pos_iff.mpr ⟨w, hw, decide_eq_true hsame⟩
    omega
  · have : 0 < r.countP fun u ↦ u.attempt.generation = v.attempt.generation :=
      List.countP_pos_iff.mpr ⟨w, hw, decide_eq_true hsame⟩
    omega

theorem Distinct.ne_of_starts (h : Distinct s) {l r : List Start} {t u : Start}
    (hat : s.starts = l ++ t :: r) (hu : u ∈ l ∨ u ∈ r) :
    u.attempt.generation ≠ t.attempt.generation := by
  intro hsame
  have halone := h.alone t.attempt.generation
  rw [tasks, hat, List.countP_append, List.countP_cons, if_pos (by simp)] at halone
  rcases hu with hu | hu
  · have : 0 < l.countP fun w ↦ w.attempt.generation = t.attempt.generation :=
      List.countP_pos_iff.mpr ⟨u, hu, decide_eq_true hsame⟩
    omega
  · have : 0 < r.countP fun w ↦ w.attempt.generation = t.attempt.generation :=
      List.countP_pos_iff.mpr ⟨u, hu, decide_eq_true hsame⟩
    omega

theorem Distinct.lt_next (h : Distinct s) {t : Start} (ht : t ∈ s.starts) :
    t.attempt.generation < s.nextGeneration := by
  apply Nat.lt_of_not_le
  intro hle
  have hnone := (h.fresh t.attempt.generation hle).2
  have : 0 < s.starts.countP fun u ↦ u.attempt.generation = t.attempt.generation :=
    List.countP_pos_iff.mpr ⟨t, ht, decide_eq_true rfl⟩
  rw [tasks] at hnone
  omega

theorem Distinct.ne_of_start (h : Distinct s) {v : Supervisor} {t : Start}
    (hv : v ∈ s.supervisors) (ht : t ∈ s.starts) : t.attempt.generation ≠ v.attempt.generation := by
  intro hsame
  have halone := h.alone v.attempt.generation
  have hstart : 0 < s.starts.countP fun u ↦ u.attempt.generation = v.attempt.generation :=
    List.countP_pos_iff.mpr ⟨t, ht, decide_eq_true hsame⟩
  have hsupervisor : 0 < s.supervisors.countP fun u ↦ u.attempt.generation = v.attempt.generation :=
    List.countP_pos_iff.mpr ⟨v, hv, decide_eq_true rfl⟩
  rw [tasks] at halone
  omega

/-- A start that has its permit has not released it. -/
theorem Distinct.not_released (h : Distinct s) {t : Start} (ht : t ∈ s.starts)
    (hphase : t.phase ≠ .published) {x : Release} (hx : x ∈ s.released) :
    x.permit.generation ≠ t.attempt.generation := by
  intro hsame
  have honce := h.once t.attempt.generation
  have hkeeps : keeps t.attempt.generation t = true := decide_eq_true ⟨rfl, hphase⟩
  have hstart : 0 < s.starts.countP (keeps t.attempt.generation) :=
    List.countP_pos_iff.mpr ⟨t, ht, hkeeps⟩
  have hreleased : 0 < s.released.countP fun x ↦ x.permit.generation = t.attempt.generation :=
    List.countP_pos_iff.mpr ⟨x, hx, decide_eq_true hsame⟩
  rw [held] at honce
  omega

theorem mem_drop_one (s : Media) (releaser : Releaser) (p : MediaResourcePermit) :
    ∀ x ∈ (drop s releaser [p]).released, x ∈ s.released ∨ x.permit = p := by
  intro x hx
  rcases List.mem_append.mp hx with hx | hx
  · exact .inl hx
  · rw [List.map_singleton, List.mem_singleton] at hx
    exact .inr (congrArg Release.permit hx)

/-- A start goes on before its session is inserted. -/
theorem Owned.advance (h : Owned s) {l r : List Start} {a : Attempt} {phase : StartPhase}
    (phase' : StartPhase) (hat : s.starts = l ++ ⟨a, phase⟩ :: r)
    (hphase : phase ≠ .inserted ∧ phase ≠ .published) (hphase' : phase' ≠ .published)
    (hstarts : s'.starts = l ++ ⟨a, phase'⟩ :: r)
    (hmedia : s'.mediaReservations = s.mediaReservations)
    (hsupervisors : s'.supervisors = s.supervisors) (hreleased : s'.released = s.released)
    (hinserted : s'.inserted = s.inserted) (hnext : s'.nextGeneration = s.nextGeneration) :
    Owned s' := by
  have hfiled (sessId : String) : s'.filed sessId = s.filed sessId := by rw [filed, filed, hmedia]
  have hmem : ⟨a, phase⟩ ∈ s.starts := mem_focus hat
  have hold {t : Start} (ht : t ∈ s'.starts) : t = ⟨a, phase'⟩ ∨ t ∈ s.starts := by
    rw [hstarts] at ht
    exact mem_replace hat ht
  refine ⟨fun b hb ↦ ?_, fun v hv hactive ↦ ?_, fun t ht hne hne' ↦ ?_, ?_, ?_, ?_⟩
  · rw [hfiled]
    rcases hold hb with heq | hb
    · cases heq
      exact absurd rfl hphase'
    · exact h.published b hb
  · rw [hfiled]
    exact h.active v (by rw [← hsupervisors]; exact hv) hactive
  · rw [hinserted]
    rcases hold ht with rfl | ht
    · exact h.unseen ⟨a, phase⟩ hmem hphase.1 hphase.2
    · exact h.unseen t ht hne hne'
  · rw [hinserted, hnext]
    exact h.known
  · rw [hreleased, hinserted]
    exact h.owner
  · intro x hx hin
    rw [hreleased] at hx
    rw [hinserted] at hin
    obtain ⟨hthreads, hnone⟩ := h.idle x hx hin
    refine ⟨by rw [hsupervisors]; exact hthreads, fun t ht ↦ ?_⟩
    rcases hold ht with rfl | ht
    · exact hnone ⟨a, phase⟩ hmem
    · exact hnone t ht

/-- A start whose session is not inserted ends. -/
theorem Owned.leave (h : Owned s) {l r : List Start} {a : Attempt} {phase : StartPhase}
    (hat : s.starts = l ++ ⟨a, phase⟩ :: r) (hphase : phase ≠ .inserted ∧ phase ≠ .published)
    (hstarts : s'.starts = l ++ r) (hmedia : s'.mediaReservations = s.mediaReservations)
    (hsupervisors : s'.supervisors = s.supervisors)
    (hreleased : ∀ x ∈ s'.released, x ∈ s.released ∨ x.permit = a.permit)
    (hinserted : s'.inserted = s.inserted) (hnext : s'.nextGeneration = s.nextGeneration) :
    Owned s' := by
  have hfiled (sessId : String) : s'.filed sessId = s.filed sessId := by rw [filed, filed, hmedia]
  have hold {t : Start} (ht : t ∈ s'.starts) : t ∈ s.starts := by
    rw [hstarts] at ht
    exact mem_remove hat ht
  have hunseen : a.permit.generation ∉ s.inserted :=
    h.unseen ⟨a, phase⟩ (mem_focus hat) hphase.1 hphase.2
  have hrelease {x : Release} (hx : x ∈ s'.released) (hin : x.permit.generation ∈ s'.inserted) :
      x ∈ s.released ∧ x.permit.generation ∈ s.inserted := by
    rw [hinserted] at hin
    rcases hreleased x hx with hx | hown
    · exact ⟨hx, hin⟩
    · rw [hown] at hin
      exact absurd hin hunseen
  refine ⟨fun b hb ↦ ?_, fun v hv hactive ↦ ?_, fun t ht hne hne' ↦ ?_, ?_, ?_, ?_⟩
  · rw [hfiled]
    exact h.published b (hold hb)
  · rw [hfiled]
    exact h.active v (by rw [← hsupervisors]; exact hv) hactive
  · rw [hinserted]
    exact h.unseen t (hold ht) hne hne'
  · rw [hinserted, hnext]
    exact h.known
  · intro x hx hin
    obtain ⟨hx, hin⟩ := hrelease hx hin
    exact h.owner x hx hin
  · intro x hx hin
    obtain ⟨hx, hin⟩ := hrelease hx hin
    obtain ⟨hthreads, hnone⟩ := h.idle x hx hin
    exact ⟨by rw [hsupervisors]; exact hthreads, fun t ht ↦ hnone t (hold ht)⟩

/-- A supervisor that is not done goes on. -/
theorem Owned.supervisor (h : Owned s) {l r : List Supervisor} {a : Attempt} {n : Nat}
    {phase : SupervisorPhase} (hat : s.supervisors = l ++ ⟨a, n, phase⟩ :: r) (n' : Nat)
    (phase' : SupervisorPhase) (hdone : ¬ (n = 0 ∧ phase = .finished))
    (hactive : phase' ≠ .finished → phase ≠ .finished) :
    Owned { s with supervisors := l ++ ⟨a, n', phase'⟩ :: r } := by
  have hmem : ⟨a, n, phase⟩ ∈ s.supervisors := mem_focus hat
  have hold {v : Supervisor} (hv : v ∈ l ++ ⟨a, n', phase'⟩ :: r) :
      v = ⟨a, n', phase'⟩ ∨ v ∈ s.supervisors := by
    exact mem_replace hat hv
  refine ⟨h.published, fun v hv hne ↦ ?_, h.unseen, h.known, h.owner, fun x hx hin ↦ ?_⟩
  · rcases hold hv with rfl | hv
    · exact h.active ⟨a, n, phase⟩ hmem (hactive hne)
    · exact h.active v hv hne
  · obtain ⟨hthreads, hnone⟩ := h.idle x hx hin
    refine ⟨fun v hv hgeneration ↦ ?_, hnone⟩
    rcases hold hv with rfl | hv
    · exact absurd (hthreads ⟨a, n, phase⟩ hmem hgeneration) hdone
    · exact hthreads v hv hgeneration

theorem Owned.begin (h : Owned s) (a : Attempt) (ha : a.generation = s.nextGeneration) :
    Owned { s with
      starts := s.starts ++ [⟨a, .reserving⟩]
      nextGeneration := s.nextGeneration + 1 } := by
  have hold {t : Start} (ht : t ∈ s.starts ++ [⟨a, .reserving⟩]) :
      t ∈ s.starts ∨ t = ⟨a, .reserving⟩ := by
    simpa only [List.mem_append, List.mem_singleton] using ht
  refine ⟨fun b hb ↦ ?_, h.active, fun t ht hne hne' ↦ ?_, fun g hg ↦ ?_, h.owner, fun x hx hin ↦ ?_⟩
  · rcases hold hb with hb | heq
    · exact h.published b hb
    · cases heq
  · rcases hold ht with ht | rfl
    · exact h.unseen t ht hne hne'
    · intro hin
      exact Nat.lt_irrefl _ (ha ▸ h.known a.generation hin)
  · exact Nat.lt_succ_of_lt (h.known g hg)
  · obtain ⟨hthreads, hnone⟩ := h.idle x hx hin
    refine ⟨hthreads, fun t ht ↦ ?_⟩
    rcases hold ht with ht | rfl
    · exact hnone t ht
    · have := h.known _ hin
      dsimp only
      omega

theorem Owned.insert (h : Owned s) (hd : Distinct s) {l r : List Start} {a : Attempt}
    (hat : s.starts = l ++ ⟨a, .slotted⟩ :: r) :
    Owned { s with
      sessions := (a.sessId, a.runId) :: s.sessions
      starts := l ++ ⟨a, .inserted⟩ :: r
      inserted := a.generation :: s.inserted } := by
  have hmem : ⟨a, .slotted⟩ ∈ s.starts := mem_focus hat
  have hold {t : Start} (ht : t ∈ l ++ ⟨a, .inserted⟩ :: r) :
      t = ⟨a, .inserted⟩ ∨ t ∈ l ∨ t ∈ r := by
    simp only [List.mem_append, List.mem_cons] at ht
    tauto
  have hother {t : Start} (ht : t ∈ l ∨ t ∈ r) : t ∈ s.starts := by
    rw [hat]
    simp only [List.mem_append, List.mem_cons]
    tauto
  have hin' {x : Release} (hx : x ∈ s.released) (hin : x.permit.generation ∈ a.generation :: s.inserted) :
      x.permit.generation ∈ s.inserted :=
    (List.mem_cons.mp hin).resolve_left (hd.not_released hmem (by simp) hx)
  refine ⟨fun b hb ↦ ?_, h.active, fun t ht hne hne' ↦ ?_, fun g hg ↦ ?_,
    fun x hx hin ↦ h.owner x hx (hin' hx hin), fun x hx hin ↦ ?_⟩
  · rcases hold hb with heq | hb
    · cases heq
    · exact h.published b (hother hb)
  · rcases hold ht with rfl | ht
    · exact absurd rfl hne
    · intro hin
      rcases List.mem_cons.mp hin with hsame | hin
      · exact hd.ne_of_starts hat ht hsame
      · exact h.unseen t (hother ht) hne hne' hin
  · rcases List.mem_cons.mp hg with rfl | hg
    · exact hd.lt_next hmem
    · exact h.known g hg
  · obtain ⟨hthreads, hnone⟩ := h.idle x hx (hin' hx hin)
    refine ⟨hthreads, fun t ht ↦ ?_⟩
    rcases hold ht with rfl | ht
    · exact hnone ⟨a, .slotted⟩ hmem
    · exact hnone t (hother ht)

/-- Nothing is filed under the session yet, so nothing is dropped. -/
theorem Owned.publish (h : Owned s) {l r : List Start} {a : Attempt}
    (hat : s.starts = l ++ ⟨a, .inserted⟩ :: r) (hnone : s.filed a.sessId = []) :
    Owned { s with
      mediaReservations := (a.sessId, a.permit) :: s.unfiled a.sessId
      starts := l ++ ⟨a, .published⟩ :: r } := by
  have hmem : ⟨a, .inserted⟩ ∈ s.starts := mem_focus hat
  have hold {t : Start} (ht : t ∈ l ++ ⟨a, .published⟩ :: r) :
      t = ⟨a, .published⟩ ∨ t ∈ s.starts := by
    exact mem_replace hat ht
  -- A session that has a permit is another one, and keeps it.
  have hother {sessId : String} {p : MediaResourcePermit} (hfiled : s.filed sessId = [p]) :
      (((a.sessId, a.permit) :: s.unfiled a.sessId).filter fun x ↦ x.1 = sessId).map Prod.snd =
        [p] := by
    have hne : sessId ≠ a.sessId := by
      rintro rfl
      rw [hnone] at hfiled
      cases hfiled
    rw [List.filter_cons_of_neg (by simpa using hne.symm), filed_unfiled rfl hne, hfiled]
  refine ⟨fun b hb ↦ ?_, fun v hv hactive ↦ hother (h.active v hv hactive), fun t ht hne hne' ↦ ?_,
    h.known, h.owner, fun x hx hin ↦ ?_⟩
  · rcases hold hb with heq | hb
    · cases heq
      have hrest : (s.unfiled a.sessId).filter (fun x ↦ x.1 = a.sessId) = [] := by
        simp [unfiled, List.filter_filter]
      simp [filed, hrest]
    · exact hother (h.published b hb)
  · rcases hold ht with rfl | ht
    · exact absurd rfl hne'
    · exact h.unseen t ht hne hne'
  · obtain ⟨hthreads, hgone⟩ := h.idle x hx hin
    refine ⟨hthreads, fun t ht ↦ ?_⟩
    rcases hold ht with rfl | ht
    · exact hgone ⟨a, .inserted⟩ hmem
    · exact hgone t ht

theorem Owned.supervise (h : Owned s) {l r : List Start} {a : Attempt}
    (hat : s.starts = l ++ ⟨a, .published⟩ :: r) :
    Owned { s with
      starts := l ++ r
      supervisors := s.supervisors ++ [⟨a, 0, .starting⟩] } := by
  have hmem : ⟨a, .published⟩ ∈ s.starts := mem_focus hat
  have hold {t : Start} (ht : t ∈ l ++ r) : t ∈ s.starts := mem_remove hat ht
  have hsupervisor {v : Supervisor} (hv : v ∈ s.supervisors ++ [⟨a, 0, .starting⟩]) :
      v ∈ s.supervisors ∨ v = ⟨a, 0, .starting⟩ := by
    simpa only [List.mem_append, List.mem_singleton] using hv
  refine ⟨fun b hb ↦ h.published b (hold hb), fun v hv hactive ↦ ?_,
    fun t ht ↦ h.unseen t (hold ht), h.known, h.owner, fun x hx hin ↦ ?_⟩
  · rcases hsupervisor hv with hv | rfl
    · exact h.active v hv hactive
    · exact h.published a hmem
  · obtain ⟨hthreads, hnone⟩ := h.idle x hx hin
    refine ⟨fun v hv hgeneration ↦ ?_, fun t ht ↦ hnone t (hold ht)⟩
    rcases hsupervisor hv with hv | rfl
    · exact hthreads v hv hgeneration
    · exact absurd hgeneration (hnone ⟨a, .published⟩ hmem)

/-- The supervisor finds the permit of its own generation. -/
theorem Owned.stop (h : Owned s) (hd : Distinct s) {l r : List Supervisor} {a : Attempt}
    {phase : SupervisorPhase} (hat : s.supervisors = l ++ ⟨a, 0, phase⟩ :: r)
    (hactive : phase ≠ .finished) :
    Owned (drop { s with
      mediaReservations := s.unfiled a.sessId
      supervisors := l ++ ⟨a, 0, .finished⟩ :: r } (.supervisor a.generation)
        (s.filed a.sessId)) := by
  have hmem : ⟨a, 0, phase⟩ ∈ s.supervisors := mem_focus hat
  have hown : s.filed a.sessId = [a.permit] := h.active ⟨a, 0, phase⟩ hmem hactive
  have hold {v : Supervisor} (hv : v ∈ l ++ ⟨a, 0, .finished⟩ :: r) :
      v = ⟨a, 0, .finished⟩ ∨ v ∈ l ∨ v ∈ r := by
    simp only [List.mem_append, List.mem_cons] at hv
    tauto
  have hother {v : Supervisor} (hv : v ∈ l ∨ v ∈ r) : v ∈ s.supervisors := by
    rw [hat]
    simp only [List.mem_append, List.mem_cons]
    tauto
  -- A session with the same id would have the same permit.
  have hfiled {b : Attempt} (hb : s.filed b.sessId = [b.permit]) (hne : b.generation ≠ a.generation) :
      ((s.unfiled a.sessId).filter fun x ↦ x.1 = b.sessId).map Prod.snd = [b.permit] := by
    rw [filed_unfiled rfl _, hb]
    intro hsame
    rw [hsame, hown] at hb
    exact hne (congrArg MediaResourcePermit.generation (List.head_eq_of_cons_eq hb)).symm
  have hidle {v : Supervisor} (hv : v ∈ l ++ ⟨a, 0, .finished⟩ :: r)
      (hsame : v.attempt.generation = a.generation) : v.attached = 0 ∧ v.phase = .finished := by
    rcases hold hv with rfl | hv
    · exact ⟨rfl, rfl⟩
    · exact absurd hsame (hd.ne_of_supervisor hat hv)
  have hreleased {x : Release} (hx : x ∈ (drop { s with
      mediaReservations := s.unfiled a.sessId
      supervisors := l ++ ⟨a, 0, .finished⟩ :: r } (.supervisor a.generation)
        (s.filed a.sessId)).released) :
      x ∈ s.released ∨ x = ⟨a.permit, .supervisor a.generation, 0⟩ := by
    have hzero : attached { s with
        mediaReservations := s.unfiled a.sessId
        supervisors := l ++ ⟨a, 0, .finished⟩ :: r } a.generation = 0 :=
      attached_eq_zero fun v hv hsame ↦ (hidle hv hsame).1
    rw [hown] at hx
    simpa [drop, hzero] using hx
  refine ⟨fun b hb ↦ hfiled (h.published b hb) (hd.ne_of_start hmem hb), fun v hv hne ↦ ?_,
    h.unseen, h.known, fun x hx hin ↦ ?_, fun x hx hin ↦ ?_⟩
  · rcases hold hv with rfl | hv
    · exact absurd rfl hne
    · exact hfiled (h.active v (hother hv) hne) (hd.ne_of_supervisor hat hv)
  · rcases hreleased hx with hx | rfl
    · exact h.owner x hx hin
    · exact ⟨rfl, rfl⟩
  · rcases hreleased hx with hx | rfl
    · obtain ⟨hthreads, hnone⟩ := h.idle x hx hin
      refine ⟨fun v hv hgeneration ↦ ?_, hnone⟩
      rcases hold hv with rfl | hv
      · exact ⟨rfl, rfl⟩
      · exact hthreads v (hother hv) hgeneration
    · exact ⟨fun v hv hsame ↦ hidle hv hsame, fun t ht ↦ hd.ne_of_start hmem ht⟩

/-- Every operation that files no second permit under a session keeps the owners. -/
theorem Owned.step (h : Owned s) (hd : Distinct s) (hstep : Step limits s label s')
    (hfresh : Fresh s label) : Owned s' := by
  cases hstep with
  | begin sessId runId resources =>
    exact h.begin ⟨sessId, runId, ⟨s.nextGeneration, resources⟩⟩ rfl
  | reserveBytes hat _ => exact h.advance .bytesReserved hat (by decide) (by decide) rfl rfl rfl rfl rfl rfl
  | refuseBytes hat _ => exact h.leave hat (by decide) rfl rfl rfl (fun _ hx ↦ .inl hx) rfl rfl
  | reserveThreads hat _ => exact h.advance .holding hat (by decide) (by decide) rfl rfl rfl rfl rfl rfl
  | refuseThreads hat _ =>
    exact h.advance .rollingBack hat (by decide) (by decide) rfl rfl rfl rfl rfl rfl
  | rollBack hat => exact h.leave hat (by decide) rfl rfl rfl (fun _ hx ↦ .inl hx) rfl rfl
  | appendFailed hat => exact h.leave hat (by decide) rfl rfl rfl (mem_drop_one _ _ _) rfl rfl
  | takeSlot hat _ => exact h.advance .slotted hat (by decide) (by decide) rfl rfl rfl rfl rfl rfl
  | refuseSlot hat _ => exact h.leave hat (by decide) rfl rfl rfl (mem_drop_one _ _ _) rfl rfl
  | insert hat _ => exact h.insert hd hat
  | collide hat _ => exact h.advance .colliding hat (by decide) (by decide) rfl rfl rfl rfl rfl rfl
  | giveSlotBack hat => exact h.leave hat (by decide) rfl rfl rfl (mem_drop_one _ _ _) rfl rfl
  | @publish l r a hat =>
    have hnone : s.filed a.sessId = [] := by
      rw [filed, List.filter_eq_nil_iff.mpr]
      · rfl
      · intro x hx
        simpa using hfresh a.sessId rfl x hx
    have := h.publish hat hnone
    simpa only [drop, hnone, List.append_nil, List.map_nil] using this
  | supervise hat => exact h.supervise hat
  | spawn hat => exact h.supervisor hat _ _ (by simp) (fun _ ↦ by decide)
  | started hat => exact h.supervisor hat _ _ (by simp) (fun _ ↦ by decide)
  | exit hat => exact h.supervisor hat _ _ (by simp) (fun hne ↦ hne)
  | abandon hat hactive => exact h.supervisor hat _ _ (fun hdone ↦ hactive hdone.2) (fun _ ↦ hactive)
  | stop hat hactive => exact h.stop hd hat hactive
  | remove _ => exact ⟨h.published, h.active, h.unseen, h.known, h.owner, h.idle⟩
  | removed _ => exact ⟨h.published, h.active, h.unseen, h.known, h.owner, h.idle⟩
  | dropBytes _ => exact ⟨h.published, h.active, h.unseen, h.known, h.owner, h.idle⟩
  | dropThreads _ => exact ⟨h.published, h.active, h.unseen, h.known, h.owner, h.idle⟩

end Media

end Vidarax.Whip
