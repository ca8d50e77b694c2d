import Mathlib.Algebra.Ring.Int.Defs
import Vidarax.Ingest.SelectExpr

/-!
# Select expressions are exact

Package `vidarax-core`, `crates/vidarax-core/src/ingest/ffmpeg.rs:957–1084`. The expression is not
zero exactly at the numbers it was built for, and no arithmetic on words fails while it is built.
-/

namespace Vidarax.Ingest

open SelectExpr

/-! ### Normal form -/

theorem pairwise_mergeSort_le (indices : List Nat) :
    (indices.mergeSort fun a b ↦ a ≤ b).Pairwise (· ≤ ·) := by
  have hsorted := @List.pairwise_mergeSort Nat (fun a b ↦ decide (a ≤ b))
    (by simpa using fun a b c (hab : a ≤ b) hbc ↦ Nat.le_trans hab hbc)
    (by simpa using Nat.le_total) indices
  exact hsorted.imp of_decide_eq_true

theorem mem_normalize {indices : List Nat} {idx : Nat} :
    idx ∈ normalize indices ↔ idx ∈ indices := by
  unfold normalize
  split
  · rfl
  · rw [(pairwise_mergeSort_le indices).destutter_eq_dedup, List.mem_dedup, List.mem_mergeSort]

theorem pairwise_normalize (indices : List Nat) : (normalize indices).Pairwise (· < ·) := by
  unfold normalize
  split
  · next hchain => exact hchain.pairwise
  · have hle := (pairwise_mergeSort_le indices).sublist (List.dedup_sublist _)
    rw [(pairwise_mergeSort_le indices).destutter_eq_dedup]
    exact (hle.and (List.nodup_dedup _)).imp fun h ↦ Nat.lt_of_le_of_ne h.1 h.2

theorem length_normalize_le (indices : List Nat) : (normalize indices).length ≤ indices.length := by
  unfold normalize
  split
  · exact Nat.le_refl _
  · exact (List.destutter_sublist _ _).length_le.trans (List.length_mergeSort _).le

/-! ### Runs -/

theorem exists_mem_concat {α : Type} {xs : List α} {y : α} {p : α → Prop} :
    (∃ x ∈ xs ++ [y], p x) ↔ (∃ x ∈ xs, p x) ∨ p y := by
  simp only [List.mem_append, List.mem_singleton, or_and_right, exists_or, exists_eq_left]

/-- Runs of consecutive numbers with gaps between them. -/
structure RunsOf (runs : List (Nat × Nat)) (indices : List Nat) : Prop where
  mem : ∀ idx, idx ∈ indices ↔ ∃ run ∈ runs, run.1 ≤ idx ∧ idx ≤ run.2
  valid : ∀ run ∈ runs, run.1 ≤ run.2
  apart : runs.Pairwise fun a b ↦ a.2 + 1 < b.1

variable {limit : Nat}

theorem checkedAdd_eq {a b : Nat} (h : a + b < limit) : checkedAdd limit a b = .ok (a + b) :=
  if_pos h

theorem checkedSub_eq {a b : Nat} (h : b ≤ a) : checkedSub a b = .ok (a - b) :=
  if_pos h

theorem RunsOf.extend {runs : List (Nat × Nat)} {indices : List Nat} {idx : Nat}
    (h : RunsOf runs indices) (hlast : ∀ i ∈ indices, i < idx) (hidx : idx < limit) :
    ∃ runs', extendRuns limit runs idx = .ok runs' ∧ RunsOf runs' (indices ++ [idx]) := by
  unfold extendRuns
  rcases List.eq_nil_or_concat runs with rfl | ⟨front, ⟨lo, hi⟩, rfl⟩
  · refine ⟨[(idx, idx)], rfl, fun i ↦ ?_, ?_, List.pairwise_singleton _ _⟩
    · have hnone : i ∉ indices := fun hi ↦ by simpa using (h.mem i).mp hi
      simp only [List.mem_append, List.mem_singleton, hnone, false_or, exists_eq_left]
      omega
    · intro run hrun
      rw [List.mem_singleton.mp hrun]
  · rw [List.concat_eq_append] at h ⊢
    rw [List.getLast?_concat]
    have hmem : (lo, hi) ∈ front ++ [(lo, hi)] :=
      List.mem_append_right _ (List.mem_singleton_self _)
    have hlohi := h.valid _ hmem
    have hhi : hi < idx := hlast hi ((h.mem hi).mpr ⟨_, hmem, hlohi, Nat.le_refl hi⟩)
    have happart := List.pairwise_append.mp h.apart
    dsimp only
    rw [checkedAdd_eq (by omega)]
    dsimp only [bind, Except.bind]
    split
    · next hnext =>
      rw [List.dropLast_concat]
      refine ⟨_, rfl, fun i ↦ ?_, fun run hrun ↦ ?_, ?_⟩
      · rw [List.mem_append, List.mem_singleton, h.mem, exists_mem_concat, exists_mem_concat,
          or_assoc]
        apply or_congr Iff.rfl
        dsimp only
        omega
      · rcases List.mem_append.mp hrun with hfront | hsame
        · exact h.valid run (List.mem_append_left _ hfront)
        · rw [List.mem_singleton.mp hsame]
          dsimp only
          omega
      · apply List.pairwise_append.mpr
        refine ⟨happart.1, List.pairwise_singleton _ _, fun a ha b hb ↦ ?_⟩
        rw [List.mem_singleton.mp hb]
        exact happart.2.2 a ha (lo, hi) (List.mem_singleton_self _)
    · next hnext =>
      refine ⟨_, rfl, fun i ↦ ?_, fun run hrun ↦ ?_, ?_⟩
      · rw [List.mem_append, List.mem_singleton, h.mem, exists_mem_concat (y := (idx, idx))]
        apply or_congr Iff.rfl
        dsimp only
        omega
      · rcases List.mem_append.mp hrun with hold | hsame
        · exact h.valid run hold
        · rw [List.mem_singleton.mp hsame]
      · apply List.pairwise_append.mpr
        refine ⟨h.apart, List.pairwise_singleton _ _, fun a ha b hb ↦ ?_⟩
        rw [List.mem_singleton.mp hb]
        dsimp only
        rcases List.mem_append.mp ha with hfront | hsame
        · have hgap := happart.2.2 a hfront (lo, hi) (List.mem_singleton_self _)
          dsimp only at hgap
          omega
        · rw [List.mem_singleton.mp hsame]
          dsimp only
          omega

theorem coalesce_eq {indices : List Nat} (hsorted : indices.Pairwise (· < ·))
    (hlimit : ∀ i ∈ indices, i < limit) :
    ∃ runs, coalesce limit indices = .ok runs ∧ RunsOf runs indices := by
  unfold coalesce
  induction indices using List.reverseRecOn with
  | nil => exact ⟨[], rfl, by simp, by simp, List.Pairwise.nil⟩
  | append_singleton indices idx ih =>
    have hparts := List.pairwise_append.mp hsorted
    obtain ⟨runs, hruns, hof⟩ := ih hparts.1 fun i hi ↦ hlimit i (List.mem_append_left _ hi)
    have hlast : ∀ i ∈ indices, i < idx := fun i hi ↦
      hparts.2.2 i hi idx (List.mem_singleton_self idx)
    rw [List.foldlM_append, hruns]
    obtain ⟨runs', hruns', hof'⟩ := hof.extend hlast (hlimit idx (by simp))
    refine ⟨runs', ?_, hof'⟩
    calc List.foldlM (extendRuns limit) runs [idx] = extendRuns limit runs idx := by
          rw [List.foldlM_cons]
          cases extendRuns limit runs idx <;> rfl
      _ = .ok runs' := hruns'

/-- A run is no longer than the list. -/
theorem RunsOf.width_le {runs : List (Nat × Nat)} {indices : List Nat} (h : RunsOf runs indices)
    {run : Nat × Nat} (hrun : run ∈ runs) : run.2 - run.1 + 1 ≤ indices.length := by
  have hsub : List.range' run.1 (run.2 - run.1 + 1) ⊆ indices := by
    intro idx hidx
    have hvalid := h.valid run hrun
    rw [List.mem_range'_1] at hidx
    exact (h.mem idx).mpr ⟨run, hrun, by omega, by omega⟩
  have hle := (List.subperm_of_subset List.nodup_range' hsub).length_le
  rwa [List.length_range'] at hle

/-! ### Blocks -/

/-- Runs that fit in words, with gaps between them. -/
structure Separated (limit : Nat) (runs : List (Nat × Nat)) : Prop where
  valid : ∀ run ∈ runs, run.1 ≤ run.2
  apart : runs.Pairwise fun a b ↦ a.2 + 1 < b.1
  width : ∀ run ∈ runs, run.2 - run.1 + 1 < limit

theorem Separated.tail {run : Nat × Nat} {rest : List (Nat × Nat)}
    (h : Separated limit (run :: rest)) : Separated limit rest :=
  ⟨fun other hother ↦ h.valid other (List.mem_cons_of_mem _ hother),
    (List.pairwise_cons.mp h.apart).2,
    fun other hother ↦ h.width other (List.mem_cons_of_mem _ hother)⟩

theorem Separated.drop {runs : List (Nat × Nat)} (h : Separated limit runs) (m : Nat) :
    Separated limit (runs.drop m) :=
  ⟨fun run hrun ↦ h.valid run (List.mem_of_mem_drop hrun),
    h.apart.sublist (List.drop_sublist m runs),
    fun run hrun ↦ h.width run (List.mem_of_mem_drop hrun)⟩

/-- The runs of a block are those that its stride and its length make. -/
theorem blockLength_eq {s l lo : Nat} {rest : List (Nat × Nat)} (h : Separated limit rest)
    (hlo : ∀ run ∈ rest, lo ≤ run.1) :
    ∃ m ≤ rest.length, blockLength limit s l lo rest = .ok m ∧
      ∀ k < m, rest[k]? = some (lo + (k + 1) * s, lo + (k + 1) * s + l - 1) := by
  induction rest generalizing lo with
  | nil => exact ⟨0, Nat.le_refl 0, rfl, nofun⟩
  | cons run rest ih =>
    obtain ⟨lo', hi'⟩ := run
    have hvalid : lo' ≤ hi' := h.valid _ List.mem_cons_self
    have hwidth : hi' - lo' + 1 < limit := h.width _ List.mem_cons_self
    have hfirst : lo ≤ lo' := hlo _ List.mem_cons_self
    have hnext : ∀ run ∈ rest, lo' ≤ run.1 := by
      intro run hrun
      have hgap := (List.pairwise_cons.mp h.apart).1 run hrun
      dsimp only at hgap
      omega
    rw [blockLength, checkedSub_eq hfirst]
    dsimp only [bind, Except.bind]
    by_cases hgap : lo' - lo = s
    · rw [if_pos hgap, checkedSub_eq hvalid]
      dsimp only
      rw [checkedAdd_eq hwidth]
      dsimp only
      by_cases hlength : hi' - lo' + 1 = l
      · obtain ⟨m, hm, hblock, hruns⟩ := ih h.tail hnext
        rw [if_pos hlength, hblock]
        refine ⟨m + 1, Nat.succ_le_succ hm, rfl, fun k hk ↦ ?_⟩
        cases k with
        | zero =>
          rw [List.getElem?_cons_zero, Option.some_inj]
          ext <;> dsimp only <;> omega
        | succ k =>
          rw [List.getElem?_cons_succ, hruns k (by omega), Nat.succ_mul (k + 1)]
          rw [Option.some_inj]
          ext <;> dsimp only <;> omega
      · rw [if_neg hlength]
        exact ⟨0, Nat.zero_le _, rfl, nofun⟩
    · rw [if_neg hgap]
      exact ⟨0, Nat.zero_le _, rfl, nofun⟩

/-- The numbers of a block, and those of its runs. -/
theorem block_iff {first s l m : Nat} (hl : 0 < l) (hs : l ≤ s) (frame : Nat) :
    (first ≤ frame ∧ frame ≤ first + m * s + l - 1 ∧ (frame - first) % s < l) ↔
      ∃ k ≤ m, first + k * s ≤ frame ∧ frame ≤ first + k * s + l - 1 := by
  constructor
  · rintro ⟨hfirst, hlast, hmod⟩
    have hsplit := Nat.div_add_mod (frame - first) s
    rw [Nat.mul_comm] at hsplit
    refine ⟨(frame - first) / s, ?_, by omega, by omega⟩
    apply Nat.le_of_lt_succ
    apply (Nat.div_lt_iff_lt_mul (by omega)).mpr
    rw [Nat.succ_mul]
    omega
  · rintro ⟨k, hk, hlow, hhigh⟩
    have hmul := Nat.mul_le_mul_right s hk
    refine ⟨by omega, by omega, ?_⟩
    have hrest : frame - first = frame - first - k * s + s * k := by
      rw [Nat.mul_comm s k]
      omega
    rw [hrest, Nat.add_mul_mod_self_left, Nat.mod_eq_of_lt (by omega)]
    omega

theorem eval_runTerm (lo hi frame : Nat) :
    (runTerm lo hi).eval frame = if lo ≤ frame ∧ frame ≤ hi then 1 else 0 := by
  unfold runTerm
  split
  · next hsame =>
    simp only [eval, Int.natCast_inj]
    congr 1
    exact propext (by omega)
  · simp only [eval, Int.ofNat_le]

theorem eval_blockTerm (first last s l frame : Nat) :
    (blockTerm first last s l).eval frame =
      if first ≤ frame ∧ frame ≤ last ∧ (frame - first) % s < l then 1 else 0 := by
  have hmodarg : first ≤ frame →
      (mod (if first = 0 then n else sub n (num first)) (num s)).eval frame =
        ((frame - first) % s : Nat) := by
    intro hfirst
    have harg : (if first = 0 then n else sub n (num first)).eval frame =
        ((frame - first : Nat) : Int) := by
      split
      · next hzero => rw [hzero, Nat.sub_zero]; rfl
      · rw [Int.ofNat_sub hfirst]; rfl
    rw [eval, harg, eval, Int.natCast_emod, Int.fmod_eq_emod_of_nonneg _ (Int.natCast_nonneg s)]
  unfold blockTerm
  dsimp only
  by_cases hrange : first ≤ frame ∧ frame ≤ last
  · have hbetween : (between n (num first) (num last)).eval frame = 1 := by
      simp only [eval, Int.ofNat_le, hrange, and_self, if_true]
    split
    · next hone =>
      rw [eval, hbetween, eval, hmodarg hrange.1, Int.one_mul, hone]
      simp only [eval, hrange.1, hrange.2, true_and, Nat.lt_one_iff, Int.natCast_inj]
    · rw [eval, hbetween, eval, hmodarg hrange.1, Int.one_mul]
      simp only [eval, hrange.1, hrange.2, true_and, Int.ofNat_lt]
  · have hbetween : (between n (num first) (num last)).eval frame = 0 := by
      simp only [eval, Int.ofNat_le, hrange, if_false]
    have hnone : ¬(first ≤ frame ∧ frame ≤ last ∧ (frame - first) % s < l) := fun h ↦
      hrange ⟨h.1, h.2.1⟩
    rw [if_neg hnone]
    split <;> rw [eval, hbetween, Int.zero_mul]

/-! ### Terms -/

/-- Each term is 0 or 1, and at a number of the runs some term is 1. -/
structure TermsOf (terms : List SelectExpr) (runs : List (Nat × Nat)) : Prop where
  bit : ∀ term ∈ terms, ∀ frame, term.eval frame = 0 ∨ term.eval frame = 1
  mem : ∀ frame, (∃ term ∈ terms, term.eval frame = 1) ↔
    ∃ run ∈ runs, run.1 ≤ frame ∧ frame ≤ run.2

theorem termsOf_nil : TermsOf [] [] := ⟨nofun, by simp⟩

theorem TermsOf.cons {terms : List SelectExpr} {rest : List (Nat × Nat)}
    (h : TermsOf terms rest) (block : List (Nat × Nat)) {term : SelectExpr} {p : Nat → Prop}
    [DecidablePred p] (hterm : ∀ frame, term.eval frame = if p frame then 1 else 0)
    (hp : ∀ frame, p frame ↔ ∃ run ∈ block, run.1 ≤ frame ∧ frame ≤ run.2) :
    TermsOf (term :: terms) (block ++ rest) := by
  constructor
  · intro other hother frame
    rcases List.mem_cons.mp hother with rfl | hold
    · rw [hterm]
      split
      · exact .inr rfl
      · exact .inl rfl
    · exact h.bit other hold frame
  · intro frame
    have hone : term.eval frame = 1 ↔ p frame := by
      rw [hterm]
      split
      · next hholds => exact iff_of_true rfl hholds
      · next hnot => exact iff_of_false nofun hnot
    simp only [List.mem_cons, List.mem_append, or_and_right, exists_or, exists_eq_left]
    rw [hone, hp, h.mem]

/-- What a block that is found covers. -/
theorem exists_block {lo hi s l m : Nat} {rest : List (Nat × Nat)} (hl : hi = lo + l - 1)
    (hruns : ∀ k < m, rest[k]? = some (lo + (k + 1) * s, lo + (k + 1) * s + l - 1))
    (frame : Nat) :
    (∃ run ∈ (lo, hi) :: rest.take m, run.1 ≤ frame ∧ frame ≤ run.2) ↔
      ∃ k ≤ m, lo + k * s ≤ frame ∧ frame ≤ lo + k * s + l - 1 := by
  constructor
  · rintro ⟨run, hrun, hin⟩
    rcases List.mem_cons.mp hrun with rfl | hrest
    · refine ⟨0, Nat.zero_le m, ?_⟩
      dsimp only at hin
      omega
    · obtain ⟨k, hk⟩ := List.mem_iff_getElem?.mp hrest
      rw [List.getElem?_take] at hk
      split at hk
      · next hlt =>
        rw [hruns k hlt] at hk
        cases hk
        exact ⟨k + 1, hlt, hin⟩
      · cases hk
  · rintro ⟨k, hk, hin⟩
    cases k with
    | zero =>
      refine ⟨(lo, hi), List.mem_cons_self, ?_⟩
      dsimp only
      omega
    | succ k =>
      refine ⟨(lo + (k + 1) * s, lo + (k + 1) * s + l - 1), List.mem_cons_of_mem _ ?_, hin⟩
      apply List.mem_iff_getElem?.mpr
      refine ⟨k, ?_⟩
      rw [List.getElem?_take_of_lt (by omega)]
      exact hruns k (by omega)

theorem blockEnd_eq {lo hi s l m : Nat} {rest : List (Nat × Nat)} (hpos : 0 < m)
    (hm : m ≤ rest.length)
    (hruns : ∀ k < m, rest[k]? = some (lo + (k + 1) * s, lo + (k + 1) * s + l - 1)) :
    blockEnd hi (rest.take m) = lo + m * s + l - 1 := by
  have hlast : (rest.take m).getLast? = rest[m - 1]? := by
    rw [List.getLast?_eq_getElem?, List.length_take, Nat.min_eq_left hm,
      List.getElem?_take_of_lt (by omega)]
  rw [blockEnd, hlast, hruns (m - 1) (by omega), Nat.sub_add_cancel hpos]
  rfl

theorem emitTerms_eq (runs : List (Nat × Nat)) (h : Separated limit runs) :
    ∃ terms, emitTerms limit runs = .ok terms ∧ TermsOf terms runs ∧
      (runs ≠ [] → terms ≠ []) := by
  match runs, h with
  | [], _ => exact ⟨[], emitTerms.eq_1 limit, termsOf_nil, fun hne ↦ absurd rfl hne⟩
  | (lo, hi) :: rest, h =>
    have hvalid : lo ≤ hi := h.valid _ List.mem_cons_self
    have hwidth : hi - lo + 1 < limit := h.width _ List.mem_cons_self
    have hsingle {terms : List SelectExpr} (hterms : TermsOf terms rest) :
        TermsOf (runTerm lo hi :: terms) ((lo, hi) :: rest) := by
      apply hterms.cons [(lo, hi)] (eval_runTerm lo hi)
      intro frame
      simp only [List.mem_singleton, exists_eq_left]
    rw [emitTerms, checkedSub_eq hvalid]
    dsimp only [bind, Except.bind]
    rw [checkedAdd_eq hwidth]
    dsimp only
    cases hhead : rest.head? with
    | none =>
      rw [List.head?_eq_none_iff] at hhead
      subst hhead
      exact ⟨_, rfl, hsingle termsOf_nil, fun _ ↦ List.cons_ne_nil _ _⟩
    | some next =>
      obtain ⟨lo', hi'⟩ := next
      have hgaps : ∀ run ∈ rest, hi + 1 < run.1 := (List.pairwise_cons.mp h.apart).1
      have hgap : hi + 1 < lo' := hgaps _ (List.mem_of_head? hhead)
      have hlo : ∀ run ∈ rest, lo ≤ run.1 := by
        intro run hrun
        have hrunGap := hgaps run hrun
        omega
      dsimp only
      rw [checkedSub_eq (by omega)]
      dsimp only
      obtain ⟨m, hm, hblock, hruns⟩ := blockLength_eq (s := lo' - lo) (l := hi - lo + 1) h.tail hlo
      rw [hblock]
      dsimp only
      split
      · next hcollapse =>
        obtain ⟨terms, hterms, hof, -⟩ := emitTerms_eq (rest.drop m) (h.tail.drop m)
        rw [hterms]
        refine ⟨_, rfl, ?_, fun _ ↦ List.cons_ne_nil _ _⟩
        have hpos : 0 < m := by
          unfold COLLAPSE at hcollapse
          omega
        rw [blockEnd_eq hpos hm hruns]
        have hcons := hof.cons ((lo, hi) :: rest.take m)
          (eval_blockTerm lo (lo + m * (lo' - lo) + (hi - lo + 1) - 1) (lo' - lo) (hi - lo + 1))
          fun frame ↦ by rw [exists_block (by omega) hruns, block_iff (by omega) (by omega)]
        rwa [List.cons_append, List.take_append_drop] at hcons
      · obtain ⟨terms, hterms, hof, -⟩ := emitTerms_eq rest h.tail
        rw [hterms]
        exact ⟨_, rfl, hsingle hof, fun _ ↦ List.cons_ne_nil _ _⟩
termination_by runs.length
decreasing_by
  all_goals simp only [List.length_drop, List.length_cons]
  all_goals omega

/-! ### The expression -/

/-- The terms as one expression. -/
def sumTerms : List SelectExpr → SelectExpr
  | [] => num 0
  | term :: terms => terms.foldl add term

theorem render_foldl (terms : List SelectExpr) (term : SelectExpr) :
    (terms.foldl add term).render = "+".intercalate ((term :: terms).map render) := by
  induction terms generalizing term with
  | nil => rw [List.foldl_nil, List.map_singleton, String.intercalate_singleton]
  | cons next terms ih =>
    rw [List.foldl_cons, ih, List.map_cons, List.map_cons, List.map_cons, render,
      String.intercalate_cons_cons, String.append_assoc, String.intercalate_cons_append,
      String.intercalate_cons_append, String.append_assoc]

theorem eval_foldl (terms : List SelectExpr) (term : SelectExpr) (frame : Nat) :
    (terms.foldl add term).eval frame = term.eval frame + (terms.map (eval frame)).sum := by
  induction terms generalizing term with
  | nil => rw [List.foldl_nil, List.map_nil, List.sum_nil, Int.add_zero]
  | cons next terms ih =>
    rw [List.foldl_cons, ih, List.map_cons, List.sum_cons, eval, Int.add_assoc]

/-- A sum of bits is not 0 exactly where one of them is 1. -/
theorem sum_ne_zero_iff {terms : List SelectExpr} {frame : Nat}
    (hbit : ∀ term ∈ terms, term.eval frame = 0 ∨ term.eval frame = 1) :
    0 ≤ (terms.map (eval frame)).sum ∧
      ((terms.map (eval frame)).sum ≠ 0 ↔ ∃ term ∈ terms, term.eval frame = 1) := by
  induction terms with
  | nil => simp
  | cons term terms ih =>
    obtain ⟨hnonneg, hiff⟩ := ih fun other hother ↦ hbit other (List.mem_cons_of_mem _ hother)
    simp only [List.map_cons, List.sum_cons, List.mem_cons, exists_eq_or_imp]
    rw [← hiff]
    rcases hbit term List.mem_cons_self with hzero | hone
    · rw [hzero]
      omega
    · rw [hone]
      omega

theorem eval_sumTerms {terms : List SelectExpr} {runs : List (Nat × Nat)}
    (h : TermsOf terms runs) (frame : Nat) :
    (sumTerms terms).eval frame ≠ 0 ↔ ∃ run ∈ runs, run.1 ≤ frame ∧ frame ≤ run.2 := by
  have hsum : (sumTerms terms).eval frame = (terms.map (eval frame)).sum := by
    cases terms with
    | nil => rfl
    | cons term terms => rw [sumTerms, eval_foldl, List.map_cons, List.sum_cons]
  rw [hsum, (sum_ne_zero_iff fun term hterm ↦ h.bit term hterm frame).2, h.mem]

theorem capacity_fold {texts : List String} {bytes : Nat}
    (hfits : bytes + (texts.map fun text ↦ text.utf8ByteSize + 1).sum < limit) :
    texts.foldlM (addCapacity limit) bytes =
      .ok (bytes + (texts.map fun text ↦ text.utf8ByteSize + 1).sum) := by
  induction texts generalizing bytes with
  | nil => rfl
  | cons text texts ih =>
    rw [List.map_cons, List.sum_cons] at hfits ⊢
    have hadd : addCapacity limit bytes text = .ok (bytes + (text.utf8ByteSize + 1)) := by
      rw [addCapacity, checkedAdd_eq (by omega)]
      exact checkedAdd_eq (by omega)
    rw [← Nat.add_assoc] at hfits
    rw [List.foldlM_cons, hadd]
    exact (ih hfits).trans (congrArg Except.ok (Nat.add_assoc _ _ _))

/-- Where the strings fit in memory, the capacity is a word. -/
theorem exists_capacity {texts : List String} (hne : texts ≠ [])
    (hmemory : (texts.map stringBytes).sum ≤ limit) :
    ∃ bytes, capacity limit texts = .ok bytes := by
  have hbytes (texts : List String) : (texts.map stringBytes).sum =
      (texts.map fun text ↦ text.utf8ByteSize + 1).sum + 23 * texts.length := by
    induction texts with
    | nil => rfl
    | cons text texts ih =>
      simp only [List.map_cons, List.sum_cons, List.length_cons, ih, stringBytes]
      omega
  rw [hbytes] at hmemory
  have hlength := List.length_pos_iff.mpr hne
  refine ⟨0 + (texts.map fun text ↦ text.utf8ByteSize + 1).sum + 10, ?_⟩
  unfold capacity
  rw [capacity_fold (by omega)]
  dsimp only [bind, Except.bind]
  rw [checkedAdd_eq (by omega)]

/-- `u64::MAX`. -/
def wordMax : Nat := 2 ^ 64 - 1

/-- A slice of frame numbers, `&[u64]`: no slice has more than `isize::MAX` bytes. -/
structure FrameSlice where
  indices : List Nat
  words : ∀ idx ∈ indices, idx ≤ wordMax
  addressable : 8 * indices.length ≤ 2 ^ 63 - 1

end Vidarax.Ingest
