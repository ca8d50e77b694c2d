import Mathlib.Algebra.Order.BigOperators.Group.List
import Mathlib.Algebra.Order.Group.Nat
import Vidarax.Base.Result
import Vidarax.Ingest.SelectExact
import Vidarax.Ingest.Selective

/-!
# Size of select expressions

Packages `vidarax-core`, `crates/vidarax-core/src/ingest/ffmpeg.rs:918–1084`, and `vidarax-api`,
`crates/vidarax-api/src/handlers.rs:1113–1157`. For which sizes of a chunk and numbers of frames in
it the number of terms does not grow with the number of chunks.
-/

namespace Vidarax.Ingest

open Vidarax.Base

variable {limit : Nat}

/-! ### Steps of the main loop -/

/-- The block that starts at a run. -/
def blockAt (limit : Nat) (run : Nat × Nat) (rest : List (Nat × Nat)) : Except BuildError Nat :=
  blockLength limit ((rest.headD run).1 - run.1) (run.2 - run.1 + 1) run.1 rest

/-- One step of the main loop writes one term, for one run or for a whole block. -/
theorem emitTerms_cases {run : Nat × Nat} {rest : List (Nat × Nat)} {terms : List SelectExpr}
    (h : emitTerms limit (run :: rest) = .ok terms) : run.1 ≤ run.2 ∧
      ∃ term terms' m, terms = term :: terms' ∧ emitTerms limit (rest.drop m) = .ok terms' ∧
        (m = 0 ∧ (rest = [] ∨ ∃ found < 2, blockAt limit run rest = .ok found) ∨
          2 ≤ m ∧ blockAt limit run rest = .ok m) := by
  obtain ⟨lo, hi⟩ := run
  rw [emitTerms] at h
  obtain ⟨width, hwidth, h⟩ := bind_eq_ok h
  obtain ⟨l, hl, h⟩ := bind_eq_ok h
  unfold checkedSub at hwidth
  split at hwidth
  · next hvalid =>
    cases hwidth
    refine ⟨hvalid, ?_⟩
    unfold checkedAdd at hl
    split at hl
    · cases hl
      cases rest with
      | nil =>
        cases h
        exact ⟨_, [], 0, rfl, emitTerms.eq_1 limit, .inl ⟨rfl, .inl rfl⟩⟩
      | cons next rest =>
        obtain ⟨lo', hi'⟩ := next
        dsimp only [List.head?_cons] at h
        obtain ⟨s, hs, h⟩ := bind_eq_ok h
        unfold checkedSub at hs
        split at hs
        · cases hs
          obtain ⟨m, hm, h⟩ := bind_eq_ok h
          split at h
          · next hcollapse =>
            obtain ⟨terms', hterms', h⟩ := bind_eq_ok h
            cases h
            refine ⟨_, terms', m, rfl, hterms', .inr ⟨?_, hm⟩⟩
            unfold COLLAPSE at hcollapse
            omega
          · next hsmall =>
            obtain ⟨terms', hterms', h⟩ := bind_eq_ok h
            cases h
            refine ⟨_, terms', 0, rfl, hterms', .inl ⟨rfl, .inr ⟨m, ?_, hm⟩⟩⟩
            unfold COLLAPSE at hsmall
            omega
        · cases hs
    · cases hl
  · cases hwidth

theorem length_terms_le {runs : List (Nat × Nat)} {terms : List SelectExpr}
    (h : emitTerms limit runs = .ok terms) : terms.length ≤ runs.length := by
  match runs, h with
  | [], h =>
    rw [emitTerms] at h
    cases h
    exact Nat.le_refl 0
  | run :: rest, h =>
    obtain ⟨-, term, terms', m, rfl, hterms', -⟩ := emitTerms_cases h
    have hle := length_terms_le hterms'
    rw [List.length_drop] at hle
    rw [List.length_cons, List.length_cons]
    omega
termination_by runs.length
decreasing_by
  simp only [List.length_drop, List.length_cons]
  omega

/-! ### One block is one term -/

/-- Runs of one length at one stride. -/
def ladder (a b s : Nat) : Nat → List (Nat × Nat)
  | 0 => []
  | j + 1 => (a, b) :: ladder (a + s) (b + s) s j

theorem length_ladder (a b s j : Nat) : (ladder a b s j).length = j := by
  induction j generalizing a b with
  | zero => rfl
  | succ j ih => rw [ladder, List.length_cons, ih]

theorem ladder_concat (a b s j : Nat) :
    ladder a b s (j + 1) = ladder a b s j ++ [(a + j * s, b + j * s)] := by
  induction j generalizing a b with
  | zero => simp [ladder]
  | succ j ih =>
    rw [ladder, ih, ladder, List.cons_append, Nat.succ_mul]
    congr 4 <;> omega

theorem drop_ladder (a b s j m : Nat) :
    (ladder a b s j).drop m = ladder (a + m * s) (b + m * s) s (j - m) := by
  induction m generalizing a b j with
  | zero => simp
  | succ m ih =>
    cases j with
    | zero => simp [ladder]
    | succ j =>
      rw [ladder, List.drop_succ_cons, ih, Nat.add_sub_add_right, Nat.succ_mul]
      congr 1 <;> omega

/-- A block goes as far as the runs fit. -/
theorem le_blockLength {a b s j m : Nat} {post : List (Nat × Nat)} (hvalid : a ≤ b)
    (h : blockLength limit s (b - a + 1) a (ladder (a + s) (b + s) s j ++ post) = .ok m) :
    j ≤ m := by
  induction j generalizing a b m with
  | zero => exact Nat.zero_le m
  | succ j ih =>
    rw [ladder, List.cons_append, blockLength] at h
    obtain ⟨gap, hgap, h⟩ := bind_eq_ok h
    unfold checkedSub at hgap
    rw [if_pos (Nat.le_add_right a s)] at hgap
    cases hgap
    rw [if_pos (Nat.add_sub_cancel_left a s)] at h
    obtain ⟨width, hwidth, h⟩ := bind_eq_ok h
    unfold checkedSub at hwidth
    rw [if_pos (by omega)] at hwidth
    cases hwidth
    obtain ⟨length, hlength, h⟩ := bind_eq_ok h
    unfold checkedAdd at hlength
    split at hlength
    · cases hlength
      rw [if_pos (by omega)] at h
      obtain ⟨more, hmore, h⟩ := bind_eq_ok h
      cases h
      have hwidth : b - a + 1 = b + s - (a + s) + 1 := by omega
      rw [hwidth] at hmore
      exact Nat.succ_le_succ (ih (by omega) hmore)
    · cases hlength

theorem length_terms_le_of_ladder {front post : List (Nat × Nat)} {a b s j : Nat}
    {terms : List SelectExpr} (hvalid : a ≤ b)
    (h : emitTerms limit (front ++ (ladder a b s j ++ post)) = .ok terms) :
    terms.length ≤ front.length + post.length + 2 := by
  match front, j, h with
  | [], 0, h =>
    have hle := length_terms_le h
    rw [List.nil_append, ladder, List.nil_append] at hle
    omega
  | [], j + 1, h =>
    rw [List.nil_append, ladder, List.cons_append] at h
    obtain ⟨-, term, terms', m, rfl, hterms', hblock⟩ := emitTerms_cases h
    have hle := length_terms_le hterms'
    rw [List.length_drop, List.length_append, length_ladder] at hle
    rw [List.length_cons, List.length_nil]
    by_cases hshort : j < 2
    · omega
    · obtain ⟨j, rfl⟩ : ∃ i, j = i + 1 := ⟨j - 1, by omega⟩
      have hat {found : Nat} (hfound : blockAt limit (a, b)
          (ladder (a + s) (b + s) s (j + 1) ++ post) = .ok found) : j + 1 ≤ found := by
        unfold blockAt at hfound
        rw [ladder, List.cons_append, List.headD_cons] at hfound
        dsimp only at hfound
        rw [Nat.add_sub_cancel_left, ← List.cons_append, ← ladder] at hfound
        exact le_blockLength hvalid hfound
      rcases hblock with ⟨-, hnil | ⟨found, hfound, hat'⟩⟩ | ⟨-, hm⟩
      · rw [ladder] at hnil
        cases hnil
      · have hlong := hat hat'
        omega
      · have hlong := hat hm
        omega
  | run :: front, j, h =>
    rw [List.cons_append] at h
    obtain ⟨-, term, terms', m, rfl, hterms', -⟩ := emitTerms_cases h
    rw [List.drop_append, List.drop_append, drop_ladder] at hterms'
    have hle := length_terms_le_of_ladder (by omega) hterms'
    rw [List.length_drop, List.length_drop] at hle
    rw [List.length_cons, List.length_cons]
    omega
termination_by front.length
decreasing_by
  simp only [List.length_drop, List.length_cons]
  omega

/-! ### Runs without bounds -/

/-- One number is added to the runs, as `extendRuns` does where the arithmetic does not fail. -/
def addRun (runs : List (Nat × Nat)) (idx : Nat) : List (Nat × Nat) :=
  match runs.getLast? with
  | some (lo, hi) =>
    if idx = hi + 1 then runs.dropLast ++ [(lo, idx)] else runs ++ [(idx, idx)]
  | none => [(idx, idx)]

theorem addRun_next (front : List (Nat × Nat)) (lo hi : Nat) :
    addRun (front ++ [(lo, hi)]) (hi + 1) = front ++ [(lo, hi + 1)] := by
  rw [addRun, List.getLast?_concat]
  dsimp only
  rw [if_pos rfl, List.dropLast_concat]

theorem addRun_gap (front : List (Nat × Nat)) (lo : Nat) {hi idx : Nat} (hgap : hi + 1 < idx) :
    addRun (front ++ [(lo, hi)]) idx = front ++ [(lo, hi)] ++ [(idx, idx)] := by
  rw [addRun, List.getLast?_concat]
  exact if_neg (by omega)

theorem addRun_of_extendRuns {runs runs' : List (Nat × Nat)} {idx : Nat}
    (h : extendRuns limit runs idx = .ok runs') : runs' = addRun runs idx := by
  unfold extendRuns at h
  split at h
  · next lo hi hlast =>
    obtain ⟨next, hnext, h⟩ := bind_eq_ok h
    rw [addRun, hlast]
    dsimp only
    unfold checkedAdd at hnext
    split at hnext
    · cases hnext
      split at h <;> next hidx =>
        cases h
        first | rw [if_pos hidx] | rw [if_neg hidx]
    · cases hnext
  · next hlast =>
    rw [addRun, hlast]
    cases h
    rfl

theorem foldl_of_coalesce {indices : List Nat} {runs runs' : List (Nat × Nat)}
    (h : indices.foldlM (extendRuns limit) runs = .ok runs') :
    runs' = indices.foldl addRun runs := by
  induction indices generalizing runs with
  | nil =>
    cases h
    rfl
  | cons idx indices ih =>
    rw [List.foldlM_cons] at h
    obtain ⟨middle, hmiddle, h⟩ := bind_eq_ok h
    rw [List.foldl_cons, ← addRun_of_extendRuns hmiddle]
    exact ih h

theorem runs_of_selectTerms {indices : List Nat} {terms : List SelectExpr}
    (hsorted : indices.Pairwise (· < ·)) (h : selectTerms limit indices = .ok terms) :
    emitTerms limit (indices.foldl addRun []) = .ok terms := by
  obtain ⟨runs, hruns, h⟩ := bind_eq_ok h
  rw [normalize, if_pos hsorted.isChain] at hruns
  rwa [foldl_of_coalesce hruns] at h

/-- More numbers change the last run at most, and add one run each at most. -/
theorem foldl_addRun (indices : List Nat) (front : List (Nat × Nat)) (last : Nat × Nat) :
    ∃ post, indices.foldl addRun (front ++ [last]) = front ++ post ∧
      post.length ≤ indices.length + 1 := by
  obtain ⟨post, hne, hpost, hlength⟩ : ∃ post, post ≠ [] ∧
      indices.foldl addRun (front ++ [last]) = front ++ post ∧
      post.length ≤ indices.length + 1 := by
    induction indices using List.reverseRecOn with
    | nil => exact ⟨[last], nofun, rfl, Nat.le_refl 1⟩
    | append_singleton indices idx ih =>
      obtain ⟨post, hne, hpost, hlength⟩ := ih
      obtain ⟨middle, ⟨lo, hi⟩, rfl⟩ := (List.eq_nil_or_concat post).resolve_left hne
      rw [List.concat_eq_append] at hpost hlength
      rw [List.foldl_append, hpost, List.foldl_cons, List.foldl_nil, ← List.append_assoc, addRun,
        List.getLast?_concat]
      rw [List.length_append, List.length_singleton] at hlength ⊢
      dsimp only
      split
      · rw [List.dropLast_concat, List.append_assoc]
        refine ⟨_, by simp, rfl, ?_⟩
        rw [List.length_append, List.length_singleton]
        omega
      · rw [List.append_assoc, List.append_assoc]
        refine ⟨_, by simp, rfl, ?_⟩
        simp only [List.length_append, List.length_singleton]
        omega
  exact ⟨post, hpost, hlength⟩

/-! ### Whole chunks -/

/-- The numbers that are picked in the first chunks, all of which are whole. -/
def wholeIndices (size k : Nat) : Nat → List Nat
  | 0 => []
  | c + 1 => wholeIndices size k c ++ (picks size k).map (c * size + ·)

/-- The runs of these numbers. -/
def wholeRuns (size k c : Nat) : List (Nat × Nat) := (wholeIndices size k c).foldl addRun []

theorem wholeRuns_succ (size k c : Nat) : wholeRuns size k (c + 1) =
    ((picks size k).map (c * size + ·)).foldl addRun (wholeRuns size k c) := by
  rw [wholeRuns, wholeIndices, List.foldl_append]
  rfl

theorem wholeRuns_one (size k : Nat) : wholeRuns size k 1 = (picks size k).foldl addRun [] := by
  rw [wholeRuns_succ]
  simp [wholeRuns, wholeIndices]

theorem wholeIndices_eq (size k c : Nat) : wholeIndices size k c =
    (List.range c).flatMap fun i ↦ (picks size k).map (i * size + ·) := by
  induction c with
  | zero => rfl
  | succ c ih => rw [wholeIndices, ih, List.range_succ, List.flatMap_append, List.flatMap_singleton]

/-- The numbers that are computed are those of whole chunks and of a last one. -/
theorem exists_wholeIndices {total size k : Nat} (hsize : 0 < size) (hk : 0 < k) :
    ∃ c last, computeSemanticFrameIndices total size k = wholeIndices size k c ++ last ∧
      last.length ≤ k := by
  rw [computeSemanticFrameIndices_eq hsize hk]
  cases hchunks : divCeil total size with
  | zero => exact ⟨0, [], rfl, Nat.zero_le k⟩
  | succ c =>
    refine ⟨c, picked total size k c, ?_, ?_⟩
    · rw [List.range_succ, List.flatMap_append, List.flatMap_singleton, wholeIndices_eq]
      congr 1
      apply List.flatMap_congr
      intro i hi
      have hstart : chunkStart size c < total := chunkStart_lt hsize (by omega)
      have hwhole : chunkLen total size i = size := by
        have hmul := Nat.mul_le_mul_right size (Nat.succ_le_of_lt (List.mem_range.mp hi))
        rw [Nat.succ_mul] at hmul
        unfold chunkStart at hstart
        unfold chunkLen chunkStart
        omega
      rw [picked, hwhole, chunkStart]
    · rw [picked, List.length_map]
      exact length_picks_le hk

theorem computeSemanticFrameIndices_whole {size k : Nat} (hsize : 0 < size) (hk : 0 < k)
    (c : Nat) : computeSemanticFrameIndices (c * size) size k = wholeIndices size k c := by
  have hchunks : divCeil (c * size) size = c := by
    unfold divCeil
    rw [Nat.add_sub_assoc hsize, Nat.mul_comm, Nat.mul_add_div hsize,
      Nat.div_eq_of_lt (by omega), Nat.add_zero]
  rw [computeSemanticFrameIndices_eq hsize hk, hchunks, wholeIndices_eq]
  apply List.flatMap_congr
  intro i hi
  have hwhole : chunkLen (c * size) size i = size := by
    have hmul := Nat.mul_le_mul_right size (Nat.succ_le_of_lt (List.mem_range.mp hi))
    rw [Nat.succ_mul] at hmul
    unfold chunkLen chunkStart
    omega
  rw [picked, hwhole, chunkStart]

/-! ### Sizes that are bounded -/

/-- All whole chunks but for the first and the last runs make one block. -/
def Laddered (size k : Nat) : Prop :=
  ∃ front a b s, a ≤ b ∧ front.length ≤ 1 ∧
    ∀ c, ∃ tail, wholeRuns size k (c + 1) = front ++ (ladder a b s c ++ [tail])

theorem Laddered.length_le {size k total : Nat} {terms : List SelectExpr} (h : Laddered size k)
    (hsize : 0 < size) (hk : 0 < k)
    (hterms : selectTerms limit (computeSemanticFrameIndices total size k) = .ok terms) :
    terms.length ≤ k + 4 := by
  obtain ⟨front, a, b, s, hvalid, hfront, hruns⟩ := h
  have hsorted : (computeSemanticFrameIndices total size k).Pairwise (· < ·) := by
    rw [computeSemanticFrameIndices_eq hsize hk]
    exact pairwise_flatMap_picked hsize
  have hemit := runs_of_selectTerms hsorted hterms
  obtain ⟨c, last, hindices, hlast⟩ : ∃ c last, computeSemanticFrameIndices total size k =
      wholeIndices size k c ++ last ∧ last.length ≤ k := exists_wholeIndices hsize hk
  rw [hindices, List.foldl_append] at hemit
  cases c with
  | zero =>
    cases last with
    | nil =>
      have hle := length_terms_le hemit
      dsimp only [wholeIndices, List.foldl_nil, List.length_nil] at hle
      omega
    | cons idx rest =>
      obtain ⟨post, hpost, hlength⟩ := foldl_addRun rest [] (idx, idx)
      have hstart : (wholeIndices size k 0).foldl addRun [] = [] := rfl
      have hfirst : addRun [] idx = [] ++ [(idx, idx)] := rfl
      rw [hstart, List.foldl_cons, hfirst, hpost] at hemit
      have hle := length_terms_le hemit
      rw [List.nil_append] at hle
      rw [List.length_cons] at hlast
      omega
  | succ c =>
    obtain ⟨tail, htail⟩ := hruns c
    rw [wholeRuns, ← List.append_assoc] at htail
    obtain ⟨post, hpost, hlength⟩ := foldl_addRun last (front ++ ladder a b s c) tail
    rw [htail, hpost, List.append_assoc] at hemit
    have hle := length_terms_le_of_ladder hvalid hemit
    omega

theorem laddered_one {size : Nat} (hsize : 5 ≤ size) : Laddered size 1 := by
  have hpicks : picks size 1 = [size / 2] := by
    rw [picks, if_neg (by omega), if_pos rfl]
  refine ⟨[], size / 2, size / 2, size, Nat.le_refl _, Nat.zero_le 1, fun c ↦ ?_⟩
  refine ⟨(size / 2 + c * size, size / 2 + c * size), ?_⟩
  rw [List.nil_append, ← ladder_concat]
  induction c with
  | zero =>
    rw [wholeRuns_succ, hpicks]
    simp [wholeRuns, wholeIndices, addRun, ladder]
  | succ c ih =>
    rw [wholeRuns_succ, ih, hpicks, List.map_singleton, List.foldl_cons, List.foldl_nil,
      ladder_concat _ _ _ (c + 1), ladder_concat, addRun_gap,
      Nat.add_comm (size / 2) ((c + 1) * size)]
    rw [Nat.succ_mul]
    omega

theorem laddered_two {size : Nat} (hsize : 5 ≤ size) : Laddered size 2 := by
  have hpicks : picks size 2 = [0, size - 1] := by
    rw [picks, if_neg (by omega), if_neg (by omega)]
    simp [List.range_succ]
  refine ⟨[(0, 0)], size - 1, size, size, Nat.sub_le size 1, Nat.le_refl 1, fun c ↦ ?_⟩
  refine ⟨(size - 1 + c * size, size - 1 + c * size), ?_⟩
  induction c with
  | zero =>
    rw [wholeRuns_succ, hpicks]
    simp [wholeRuns, wholeIndices, addRun, ladder]
    omega
  | succ c ih =>
    have hnext : (c + 1) * size + 0 = size - 1 + c * size + 1 := by
      rw [Nat.succ_mul]
      omega
    have hlast : (c + 1) * size + (size - 1) = size - 1 + (c + 1) * size := Nat.add_comm _ _
    rw [wholeRuns_succ, ih, hpicks, List.map_cons, List.map_singleton, List.foldl_cons,
      List.foldl_cons, List.foldl_nil, hnext, hlast, ← List.append_assoc, addRun_next,
      addRun_gap _ _ (by rw [Nat.succ_mul]; omega), ladder_concat, ← List.append_assoc,
      ← List.append_assoc]
    congr 4
    omega

theorem laddered_five_four : Laddered 5 4 := by
  have hpicks : picks 5 4 = [0, 1, 2, 4] := by decide
  refine ⟨[(0, 2)], 4, 7, 5, by decide, Nat.le_refl 1, fun c ↦ ?_⟩
  refine ⟨(4 + c * 5, 4 + c * 5), ?_⟩
  induction c with
  | zero => decide
  | succ c ih =>
    have h0 : (c + 1) * 5 + 0 = 4 + c * 5 + 1 := by omega
    have h1 : (c + 1) * 5 + 1 = 4 + c * 5 + 1 + 1 := by omega
    have h2 : (c + 1) * 5 + 2 = 4 + c * 5 + 1 + 1 + 1 := by omega
    have h4 : (c + 1) * 5 + 4 = 4 + (c + 1) * 5 := by omega
    rw [wholeRuns_succ, ih, hpicks]
    simp only [List.map_cons, List.map_nil, List.foldl_cons, List.foldl_nil]
    rw [h0, h1, h2, h4, ← List.append_assoc, addRun_next, addRun_next, addRun_next,
      addRun_gap _ _ (by omega), ladder_concat, ← List.append_assoc, ← List.append_assoc]
    congr 4
    omega

/-! ### Sizes that are not -/

/-- More than one number. -/
def Wide (run : Nat × Nat) : Prop := run.1 < run.2

instance (run : Nat × Nat) : Decidable (Wide run) := inferInstanceAs (Decidable (_ < _))

/-- The runs of a block are as long as its first. -/
theorem width_of_blockLength {s l lo m : Nat} {rest : List (Nat × Nat)}
    (h : blockLength limit s l lo rest = .ok m) :
    ∀ run ∈ rest.take m, run.1 ≤ run.2 ∧ run.2 - run.1 + 1 = l := by
  induction rest generalizing lo m with
  | nil =>
    intro run hrun
    rw [List.take_nil] at hrun
    cases hrun
  | cons run rest ih =>
    obtain ⟨lo', hi'⟩ := run
    rw [blockLength] at h
    obtain ⟨gap, -, h⟩ := bind_eq_ok h
    split at h
    · obtain ⟨width, hwidth, h⟩ := bind_eq_ok h
      obtain ⟨length, hlength, h⟩ := bind_eq_ok h
      split at h
      · next hl =>
        obtain ⟨more, hmore, h⟩ := bind_eq_ok h
        cases h
        intro run hrun
        rw [List.take_succ_cons] at hrun
        rcases List.mem_cons.mp hrun with rfl | hrest
        · unfold checkedSub at hwidth
          unfold checkedAdd at hlength
          split at hwidth
          · next hvalid =>
            cases hwidth
            split at hlength
            · cases hlength
              exact ⟨hvalid, hl⟩
            · cases hlength
          · cases hwidth
        · exact ih hmore run hrest
      · cases h
        intro run hrun
        cases hrun
    · cases h
      intro run hrun
      cases hrun

/-- Where no two wide runs follow each other, each of them is a term of its own. -/
theorem countP_le_length {runs : List (Nat × Nat)} {terms : List SelectExpr}
    (h : emitTerms limit runs = .ok terms)
    (hchain : runs.IsChain fun a b ↦ ¬(Wide a ∧ Wide b)) :
    runs.countP (Wide ·) ≤ terms.length := by
  match runs, h, hchain with
  | [], _, _ => exact Nat.zero_le _
  | run :: rest, h, hchain =>
    obtain ⟨hvalid, term, terms', m, rfl, hterms', hblock⟩ := emitTerms_cases h
    have hrest := countP_le_length hterms' (hchain.tail.suffix (List.drop_suffix m rest))
    rw [List.length_cons]
    rcases hblock with ⟨rfl, -⟩ | ⟨hm, hblock⟩
    · rw [List.drop_zero] at hrest
      rw [List.countP_cons]
      split <;> omega
    · have hwidth := width_of_blockLength hblock
      have hnarrow : ¬Wide run := by
        intro hwide
        cases rest with
        | nil =>
          cases hblock
          omega
        | cons next rest =>
          obtain ⟨j, rfl⟩ : ∃ j, m = j + 1 := ⟨m - 1, by omega⟩
          obtain ⟨hnext, hsame⟩ := hwidth next (by rw [List.take_succ_cons]; simp)
          apply (List.isChain_cons_cons.mp hchain).1
          unfold Wide at hwide ⊢
          omega
      have hnone : (run :: rest.take m).countP (Wide ·) = 0 := by
        apply List.countP_eq_zero.mpr
        intro other hother
        rw [decide_eq_true_iff]
        rcases List.mem_cons.mp hother with rfl | htake
        · exact hnarrow
        · obtain ⟨hother, hsame⟩ := hwidth other htake
          unfold Wide at hnarrow ⊢
          omega
      have hsplit := congrArg (List.countP (Wide ·)) (List.take_append_drop m rest)
      rw [List.countP_append] at hsplit
      rw [List.countP_cons] at hnone ⊢
      omega
termination_by runs.length
decreasing_by
  simp only [List.length_drop, List.length_cons]
  omega

/-- Runs without two wide ones in a row, the last of which is narrow. -/
structure Sparse (runs : List (Nat × Nat)) : Prop where
  chain : runs.IsChain fun a b ↦ ¬(Wide a ∧ Wide b)
  last : ∀ run ∈ runs.getLast?, ¬Wide run

theorem sparse_of_narrow {runs : List (Nat × Nat)} (h : ∀ run ∈ runs, ¬Wide run) : Sparse runs := by
  refine ⟨?_, fun run hrun ↦ h run (List.mem_of_getLast? hrun)⟩
  apply List.Pairwise.isChain
  apply List.pairwise_of_forall_mem_list
  intro a ha b hb hwide
  exact h a ha hwide.1

theorem Sparse.append {front mids : List (Nat × Nat)} (h : Sparse front) (run : Nat × Nat)
    (hmids : ∀ mid ∈ mids, ¬Wide mid) (hne : mids ≠ []) : Sparse (front ++ run :: mids) := by
  have hsparse := sparse_of_narrow hmids
  constructor
  · apply List.isChain_append.mpr
    refine ⟨h.chain, ?_, fun a ha b hb hwide ↦ h.last a ha hwide.1⟩
    apply List.isChain_cons.mpr
    exact ⟨fun mid hmid hwide ↦ hmids mid (List.mem_of_head? hmid) hwide.2, hsparse.chain⟩
  · intro last hlast
    rw [List.getLast?_append, List.getLast?_cons_of_ne_nil hne] at hlast
    have hgetLast := List.getLast?_eq_some_getLast hne
    rw [hgetLast, Option.some_or] at hlast
    exact hsparse.last last (hgetLast.trans hlast)

/-- The runs of whole chunks: a wide one at each border, and a narrow one between two of these. -/
def Bordered (size k : Nat) : Prop :=
  ∀ c, ∃ front, wholeRuns size k (c + 1) =
    front ++ [((c + 1) * size - 1, (c + 1) * size - 1)] ∧ Sparse front ∧
      c ≤ front.countP (Wide ·)

/-- The number of terms grows with the number of chunks. -/
theorem Bordered.le_length {size k c : Nat} {terms : List SelectExpr} (h : Bordered size k)
    (hsize : 0 < size) (hk : 0 < k)
    (hterms : selectTerms limit (computeSemanticFrameIndices ((c + 1) * size) size k) =
      .ok terms) : c ≤ terms.length := by
  obtain ⟨front, hruns, hsparse, hcount⟩ := h c
  have hsorted : (computeSemanticFrameIndices ((c + 1) * size) size k).Pairwise (· < ·) := by
    rw [computeSemanticFrameIndices_eq hsize hk]
    exact pairwise_flatMap_picked hsize
  have hemit := runs_of_selectTerms hsorted hterms
  rw [computeSemanticFrameIndices_whole hsize hk, ← wholeRuns, hruns] at hemit
  have hchain : (front ++ [((c + 1) * size - 1, (c + 1) * size - 1)]).IsChain
      fun a b ↦ ¬(Wide a ∧ Wide b) := by
    apply List.isChain_append.mpr
    exact ⟨hsparse.chain, List.isChain_singleton _, fun a ha b _ hwide ↦ hsparse.last a ha hwide.1⟩
  have hle := countP_le_length hemit hchain
  rw [List.countP_append] at hle
  omega

/-- One more chunk: the border is a wide run, and narrow ones follow. -/
theorem bordered_of_step {size k : Nat} (first : List (Nat × Nat)) (hfirst : Sparse first)
    (hstart : wholeRuns size k 1 = first ++ [(size - 1, size - 1)])
    (hstep : ∀ (front : List (Nat × Nat)) (t c : Nat), t + 1 = c * size →
      ∃ w mids, 0 < w ∧ mids ≠ [] ∧ (∀ mid ∈ mids, ¬Wide mid) ∧
        ((picks size k).map (c * size + ·)).foldl addRun (front ++ [(t, t)]) =
          front ++ (t, t + w) :: mids ++ [((c + 1) * size - 1, (c + 1) * size - 1)])
    (hsize : 0 < size) : Bordered size k := by
  intro c
  induction c with
  | zero =>
    refine ⟨first, ?_, hfirst, Nat.zero_le _⟩
    rw [hstart, Nat.zero_add, Nat.one_mul]
  | succ c ih =>
    obtain ⟨front, hruns, hsparse, hcount⟩ := ih
    have hpos : 0 < (c + 1) * size := Nat.mul_pos (Nat.succ_pos c) hsize
    obtain ⟨w, mids, hw, hne, hnarrow, hadd⟩ :=
      hstep front ((c + 1) * size - 1) (c + 1) (Nat.sub_add_cancel hpos)
    refine ⟨front ++ ((c + 1) * size - 1, (c + 1) * size - 1 + w) :: mids, ?_,
      hsparse.append _ hnarrow hne, ?_⟩
    · rw [wholeRuns_succ, hruns, hadd]
    · have hwide : Wide ((c + 1) * size - 1, (c + 1) * size - 1 + w) := by
        unfold Wide
        dsimp only
        omega
      rw [List.countP_append, List.countP_cons, if_pos (decide_eq_true hwide)]
      omega

theorem bordered_three {size : Nat} (hsize : 5 ≤ size) : Bordered size 3 := by
  have hpicks : picks size 3 = [0, (size - 1) / 2, size - 1] := by
    rw [picks, if_neg (by omega), if_neg (by omega)]
    simp [List.range_succ]
  apply bordered_of_step [(0, 0), ((size - 1) / 2, (size - 1) / 2)]
  · apply sparse_of_narrow
    simp [Wide]
  · rw [wholeRuns_one, hpicks]
    simp only [List.foldl_cons, List.foldl_nil]
    change addRun (addRun ([] ++ [(0, 0)]) _) _ = _
    rw [addRun_gap _ _ (by omega), addRun_gap _ _ (by omega)]
    rfl
  · intro front t c ht
    refine ⟨1, [(c * size + (size - 1) / 2, c * size + (size - 1) / 2)], Nat.one_pos, nofun,
      by simp [Wide], ?_⟩
    have hborder : c * size + 0 = t + 1 := by omega
    have hend : (c + 1) * size - 1 = c * size + (size - 1) := by
      rw [Nat.succ_mul]
      omega
    rw [hpicks, hend]
    simp only [List.map_cons, List.map_nil, List.foldl_cons, List.foldl_nil]
    rw [hborder, addRun_next, addRun_gap _ _ (by omega), addRun_gap _ _ (by omega)]
    simp only [List.append_assoc, List.cons_append, List.nil_append]
  · omega

theorem bordered_four {size : Nat} (hsize : 7 ≤ size) : Bordered size 4 := by
  have hpicks : picks size 4 = [0, (size - 1) / 3, 2 * (size - 1) / 3, size - 1] := by
    rw [picks, if_neg (by omega), if_neg (by omega)]
    simp [List.range_succ]
  apply bordered_of_step [(0, 0), ((size - 1) / 3, (size - 1) / 3),
    (2 * (size - 1) / 3, 2 * (size - 1) / 3)]
  · apply sparse_of_narrow
    simp [Wide]
  · rw [wholeRuns_one, hpicks]
    simp only [List.foldl_cons, List.foldl_nil]
    change addRun (addRun (addRun ([] ++ [(0, 0)]) _) _) _ = _
    rw [addRun_gap _ _ (by omega), addRun_gap _ _ (by omega), addRun_gap _ _ (by omega)]
    rfl
  · intro front t c ht
    refine ⟨1, [(c * size + (size - 1) / 3, c * size + (size - 1) / 3),
      (c * size + 2 * (size - 1) / 3, c * size + 2 * (size - 1) / 3)], Nat.one_pos, nofun,
      by simp [Wide], ?_⟩
    have hborder : c * size + 0 = t + 1 := by omega
    have hend : (c + 1) * size - 1 = c * size + (size - 1) := by
      rw [Nat.succ_mul]
      omega
    rw [hpicks, hend]
    simp only [List.map_cons, List.map_nil, List.foldl_cons, List.foldl_nil]
    rw [hborder, addRun_next, addRun_gap _ _ (by omega), addRun_gap _ _ (by omega),
      addRun_gap _ _ (by omega)]
    simp only [List.append_assoc, List.cons_append, List.nil_append]
  · omega

theorem bordered_six_four : Bordered 6 4 := by
  have hpicks : picks 6 4 = [0, 1, 3, 5] := by decide
  apply bordered_of_step [(0, 1), (3, 3)]
  · exact ⟨by decide, by decide⟩
  · decide
  · intro front t c ht
    refine ⟨2, [(c * 6 + 3, c * 6 + 3)], Nat.two_pos, nofun, by simp [Wide], ?_⟩
    have hborder : c * 6 + 0 = t + 1 := by omega
    have hnext : c * 6 + 1 = t + 1 + 1 := by omega
    have hend : (c + 1) * 6 - 1 = c * 6 + 5 := by omega
    rw [hpicks, hend]
    simp only [List.map_cons, List.map_nil, List.foldl_cons, List.foldl_nil]
    rw [hborder, hnext, addRun_next, addRun_next, addRun_gap _ _ (by omega),
      addRun_gap _ _ (by omega)]
    simp only [List.append_assoc, List.cons_append, List.nil_append]
  · omega

/-! ### Bounded sizes -/

/-- Sizes that a request can ask for; `handlers.rs:1114,1148`. -/
structure Cadence where
  chunkSize : Nat
  framesPerChunk : Nat
  chunkSize_mem : 5 ≤ chunkSize ∧ chunkSize ≤ 500
  framesPerChunk_mem : 1 ≤ framesPerChunk ∧ framesPerChunk ≤ 4

/-- There is a bound on the number of terms for any number of frames. -/
def BoundedTerms (cadence : Cadence) : Prop :=
  ∃ bound, ∀ (limit total : Nat) (terms : List SelectExpr),
    selectTerms limit
      (computeSemanticFrameIndices total cadence.chunkSize cadence.framesPerChunk) = .ok terms →
    terms.length ≤ bound

/-- The expression can be built on words that are large enough. -/
theorem exists_selectTerms (indices : List Nat) :
    ∃ limit terms, selectTerms limit indices = .ok terms := by
  have hwords : ∀ idx ∈ normalize indices, idx < indices.sum + indices.length + 1 := by
    intro idx hidx
    have hle := List.le_sum_of_mem (mem_normalize.mp hidx)
    omega
  obtain ⟨runs, hcoalesce, hruns⟩ := coalesce_eq (pairwise_normalize indices) hwords
  have hwidth : ∀ run ∈ runs, run.2 - run.1 + 1 < indices.sum + indices.length + 1 := by
    intro run hrun
    have hle := (hruns.width_le hrun).trans (length_normalize_le indices)
    omega
  obtain ⟨terms, hemit, -⟩ := emitTerms_eq runs ⟨hruns.valid, hruns.apart, hwidth⟩
  refine ⟨indices.sum + indices.length + 1, terms, ?_⟩
  rw [selectTerms, hcoalesce]
  exact hemit

theorem not_bounded {cadence : Cadence}
    (h : Bordered cadence.chunkSize cadence.framesPerChunk) : ¬BoundedTerms cadence := by
  rintro ⟨bound, hbound⟩
  have hsize := cadence.chunkSize_mem
  have hframes := cadence.framesPerChunk_mem
  obtain ⟨limit, terms, hterms⟩ := exists_selectTerms (computeSemanticFrameIndices
    ((bound + 1 + 1) * cadence.chunkSize) cadence.chunkSize cadence.framesPerChunk)
  have hle := hbound limit _ terms hterms
  have hgrows := h.le_length (by omega) (by omega) hterms
  omega

/-- The number of terms is bounded for one or two frames in a chunk, and for four in a chunk of
five, and for no others. -/
theorem boundedTerms_iff (cadence : Cadence) : BoundedTerms cadence ↔
    cadence.framesPerChunk ≤ 2 ∨ cadence.framesPerChunk = 4 ∧ cadence.chunkSize = 5 := by
  have hsize := cadence.chunkSize_mem
  have hframes := cadence.framesPerChunk_mem
  have hbounded (h : Laddered cadence.chunkSize cadence.framesPerChunk) : BoundedTerms cadence :=
    ⟨_, fun limit total terms hterms ↦ h.length_le (by omega) (by omega) hterms⟩
  constructor
  · intro h
    by_contra hother
    obtain hthree | ⟨hfour, hsix⟩ | ⟨hfour, hseven⟩ : cadence.framesPerChunk = 3 ∨
        cadence.framesPerChunk = 4 ∧ cadence.chunkSize = 6 ∨
          cadence.framesPerChunk = 4 ∧ 7 ≤ cadence.chunkSize := by omega
    · refine not_bounded ?_ h
      rw [hthree]
      exact bordered_three hsize.1
    · refine not_bounded ?_ h
      rw [hfour, hsix]
      exact bordered_six_four
    · refine not_bounded ?_ h
      rw [hfour]
      exact bordered_four hseven
  · intro h
    apply hbounded
    obtain hone | htwo | ⟨hfour, hfive⟩ : cadence.framesPerChunk = 1 ∨
        cadence.framesPerChunk = 2 ∨
          cadence.framesPerChunk = 4 ∧ cadence.chunkSize = 5 := by omega
    · rw [hone]
      exact laddered_one hsize.1
    · rw [htwo]
      exact laddered_two hsize.1
    · rw [hfour, hfive]
      exact laddered_five_four

/-- Three of ten frames in each chunk. -/
theorem three_of_ten_unbounded : ¬∃ bound, ∀ (limit total : Nat) (terms : List SelectExpr),
    selectTerms limit (computeSemanticFrameIndices total 10 3) = .ok terms →
      terms.length ≤ bound :=
  @not_bounded ⟨10, 3, by decide, by decide⟩ (bordered_three (by decide))

end Vidarax.Ingest
