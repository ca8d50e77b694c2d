import Vidarax.Base.Result
import Vidarax.Live.Novelty

/-!
# Bounded reuse of descriptions

Package `vidarax-core`, `crates/vidarax-core/src/novelty.rs`, `LiveNoveltyGate`. A description is
reused only near the chunk it was made for: after its commit, for less than the configured time and
below the configured drift. What is not a number never passes for redundant.
-/

namespace Vidarax.Live

open Vidarax.Base

/-! ### Rows that are not finite -/

/-- A row of sums of squares that is not finite. -/
private theorem not_finite_foldl (used : List F32) (sum : F32)
    (h : sum.isFinite = false ∨ ∃ x ∈ used, x.isFinite = false) :
    (used.foldl (fun sum x ↦ sum.add (x.mul x)) sum).isFinite = false := by
  induction used generalizing sum with
  | nil =>
    rcases h with h | ⟨x, hx, _⟩
    · exact h
    · exact absurd hx List.not_mem_nil
  | cons y used ih =>
    apply ih
    rcases h with h | ⟨x, hx, hnot⟩
    · exact .inl (F32.not_finite_add (.inl h))
    · rcases List.mem_cons.mp hx with rfl | hx
      · exact .inl (F32.not_finite_add (.inr (F32.not_finite_mul_self hnot)))
      · exact .inr ⟨x, hx, hnot⟩

/-- The norm sees every component that is not finite. -/
theorem not_finite_normSq {used : List F32} (h : ∃ x ∈ used, x.isFinite = false) :
    (normSq used).isFinite = false := not_finite_foldl used .zero (.inr h)

/-- Normalised by zero or NaN, no lane is larger than zero. -/
theorem maxAbs_void {invNorm : F32} (h : invNorm.Void) (used : List F32) :
    maxAbs invNorm used = .zero := by
  unfold maxAbs
  induction used with
  | nil => rfl
  | cons x used ih =>
    have hlt : F32.zero.lt (x.mul invNorm).abs = false :=
      F32.not_zero_lt_void (F32.void_abs (F32.void_mul (.inr h)))
    rw [List.foldl_cons]
    simp only [hlt]
    exact ih

/-- Normalised by zero or NaN, a lane is zero. -/
theorem quantizeLane_void {invNorm : F32} (h : invNorm.Void) (invScale x : F32) :
    quantizeLane invNorm invScale x = 0 := by
  apply F32.toI8_clamp_void
  · exact F32.void_round (F32.void_mul (.inl (F32.void_mul (.inr h))))
  · decide
  · decide
  · decide
  · decide

/-- A row with a component that is not finite is quantised to zeros at scale one. -/
theorem quantizeUnitInto_not_finite {src : List F32} {dim : Nat} (hdim : src.length ≤ dim)
    (h : ∃ x ∈ src, x.isFinite = false) :
    quantizeUnitInto src dim = (List.replicate dim 0, .one) := by
  have hused : src.take dim = src := List.take_of_length_le hdim
  have hrow : ∀ row : List Int, row = List.replicate src.length 0 →
      row ++ List.replicate (dim - src.length) 0 = List.replicate dim 0 := by
    intro row hrow
    rw [hrow, List.replicate_append_replicate, Nat.add_sub_cancel' hdim]
  simp only [quantizeUnitInto, hused]
  split
  · rw [hrow _ rfl]
  · have hvoid := F32.void_div_sqrt (not_finite_normSq h)
    have hlanes (invScale : F32) : src.map (quantizeLane (F32.one.div (normSq src).sqrt) invScale) =
        List.replicate src.length 0 := by
      apply List.eq_replicate_iff.mpr
      constructor
      · exact List.length_map _
      · intro q hq
        obtain ⟨x, _, rfl⟩ := List.mem_map.mp hq
        exact quantizeLane_void hvoid invScale x
    rw [hrow _ (hlanes _), maxAbs_void hvoid]
    rfl

/-! ### Scores -/

theorem dotI8_zeros (n : Nat) (row : List Int) : dotI8 (List.replicate n 0) row = 0 := by
  unfold dotI8
  induction n generalizing row with
  | zero => rfl
  | succ n ih =>
    cases row with
    | nil => rfl
    | cons y row =>
      rw [List.replicate_succ, List.zip_cons_cons, List.foldl_cons]
      simp only [Int.zero_mul, Int.add_zero]
      exact ih row

namespace NoveltyGate

/-- A cosine of minus one or zero. -/
private def Flat (cosine : F32) : Prop := cosine = .ofInt (-1) ∨ cosine.magnitude = 0

private theorem unit_flat {cosine : F32} (h : Flat cosine) : unit (F32.one.sub cosine) = .one := by
  rcases h with rfl | h
  · decide
  · rcases F32.eq_zero_or h with rfl | rfl
    · decide
    · decide

/-- One between two zeros or NaNs. -/
private theorem unit_sum {x y : F32} (hx : x.Void) (hy : y.Void) :
    unit ((x.add (F32.one.mul .one)).add y) = .one ∨
      (unit ((x.add (F32.one.mul .one)).add y)).isNan = true := by
  rw [show F32.one.mul .one = .one by decide]
  rcases hx with hnan | hzero
  · rw [F32.add_nan (.inl hnan), F32.add_nan (.inl (by decide))]
    exact .inr (by decide)
  · have hleft : x.add .one = .one := by
      rcases F32.eq_zero_or hzero with rfl | rfl
      · decide
      · decide
    rw [hleft]
    rcases hy with hnan | hzero
    · rw [F32.add_nan (.inr hnan)]
      exact .inr (by decide)
    · apply Or.inl
      rcases F32.eq_zero_or hzero with rfl | rfl
      · decide
      · decide

/-- The best cosine of a row of zeros is minus one or a zero. -/
theorem bestMatch_zeros (ring : KeptRing) (sig : MinHashSig) (n : Nat) (phash : UInt64) :
    Flat (bestMatch ring sig (List.replicate n 0) .one phash).2.1 := by
  unfold bestMatch
  apply List.foldlRecOn (motive := fun best : F32 × F32 × Nat ↦ Flat best.2.1)
  · exact .inl rfl
  · intro best hbest slot _
    have hvoid (scale : F32) : ((F32.ofInt 0).mul .one |>.mul scale).Void :=
      F32.void_mul (.inl (F32.void_mul (.inl (.inr (by decide)))))
    simp only [dotI8_zeros]
    split
    · next hlt =>
      apply Or.inr
      rcases hvoid (ring.embedScale.getD slot .zero) with hnan | hzero
      · rw [F32.not_nan_of_lt hlt] at hnan
        exact absurd hnan (by decide)
      · exact hzero
    · exact hbest

/-- The fused score of a row that is not finite, with all the weight on the embedding: one, or NaN
from the unused distances. -/
theorem fused_not_finite {gate : NoveltyGate} (htext : gate.cfg.wText = .zero)
    (hembed : gate.cfg.wEmbed = .one) (hphash : gate.cfg.wPhash = .zero) (sig : MinHashSig)
    {embedding : List F32} (phash : UInt64) (hdim : embedding.length ≤ gate.ring.dim)
    (h : ∃ x ∈ embedding, x.isFinite = false) :
    (gate.breakdown sig embedding phash).fused = .one ∨
      (gate.breakdown sig embedding phash).fused.isNan = true := by
  unfold breakdown
  rw [quantizeUnitInto_not_finite hdim h, htext, hembed, hphash]
  dsimp only
  split
  · exact .inl (by decide)
  · have hone : unit (F32.one.sub (bestMatch gate.ring sig (List.replicate gate.ring.dim 0) .one
        phash).2.1) = .one := unit_flat (bestMatch_zeros gate.ring sig gate.ring.dim phash)
    rw [hone]
    exact unit_sum (F32.void_mul (.inl (.inr rfl))) (F32.void_mul (.inl (.inr rfl)))

/-- A score of one or NaN is not redundant. -/
theorem decision_ne_drop {gate : NoveltyGate} (htau : gate.cfg.tauHi.le .one = true)
    (sig : MinHashSig) (embedding : List F32) (phash : UInt64)
    (h : (gate.breakdown sig embedding phash).fused = .one ∨
      (gate.breakdown sig embedding phash).fused.isNan = true) :
    (gate.evaluateDetailed sig embedding phash).1 ≠ .drop := by
  have hsame : ({ gate with evaluated := gate.evaluated + 1 } : NoveltyGate).breakdown sig embedding
      phash = gate.breakdown sig embedding phash := rfl
  unfold evaluateDetailed
  simp only [hsame]
  rcases h with hone | hnan
  · rw [hone, if_pos htau]
    exact NoveltyDecision.noConfusion
  · split
    · exact NoveltyDecision.noConfusion
    · have hle : (gate.breakdown sig embedding phash).fused.le gate.cfg.tauLo = false := by
        simp [F32.le, hnan]
      rw [hle, if_neg (by decide)]
      exact NoveltyDecision.noConfusion

/-- Evaluation only counts. -/
theorem evaluateDetailed_keeps (gate : NoveltyGate) (sig : MinHashSig) (embedding : List F32)
    (phash : UInt64) : (gate.evaluateDetailed sig embedding phash).2.2.cfg = gate.cfg ∧
      (gate.evaluateDetailed sig embedding phash).2.2.ring = gate.ring := by
  unfold evaluateDetailed
  dsimp only
  split
  · exact ⟨rfl, rfl⟩
  · split
    · exact ⟨rfl, rfl⟩
    · exact ⟨rfl, rfl⟩

end NoveltyGate

/-! ### Runs -/

/-- A call on the gate. -/
inductive ReuseOp where
  | evaluate (embedding : Embedding) (ptsMs : UInt64)
  | commit (embedding : Embedding) (ptsMs : UInt64)

/-- Neither sort of call but a commit moves the anchor. -/
def ReuseOp.isCommit : ReuseOp → Bool
  | .evaluate _ _ => false
  | .commit _ _ => true

namespace LiveNoveltyGate

/-- One call. -/
def step (live : LiveNoveltyGate) : ReuseOp → LiveNoveltyGate
  | .evaluate embedding ptsMs => (live.evaluate embedding ptsMs).2
  | .commit embedding ptsMs => live.commit embedding ptsMs

/-- A sequence of calls. -/
def run (live : LiveNoveltyGate) (ops : List ReuseOp) : LiveNoveltyGate := ops.foldl step live

/-- Novelty of a chunk that the gate finds redundant. -/
def redundancy (live : LiveNoveltyGate) (embedding : Embedding) : Option F32 :=
  let (decision, breakdown, _) := live.gate.evaluateDetailed .empty embedding 0
  if decision = .drop then some breakdown.fused else none

/-- Novelty of every redundant evaluation of a sequence, in order. -/
def novelties (live : LiveNoveltyGate) : List ReuseOp → List F32
  | [] => []
  | .evaluate embedding ptsMs :: ops =>
    (live.redundancy embedding).toList ++ novelties (live.step (.evaluate embedding ptsMs)) ops
  | .commit embedding ptsMs :: ops => novelties (live.step (.commit embedding ptsMs)) ops

/-- Sum of novelties, as the gate adds them. -/
def accumulated (novelties : List F32) : F32 := novelties.foldl accumulate .zero

/-- The drift never is NaN. -/
theorem accumulate_isNan (drift novelty : F32) : (accumulate drift novelty).isNan = false := by
  unfold accumulate F32.minimum
  split
  · decide
  · next hnumber =>
    rw [if_neg (by decide)]
    split
    · exact eq_false_of_ne_true hnumber
    · decide

/-- What holds of the gate of a configuration: its settings, and an empty window before the first
commit. -/
structure Configured (config : LiveNoveltyConfig) (live : LiveNoveltyGate) : Prop where
  cfg : live.gate.cfg = gateConfig config
  dim : live.gate.ring.dim = EMBEDDING_DIM
  reuse : live.maxReuseMs = config.maxReuseMs
  drift : live.maxCumulativeDrift = config.maxCumulativeDrift
  number : live.cumulativeDrift.isNan = false
  fresh : live.lastCommitPtsMs = none → live.gate.ring.len = 0

variable {config : LiveNoveltyConfig} {live : LiveNoveltyGate}

/-- A chunk that is not redundant is run, and leaves the drift. -/
theorem evaluate_of_none {embedding : Embedding} (ptsMs : UInt64)
    (h : live.redundancy embedding = none) : live.evaluate embedding ptsMs =
      (.run, { live with gate := (live.gate.evaluateDetailed .empty embedding 0).2.2 }) := by
  have hkept : (live.gate.evaluateDetailed .empty embedding 0).1 ≠ .drop := by
    intro hdrop
    simp [redundancy, hdrop] at h
  simp only [evaluate]
  rw [if_pos hkept]

/-- A refresh is due: the commit is old or ahead, or the drift is spent. -/
def refreshDue (live : LiveNoveltyGate) (ptsMs : UInt64) : Bool :=
  live.lastCommitPtsMs.any (fun last ↦ ptsMs < last || live.maxReuseMs ≤ ptsMs - last) ||
    live.maxCumulativeDrift.le live.cumulativeDrift

/-- A redundant chunk adds to the drift, and is reused unless a refresh is due. -/
theorem evaluate_of_some {embedding : Embedding} (ptsMs : UInt64) {novelty : F32}
    (h : live.redundancy embedding = some novelty) :
    (live.evaluate embedding ptsMs).2 = { live with
      gate := (live.gate.evaluateDetailed .empty embedding 0).2.2
      cumulativeDrift := accumulate live.cumulativeDrift novelty } ∧
    (live.evaluate embedding ptsMs).1 =
      if (live.evaluate embedding ptsMs).2.refreshDue ptsMs then .forcedRefresh else .reuse := by
  have hparts : (live.gate.evaluateDetailed .empty embedding 0).1 = .drop ∧
      (live.gate.evaluateDetailed .empty embedding 0).2.1.fused = novelty := by
    unfold redundancy at h
    dsimp only at h
    split at h
    · next hdrop => exact ⟨hdrop, Option.some.inj h⟩
    · cases h
  simp only [evaluate]
  rw [if_neg (not_not.mpr hparts.1), hparts.2]
  exact ⟨rfl, rfl⟩

/-- A gate that is made is configured, with its admission threshold at most one. -/
theorem configured_tryNew (h : tryNew config = .ok live) :
    Configured config live ∧ (gateConfig config).tauHi.le .one = true ∧
      live.lastCommitPtsMs = none := by
  obtain ⟨gate, hgate, hlive⟩ := bind_eq_ok h
  obtain ⟨_, hvalid, hmade⟩ := bind_eq_ok hgate
  cases hlive
  cases hmade
  constructor
  · have hzero : F32.zero.isNan = false := by decide
    exact ⟨rfl, rfl, rfl, rfl, hzero, fun _ ↦ rfl⟩
  · have hrange := (guard_eq_ok (guard_eq_ok (guard_eq_ok hvalid).2).2).1
    have hhigh := List.any_eq_false.mp (eq_false_of_ne_true hrange) (gateConfig config).tauHi
      (List.mem_cons_of_mem _ List.mem_cons_self)
    have hunit := (Bool.or_eq_false_iff.mp (eq_false_of_ne_true hhigh)).2
    exact ⟨(Bool.and_eq_true_iff.mp (Bool.not_eq_eq_eq_not.mp hunit)).2, rfl⟩

/-- Calls keep the settings. -/
theorem configured_step (h : Configured config live) (op : ReuseOp) :
    Configured config (live.step op) := by
  cases op with
  | evaluate embedding ptsMs =>
    have hkeeps := live.gate.evaluateDetailed_keeps .empty embedding 0
    have hgate : (live.gate.evaluateDetailed .empty embedding 0).2.2.cfg = gateConfig config :=
      hkeeps.1.trans h.cfg
    have hdim := (congrArg KeptRing.dim hkeeps.2).trans h.dim
    have hfresh := fun hnone ↦ (congrArg KeptRing.len hkeeps.2).trans (h.fresh hnone)
    cases hredundant : live.redundancy embedding with
    | none =>
      rw [step, evaluate_of_none ptsMs hredundant]
      exact ⟨hgate, hdim, h.reuse, h.drift, h.number, hfresh⟩
    | some novelty =>
      rw [step, (evaluate_of_some ptsMs hredundant).1]
      exact ⟨hgate, hdim, h.reuse, h.drift, accumulate_isNan _ _, hfresh⟩
  | commit embedding ptsMs =>
    have hzero : F32.zero.isNan = false := by decide
    exact ⟨h.cfg, h.dim, h.reuse, h.drift, hzero, fun hnone ↦ absurd hnone (Option.some_ne_none _)⟩

theorem configured_run (h : Configured config live) (ops : List ReuseOp) :
    Configured config (live.run ops) := by
  induction ops generalizing live with
  | nil => exact h
  | cons op ops ih => exact ih (configured_step h op)

/-- Without a commit, a run leaves the anchor and adds its novelties to the drift. -/
theorem run_without_commit {ops : List ReuseOp} (h : ∀ op ∈ ops, op.isCommit = false) :
    (live.run ops).lastCommitPtsMs = live.lastCommitPtsMs ∧
      (live.run ops).cumulativeDrift = (live.novelties ops).foldl accumulate live.cumulativeDrift := by
  induction ops generalizing live with
  | nil => exact ⟨rfl, rfl⟩
  | cons op ops ih =>
    have hrest := @ih (live.step op) fun op hop ↦ h op (List.mem_cons_of_mem _ hop)
    cases op with
    | commit embedding ptsMs =>
      have hcommit : true = false := h _ List.mem_cons_self
      exact Bool.noConfusion hcommit
    | evaluate embedding ptsMs =>
      cases hredundant : live.redundancy embedding with
      | none =>
        have hstep : (live.step (.evaluate embedding ptsMs)).lastCommitPtsMs = live.lastCommitPtsMs ∧
            (live.step (.evaluate embedding ptsMs)).cumulativeDrift = live.cumulativeDrift := by
          rw [step, evaluate_of_none ptsMs hredundant]
          exact ⟨rfl, rfl⟩
        rw [novelties, hredundant]
        exact ⟨hrest.1.trans hstep.1, hrest.2.trans (by rw [hstep.2]; rfl)⟩
      | some novelty =>
        have hstep : (live.step (.evaluate embedding ptsMs)).lastCommitPtsMs = live.lastCommitPtsMs ∧
            (live.step (.evaluate embedding ptsMs)).cumulativeDrift =
              accumulate live.cumulativeDrift novelty := by
          rw [step, (evaluate_of_some ptsMs hredundant).1]
          exact ⟨rfl, rfl⟩
        rw [novelties, hredundant]
        exact ⟨hrest.1.trans hstep.1, hrest.2.trans (by rw [hstep.2]; rfl)⟩

/-- A sequence has no commit, or a last one. -/
theorem exists_last_commit (ops : List ReuseOp) : (∀ op ∈ ops, op.isCommit = false) ∨
    ∃ before embedding ptsMs after, ops = before ++ .commit embedding ptsMs :: after ∧
      ∀ op ∈ after, op.isCommit = false := by
  induction ops with
  | nil => exact .inl fun op hop ↦ absurd hop List.not_mem_nil
  | cons op ops ih =>
    rcases ih with hnone | ⟨before, embedding, ptsMs, after, rfl, hafter⟩
    · cases op with
      | commit embedding ptsMs => exact .inr ⟨[], embedding, ptsMs, ops, rfl, hnone⟩
      | evaluate embedding ptsMs => exact .inl (List.forall_mem_cons.mpr ⟨rfl, hnone⟩)
    · exact .inr ⟨op :: before, embedding, ptsMs, after, rfl, hafter⟩

/-- A row that is not finite is not redundant. -/
theorem redundancy_not_finite (h : Configured config live)
    (htau : (gateConfig config).tauHi.le .one = true) {embedding : Embedding}
    (hnot : ∃ x ∈ embedding.val, x.isFinite = false) : live.redundancy embedding = none := by
  have hfused := NoveltyGate.fused_not_finite (by rw [h.cfg]; rfl) (by rw [h.cfg]; rfl)
    (by rw [h.cfg]; rfl) .empty 0 (by rw [embedding.property, h.dim]) hnot
  have hkept := NoveltyGate.decision_ne_drop (by rw [h.cfg]; exact htau) .empty embedding 0 hfused
  simp [redundancy, hkept]

/-- In an empty window nothing is redundant. -/
theorem redundancy_fresh (h : Configured config live)
    (htau : (gateConfig config).tauHi.le .one = true) (embedding : Embedding)
    (hfresh : live.lastCommitPtsMs = none) : live.redundancy embedding = none := by
  have hfused : (live.gate.breakdown .empty embedding 0).fused = .one := by
    simp only [NoveltyGate.breakdown]
    rw [if_pos (h.fresh hfresh), h.cfg]
    dsimp only [gateConfig]
    decide
  have hkept := NoveltyGate.decision_ne_drop (by rw [h.cfg]; exact htau) .empty embedding 0
    (.inl hfused)
  simp [redundancy, hkept]

/-- A reuse is not past the bounds of its gate. -/
theorem not_refreshDue {ptsMs last : UInt64} (hlast : live.lastCommitPtsMs = some last)
    (h : live.refreshDue ptsMs = false) : last ≤ ptsMs ∧ ptsMs - last < live.maxReuseMs ∧
      live.maxCumulativeDrift.le live.cumulativeDrift = false := by
  unfold refreshDue at h
  rw [hlast] at h
  obtain ⟨htime, hdrift⟩ := Bool.or_eq_false_iff.mp h
  obtain ⟨hahead, hold⟩ := Bool.or_eq_false_iff.mp htime
  refine ⟨?_, ?_, hdrift⟩
  · exact UInt64.not_lt.mp (of_decide_eq_false hahead)
  · exact UInt64.not_le.mp (of_decide_eq_false hold)

/-- What a reuse rests on: the last commit, recent enough, and the novelty of every redundant chunk
since it, this one included. -/
def Bounded (config : LiveNoveltyConfig) (live : LiveNoveltyGate) (ops : List ReuseOp)
    (embedding : Embedding) (ptsMs : UInt64) : Prop :=
  ∃ before anchor anchorPts after, ops = before ++ .commit anchor anchorPts :: after ∧
    (∀ op ∈ after, op.isCommit = false) ∧ anchorPts ≤ ptsMs ∧
    ptsMs - anchorPts < config.maxReuseMs ∧
    (accumulated ((live.run (before ++ [.commit anchor anchorPts])).novelties
      (after ++ [.evaluate embedding ptsMs]))).lt config.maxCumulativeDrift = true

/-- Reuse is bounded in time and drift in every sequence of calls, and a chunk that is not finite is
always run. -/
theorem reuse_bounded (h : tryNew config = .ok live)
    (hdrift : config.maxCumulativeDrift.isNan = false) (ops : List ReuseOp) (embedding : Embedding)
    (ptsMs : UInt64) :
    (((live.run ops).evaluate embedding ptsMs).1 = .reuse →
      Bounded config live ops embedding ptsMs) ∧
    ((∃ x ∈ embedding.val, x.isFinite = false) →
      ((live.run ops).evaluate embedding ptsMs).1 = .run) := by
  obtain ⟨hnew, htau, hfresh⟩ := configured_tryNew h
  have hrun := configured_run hnew ops
  constructor
  · intro hreuse
    cases hredundant : (live.run ops).redundancy embedding with
    | none =>
      rw [evaluate_of_none ptsMs hredundant] at hreuse
      exact LiveNoveltyOutcome.noConfusion hreuse
    | some novelty =>
      rw [(evaluate_of_some ptsMs hredundant).2] at hreuse
      have hnotDue : ((live.run ops).step (.evaluate embedding ptsMs)).refreshDue ptsMs = false := by
        apply eq_false_of_ne_true
        intro hdue
        rw [step] at hdue
        rw [if_pos hdue] at hreuse
        exact LiveNoveltyOutcome.noConfusion hreuse
      rcases exists_last_commit ops with hnone | ⟨before, anchor, anchorPts, after, rfl, hafter⟩
      · have hlast := (run_without_commit hnone).1.trans hfresh
        rw [redundancy_fresh hrun htau embedding hlast] at hredundant
        exact absurd hredundant (Option.some_ne_none _).symm
      · have hend : ∀ op ∈ after ++ [.evaluate embedding ptsMs], op.isCommit = false :=
          List.forall_mem_append.mpr ⟨hafter, List.forall_mem_singleton.mpr rfl⟩
        have htrack := @run_without_commit (live.run (before ++ [.commit anchor anchorPts])) _ hend
        have hfinal : (live.run (before ++ .commit anchor anchorPts :: after)).step
            (.evaluate embedding ptsMs) = (live.run (before ++ [.commit anchor anchorPts])).run
              (after ++ [.evaluate embedding ptsMs]) := by
          simp only [run, List.foldl_append, List.foldl_cons, List.foldl_nil]
        have hcommit : (live.run (before ++ [.commit anchor anchorPts])).lastCommitPtsMs =
            some anchorPts ∧
            (live.run (before ++ [.commit anchor anchorPts])).cumulativeDrift = .zero := by
          simp only [run, List.foldl_append, List.foldl_cons, List.foldl_nil]
          exact ⟨rfl, rfl⟩
        have hkept := configured_step hrun (.evaluate embedding ptsMs)
        rw [hfinal] at hnotDue hkept
        obtain ⟨hle, hage, hspent⟩ := not_refreshDue (htrack.1.trans hcommit.1) hnotDue
        rw [hkept.reuse] at hage
        rw [hkept.drift] at hspent
        have hbelow := F32.lt_of_not_le hdrift hkept.number hspent
        rw [htrack.2, hcommit.2] at hbelow
        exact ⟨before, anchor, anchorPts, after, rfl, hafter, hle, hage, hbelow⟩
  · intro hnot
    rw [evaluate_of_none ptsMs (redundancy_not_finite hrun htau hnot)]

/-! ### The default settings -/

/-- The default settings with a given drift. -/
def defaultConfig (drift : F32) : LiveNoveltyConfig := ⟨2000, drift, ⟨0x3C23D70A⟩⟩

/-- The gate of the default settings. -/
def defaultGate (drift : F32) : LiveNoveltyGate :=
  ⟨⟨gateConfig (defaultConfig drift), .new 1 EMBEDDING_DIM, 0, 0, 0, 0, 0⟩, 2000, drift, none, .zero⟩

/-- The first unit vector. -/
def axis : Embedding :=
  ⟨.one :: List.replicate 767 .zero, by rw [List.length_cons, List.length_replicate]; rfl⟩

theorem tryNew_default (drift : F32) : tryNew (defaultConfig drift) = .ok (defaultGate drift) := by
  have hvalid : (gateConfig (defaultConfig .one)).validate = .ok () := by decide
  have hsame : gateConfig (defaultConfig drift) = gateConfig (defaultConfig .one) := rfl
  rw [tryNew, NoveltyGate.tryNew, hsame, hvalid]
  rfl

private theorem foldl_replicate {α β : Type} {f : α → β → α} {a : α} {b : β} (h : f a b = a)
    (n : Nat) : (List.replicate n b).foldl f a = a := by
  induction n with
  | zero => rfl
  | succ n ih => rw [List.replicate_succ, List.foldl_cons, h, ih]

/-- The quantised axis. -/
private def axisRow : List Int := 127 :: List.replicate 767 0

private theorem quantizeUnitInto_axis :
    quantizeUnitInto axis.val EMBEDDING_DIM = (axisRow, ⟨0x3C010204⟩) := by
  have hused : axis.val.take EMBEDDING_DIM = axis.val := List.take_of_length_le axis.property.le
  have hnorm : normSq axis.val = .one := by
    have hfirst : F32.zero.add (F32.one.mul .one) = .one := by decide
    rw [normSq, axis, List.foldl_cons, hfirst]
    exact foldl_replicate (by decide) 767
  have hinverse : F32.one.div F32.one.sqrt = .one := by decide +kernel
  have hlargest : maxAbs .one axis.val = .one := by
    have hfirst : (F32.one.mul .one).abs = .one := by decide
    rw [maxAbs, axis, List.foldl_cons]
    simp only [hfirst]
    exact foldl_replicate (by decide) 767
  have hscale : (if F32.zero.lt .one then F32.one.div (.ofInt 127) else .one) = ⟨0x3C010204⟩ := by
    decide
  simp only [quantizeUnitInto, hused, hnorm, hinverse, hlargest, hscale, axis.property]
  have hlanes : axis.val.map (quantizeLane .one (F32.one.div ⟨0x3C010204⟩)) =
      axisRow := by
    have hfirst : quantizeLane .one (F32.one.div ⟨0x3C010204⟩) .one = 127 := by decide
    have hrest : quantizeLane .one (F32.one.div ⟨0x3C010204⟩) .zero = 0 := by decide
    rw [axis, List.map_cons, List.map_replicate, hfirst, hrest, axisRow]
  rw [if_neg (by decide), hlanes, Nat.sub_self, List.replicate_zero, List.append_nil]

private theorem redundancy_of_low {embedding : Embedding} {novelty : F32}
    (hfused : (live.gate.breakdown .empty embedding 0).fused = novelty)
    (hhigh : live.gate.cfg.tauHi.le novelty = false)
    (hlow : novelty.le live.gate.cfg.tauLo = true) :
    live.redundancy embedding = some novelty := by
  have hsame : ({ live.gate with evaluated := live.gate.evaluated + 1 } : NoveltyGate).breakdown
      .empty embedding 0 = live.gate.breakdown .empty embedding 0 := rfl
  simp [redundancy, NoveltyGate.evaluateDetailed, hsame, hfused, hhigh, hlow]

/-- The window after a commit of the axis. -/
private def axisRing : KeptRing :=
  ⟨EMBEDDING_DIM, 1, 1, 0, [.empty], [axisRow], [⟨0x3C010204⟩], [0]⟩

private theorem dotI8_axisRow : dotI8 axisRow axisRow = 16129 := by
  rw [dotI8, axisRow, List.zip_cons_cons, List.zip_replicate, List.foldl_cons]
  exact foldl_replicate (by decide) _

private theorem bestMatch_axis :
    NoveltyGate.bestMatch axisRing .empty axisRow ⟨0x3C010204⟩ 0 = (.one, .one, 0) := by
  have hlen : axisRing.len = 1 := rfl
  simp only [NoveltyGate.bestMatch, hlen, List.range_one, List.foldl_cons, List.foldl_nil]
  rw [show axisRing.embedQ.getD 0 [] = axisRow from rfl, dotI8_axisRow]
  decide

private theorem push_axis :
    (KeptRing.new 1 EMBEDDING_DIM).push .empty axisRow ⟨0x3C010204⟩ 0 = axisRing := rfl

private theorem ring_axis (drift : F32) :
    ((defaultGate drift).run [.commit axis 0]).gate.ring = axisRing := by
  have hcommit : ((defaultGate drift).run [.commit axis 0]).gate =
      (defaultGate drift).gate.commit .empty axis 0 := rfl
  rw [hcommit, NoveltyGate.commit]
  rw [show (defaultGate drift).gate.ring.dim = EMBEDDING_DIM from rfl, quantizeUnitInto_axis]
  exact push_axis

/-- A vector that was just committed is redundant. -/
private theorem redundancy_axis (drift : F32) :
    ((defaultGate drift).run [.commit axis 0]).redundancy axis = some .zero := by
  have hcfg := (configured_run (configured_tryNew (tryNew_default drift)).1 [.commit axis 0]).cfg
  have hfused : (((defaultGate drift).run [.commit axis 0]).gate.breakdown .empty axis 0).fused =
      .zero := by
    have hdim : axisRing.dim = EMBEDDING_DIM := rfl
    have hlen : ¬ axisRing.len = 0 := by decide
    rw [NoveltyGate.breakdown, ring_axis, hcfg, hdim, quantizeUnitInto_axis]
    dsimp only
    rw [if_neg hlen, bestMatch_axis]
    dsimp only [gateConfig]
    decide
  apply redundancy_of_low hfused
  · rw [hcfg]
    dsimp only [gateConfig, defaultConfig]
    decide
  · rw [hcfg]
    dsimp only [gateConfig, defaultConfig]
    decide

/-- The bounds at the defaults: a repeated vector is reused. -/
theorem reuse_bounded_default :
    (((defaultGate ⟨0x3F000000⟩).run [.commit axis 0]).evaluate axis 40).1 = .reuse ∧
      Bounded (defaultConfig ⟨0x3F000000⟩) (defaultGate ⟨0x3F000000⟩) [.commit axis 0] axis 40 := by
  have hreuse : (((defaultGate ⟨0x3F000000⟩).run [.commit axis 0]).evaluate axis 40).1 = .reuse := by
    have h := evaluate_of_some 40 (redundancy_axis ⟨0x3F000000⟩)
    rw [h.2, h.1]
    decide
  exact ⟨hreuse, (reuse_bounded (tryNew_default ⟨0x3F000000⟩) (by decide) [.commit axis 0] axis
    40).1 hreuse⟩

/-- A drift bound of NaN is accepted and bounds nothing. -/
theorem reuse_unbounded_nan : tryNew (defaultConfig .nan) = .ok (defaultGate .nan) ∧
    (((defaultGate .nan).run [.commit axis 0]).evaluate axis 40).1 = .reuse ∧
    ¬ Bounded (defaultConfig .nan) (defaultGate .nan) [.commit axis 0] axis 40 := by
  have h := evaluate_of_some 40 (redundancy_axis .nan)
  refine ⟨tryNew_default .nan, ?_, ?_⟩
  · rw [h.2, h.1]
    decide
  rintro ⟨before, anchor, anchorPts, after, _, _, _, _, hbelow⟩
  exact absurd hbelow (by rw [show (defaultConfig .nan).maxCumulativeDrift = .nan from rfl,
    (F32.comparison_nan _).2.2.1]; decide)

end LiveNoveltyGate

end Vidarax.Live
