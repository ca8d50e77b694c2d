import Vidarax.Base.FloatMax
import Vidarax.Novelty.Ring

/-!
# The window of the novelty gate

Package `vidarax-core`, `crates/vidarax-core/src/novelty.rs:437–587`. A candidate is scored against the
rows in use, whatever their order and whatever the lane and the other slots hold. The scores are those
of the last committed candidates, each quantised on its own.
-/

namespace Vidarax.Novelty

open Vidarax.Base F32
open Live (MinHashSig NoveltyConfig NoveltyBreakdown NoveltyDecision quantizeUnitInto)

/-! ### Scores -/

/-- What is evaluated or committed. -/
structure Candidate where
  sig : MinHashSig
  embedding : List F32
  phash : UInt64

/-- A candidate as a row of its own. -/
def Candidate.row (dim : Nat) (c : Candidate) : Row :=
  ⟨c.sig, (quantizeUnitInto c.embedding dim).1, (quantizeUnitInto c.embedding dim).2, c.phash⟩

/-- `0.0..=1.0`. -/
def unit (x : F32) : F32 := x.clamp .zero .one

/-- Cosine of two quantised rows. -/
def cosine (q : List Int) (scale : F32) (row : Row) : F32 :=
  ((F32.ofInt (dotI32 q row.q)).mul scale).mul row.scale

/-- The scores of a candidate without anything to compare it with; `novelty.rs:502`. -/
def maximallyNovel (cfg : NoveltyConfig) : NoveltyBreakdown :=
  ⟨.one, .one, .one, unit ((cfg.wText.add cfg.wEmbed).add cfg.wPhash)⟩

/-- The scores of the best match; `novelty.rs:531`. -/
def fuse (cfg : NoveltyConfig) (maxJaccard maxCosine : F32) (minHamming : Nat) : NoveltyBreakdown :=
  let nText := unit (F32.one.sub maxJaccard)
  let nEmbed := unit (F32.one.sub maxCosine)
  let nPhash := unit ((F32.ofInt minHamming).div (.ofInt 64))
  ⟨nText, nEmbed, nPhash, unit (((cfg.wText.mul nText).add (cfg.wEmbed.mul nEmbed)).add
    (cfg.wPhash.mul nPhash))⟩

/-! ### The gate -/

/-- `NoveltyGate`; `novelty.rs:437`. -/
structure NoveltyGate where
  cfg : NoveltyConfig
  ring : KeptRing
  scratchQ : List Int
  evaluated : Nat
  dropped : Nat
  escalated : Nat
  admitted : Nat
  committed : Nat

namespace NoveltyGate

/-- `NoveltyGate::new`; `novelty.rs:456`. -/
def new (cfg : NoveltyConfig) (embedDim : Nat) : NoveltyGate :=
  ⟨cfg, .new cfg.window embedDim, List.replicate embedDim 0, 0, 0, 0, 0, 0⟩

/-- The loop over the slots in use: largest Jaccard similarity, largest cosine, smallest Hamming
distance; `novelty.rs:512`. -/
def bestMatch (gate : NoveltyGate) (sig : MinHashSig) (candScale : F32) (phash : UInt64) :
    F32 × F32 × Nat :=
  (List.range gate.ring.len).foldl (fun (maxJaccard, maxCosine, minHamming) slot ↦
    let j := sig.jaccard (gate.ring.row slot).sig
    let c := cosine gate.scratchQ candScale (gate.ring.row slot)
    let hd := countOnes (phash ^^^ (gate.ring.row slot).phash)
    (if maxJaccard.lt j then j else maxJaccard, if maxCosine.lt c then c else maxCosine,
      if hd < minHamming then hd else minHamming)) (.zero, .ofInt (-1), u32Max)

/-- The ruling on some scores; `novelty.rs:547`. -/
def rule (gate : NoveltyGate) (breakdown : NoveltyBreakdown) :
    NoveltyDecision × NoveltyBreakdown × NoveltyGate :=
  let n := breakdown.fused
  if gate.cfg.tauHi.le n then (.admitted n, breakdown, { gate with admitted := gate.admitted + 1 })
  else if n.le gate.cfg.tauLo then (.drop, breakdown, { gate with dropped := gate.dropped + 1 })
  else (.escalate n, breakdown, { gate with escalated := gate.escalated + 1 })

/-- `evaluate_detailed`; `novelty.rs:490`. -/
def evaluateDetailed (gate : NoveltyGate) (c : Candidate) :
    NoveltyDecision × NoveltyBreakdown × NoveltyGate :=
  let (scratchQ, candScale) := quantizeInto c.embedding gate.scratchQ
  let gate := { gate with scratchQ := scratchQ, evaluated := gate.evaluated + 1 }
  gate.rule (if gate.ring.len = 0 then maximallyNovel gate.cfg
    else
      let (maxJaccard, maxCosine, minHamming) := gate.bestMatch c.sig candScale c.phash
      fuse gate.cfg maxJaccard maxCosine minHamming)

/-- `commit`; `novelty.rs:571`. -/
def commit (gate : NoveltyGate) (c : Candidate) : NoveltyGate :=
  let (scratchQ, scale) := quantizeInto c.embedding gate.scratchQ
  { gate with
    scratchQ := scratchQ
    ring := gate.ring.push c.sig scratchQ scale c.phash
    committed := gate.committed + 1 }

/-- `reset`; `novelty.rs:580`. -/
def reset (gate : NoveltyGate) : NoveltyGate :=
  ⟨gate.cfg, gate.ring.clear, gate.scratchQ, 0, 0, 0, 0, 0⟩

end NoveltyGate

/-! ### Calls -/

/-- A call. -/
inductive Call where
  | evaluate (c : Candidate)
  | commit (c : Candidate)
  | reset

/-- The gate after one more call. -/
def NoveltyGate.apply (gate : NoveltyGate) : Call → NoveltyGate
  | .evaluate c => (gate.evaluateDetailed c).2.2
  | .commit c => gate.commit c
  | .reset => gate.reset

/-- A new gate after some calls. -/
def after (cfg : NoveltyConfig) (embedDim : Nat) (calls : List Call) : NoveltyGate :=
  calls.foldl NoveltyGate.apply (.new cfg embedDim)

/-- What was committed since the last reset, after one more call. -/
def recommit (committed : List Candidate) : Call → List Candidate
  | .evaluate _ => committed
  | .commit c => committed ++ [c]
  | .reset => []

/-- What was committed since the last reset. -/
def committedSince (calls : List Call) : List Candidate := calls.foldl recommit []

/-- The last of some candidates, at most as many as there is room for. -/
def lastCommitted (window : Nat) (calls : List Call) : List Candidate :=
  (committedSince calls).drop ((committedSince calls).length - window)

/-- The scores of a candidate against some others. -/
def directBreakdown (cfg : NoveltyConfig) (dim : Nat) (kept : List Candidate) (c : Candidate) :
    NoveltyBreakdown :=
  if kept = [] then maximallyNovel cfg
  else
    fuse cfg (greatest .zero (fun k ↦ c.sig.jaccard k.sig) kept)
      (greatest (.ofInt (-1)) (fun k ↦ cosine (c.row dim).q (c.row dim).scale (k.row dim)) kept)
      (kept.foldl (fun least k ↦ min least (countOnes (c.phash ^^^ k.phash))) u32Max)

/-! ### The state of the gate -/

variable {cfg : NoveltyConfig} {dim : Nat} {gate : NoveltyGate} {committed : List Candidate}

/-- A gate that has committed some candidates since it was made or reset. -/
structure Keeps (gate : NoveltyGate) (cfg : NoveltyConfig) (dim : Nat)
    (committed : List Candidate) : Prop where
  cfg_eq : gate.cfg = cfg
  scratch_length : gate.scratchQ.length = dim
  ring : gate.ring.Holds dim (max cfg.window 1) (committed.map (Candidate.row dim))
  counted : gate.evaluated = gate.dropped + gate.escalated + gate.admitted

theorem Keeps.quantizeInto_eq (h : Keeps gate cfg dim committed) (src : List F32) :
    quantizeInto src gate.scratchQ = quantizeUnitInto src dim := by
  rw [Novelty.quantizeInto_eq, h.scratch_length]

theorem keeps_new (cfg : NoveltyConfig) (dim : Nat) : Keeps (.new cfg dim) cfg dim [] where
  cfg_eq := rfl
  scratch_length := List.length_replicate
  ring := KeptRing.holds_new _ _
  counted := rfl

/-- A ruling returns the scores, and counts itself. -/
theorem rule_spec (gate : NoveltyGate) (breakdown : NoveltyBreakdown) :
    (gate.rule breakdown).2.1 = breakdown ∧
      ∃ dropped escalated admitted, (gate.rule breakdown).2.2 = { gate with
          dropped := dropped, escalated := escalated, admitted := admitted } ∧
        dropped + escalated + admitted = gate.dropped + gate.escalated + gate.admitted + 1 := by
  unfold NoveltyGate.rule
  dsimp only
  split
  · exact ⟨rfl, _, _, _, rfl, rfl⟩
  · split
    · exact ⟨rfl, _, _, _, rfl, by omega⟩
    · exact ⟨rfl, _, _, _, rfl, by omega⟩

theorem Keeps.evaluate (h : Keeps gate cfg dim committed) (c : Candidate) :
    Keeps (gate.evaluateDetailed c).2.2 cfg dim committed := by
  have hlength : (quantizeInto c.embedding gate.scratchQ).1.length = dim := by
    rw [h.quantizeInto_eq, length_quantizeUnitInto]
  have hcounted := h.counted
  obtain ⟨-, dropped, escalated, admitted, hgate, hsum⟩ := rule_spec { gate with
    scratchQ := (quantizeInto c.embedding gate.scratchQ).1, evaluated := gate.evaluated + 1 } _
  rw [NoveltyGate.evaluateDetailed, hgate]
  refine ⟨h.cfg_eq, hlength, h.ring, ?_⟩
  change gate.evaluated + 1 = dropped + escalated + admitted
  rw [hsum, hcounted]

theorem Keeps.commit (h : Keeps gate cfg dim committed) (c : Candidate) :
    Keeps (gate.commit c) cfg dim (committed ++ [c]) := by
  have hquantize := h.quantizeInto_eq c.embedding
  refine ⟨h.cfg_eq, ?_, ?_, h.counted⟩
  · change (quantizeInto c.embedding gate.scratchQ).1.length = dim
    rw [hquantize, length_quantizeUnitInto]
  · change (gate.ring.push c.sig (quantizeInto c.embedding gate.scratchQ).1
      (quantizeInto c.embedding gate.scratchQ).2 c.phash).Holds _ _ _
    rw [hquantize, List.map_append]
    exact h.ring.push (length_quantizeUnitInto _ _)

theorem Keeps.reset (h : Keeps gate cfg dim committed) : Keeps gate.reset cfg dim [] where
  cfg_eq := h.cfg_eq
  scratch_length := h.scratch_length
  ring := h.ring.clear
  counted := rfl

/-- Whatever the calls, the gate holds what was committed since the last reset. -/
theorem keeps_after (cfg : NoveltyConfig) (dim : Nat) (calls : List Call) :
    Keeps (after cfg dim calls) cfg dim (committedSince calls) := by
  induction calls using List.reverseRecOn with
  | nil => exact keeps_new cfg dim
  | append_singleton calls call ih =>
    rw [after, List.foldl_concat, committedSince, List.foldl_concat]
    cases call with
    | evaluate c => exact ih.evaluate c
    | commit c => exact ih.commit c
    | reset => exact ih.reset

/-! ### The scores -/

/-- The loop finds each of its three values on its own. -/
theorem bestMatch_eq (gate : NoveltyGate) (sig : MinHashSig) (candScale : F32) (phash : UInt64) :
    let rows := (List.range gate.ring.len).map gate.ring.row
    gate.bestMatch sig candScale phash =
      (greatest .zero (fun row ↦ sig.jaccard row.sig) rows,
        greatest (.ofInt (-1)) (cosine gate.scratchQ candScale) rows,
        rows.foldl (fun least row ↦ min least (countOnes (phash ^^^ row.phash))) u32Max) := by
  intro rows
  rw [NoveltyGate.bestMatch, greatest, greatest, List.foldl_map, List.foldl_map, List.foldl_map]
  generalize F32.zero = j, F32.ofInt (-1) = c, u32Max = hd
  induction List.range gate.ring.len generalizing j c hd with
  | nil => rfl
  | cons slot slots ih =>
    rw [List.foldl_cons, ih]
    have hmin (a b : Nat) : (if b < a then b else a) = min a b := by
      split <;> omega
    simp only [hmin, List.foldl_cons]

/-- Scores of rows in another order. -/
theorem fuse_perm (cfg : NoveltyConfig) (c : Row) {rows rows' : List Row} (h : rows.Perm rows') :
    fuse cfg (greatest .zero (fun row ↦ c.sig.jaccard row.sig) rows)
        (greatest (.ofInt (-1)) (cosine c.q c.scale) rows)
        (rows.foldl (fun least row ↦ min least (countOnes (c.phash ^^^ row.phash))) u32Max) =
      fuse cfg (greatest .zero (fun row ↦ c.sig.jaccard row.sig) rows')
        (greatest (.ofInt (-1)) (cosine c.q c.scale) rows')
        (rows'.foldl (fun least row ↦ min least (countOnes (c.phash ^^^ row.phash))) u32Max) := by
  have hjaccard := one_sub_eq (position_greatest_perm (fun row ↦ c.sig.jaccard row.sig) h
    (by decide : F32.zero.isNan = false))
  have hcosine := one_sub_eq (position_greatest_perm (cosine c.q c.scale) h
    (by decide +kernel : (F32.ofInt (-1)).isNan = false))
  have hhamming : rows.foldl (fun least row ↦ min least (countOnes (c.phash ^^^ row.phash))) u32Max =
      rows'.foldl (fun least row ↦ min least (countOnes (c.phash ^^^ row.phash))) u32Max :=
    h.foldl_eq' (fun _ _ _ _ _ ↦ Nat.min_right_comm _ _ _) _
  rw [fuse, fuse, hjaccard, hcosine, hhamming]

/-- What a gate says about a candidate is what its last committed candidates, each quantised on its
own, say about it. -/
theorem Keeps.breakdown_eq (h : Keeps gate cfg dim committed) (c : Candidate) :
    (gate.evaluateDetailed c).2.1 = directBreakdown cfg dim
      (committed.drop (committed.length - max cfg.window 1)) c := by
  have hperm := h.ring.perm
  rw [List.length_map, ← List.map_drop] at hperm
  rw [NoveltyGate.evaluateDetailed, (rule_spec _ _).1, directBreakdown, h.cfg_eq,
    h.quantizeInto_eq]
  generalize committed.drop (committed.length - max cfg.window 1) = kept at hperm ⊢
  have hlen : gate.ring.len = kept.length := by
    simpa using hperm.length_eq
  by_cases hkept : kept = []
  · rw [if_pos hkept, if_pos (by rw [hlen, hkept]; rfl)]
  · rw [if_neg hkept, if_neg (by rw [hlen, List.length_eq_zero_iff]; exact hkept)]
    have hfuse := fuse_perm cfg (c.row dim) hperm
    simp only [greatest, List.foldl_map (f := Candidate.row dim)] at hfuse
    rw [bestMatch_eq]
    exact hfuse

/-- Whatever the calls, a gate says about a candidate what the last candidates committed since the
last reset, at most as many as the window holds and at least one, say about it, each quantised on its
own, and each evaluation is counted as one ruling. -/
theorem evaluateDetailed_eq (cfg : NoveltyConfig) (dim : Nat) (calls : List Call) (c : Candidate) :
    ((after cfg dim calls).evaluateDetailed c).2.1 =
        directBreakdown cfg dim (lastCommitted (max cfg.window 1) calls) c ∧
      (after cfg dim calls).evaluated = (after cfg dim calls).dropped +
        (after cfg dim calls).escalated + (after cfg dim calls).admitted :=
  ⟨(keeps_after cfg dim calls).breakdown_eq c, (keeps_after cfg dim calls).counted⟩

/-- A configuration for text alone whose window has no size. -/
def windowless : NoveltyConfig := ⟨.one, .zero, .zero, ⟨0x3F400000⟩, ⟨0x3F000000⟩, 0⟩

/-- A chunk without text, embedding and picture. -/
def blank : Candidate := ⟨.empty, [], 0⟩

/-- A window without size keeps one candidate. -/
theorem windowless_keeps_one :
    ((after windowless 0 [.commit blank]).evaluateDetailed blank).2.1 ≠
      directBreakdown windowless 0 (lastCommitted windowless.window [.commit blank]) blank := by
  intro h
  have htext := congrArg NoveltyBreakdown.nText h
  revert htext
  decide +kernel

end Vidarax.Novelty
