import Vidarax.Base.FloatArith
import Vidarax.Base.Machine

/-!
# The novelty gate

Package `vidarax-core`, `crates/vidarax-core/src/novelty.rs`. Embeddings are normalised and quantised
to eight bits, compared with those of the last kept chunks, and the distances are fused into one
score. The live gate uses the embedding alone, and bounds for how long and over how much drift a
description is reused. Rows of the window are lists, and the sum of a dot product does not overflow.
-/

namespace Vidarax.Live

open Vidarax.Base

/-- `EMBEDDING_DIM`; `embedding_sidecar.rs:8`. -/
def EMBEDDING_DIM : Nat := 768

/-- `MINHASH_SLOTS`; `novelty.rs:15`. -/
def MINHASH_SLOTS : Nat := 64

/-- `MinHashSig`; `novelty.rs:84`. -/
structure MinHashSig where
  slots : List UInt32

/-- `MinHashSig::empty`. -/
def MinHashSig.empty : MinHashSig := ⟨List.replicate MINHASH_SLOTS 0xFFFFFFFF⟩

/-- `MinHashSig::jaccard`; `novelty.rs:135`. -/
def MinHashSig.jaccard (a b : MinHashSig) : F32 :=
  (F32.ofInt ((a.slots.zip b.slots).countP fun (x, y) ↦ x = y)).div (F32.ofInt MINHASH_SLOTS)

/-! ### Quantisation -/

/-- `dot_i8`; `novelty.rs:382`. -/
def dotI8 (a b : List Int) : Int := (a.zip b).foldl (fun acc (x, y) ↦ acc + x * y) 0

/-- Sum of the squares, in order. -/
def normSq (used : List F32) : F32 := used.foldl (fun sum x ↦ sum.add (x.mul x)) .zero

/-- Largest magnitude after normalisation. -/
def maxAbs (invNorm : F32) (used : List F32) : F32 :=
  used.foldl (fun largest x ↦
    let u := (x.mul invNorm).abs
    if largest.lt u then u else largest) .zero

/-- One lane of a quantised row. -/
def quantizeLane (invNorm invScale x : F32) : Int :=
  ((((x.mul invNorm).mul invScale).round).clamp (.ofInt (-127)) (.ofInt 127)).toI8

/-- `quantize_unit_into` for a row of `dim` lanes: the row and its scale; `novelty.rs:403`. -/
def quantizeUnitInto (src : List F32) (dim : Nat) : List Int × F32 :=
  let used := src.take dim
  let rest := List.replicate (dim - used.length) 0
  if (normSq used).le .minPositive then (List.replicate used.length 0 ++ rest, .one)
  else
    let invNorm := F32.one.div (normSq used).sqrt
    let largest := maxAbs invNorm used
    let scale := if F32.zero.lt largest then largest.div (.ofInt 127) else .one
    let invScale := F32.one.div scale
    (used.map (quantizeLane invNorm invScale) ++ rest, scale)

/-! ### The window of kept chunks -/

/-- `KeptRing`; `novelty.rs:325`. -/
structure KeptRing where
  dim : Nat
  cap : Nat
  len : Nat
  head : Nat
  minhash : List MinHashSig
  embedQ : List (List Int)
  embedScale : List F32
  phash : List UInt64

namespace KeptRing

/-- `KeptRing::new`. -/
def new (cap dim : Nat) : KeptRing :=
  let cap := max cap 1
  ⟨dim, cap, 0, 0, List.replicate cap .empty, List.replicate cap (List.replicate dim 0),
    List.replicate cap .zero, List.replicate cap 0⟩

/-- `KeptRing::push`. -/
def push (ring : KeptRing) (sig : MinHashSig) (q : List Int) (scale : F32) (phash : UInt64) :
    KeptRing :=
  { ring with
    minhash := ring.minhash.set ring.head sig
    embedQ := ring.embedQ.set ring.head q
    embedScale := ring.embedScale.set ring.head scale
    phash := ring.phash.set ring.head phash
    head := (ring.head + 1) % ring.cap
    len := if ring.len < ring.cap then ring.len + 1 else ring.len }

end KeptRing

/-! ### The generic gate -/

/-- `NoveltyDecision`; `novelty.rs:152`. -/
inductive NoveltyDecision where
  | drop
  | escalate (novelty : F32)
  | admitted (novelty : F32)
  deriving DecidableEq

/-- `NoveltyConfig`; `novelty.rs:185`. -/
structure NoveltyConfig where
  wText : F32
  wEmbed : F32
  wPhash : F32
  tauHi : F32
  tauLo : F32
  window : Nat

/-- `NoveltyConfigError`; `novelty.rs:246`. -/
inductive NoveltyConfigError where
  | weightNotFiniteNonNegative
  | weightSumNotPositive
  | thresholdOutOfRange
  | thresholdsNotOrdered
  | windowEmpty
  deriving DecidableEq

/-- `NoveltyConfig::validate`; `novelty.rs:280`. -/
def NoveltyConfig.validate (cfg : NoveltyConfig) : Except NoveltyConfigError Unit :=
  if [cfg.wText, cfg.wEmbed, cfg.wPhash].any fun w ↦ !w.isFinite || w.lt .zero then
    .error .weightNotFiniteNonNegative
  else if ((cfg.wText.add cfg.wEmbed).add cfg.wPhash).le .zero then .error .weightSumNotPositive
  else if [cfg.tauLo, cfg.tauHi].any fun t ↦ !t.isFinite || !(F32.zero.le t && t.le .one) then
    .error .thresholdOutOfRange
  else if cfg.tauHi.le cfg.tauLo then .error .thresholdsNotOrdered
  else if cfg.window = 0 then .error .windowEmpty
  else .ok ()

/-- `NoveltyBreakdown`; `novelty.rs:309`. -/
structure NoveltyBreakdown where
  nText : F32
  nEmbed : F32
  nPhash : F32
  fused : F32

/-- `NoveltyGate`; `novelty.rs:437`. -/
structure NoveltyGate where
  cfg : NoveltyConfig
  ring : KeptRing
  evaluated : Nat
  dropped : Nat
  escalated : Nat
  admitted : Nat
  committed : Nat

namespace NoveltyGate

/-- `NoveltyGate::try_new`; `novelty.rs:471`. -/
def tryNew (cfg : NoveltyConfig) (embedDim : Nat) : Except NoveltyConfigError NoveltyGate := do
  cfg.validate
  .ok ⟨cfg, .new cfg.window embedDim, 0, 0, 0, 0, 0⟩

/-- `0.0..=1.0`. -/
def unit (x : F32) : F32 := x.clamp .zero .one

/-- Best match of a candidate in the window: largest Jaccard similarity, largest cosine, smallest
Hamming distance. -/
def bestMatch (ring : KeptRing) (sig : MinHashSig) (q : List Int) (scale : F32) (phash : UInt64) :
    F32 × F32 × Nat :=
  (List.range ring.len).foldl (fun (maxJaccard, maxCosine, minHamming) slot ↦
    let j := sig.jaccard (ring.minhash.getD slot .empty)
    let dot := dotI8 q (ring.embedQ.getD slot [])
    let cosine := ((F32.ofInt dot).mul scale).mul (ring.embedScale.getD slot .zero)
    let hd := countOnes (phash ^^^ ring.phash.getD slot 0)
    (if maxJaccard.lt j then j else maxJaccard, if maxCosine.lt cosine then cosine else maxCosine,
      if hd < minHamming then hd else minHamming))
    (.zero, .ofInt (-1), u32Max)

/-- The scores of a candidate. -/
def breakdown (gate : NoveltyGate) (sig : MinHashSig) (embedding : List F32) (phash : UInt64) :
    NoveltyBreakdown :=
  let (q, scale) := quantizeUnitInto embedding gate.ring.dim
  if gate.ring.len = 0 then
    ⟨.one, .one, .one, unit ((gate.cfg.wText.add gate.cfg.wEmbed).add gate.cfg.wPhash)⟩
  else
    let (maxJaccard, maxCosine, minHamming) := bestMatch gate.ring sig q scale phash
    let nText := unit (F32.one.sub maxJaccard)
    let nEmbed := unit (F32.one.sub maxCosine)
    let nPhash := unit ((F32.ofInt minHamming).div (.ofInt 64))
    ⟨nText, nEmbed, nPhash, unit (((gate.cfg.wText.mul nText).add (gate.cfg.wEmbed.mul nEmbed)).add
      (gate.cfg.wPhash.mul nPhash))⟩

/-- `evaluate_detailed`; `novelty.rs:490`. -/
def evaluateDetailed (gate : NoveltyGate) (sig : MinHashSig) (embedding : List F32)
    (phash : UInt64) : NoveltyDecision × NoveltyBreakdown × NoveltyGate :=
  let gate := { gate with evaluated := gate.evaluated + 1 }
  let breakdown := gate.breakdown sig embedding phash
  let n := breakdown.fused
  if gate.cfg.tauHi.le n then (.admitted n, breakdown, { gate with admitted := gate.admitted + 1 })
  else if n.le gate.cfg.tauLo then (.drop, breakdown, { gate with dropped := gate.dropped + 1 })
  else (.escalate n, breakdown, { gate with escalated := gate.escalated + 1 })

/-- `commit`; `novelty.rs:571`. -/
def commit (gate : NoveltyGate) (sig : MinHashSig) (embedding : List F32) (phash : UInt64) :
    NoveltyGate :=
  let (q, scale) := quantizeUnitInto embedding gate.ring.dim
  { gate with ring := gate.ring.push sig q scale phash, committed := gate.committed + 1 }

end NoveltyGate

/-! ### The live gate -/

/-- What the gate reads of `LiveNoveltyConfig`; `novelty.rs:215`. -/
structure LiveNoveltyConfig where
  maxReuseMs : UInt64
  maxCumulativeDrift : F32
  reuseThreshold : F32

/-- `LiveNoveltyOutcome`; `novelty.rs:644`. -/
inductive LiveNoveltyOutcome where
  | reuse
  | run
  | forcedRefresh
  deriving DecidableEq

/-- `[f32; EMBEDDING_DIM]`. -/
abbrev Embedding : Type := { components : List F32 // components.length = EMBEDDING_DIM }

/-- `LiveNoveltyGate`; `novelty.rs:651`. -/
structure LiveNoveltyGate where
  gate : NoveltyGate
  maxReuseMs : UInt64
  maxCumulativeDrift : F32
  lastCommitPtsMs : Option UInt64
  cumulativeDrift : F32

namespace LiveNoveltyGate

/-- Configuration of the gate inside. -/
def gateConfig (config : LiveNoveltyConfig) : NoveltyConfig where
  wText := .zero
  wEmbed := .one
  wPhash := .zero
  tauHi := (config.reuseThreshold.add .one).mul ⟨0x3F000000⟩
  tauLo := config.reuseThreshold
  window := 1

/-- `LiveNoveltyGate::try_new`; `novelty.rs:660`. -/
def tryNew (config : LiveNoveltyConfig) : Except NoveltyConfigError LiveNoveltyGate := do
  let gate ← NoveltyGate.tryNew (gateConfig config) EMBEDDING_DIM
  .ok ⟨gate, config.maxReuseMs, config.maxCumulativeDrift, none, .zero⟩

/-- The novelty of one more redundant chunk. -/
def accumulate (drift novelty : F32) : F32 := (drift.add novelty).minimum .maximum

/-- `LiveNoveltyGate::evaluate`; `novelty.rs:678`. -/
def evaluate (live : LiveNoveltyGate) (embedding : Embedding) (ptsMs : UInt64) :
    LiveNoveltyOutcome × LiveNoveltyGate :=
  let (decision, breakdown, gate) := live.gate.evaluateDetailed .empty embedding 0
  let live := { live with gate := gate }
  if decision ≠ .drop then (.run, live)
  else
    let live := { live with cumulativeDrift := accumulate live.cumulativeDrift breakdown.fused }
    let refreshDue := live.lastCommitPtsMs.any (fun last ↦
        ptsMs < last || live.maxReuseMs ≤ ptsMs - last) ||
      live.maxCumulativeDrift.le live.cumulativeDrift
    (if refreshDue then .forcedRefresh else .reuse, live)

/-- `LiveNoveltyGate::commit`; `novelty.rs:703`. -/
def commit (live : LiveNoveltyGate) (embedding : Embedding) (ptsMs : UInt64) : LiveNoveltyGate :=
  { live with
    gate := live.gate.commit .empty embedding 0
    lastCommitPtsMs := some ptsMs
    cumulativeDrift := .zero }

end LiveNoveltyGate

end Vidarax.Live
