import Vidarax.Base.Ring
import Vidarax.Live.Novelty

/-!
# The rows of the novelty window

Package `vidarax-core`, `crates/vidarax-core/src/novelty.rs:322–434`. Committed candidates live in four
parallel arrays, of which one holds the quantised rows one behind the other. A candidate is quantised
into a lane that the gate reuses.
-/

namespace Vidarax.Novelty

open Vidarax.Base
open Live (MinHashSig dotI8 normSq maxAbs quantizeLane quantizeUnitInto)

/-! ### Quantisation into a lane -/

/-- `quantize_unit_into`, on what the lane holds: the lane after it, and the scale;
`novelty.rs:404`. -/
def quantizeInto (src : List F32) (dst : List Int) : List Int × F32 :=
  let n := min src.length dst.length
  -- lanes that the source cannot fill
  let rest := (dst.drop n).map fun _ ↦ 0
  let used := src.take n
  if (normSq used).le .minPositive then ((dst.take n).map (fun _ ↦ 0) ++ rest, .one)
  else
    let invNorm := F32.one.div (normSq used).sqrt
    let largest := maxAbs invNorm used
    let scale := if F32.zero.lt largest then largest.div (.ofInt 127) else .one
    let invScale := F32.one.div scale
    (((dst.take n).zip used).map (fun lane ↦ quantizeLane invNorm invScale lane.2) ++ rest, scale)

/-- What the lane held before does not matter. -/
theorem quantizeInto_eq (src : List F32) (dst : List Int) :
    quantizeInto src dst = quantizeUnitInto src dst.length := by
  have hused : src.take (min src.length dst.length) = src.take dst.length :=
    List.take_eq_take_iff.mpr (by omega)
  have hlength : (src.take dst.length).length = (dst.take (min src.length dst.length)).length := by
    rw [List.length_take, List.length_take]
    omega
  have hrest : (dst.drop (min src.length dst.length)).map (fun _ ↦ (0 : Int)) =
      List.replicate (dst.length - (src.take dst.length).length) 0 := by
    rw [List.map_const', List.length_drop, List.length_take, Nat.min_comm]
  have hlanes (invNorm invScale : F32) :
      ((dst.take (min src.length dst.length)).zip (src.take dst.length)).map
        (fun lane ↦ quantizeLane invNorm invScale lane.2) =
      (src.take dst.length).map (quantizeLane invNorm invScale) := by
    conv_rhs => rw [← List.map_snd_zip (Nat.le_of_eq hlength)]
    rw [List.map_map]
    rfl
  rw [quantizeInto, quantizeUnitInto, hused, hrest, List.map_const', ← hlength]
  simp only [hlanes]

/-- A quantised row has as many lanes as the lane it was written to. -/
theorem length_quantizeUnitInto (src : List F32) (dim : Nat) :
    (quantizeUnitInto src dim).1.length = dim := by
  have hlength : (src.take dim).length ≤ dim := List.length_take_le _ _
  unfold quantizeUnitInto
  simp only
  split
  · rw [List.length_append, List.length_replicate, List.length_replicate]
    omega
  · rw [List.length_append, List.length_map, List.length_replicate]
    omega

/-- The sum of a dot product in 32 bits, that wraps; `dot_i8`, `novelty.rs:382`. -/
def dotI32 (a b : List Int) : Int := (dotI8 a b).bmod (2 ^ 32)

/-! ### The ring -/

/-- A committed candidate, quantised. -/
structure Row where
  sig : MinHashSig
  q : List Int
  scale : F32
  phash : UInt64

/-- `KeptRing`; `novelty.rs:325`. -/
structure KeptRing where
  dim : Nat
  cap : Nat
  len : Nat
  head : Nat
  minhash : List MinHashSig
  embedQ : List Int
  embedScale : List F32
  phash : List UInt64

namespace KeptRing

/-- `KeptRing::new`. -/
def new (cap dim : Nat) : KeptRing where
  dim := dim
  cap := max cap 1
  len := 0
  head := 0
  minhash := List.replicate (max cap 1) .empty
  embedQ := List.replicate (max cap 1 * dim) 0
  embedScale := List.replicate (max cap 1) .zero
  phash := List.replicate (max cap 1) 0

/-- `KeptRing::embed_row`; `novelty.rs:352`. -/
def embedRow (ring : KeptRing) (slot : Nat) : List Int :=
  (ring.embedQ.drop (slot * ring.dim)).take ring.dim

/-- `KeptRing::push`, of a row with as many lanes as the ring has for it; `novelty.rs:357`. -/
def push (ring : KeptRing) (sig : MinHashSig) (q : List Int) (scale : F32) (phash : UInt64) :
    KeptRing :=
  let slot := ring.head
  { ring with
    minhash := ring.minhash.set slot sig
    embedQ := ring.embedQ.take (slot * ring.dim) ++ q ++
      ring.embedQ.drop (slot * ring.dim + ring.dim)
    embedScale := ring.embedScale.set slot scale
    phash := ring.phash.set slot phash
    head := (ring.head + 1) % ring.cap
    len := if ring.len < ring.cap then ring.len + 1 else ring.len }

/-- `KeptRing::clear`. What the arrays hold stays. -/
def clear (ring : KeptRing) : KeptRing := { ring with len := 0, head := 0 }

/-- The arrays have the lengths they were made with. -/
structure Shaped (ring : KeptRing) : Prop where
  cap_pos : 0 < ring.cap
  minhash_length : ring.minhash.length = ring.cap
  embedQ_length : ring.embedQ.length = ring.cap * ring.dim
  embedScale_length : ring.embedScale.length = ring.cap
  phash_length : ring.phash.length = ring.cap

/-- What a slot holds. -/
def row (ring : KeptRing) (slot : Nat) : Row :=
  ⟨ring.minhash.getD slot .empty, ring.embedRow slot, ring.embedScale.getD slot .zero,
    ring.phash.getD slot 0⟩

/-- What all slots hold. -/
def rows (ring : KeptRing) : List Row := (List.range ring.cap).map ring.row

variable {ring : KeptRing} {sig : MinHashSig} {q : List Int} {scale : F32} {phash : UInt64}

theorem shaped_new (cap dim : Nat) : (new cap dim).Shaped where
  cap_pos := by
    change 0 < max cap 1
    omega
  minhash_length := List.length_replicate
  embedQ_length := List.length_replicate
  embedScale_length := List.length_replicate
  phash_length := List.length_replicate

theorem Shaped.push (h : ring.Shaped) (hhead : ring.head < ring.cap) (hq : q.length = ring.dim) :
    (ring.push sig q scale phash).Shaped where
  cap_pos := h.cap_pos
  minhash_length := List.length_set.trans h.minhash_length
  embedQ_length := by
    have hslot : ring.head * ring.dim + ring.dim ≤ ring.cap * ring.dim := by
      rw [← Nat.succ_mul]
      exact Nat.mul_le_mul_right _ hhead
    change (ring.embedQ.take _ ++ q ++ ring.embedQ.drop _).length = ring.cap * ring.dim
    rw [List.length_append, List.length_append, List.length_take, List.length_drop, hq,
      h.embedQ_length]
    omega
  embedScale_length := List.length_set.trans h.embedScale_length
  phash_length := List.length_set.trans h.phash_length

/-- A row that is pushed is in its slot, and no other slot changes. -/
theorem embedRow_push (h : ring.Shaped) (hhead : ring.head < ring.cap) (hq : q.length = ring.dim)
    (slot : Nat) : (ring.push sig q scale phash).embedRow slot =
      if slot = ring.head then q else ring.embedRow slot := by
  have hslot : ring.head * ring.dim + ring.dim ≤ ring.cap * ring.dim := by
    rw [← Nat.succ_mul]
    exact Nat.mul_le_mul_right _ hhead
  have htake : (ring.embedQ.take (ring.head * ring.dim)).length = ring.head * ring.dim := by
    rw [List.length_take, h.embedQ_length]
    omega
  change ((ring.embedQ.take _ ++ q ++ ring.embedQ.drop _).drop (slot * ring.dim)).take ring.dim = _
  split
  · next heq =>
    rw [heq, List.append_assoc, List.drop_left' htake, List.take_left' hq]
  · next hne =>
    rcases Nat.lt_or_gt_of_ne hne with hlt | hgt
    · have hbefore : slot * ring.dim + ring.dim ≤ ring.head * ring.dim := by
        rw [← Nat.succ_mul]
        exact Nat.mul_le_mul_right _ hlt
      rw [List.append_assoc, List.drop_append_of_le_length (by omega),
        List.take_append_of_le_length (by rw [List.length_drop]; omega), List.drop_take,
        List.take_take, Nat.min_eq_left (by omega)]
      rfl
    · have hbehind : ring.head * ring.dim + ring.dim ≤ slot * ring.dim := by
        rw [← Nat.succ_mul]
        exact Nat.mul_le_mul_right _ hgt
      have hlength : (ring.embedQ.take (ring.head * ring.dim) ++ q).length =
          ring.head * ring.dim + ring.dim := by rw [List.length_append, htake, hq]
      rw [List.drop_append, List.drop_eq_nil_of_le (hlength.le.trans hbehind), hlength,
        List.nil_append, List.drop_drop, Nat.add_sub_cancel' hbehind]
      rfl

/-- The rows are a ring that the pushed ones are written to. -/
theorem rows_push (h : ring.Shaped) (hhead : ring.head < ring.cap) (hq : q.length = ring.dim) :
    (ring.push sig q scale phash).rows = ring.rows.set ring.head ⟨sig, q, scale, phash⟩ := by
  apply List.ext_getElem?
  intro slot
  by_cases hslot : slot < ring.cap
  · have hcells {α : Type} (cells : List α) (hlength : cells.length = ring.cap) (x y : α) :
        (cells.set ring.head x).getD slot y = if slot = ring.head then x else cells.getD slot y := by
      rw [List.getD_eq_getElem?_getD, List.getElem?_set, hlength, if_pos hhead,
        List.getD_eq_getElem?_getD]
      by_cases heq : slot = ring.head
      · rw [if_pos heq.symm, if_pos heq]
        rfl
      · rw [if_neg (Ne.symm heq), if_neg heq]
    have hrow : (ring.push sig q scale phash).row slot =
        if slot = ring.head then ⟨sig, q, scale, phash⟩ else ring.row slot := by
      rw [row, embedRow_push h hhead hq]
      simp only [push, hcells _ h.minhash_length, hcells _ h.embedScale_length,
        hcells _ h.phash_length]
      split <;> rfl
    have hcap : (ring.push sig q scale phash).cap = ring.cap := rfl
    rw [rows, List.getElem?_map, List.getElem?_range (hcap ▸ hslot), List.getElem?_set, rows,
      List.length_map, List.length_range, if_pos hhead, List.getElem?_map,
      List.getElem?_range hslot, Option.map_some, hrow]
    by_cases heq : slot = ring.head
    · rw [if_pos heq, if_pos heq.symm]
    · rw [if_neg heq, if_neg (Ne.symm heq)]
      rfl
  · rw [List.getElem?_eq_none (by simpa [rows, push] using Nat.not_lt.mp hslot),
      List.getElem?_eq_none (by simpa [rows] using Nat.not_lt.mp hslot)]

/-- A ring to which some rows were pushed since it was made or cleared. -/
structure Holds (ring : KeptRing) (dim cap : Nat) (pushed : List Row) : Prop where
  shaped : ring.Shaped
  dim_eq : ring.dim = dim
  cap_eq : ring.cap = cap
  len_eq : ring.len = min pushed.length cap
  ringOf : ∃ initial : List Row, initial.length = cap ∧ RingOf initial pushed ring.rows ring.head

variable {dim cap : Nat} {pushed : List Row}

theorem length_rows (ring : KeptRing) : ring.rows.length = ring.cap := by
  rw [rows, List.length_map, List.length_range]

theorem holds_new (cap dim : Nat) : (new cap dim).Holds dim (max cap 1) [] where
  shaped := shaped_new cap dim
  dim_eq := rfl
  cap_eq := rfl
  len_eq := (Nat.zero_min _).symm
  ringOf := ⟨(new cap dim).rows, length_rows _, .start _⟩

theorem Holds.push (h : ring.Holds dim cap pushed) (hq : q.length = dim) :
    (ring.push sig q scale phash).Holds dim cap (pushed ++ [⟨sig, q, scale, phash⟩]) := by
  obtain ⟨initial, hlength, hring⟩ := h.ringOf
  have hpos : 0 < initial.length := by
    rw [hlength, ← h.cap_eq]
    exact h.shaped.cap_pos
  have hhead : ring.head < ring.cap := by
    rw [hring.cursor_eq, h.cap_eq, ← hlength]
    exact Nat.mod_lt _ hpos
  have hq : q.length = ring.dim := hq.trans h.dim_eq.symm
  refine ⟨h.shaped.push hhead hq, h.dim_eq, h.cap_eq, ?_, initial, hlength, ?_⟩
  · have hlen := h.len_eq
    have hcap := h.cap_eq
    change (if ring.len < ring.cap then ring.len + 1 else ring.len) = _
    rw [List.length_append, List.length_singleton]
    split <;> omega
  · rw [rows_push h.shaped hhead hq]
    have hnext := hring.write hpos ⟨sig, q, scale, phash⟩
    rwa [hlength, ← h.cap_eq] at hnext

theorem Holds.clear (h : ring.Holds dim cap pushed) : ring.clear.Holds dim cap [] where
  shaped := ⟨h.shaped.cap_pos, h.shaped.minhash_length, h.shaped.embedQ_length,
    h.shaped.embedScale_length, h.shaped.phash_length⟩
  dim_eq := h.dim_eq
  cap_eq := h.cap_eq
  len_eq := (Nat.zero_min _).symm
  ringOf := ⟨ring.rows, (length_rows ring).trans h.cap_eq, .start _⟩

/-- The slots in use hold the last rows that were pushed, in some order. -/
theorem Holds.perm (h : ring.Holds dim cap pushed) :
    ((List.range ring.len).map ring.row).Perm (pushed.drop (pushed.length - cap)) := by
  obtain ⟨initial, hlength, hring⟩ := h.ringOf
  have htake := hring.take_perm
  rw [hlength, ← h.len_eq, rows, ← List.map_take, List.take_range, Nat.min_eq_left] at htake
  · exact htake
  · rw [h.len_eq, h.cap_eq]
    exact Nat.min_le_right _ _

end KeptRing

end Vidarax.Novelty
