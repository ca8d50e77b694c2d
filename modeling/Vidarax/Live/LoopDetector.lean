import Vidarax.Base.Ring
import Vidarax.Live.Gate

/-!
# The answers of the loop detector

Package `vidarax-core`, `crates/vidarax-core/src/loop_detector.rs:10–43`. A perceptual hash that comes
back among the last eight shows that a stream repeats. The eight cells are filled at the start with
a value that is compared like the hashes that are written over it.
-/

namespace Vidarax.Live

open Vidarax.Base

/-- What the cells hold at the start: a value unlikely to match anything. -/
def unlikelyHash : UInt64 := UInt64.ofNat u64Max

/-- Hashes that differ from one in fewer bits than the threshold. -/
def matching (threshold : Nat) (hash : UInt64) (hashes : List UInt64) : Nat :=
  hashes.countP fun h ↦ countOnes (h ^^^ hash) < threshold

namespace LoopDetector

/-- `LoopDetector::reset`; `loop_detector.rs:39`. -/
def reset (d : LoopDetector) : LoopDetector :=
  { d with recentHashes := List.replicate 8 unlikelyHash, cursor := 0 }

/-- The state after some calls. -/
def checked (d : LoopDetector) (hashes : List UInt64) : LoopDetector :=
  hashes.foldl (fun d hash ↦ (d.check hash).2) d

@[simp] theorem checked_concat (d : LoopDetector) (hashes : List UInt64) (hash : UInt64) :
    d.checked (hashes ++ [hash]) = ((d.checked hashes).check hash).2 := List.foldl_concat _ _ _ _

@[simp] theorem threshold_checked (d : LoopDetector) (hashes : List UInt64) :
    (d.checked hashes).threshold = d.threshold := by
  induction hashes using List.reverseRecOn with
  | nil => rfl
  | append_singleton hashes hash ih => rw [checked_concat]; exact ih

@[simp] theorem repeatTrigger_checked (d : LoopDetector) (hashes : List UInt64) :
    (d.checked hashes).repeatTrigger = d.repeatTrigger := by
  induction hashes using List.reverseRecOn with
  | nil => rfl
  | append_singleton hashes hash ih => rw [checked_concat]; exact ih

/-- A reset detector is a new one with the same parameters. -/
theorem reset_eq (d : LoopDetector) : d.reset = new d.threshold d.repeatTrigger := rfl

/-- The cursor wraps at a multiple of eight. -/
private theorem succ_mod_eight (cursor : UInt64) :
    (cursor + 1).toNat % 8 = (cursor.toNat % 8 + 1) % 8 := by
  rw [UInt64.toNat_add, UInt64.toNat_one]
  omega

/-- The cells are a ring that the hashes are written to. -/
theorem ringOf_checked (threshold repeatTrigger : Nat) (hashes : List UInt64) :
    RingOf (List.replicate 8 unlikelyHash) hashes
      ((new threshold repeatTrigger).checked hashes).recentHashes
      (((new threshold repeatTrigger).checked hashes).cursor.toNat % 8) := by
  induction hashes using List.reverseRecOn with
  | nil => exact RingOf.start _
  | append_singleton hashes hash ih =>
    rw [checked_concat]
    have hnext := ih.write (by decide) hash
    rw [List.length_replicate, ← succ_mod_eight] at hnext
    exact hnext

end LoopDetector

/-- The hashes passed in the last eight calls, or in all of them. -/
def recent (earlier : List UInt64) : List UInt64 := earlier.drop (earlier.length - 8)

/-- Cells that no call has written to match where the first value does. -/
theorem matching_checked (threshold repeatTrigger : Nat) (hash : UInt64) (earlier : List UInt64) :
    matching threshold hash ((LoopDetector.new threshold repeatTrigger).checked earlier).recentHashes
      = (if countOnes (unlikelyHash ^^^ hash) < threshold then 8 - earlier.length else 0) +
        matching threshold hash (recent earlier) := by
  have hperm := (LoopDetector.ringOf_checked threshold repeatTrigger earlier).perm
  rw [matching, hperm.countP_eq, List.drop_append, List.countP_append, List.drop_replicate,
    List.countP_replicate, List.length_replicate]
  simp only [decide_eq_true_eq]
  rfl

/-- A call on a new or reset detector answers whether enough of the hashes passed in the eight calls
before it match, unless the cells that are not written yet make up for what is missing. -/
theorem check_iff (threshold repeatTrigger : Nat) (start : LoopDetector)
    (hstart : start = .new threshold repeatTrigger ∨ ∃ used : LoopDetector,
      used.threshold = threshold ∧ used.repeatTrigger = repeatTrigger ∧ start = used.reset)
    (earlier : List UInt64) (hash : UInt64) :
    (((start.checked earlier).check hash).1 = true ↔
        repeatTrigger ≤ matching threshold hash (recent earlier)) ↔
      (8 ≤ earlier.length ∨ threshold ≤ countOnes (unlikelyHash ^^^ hash) ∨
        repeatTrigger ≤ matching threshold hash (recent earlier) ∨
        matching threshold hash (recent earlier) + (8 - earlier.length) < repeatTrigger) := by
  have hnew : start = .new threshold repeatTrigger := by
    rcases hstart with hnew | ⟨used, rfl, rfl, rfl⟩
    · exact hnew
    · exact used.reset_eq
  have hanswer : ((start.checked earlier).check hash).1 = true ↔ repeatTrigger ≤
      (if countOnes (unlikelyHash ^^^ hash) < threshold then 8 - earlier.length else 0) +
        matching threshold hash (recent earlier) := by
    rw [← matching_checked threshold repeatTrigger, hnew]
    simp only [LoopDetector.check, decide_eq_true_eq, LoopDetector.repeatTrigger_checked,
      LoopDetector.threshold_checked]
    rfl
  rw [hanswer]
  split <;> omega

/-- A second pass over a screen: the hash itself is among the last eight. -/
theorem check_iff_sample :
    (((((LoopDetector.new 1 1).checked [0x55]).check 0x55).1 = true) ↔
      1 ≤ matching 1 0x55 (recent [0x55])) :=
  (check_iff 1 1 (.new 1 1) (.inl rfl) [0x55] 0x55).mpr (.inr (.inl (by decide +kernel)))

/-- The first call fires, with the hash the cells are filled with. -/
theorem first_check_fires :
    ¬(((LoopDetector.new 6 3).check 0xFFFFFFFFFFFFFFFF).1 = true ↔
      3 ≤ matching 6 0xFFFFFFFFFFFFFFFF (recent [])) := by
  decide +kernel

end Vidarax.Live
