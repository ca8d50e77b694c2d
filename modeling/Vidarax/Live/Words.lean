import Mathlib.Data.Finset.Lattice.Basic
import Mathlib.Data.Finset.NAry
import Mathlib.Data.Rat.Defs
import Mathlib.Tactic.Positivity
import Mathlib.Tactic.Linarith
import Vidarax.Base.FloatRatio
import Vidarax.Base.SortedSets
import Vidarax.Base.Text

/-!
# Word sets of descriptions

Package `vidarax-core`, `webrtc/workers.rs` 2397–2483: the similarity of two descriptions is that of
the sets of their words, which are kept as sorted hashes in buffers of fixed size. The hash is a
parameter; the code's is `hashWord`.
-/

namespace Vidarax.Live

open Base

/-! ### Words -/

/-- `hash_word`: FNV-1a over the bytes of a word. -/
def hashWord (word : List Char) : Nat :=
  let hash := (word.flatMap String.utf8EncodeChar).foldl
    (fun hash byte ↦ (hash ^^^ byte.toUInt64) * 0x100000001b3) (0xcbf29ce484222325 : UInt64)
  hash.toNat

/-- `STATE_CHANGE_JACCARD_MAX`. -/
def STATE_CHANGE_JACCARD_MAX : F32 := F32.half

/-- `JACCARD_MAX_WORDS`. -/
def JACCARD_MAX_WORDS : Nat := 128

section Sets

variable {K : Type} [LinearOrder K] (hash : List Char → K)

/-- `word_hash_set`: the buffer and the number of unique words at its front. -/
def wordHashSet (text : List Char) : List K × Nat :=
  let buf := ((splitWhitespace text).take JACCARD_MAX_WORDS).map hash
  collapse (buf.mergeSort fun a b ↦ decide (a ≤ b))

/-- `jaccard_word_overlap`. -/
def jaccardWordOverlap (prev curr : List Char) : F32 :=
  let (prev_buf, a) := wordHashSet hash prev
  let (curr_buf, b) := wordHashSet hash curr
  let intersection := mergeCount (prev_buf.take a) (curr_buf.take b)
  let union := a + b - intersection
  if union = 0 then F32.one else (F32.ofInt intersection).div (F32.ofInt union)

end Sets

/-! ### Similarity -/

/-- The set of words of a text. -/
def wordSet (text : List Char) : Finset (List Char) := (splitWhitespace text).toFinset

/-- Jaccard similarity of the sets of words of two texts. -/
def jaccard (prev curr : List Char) : ℚ :=
  if wordSet prev ∪ wordSet curr = ∅ then 1
  else (wordSet prev ∩ wordSet curr).card / (wordSet prev ∪ wordSet curr).card

/-- Below one half more words are in one of the texts than there are words twice in both. -/
theorem jaccard_lt_half_iff (prev curr : List Char) :
    jaccard prev curr < 1 / 2 ↔
      2 * (wordSet prev ∩ wordSet curr).card < (wordSet prev ∪ wordSet curr).card := by
  unfold jaccard
  split
  · next hempty =>
    rw [hempty, Finset.card_empty]
    norm_num
  · next hne =>
    have hpos : 0 < ((wordSet prev ∪ wordSet curr).card : ℚ) := by
      exact_mod_cast Finset.card_pos.mpr (Finset.nonempty_of_ne_empty hne)
    rw [div_lt_iff₀ hpos]
    constructor
    · intro h
      have : (2 : ℚ) * (wordSet prev ∩ wordSet curr).card < (wordSet prev ∪ wordSet curr).card := by
        linarith
      exact_mod_cast this
    · intro h
      have : (2 : ℚ) * (wordSet prev ∩ wordSet curr).card < (wordSet prev ∪ wordSet curr).card := by
        exact_mod_cast h
      linarith

section Sets

variable {K : Type} [LinearOrder K] {hash : List Char → K} {prev curr text : List Char}

/-- A text that fits the buffer is represented by the hashes of its words. -/
theorem wordHashSet_spec (h : (splitWhitespace text).length ≤ JACCARD_MAX_WORDS) :
    ((wordHashSet hash text).1.take (wordHashSet hash text).2).Pairwise (· < ·) ∧
      ((wordHashSet hash text).1.take (wordHashSet hash text).2).toFinset =
        (wordSet text).image hash ∧
      ((wordHashSet hash text).1.take (wordHashSet hash text).2).length =
        (wordHashSet hash text).2 := by
  have hsorted : ((((splitWhitespace text).take JACCARD_MAX_WORDS).map hash).mergeSort
      fun a b ↦ decide (a ≤ b)).Pairwise fun a b ↦ decide (a ≤ b) = true :=
    List.pairwise_mergeSort
      (fun a b c hab hbc ↦ decide_eq_true ((of_decide_eq_true hab).trans (of_decide_eq_true hbc)))
      (fun a b ↦ by simpa using le_total a b) _
  obtain ⟨hstrict, hmem, hlength⟩ := collapse_spec (hsorted.imp of_decide_eq_true)
  refine ⟨hstrict, Finset.ext fun x ↦ ?_, hlength⟩
  rw [List.mem_toFinset, wordHashSet, hmem, List.mem_mergeSort, List.take_of_length_le h,
    List.mem_map, Finset.mem_image]
  simp only [wordSet, List.mem_toFinset]

/-- The code compares the sets of words when the hash tells them apart. -/
theorem jaccardWordOverlap_lt (hprev : (splitWhitespace prev).length ≤ JACCARD_MAX_WORDS)
    (hcurr : (splitWhitespace curr).length ≤ JACCARD_MAX_WORDS)
    (hhash : Set.InjOn hash (wordSet prev ∪ wordSet curr : Finset (List Char))) :
    (jaccardWordOverlap hash prev curr).lt STATE_CHANGE_JACCARD_MAX =
      decide (jaccard prev curr < 1 / 2) := by
  obtain ⟨hstrict, himage, hlength⟩ := @wordHashSet_spec K _ hash prev hprev
  obtain ⟨hstrict', himage', hlength'⟩ := @wordHashSet_spec K _ hash curr hcurr
  have hinter : mergeCount ((wordHashSet hash prev).1.take (wordHashSet hash prev).2)
      ((wordHashSet hash curr).1.take (wordHashSet hash curr).2) =
        (wordSet prev ∩ wordSet curr).card := by
    have hsome : Set.InjOn hash (wordSet prev ∩ wordSet curr : Finset (List Char)) :=
      hhash.mono (by exact_mod_cast Finset.inter_subset_left.trans Finset.subset_union_left)
    rw [mergeCount_eq_card hstrict hstrict', himage, himage',
      ← Finset.image_inter_of_injOn _ _ (by exact_mod_cast hhash),
      Finset.card_image_of_injOn hsome]
  have hcard : (wordHashSet hash prev).2 = (wordSet prev).card := by
    rw [← hlength, ← List.toFinset_card_of_nodup hstrict.nodup, himage]
    exact Finset.card_image_of_injOn
      (hhash.mono (by exact_mod_cast Finset.subset_union_left))
  have hcard' : (wordHashSet hash curr).2 = (wordSet curr).card := by
    rw [← hlength', ← List.toFinset_card_of_nodup hstrict'.nodup, himage']
    exact Finset.card_image_of_injOn
      (hhash.mono (by exact_mod_cast Finset.subset_union_right))
  have hunion : (wordSet prev).card + (wordSet curr).card - (wordSet prev ∩ wordSet curr).card =
      (wordSet prev ∪ wordSet curr).card := (Finset.card_union _ _).symm
  have hsmall : (wordSet prev ∪ wordSet curr).card < 2 ^ 24 := by
    have := (List.toFinset_card_le (splitWhitespace prev)).trans hprev
    have := (List.toFinset_card_le (splitWhitespace curr)).trans hcurr
    have := Finset.card_union_le (wordSet prev) (wordSet curr)
    unfold wordSet JACCARD_MAX_WORDS at *
    omega
  have hle : (wordSet prev ∩ wordSet curr).card ≤ (wordSet prev ∪ wordSet curr).card :=
    Finset.card_le_card (Finset.inter_subset_left.trans Finset.subset_union_left)
  rw [jaccardWordOverlap]
  dsimp only
  rw [hinter, hcard, hcard', hunion]
  rw [decide_eq_decide.mpr (jaccard_lt_half_iff prev curr)]
  split
  · next hempty =>
    exact (decide_eq_false (by omega)).symm
  · next hne =>
    exact F32.div_ofInt_lt_half (Nat.pos_of_ne_zero hne) (Nat.lt_of_le_of_lt hle hsmall) hsmall

end Sets

end Vidarax.Live
