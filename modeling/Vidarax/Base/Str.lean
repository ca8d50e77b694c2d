import Vidarax.Base.Framing
import Vidarax.Base.Utf8

/-!
# Cutting strings at ASCII bytes

Library `Base`. Splitting at an ASCII separator and stripping an ASCII prefix
return strings again; observed on bytes they are the list operations.
-/

namespace Vidarax.Base

/-- Both parts of valid text cut at an ASCII byte are valid. -/
theorem isUtf8_cut {sep : UInt8} (hs : sep < 0x80) {bs : Bytes} (h : IsUtf8 bs) :
    IsUtf8 (cut sep bs).1 ∧ ∀ r ∈ (cut sep bs).2, IsUtf8 r := by
  rcases cut_cases sep bs with ⟨xs, ys, rfl, -, hc⟩ | ⟨-, hc⟩
  · rw [hc]
    obtain ⟨hx, hy⟩ := h.split hs
    exact ⟨hx, fun r hr ↦ Option.some.inj hr ▸ hy⟩
  · rw [hc]
    exact ⟨h, fun r hr ↦ by cases hr⟩

/-- The string before the first separator, and the string after it when there is one. -/
def splitOnce (sep : UInt8) (hs : sep < 0x80) (s : String) : String × Option String :=
  (ofUtf8 _ (isUtf8_cut hs (isUtf8_utf8 s)).1,
    (cut sep (utf8 s)).2.pmap ofUtf8 (isUtf8_cut hs (isUtf8_utf8 s)).2)

/-- Splitting a string once is cutting its bytes. -/
theorem utf8_splitOnce (sep : UInt8) (hs : sep < 0x80) (s : String) :
    cut sep (utf8 s) = (utf8 (splitOnce sep hs s).1, (splitOnce sep hs s).2.map utf8) := by
  apply Prod.ext
  · simp [splitOnce]
  · simp only [splitOnce, Option.map_pmap, utf8_ofUtf8]
    simp

/-- At most `n` parts between separators. -/
def splitn (sep : UInt8) (hs : sep < 0x80) : Nat → String → List String
  | 0, _ => []
  | 1, s => [s]
  | n + 2, s =>
    match splitOnce sep hs s with
    | (a, none) => [a]
    | (a, some rest) => a :: splitn sep hs (n + 1) rest

/-- The bytes of the parts are the parts of the bytes. -/
theorem utf8_splitn (sep : UInt8) (hs : sep < 0x80) (n : Nat) (s : String) :
    (splitn sep hs n s).map utf8 = cutN sep n (utf8 s) := by
  induction n using Nat.strong_induction_on generalizing s with
  | h n ih =>
    match n with
    | 0 => rfl
    | 1 => rfl
    | n + 2 =>
      rw [cutN, utf8_splitOnce sep hs, splitn]
      rcases splitOnce sep hs s with ⟨a, _ | rest⟩
      · rfl
      · simp [ih (n + 1) (by omega)]

/-- Dropping a valid prefix of ASCII bytes keeps validity. -/
theorem IsUtf8.drop_ascii {p : Bytes} (hp : ∀ b ∈ p, b < 0x80) {bs : Bytes} (h : IsUtf8 bs)
    (hb : p <+: bs) : IsUtf8 (bs.drop p.length) := by
  obtain ⟨rest, rfl⟩ := hb
  rw [List.drop_left]
  induction p with
  | nil => exact h
  | cons b p ih =>
    exact ih (fun x hx ↦ hp x (by simp [hx])) (IsUtf8.tail (hp b (by simp)) h)

/-- The rest of a string after an ASCII prefix, when it starts with it. -/
def stripPrefix (p : Bytes) (hp : ∀ b ∈ p, b < 0x80) (s : String) : Option String :=
  if h : p <+: utf8 s then some (ofUtf8 _ ((isUtf8_utf8 s).drop_ascii hp h)) else none

/-- Stripping succeeds exactly when the bytes start with the prefix. -/
theorem stripPrefix_eq_some_iff {p : Bytes} {hp : ∀ b ∈ p, b < 0x80} {s r : String} :
    stripPrefix p hp s = some r ↔ utf8 s = p ++ utf8 r := by
  unfold stripPrefix
  constructor
  · intro h
    split at h
    · next hpre =>
      obtain ⟨rest, hr⟩ := hpre
      rw [← Option.some.inj h, utf8_ofUtf8, ← hr, List.drop_left]
    · cases h
  · intro h
    have hpre : p <+: utf8 s := ⟨utf8 r, h.symm⟩
    rw [dif_pos hpre]
    congr 1
    apply utf8_inj.mp
    rw [utf8_ofUtf8, h, List.drop_left]

/-- Stripping fails exactly when the bytes do not start with the prefix. -/
theorem stripPrefix_eq_none_iff {p : Bytes} {hp : ∀ b ∈ p, b < 0x80} {s : String} :
    stripPrefix p hp s = none ↔ ¬ p <+: utf8 s := by
  unfold stripPrefix
  split <;> simp_all

end Vidarax.Base
