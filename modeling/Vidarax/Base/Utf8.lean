import Mathlib.Data.List.Basic

/-!
# UTF-8 byte strings

Library `Base`. A string is observed as the list of its UTF-8 bytes. Byte-level
routines that cut a text at an ASCII byte stay inside valid UTF-8, because no
ASCII byte occurs inside the encoding of another character.
-/

namespace Vidarax.Base

/-- Byte sequences. -/
abbrev Bytes := List UInt8

/-- The sequence is the UTF-8 encoding of a list of scalar values. -/
def IsUtf8 (bs : Bytes) : Prop :=
  ∃ cs : List Char, bs = cs.flatMap String.utf8EncodeChar

/-- The list predicate is the packed validity predicate of `String`. -/
theorem isUtf8_iff (bs : Bytes) : IsUtf8 bs ↔ bs.toByteArray.IsValidUTF8 := by
  constructor
  · rintro ⟨cs, rfl⟩
    exact ⟨cs, rfl⟩
  · rintro ⟨cs, h⟩
    exact ⟨cs, List.toByteArray_inj.mp h⟩

instance (bs : Bytes) : Decidable (IsUtf8 bs) :=
  decidable_of_iff _ (isUtf8_iff bs).symm

/-- The UTF-8 bytes of a string. -/
def utf8 (s : String) : Bytes := s.toByteArray.data.toList

/-- The string whose bytes are a valid sequence. -/
def ofUtf8 (bs : Bytes) (h : IsUtf8 bs) : String :=
  ⟨bs.toByteArray, (isUtf8_iff bs).mp h⟩

/-- Checked conversion of bytes to a string. -/
def fromUtf8 (bs : Bytes) : Option String :=
  if h : IsUtf8 bs then some (ofUtf8 bs h) else none

/-- Rebuilding a byte array from its list of bytes gives the array. -/
theorem toByteArray_toList (b : ByteArray) : b.data.toList.toByteArray = b := by
  apply ByteArray.ext
  simp

/-- The bytes of a string are valid UTF-8. -/
theorem isUtf8_utf8 (s : String) : IsUtf8 (utf8 s) := by
  rw [isUtf8_iff, utf8, toByteArray_toList]
  exact s.isValidUTF8

/-- The bytes of a rebuilt string are the given ones. -/
@[simp] theorem utf8_ofUtf8 (bs : Bytes) (h : IsUtf8 bs) : utf8 (ofUtf8 bs h) = bs := by
  simp [utf8, ofUtf8]

/-- A string is determined by its bytes. -/
theorem utf8_inj {s t : String} : utf8 s = utf8 t ↔ s = t := by
  constructor
  · intro h
    apply String.toByteArray_inj.mp
    apply ByteArray.ext
    exact Array.toList_inj.mp h
  · exact congrArg utf8

/-- Rebuilding a string from its own bytes gives the string. -/
@[simp] theorem ofUtf8_utf8 (s : String) (h : IsUtf8 (utf8 s)) : ofUtf8 (utf8 s) h = s :=
  utf8_inj.mp (utf8_ofUtf8 _ _)

/-- Checked conversion succeeds exactly with the string that has these bytes. -/
theorem fromUtf8_eq_some_iff {bs : Bytes} {s : String} : fromUtf8 bs = some s ↔ utf8 s = bs := by
  unfold fromUtf8
  constructor
  · intro h
    split at h
    · rw [← Option.some.inj h, utf8_ofUtf8]
    · cases h
  · rintro rfl
    rw [dif_pos (isUtf8_utf8 s), ofUtf8_utf8]

/-- The bytes of a string convert back to it. -/
@[simp] theorem fromUtf8_utf8 (s : String) : fromUtf8 (utf8 s) = some s :=
  fromUtf8_eq_some_iff.mpr rfl

/-- Concatenation of strings concatenates their bytes. -/
@[simp] theorem utf8_append (s t : String) : utf8 (s ++ t) = utf8 s ++ utf8 t := by
  simp [utf8, String.toByteArray_append]

/-! ### Diagnostics -/

/-- Ranges of the bytes that may follow a lead byte outside ASCII. -/
def continuations (b : UInt8) : Option (List (UInt8 × UInt8)) :=
  let tail : UInt8 × UInt8 := (0x80, 0xBF)
  if 0xC2 ≤ b ∧ b ≤ 0xDF then some [tail]
  else if b = 0xE0 then some [(0xA0, 0xBF), tail]
  else if b = 0xED then some [(0x80, 0x9F), tail]
  else if 0xE1 ≤ b ∧ b ≤ 0xEF then some [tail, tail]
  else if b = 0xF0 then some [(0x90, 0xBF), tail, tail]
  else if 0xF1 ≤ b ∧ b ≤ 0xF3 then some [tail, tail, tail]
  else if b = 0xF4 then some [(0x80, 0x8F), tail, tail]
  else none

/-- First fault of a byte sequence: how many bytes before it are valid, and how many
bytes the faulty sequence has unless it is cut off by the end. The character being
read starts at `start` and still owes the bytes of `owed`. -/
def utf8Fault (start index : Nat) (owed : List (UInt8 × UInt8)) : Bytes → Option (Nat × Option Nat)
  | [] => if owed = [] then none else some (start, none)
  | b :: bs =>
    match owed with
    | [] =>
      if b < 0x80 then utf8Fault (index + 1) (index + 1) [] bs
      else
        match continuations b with
        | none => some (index, some 1)
        | some owed => utf8Fault index (index + 1) owed bs
    | (low, high) :: owed =>
      if low ≤ b ∧ b ≤ high then
        utf8Fault (if owed = [] then index + 1 else start) (index + 1) owed bs
      else some (start, some (index - start))

/-- Message of a failed conversion to a string. -/
def utf8ErrorText (bs : Bytes) : String :=
  match utf8Fault 0 0 [] bs with
  | some (valid, some n) => s!"invalid utf-8 sequence of {n} bytes from index {valid}"
  | some (valid, none) => s!"incomplete utf-8 byte sequence from index {valid}"
  | none => ""

/-! ### ASCII bytes as separators -/

/-- The empty sequence is valid. -/
theorem isUtf8_nil : IsUtf8 [] := ⟨[], rfl⟩

/-- Concatenation keeps validity. -/
theorem IsUtf8.append {xs ys : Bytes} (hx : IsUtf8 xs) (hy : IsUtf8 ys) : IsUtf8 (xs ++ ys) := by
  obtain ⟨cs, rfl⟩ := hx
  obtain ⟨ds, rfl⟩ := hy
  exact ⟨cs ++ ds, List.flatMap_append.symm⟩

/-- A character is one ASCII byte, or only bytes outside ASCII. -/
theorem utf8EncodeChar_cases (c : Char) :
    (∃ b, String.utf8EncodeChar c = [b] ∧ b < 0x80) ∨
      ∀ b ∈ String.utf8EncodeChar c, 0x80 ≤ b := by
  have hbyte (n : Nat) (h : 128 ≤ n % 256) : (0x80 : UInt8) ≤ UInt8.ofNat n := by
    rw [UInt8.le_iff_toNat_le, UInt8.toNat_ofNat']
    exact h
  fun_cases String.utf8EncodeChar
  case case1 v h =>
    refine Or.inl ⟨_, rfl, ?_⟩
    rw [UInt8.lt_iff_toNat_lt, UInt8.toNat_ofNat']
    exact Nat.lt_of_le_of_lt (Nat.mod_le _ _) (Nat.lt_succ_of_le h)
  all_goals
    right
    intro b hb
    simp only [List.mem_cons, List.not_mem_nil, or_false] at hb
    rcases hb with rfl | hb
    · apply hbyte
      omega
    · (repeat' rcases hb with rfl | hb) <;> apply hbyte <;> omega

/-- A single ASCII byte is valid. -/
theorem isUtf8_singleton {b : UInt8} (h : b < 0x80) : IsUtf8 [b] := by
  refine ⟨[Char.ofUInt8 b], ?_⟩
  have hv : (Char.ofUInt8 b).val.toNat = b.toNat := UInt8.toNat_toUInt32 b
  have hb : b.toNat < 128 := UInt8.lt_iff_toNat_lt.mp h
  simp [String.utf8EncodeChar, hv, show b.toNat ≤ 127 by omega]

/-- Dropping a leading ASCII byte keeps validity. -/
theorem IsUtf8.tail {b : UInt8} {ys : Bytes} (hb : b < 0x80) (h : IsUtf8 (b :: ys)) :
    IsUtf8 ys := by
  obtain ⟨cs, hcs⟩ := h
  cases cs with
  | nil => cases hcs
  | cons c cs =>
    rw [List.flatMap_cons] at hcs
    rcases utf8EncodeChar_cases c with ⟨x, hx, _⟩ | hall
    · rw [hx, List.singleton_append, List.cons.injEq] at hcs
      exact ⟨cs, hcs.2⟩
    · cases he : String.utf8EncodeChar c with
      | nil => exact absurd he String.utf8EncodeChar_ne_nil
      | cons x rest =>
        rw [he, List.cons_append, List.cons.injEq] at hcs
        exact absurd (hall b (by simp [he, hcs.1])) (UInt8.not_le.mpr hb)

/-- Cutting valid bytes at an ASCII byte leaves both sides valid. -/
theorem IsUtf8.split {xs ys : Bytes} {b : UInt8} (hb : b < 0x80) (h : IsUtf8 (xs ++ b :: ys)) :
    IsUtf8 xs ∧ IsUtf8 ys := by
  obtain ⟨cs, hcs⟩ := h
  induction cs generalizing xs with
  | nil => simp at hcs
  | cons c cs ih =>
    rw [List.flatMap_cons] at hcs
    rcases List.append_eq_append_iff.mp hcs with ⟨zs, hc, ht⟩ | ⟨zs, hx, ht⟩
    · cases zs with
      | nil =>
        rw [List.append_nil] at hc
        exact ⟨⟨[c], by simp [hc]⟩, IsUtf8.tail hb ⟨cs, ht⟩⟩
      | cons z zs =>
        -- the cut lies inside the first character, so that character is the byte itself
        rw [List.cons_append, List.cons.injEq] at ht
        rcases utf8EncodeChar_cases c with ⟨x, hx, _⟩ | hall
        · rw [hx] at hc
          have hlen := congrArg List.length hc
          simp only [List.length_append, List.length_cons, List.length_nil] at hlen
          have hxs : xs = [] := List.length_eq_zero_iff.mp (by omega)
          have hzs : zs = [] := List.length_eq_zero_iff.mp (by omega)
          subst hxs hzs
          exact ⟨isUtf8_nil, ⟨cs, ht.2⟩⟩
        · exact absurd (hall b (by simp [hc, ht.1])) (UInt8.not_le.mpr hb)
    · obtain ⟨hz, hy⟩ := ih ht.symm
      exact ⟨hx ▸ IsUtf8.append ⟨[c], by simp⟩ hz, hy⟩

/-- Joining valid bytes at an ASCII byte is valid. -/
theorem IsUtf8.join {xs ys : Bytes} {b : UInt8} (hb : b < 0x80) (hx : IsUtf8 xs)
    (hy : IsUtf8 ys) : IsUtf8 (xs ++ b :: ys) := by
  have h := (hx.append (isUtf8_singleton hb)).append hy
  simpa using h

/-- Prepending an ASCII byte keeps validity. -/
theorem IsUtf8.cons {b : UInt8} {ys : Bytes} (hb : b < 0x80) (h : IsUtf8 ys) :
    IsUtf8 (b :: ys) :=
  IsUtf8.join hb isUtf8_nil h

/-- A sequence of ASCII bytes is valid. -/
theorem isUtf8_of_ascii {bs : Bytes} (h : ∀ b ∈ bs, b < 0x80) : IsUtf8 bs := by
  induction bs with
  | nil => exact isUtf8_nil
  | cons b bs ih => exact IsUtf8.cons (h b (by simp)) (ih fun x hx => h x (by simp [hx]))

/-- Writing ASCII texts in place of some ASCII bytes keeps validity. -/
theorem IsUtf8.flatMap {f : UInt8 → Bytes}
    (hf : ∀ b, f b = [b] ∨ b < 0x80 ∧ ∀ c ∈ f b, c < 0x80) {bs : Bytes} (h : IsUtf8 bs) :
    IsUtf8 (bs.flatMap f) := by
  suffices key : ∀ front, IsUtf8 (front ++ bs) → IsUtf8 (front ++ bs.flatMap f) from key [] h
  clear h
  induction bs with
  | nil => exact fun front hfront ↦ hfront
  | cons b bs ih =>
    intro front hfront
    rw [List.flatMap_cons]
    rcases hf b with hsame | ⟨hascii, htext⟩
    · rw [hsame, ← List.append_assoc]
      apply ih
      rwa [List.append_assoc, List.singleton_append]
    · obtain ⟨hleft, hright⟩ := hfront.split hascii
      exact hleft.append ((isUtf8_of_ascii htext).append (ih [] hright))

end Vidarax.Base
