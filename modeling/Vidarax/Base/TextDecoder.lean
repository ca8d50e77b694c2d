import Mathlib.Algebra.Group.Nat.Defs
import Vidarax.Base.Transducer
import Vidarax.Base.Utf8

/-!
# Streaming UTF-8 decoding

Library `Base`. Bytes that arrive in pieces are decoded to UTF-16 code units: a character may be
cut by the end of a piece, bytes that are no character give a replacement, and a byte order mark
at the very start is dropped. What is decoded does not depend on the pieces.
-/

namespace Vidarax.Base

/-- Texts as UTF-16 code units. -/
abbrev Utf16 := List UInt16

/-- Code units of a scalar value. -/
def utf16Units (point : Nat) : Utf16 :=
  if point < 0x10000 then [UInt16.ofNat point]
  else [UInt16.ofNat (0xD800 + (point - 0x10000) / 0x400),
    UInt16.ofNat (0xDC00 + (point - 0x10000) % 0x400)]

/-- Code units of characters. -/
def utf16 (cs : List Char) : Utf16 := cs.flatMap fun c ↦ utf16Units c.toNat

/-- Bytes of characters. -/
def utf8Chars (cs : List Char) : Bytes := cs.flatMap String.utf8EncodeChar

@[simp] theorem utf16_nil : utf16 [] = [] := rfl

@[simp] theorem utf16_append (cs ds : List Char) : utf16 (cs ++ ds) = utf16 cs ++ utf16 ds :=
  List.flatMap_append

@[simp] theorem utf16_cons (c : Char) (cs : List Char) :
    utf16 (c :: cs) = utf16Units c.toNat ++ utf16 cs := rfl

@[simp] theorem utf8Chars_nil : utf8Chars [] = [] := rfl

@[simp] theorem utf8Chars_append (cs ds : List Char) :
    utf8Chars (cs ++ ds) = utf8Chars cs ++ utf8Chars ds := List.flatMap_append

/-- An ASCII unit is the unit of an ASCII character. -/
theorem toNat_of_mem_utf16Units {c : Char} {u : UInt16} (hu : u ∈ utf16Units c.toNat)
    (h : u.toNat < 0x80) : c.toNat = u.toNat := by
  have hvalid : c.toNat < 0xD800 ∨ 0xDFFF < c.toNat ∧ c.toNat < 0x110000 := c.valid
  unfold utf16Units at hu
  split at hu
  · rw [List.mem_singleton] at hu
    rw [hu, UInt16.toNat_ofNat'] at h ⊢
    omega
  · simp only [List.mem_cons, List.not_mem_nil, or_false] at hu
    rcases hu with rfl | rfl <;> rw [UInt16.toNat_ofNat'] at h <;> omega

theorem exists_of_mem_utf16 {cs : List Char} {u : UInt16} (hu : u ∈ utf16 cs)
    (h : u.toNat < 0x80) : ∃ c ∈ cs, c.toNat = u.toNat := by
  obtain ⟨c, hc, hu⟩ := List.mem_flatMap.mp hu
  exact ⟨c, hc, toNat_of_mem_utf16Units hu h⟩

/-! ### Characters -/

/-- A character being read: its bits so far, and the ranges of the bytes it owes. -/
structure Utf8State where
  point : Nat
  owed : List (UInt8 × UInt8)
  deriving DecidableEq

namespace Utf8State

/-- Between two characters. -/
def ground : Utf8State := ⟨0, []⟩

/-- First byte of a character. -/
def first (b : UInt8) : Utf8State × List Nat :=
  if b < 0x80 then (ground, [b.toNat])
  else
    match continuations b with
    | none => (ground, [0xFFFD])
    | some owed => (⟨b.toNat % 2 ^ (6 - owed.length), owed⟩, [])

/-- Next byte. One that does not continue the character is read again as a first byte. -/
def feed (s : Utf8State) (b : UInt8) : Utf8State × List Nat :=
  match s.owed with
  | [] => first b
  | (low, high) :: owed =>
    if low ≤ b ∧ b ≤ high then
      let point := s.point * 64 + b.toNat % 64
      if owed = [] then (ground, [point]) else (⟨point, owed⟩, [])
    else ((first b).1, 0xFFFD :: (first b).2)

private theorem continuations_two : ∀ n < 32, 2 ≤ n →
    continuations (UInt8.ofNat (n + 0xC0)) = some [(0x80, 0xBF)] := by decide

private theorem continuations_three : ∀ n < 16, continuations (UInt8.ofNat (n + 0xE0)) =
    some [(if n = 0 then 0xA0 else 0x80, if n = 13 then 0x9F else 0xBF), (0x80, 0xBF)] := by
  decide

private theorem continuations_four : ∀ n < 5, continuations (UInt8.ofNat (n + 0xF0)) =
    some [(if n = 0 then 0x90 else 0x80, if n = 4 then 0x8F else 0xBF), (0x80, 0xBF),
      (0x80, 0xBF)] := by
  decide

private theorem toNat_byte {n : Nat} (h : n < 256) : (UInt8.ofNat n).toNat = n := by
  rw [UInt8.toNat_ofNat', Nat.mod_eq_of_lt h]

private theorem feed_first {n p : Nat} {owed : List (UInt8 × UInt8)} (h : 0x80 ≤ n)
    (hn : n < 256) (howed : continuations (UInt8.ofNat n) = some owed) (hp : n % 2 ^ (6 - owed.length) = p) :
    feed ground (UInt8.ofNat n) = (⟨p, owed⟩, []) := by
  have hlead : ¬ UInt8.ofNat n < 0x80 := by
    rw [UInt8.lt_iff_toNat_lt, toNat_byte hn]
    exact Nat.not_lt.mpr h
  simp [feed, ground, first, hlead, howed, toNat_byte hn, hp]

/-- A byte that continues a character adds six bits. -/
private theorem feed_next {low high : UInt8} (p n : Nat) (owed : List (UInt8 × UInt8))
    (hlow : low.toNat ≤ n % 64 + 0x80) (hhigh : n % 64 + 0x80 ≤ high.toNat) :
    feed ⟨p, (low, high) :: owed⟩ (UInt8.ofNat (n % 64 + 0x80)) =
      if owed = [] then (ground, [p * 64 + n % 64]) else (⟨p * 64 + n % 64, owed⟩, []) := by
  have hbyte : (UInt8.ofNat (n % 64 + 0x80)).toNat = n % 64 + 0x80 := toNat_byte (by omega)
  have hrange : low ≤ UInt8.ofNat (n % 64 + 0x80) ∧ UInt8.ofNat (n % 64 + 0x80) ≤ high := by
    rw [UInt8.le_iff_toNat_le, UInt8.le_iff_toNat_le, hbyte]
    exact ⟨hlow, hhigh⟩
  have hbits : (n % 64 + 0x80) % 64 = n % 64 := by omega
  simp only [feed, if_pos hrange, hbyte, hbits]

private theorem feed_last (p n : Nat) :
    feed ⟨p, [(0x80, 0xBF)]⟩ (UInt8.ofNat (n % 64 + 0x80)) = (ground, [p * 64 + n % 64]) :=
  (feed_next p n [] (by simp) (by simp; omega)).trans (if_pos rfl)

private theorem feed_more (low high : UInt8) (p n : Nat) (range : UInt8 × UInt8)
    (owed : List (UInt8 × UInt8)) (hlow : low.toNat ≤ n % 64 + 0x80)
    (hhigh : n % 64 + 0x80 ≤ high.toNat) :
    feed ⟨p, (low, high) :: range :: owed⟩ (UInt8.ofNat (n % 64 + 0x80)) =
      (⟨p * 64 + n % 64, range :: owed⟩, []) :=
  (feed_next p n _ hlow hhigh).trans (if_neg (List.cons_ne_nil _ _))

/-- The bytes of a character are read as the character. -/
theorem feed_char (c : Char) :
    stateAfter feed ground (String.utf8EncodeChar c) = ground ∧
      (outputs feed ground (String.utf8EncodeChar c)).flatten = [c.toNat] := by
  have hvalid : c.toNat < 0xD800 ∨ 0xDFFF < c.toNat ∧ c.toNat < 0x110000 := c.valid
  have hv : c.val.toNat = c.toNat := rfl
  fun_cases String.utf8EncodeChar
  case case1 v h =>
    have hn : (UInt8.ofNat v).toNat = c.toNat := toNat_byte (by omega)
    have hb : UInt8.ofNat v < 0x80 := by
      rw [UInt8.lt_iff_toNat_lt, hn]
      exact Nat.lt_succ_of_le h
    simp [feed, ground, first, hb, hn]
  case case2 v h1 h2 =>
    have hfirst := feed_first (p := v / 64 % 32) (by omega) (by omega)
      (continuations_two (v / 64 % 32) (by omega) (by omega)) (by simp; omega)
    have hlast := feed_last (v / 64 % 32) v
    have hpoint : v / 64 % 32 * 64 + v % 64 = c.toNat := by omega
    simp only [stateAfter_cons, stateAfter_nil, outputs_cons, outputs_nil, hfirst, hlast, hpoint]
    simp
  case case3 v h1 h2 h3 =>
    have hfirst := feed_first (p := v / 4096 % 16) (by omega) (by omega)
      (continuations_three (v / 4096 % 16) (by omega)) (by simp; omega)
    have hsecond := feed_more (if v / 4096 % 16 = 0 then 0xA0 else 0x80)
      (if v / 4096 % 16 = 13 then 0x9F else 0xBF) (v / 4096 % 16) (v / 64) (0x80, 0xBF) []
      (by split <;> simp; omega) (by split <;> (simp; omega))
    have hlast := feed_last (v / 4096 % 16 * 64 + v / 64 % 64) v
    have hpoint : (v / 4096 % 16 * 64 + v / 64 % 64) * 64 + v % 64 = c.toNat := by omega
    simp only [stateAfter_cons, stateAfter_nil, outputs_cons, outputs_nil, hfirst, hsecond, hlast,
      hpoint]
    simp
  case case4 v h1 h2 h3 =>
    have hfirst := feed_first (p := v / 262144 % 8) (by omega) (by omega)
      (continuations_four (v / 262144 % 8) (by omega)) (by simp; omega)
    have hsecond := feed_more (if v / 262144 % 8 = 0 then 0x90 else 0x80)
      (if v / 262144 % 8 = 4 then 0x8F else 0xBF) (v / 262144 % 8) (v / 4096) (0x80, 0xBF)
      [(0x80, 0xBF)] (by split <;> simp; omega) (by split <;> (simp; omega))
    have hthird := feed_more 0x80 0xBF (v / 262144 % 8 * 64 + v / 4096 % 64) (v / 64) (0x80, 0xBF)
      [] (by simp) (by simp; omega)
    have hlast := feed_last ((v / 262144 % 8 * 64 + v / 4096 % 64) * 64 + v / 64 % 64) v
    have hpoint : ((v / 262144 % 8 * 64 + v / 4096 % 64) * 64 + v / 64 % 64) * 64 + v % 64 =
        c.toNat := by omega
    simp only [stateAfter_cons, stateAfter_nil, outputs_cons, outputs_nil, hfirst, hsecond, hthird,
      hlast, hpoint]
    simp

end Utf8State

namespace Utf8State

/-- The bytes of characters are read as the characters. -/
theorem feed_chars (cs : List Char) :
    stateAfter feed ground (utf8Chars cs) = ground ∧
      (outputs feed ground (utf8Chars cs)).flatten = cs.map Char.toNat := by
  induction cs with
  | nil => exact ⟨rfl, rfl⟩
  | cons c cs ih =>
    obtain ⟨hstate, houtput⟩ := feed_char c
    rw [utf8Chars, List.flatMap_cons, ← utf8Chars, stateAfter_append, outputs_append, hstate,
      List.flatten_append, houtput, ih.1, ih.2]
    exact ⟨rfl, rfl⟩

end Utf8State

/-! ### Pieces -/

/-- Decoder of a text that arrives in pieces, with whether it has begun. -/
structure TextDecoder where
  utf8 : Utf8State
  started : Bool
  deriving DecidableEq

namespace TextDecoder

/-- A new decoder. -/
def new : TextDecoder := ⟨.ground, false⟩

/-- Next byte. -/
def push (d : TextDecoder) (b : UInt8) : TextDecoder × Utf16 :=
  let (s, points) := d.utf8.feed b
  -- the byte order mark
  let kept := if ¬ d.started ∧ points.head? = some 0xFEFF then points.tail else points
  (⟨s, d.started || !points.isEmpty⟩, kept.flatMap utf16Units)

/-- `decode` of a piece of a stream. -/
def decode (d : TextDecoder) (bytes : Bytes) : TextDecoder × Utf16 :=
  (stateAfter push d bytes, (outputs push d bytes).flatten)

/-- `decode` at the end of a stream. -/
def finish (d : TextDecoder) : Utf16 := if d.utf8.owed = [] then [] else utf16Units 0xFFFD

@[simp] theorem decode_nil (d : TextDecoder) : d.decode [] = (d, []) := rfl

/-- Two pieces are decoded as one. -/
theorem decode_append (d : TextDecoder) (xs ys : Bytes) :
    d.decode (xs ++ ys) =
      (((d.decode xs).1.decode ys).1, (d.decode xs).2 ++ ((d.decode xs).1.decode ys).2) := by
  rw [decode, outputs_append, List.flatten_append, stateAfter, List.foldl_append]
  rfl

/-- A decoder inside a text decodes as the characters are fed. -/
theorem push_started (s : Utf8State) (b : UInt8) :
    push ⟨s, true⟩ b = (⟨(s.feed b).1, true⟩, (s.feed b).2.flatMap utf16Units) := by
  simp [push]

theorem decode_started (s : Utf8State) (bytes : Bytes) :
    decode ⟨s, true⟩ bytes = (⟨stateAfter Utf8State.feed s bytes, true⟩,
      (outputs Utf8State.feed s bytes).flatten.flatMap utf16Units) := by
  induction bytes generalizing s with
  | nil => rfl
  | cons b bytes ih =>
    have htail := ih (s.feed b).1
    simp only [decode, Prod.mk.injEq] at htail ⊢
    simp only [stateAfter_cons, outputs_cons, push_started, List.flatten_cons, List.flatMap_append]
    exact ⟨htail.1, by rw [htail.2]⟩

/-- Inside a text, the bytes of characters are decoded to their units. -/
theorem decode_chars (cs : List Char) :
    decode ⟨.ground, true⟩ (utf8Chars cs) = (⟨.ground, true⟩, utf16 cs) := by
  induction cs with
  | nil => rfl
  | cons c cs ih =>
    obtain ⟨hstate, houtput⟩ := Utf8State.feed_char c
    have hhead : decode ⟨.ground, true⟩ (String.utf8EncodeChar c) =
        (⟨.ground, true⟩, utf16Units c.toNat) := by
      rw [decode_started, hstate, houtput, List.flatMap_singleton]
    rw [utf8Chars, List.flatMap_cons, ← utf8Chars, decode_append, hhead, ih]
    rfl

/-- A text that begins with an ASCII character is decoded to its units. -/
theorem decode_new {c : Char} (hc : c.toNat < 0x80) (cs : List Char) :
    decode new (utf8Chars (c :: cs)) = (⟨.ground, true⟩, utf16 (c :: cs)) := by
  have hcode : String.utf8EncodeChar c = [UInt8.ofNat c.toNat] := by
    rw [String.utf8EncodeChar]
    exact if_pos (Nat.le_of_lt_succ hc)
  have hbyte : (UInt8.ofNat c.toNat).toNat = c.toNat := by
    rw [UInt8.toNat_ofNat', Nat.mod_eq_of_lt (by omega)]
  have hlow : UInt8.ofNat c.toNat < 0x80 := by
    rw [UInt8.lt_iff_toNat_lt, hbyte]
    exact hc
  have hmark : c.toNat ≠ 0xFEFF := by omega
  have hpush : decode new [UInt8.ofNat c.toNat] = (⟨.ground, true⟩, utf16Units c.toNat) := by
    simp [decode, push, new, Utf8State.feed, Utf8State.first, Utf8State.ground, hlow, hbyte, hmark]
  rw [utf8Chars, List.flatMap_cons, hcode, ← utf8Chars, decode_append, hpush, decode_chars]
  rfl

/-- A decoder whose text has not begun drops a byte order mark. -/
theorem decode_unstarted (s : Utf8State) (bytes : Bytes) :
    (decode ⟨s, false⟩ bytes).1.utf8 = stateAfter Utf8State.feed s bytes ∧
      (decode ⟨s, false⟩ bytes).2 =
        (if (outputs Utf8State.feed s bytes).flatten.head? = some 0xFEFF then
            (outputs Utf8State.feed s bytes).flatten.tail
          else (outputs Utf8State.feed s bytes).flatten).flatMap utf16Units := by
  induction bytes generalizing s with
  | nil => exact ⟨rfl, rfl⟩
  | cons b bytes ih =>
    have hpush : decode ⟨s, false⟩ (b :: bytes) =
        ((decode (push ⟨s, false⟩ b).1 bytes).1,
          (push ⟨s, false⟩ b).2 ++ (decode (push ⟨s, false⟩ b).1 bytes).2) := rfl
    rw [hpush, stateAfter_cons, outputs_cons, List.flatten_cons]
    cases hpoints : (s.feed b).2 with
    | nil =>
      have hnext : push ⟨s, false⟩ b = (⟨(s.feed b).1, false⟩, []) := by simp [push, hpoints]
      rw [hnext]
      exact ih (s.feed b).1
    | cons point points =>
      have hnext : push ⟨s, false⟩ b = (⟨(s.feed b).1, true⟩,
          (if point = 0xFEFF then points else point :: points).flatMap utf16Units) := by
        simp [push, hpoints]
      rw [hnext, decode_started]
      refine ⟨rfl, ?_⟩
      simp only [List.cons_append, List.head?_cons, List.tail_cons, Option.some.injEq]
      split <;> simp

/-- A whole text, decoded at once. -/
def decodeText (bytes : Bytes) : Utf16 := (decode new bytes).2 ++ (decode new bytes).1.finish

/-- The bytes of characters are decoded to their units, without a byte order mark. -/
theorem decodeText_utf8Chars (cs : List Char) :
    decodeText (utf8Chars cs) = utf16 (if cs.head? = some '\uFEFF' then cs.tail else cs) := by
  obtain ⟨hstate, houtput⟩ := Utf8State.feed_chars cs
  obtain ⟨hutf8, htext⟩ := decode_unstarted .ground (utf8Chars cs)
  have hfinish : (decode new (utf8Chars cs)).1.finish = [] := by
    rw [finish, new, hutf8, hstate]
    exact if_pos rfl
  have hmark : (cs.map Char.toNat).head? = some 0xFEFF ↔ cs.head? = some '\uFEFF' := by
    rw [List.head?_map, Option.map_eq_some_iff]
    constructor
    · rintro ⟨c, hc, hpoint⟩
      have hmark : c = '\uFEFF' := Char.toNat_inj.mp hpoint
      rw [hc, hmark]
    · exact fun hc ↦ ⟨_, hc, rfl⟩
  rw [decodeText, hfinish, List.append_nil, new, htext, houtput, utf16]
  by_cases h : cs.head? = some '\uFEFF'
  · rw [if_pos (hmark.mpr h), if_pos h, ← List.map_tail, List.flatMap_map]
  · rw [if_neg fun hpoint ↦ h (hmark.mp hpoint), if_neg h, List.flatMap_map]

/-- A first part of the bytes is decoded to a first part of the text. -/
theorem decode_prefix (d : TextDecoder) {xs ys : Bytes} (h : xs <+: ys) :
    (d.decode xs).2 <+: (d.decode ys).2 := by
  obtain ⟨rest, rfl⟩ := h
  rw [decode_append]
  exact List.prefix_append _ _

end TextDecoder

end Vidarax.Base
