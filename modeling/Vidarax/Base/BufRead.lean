import Vidarax.Base.Utf8

/-!
# Buffered readers

Library `Base`. A buffered reader hands out its remaining bytes in nonempty fills
whose boundaries the operating system chooses. A routine on top of it is correct
when its result depends on the remaining bytes only.
-/

namespace Vidarax.Base

/-- A reader: the successive fills that are still to come, each of them nonempty. -/
structure BufReader where
  fills : List Bytes
  nonempty : ∀ c ∈ fills, c ≠ []

namespace BufReader

/-- All bytes still to be read. -/
def rest (r : BufReader) : Bytes := r.fills.flatten

/-- The buffered bytes; empty only at the end of the input. -/
def fillBuf (r : BufReader) : Bytes := r.fills.headD []

/-- Discard buffered bytes. -/
def consume (r : BufReader) (n : Nat) : BufReader :=
  match r with
  | ⟨[], h⟩ => ⟨[], h⟩
  | ⟨c :: cs, h⟩ =>
    if hn : c.drop n = [] then ⟨cs, fun x hx ↦ h x (by simp [hx])⟩
    else ⟨c.drop n :: cs, by
      intro x hx
      rcases List.mem_cons.mp hx with rfl | hx
      · exact hn
      · exact h x (by simp [hx])⟩

/-- A reader with one fill, or none when there is nothing to read. -/
def single (bs : Bytes) : BufReader :=
  if h : bs = [] then ⟨[], by simp⟩ else ⟨[bs], by simpa using h⟩

/-- The buffer is empty exactly at the end of the input. -/
theorem fillBuf_eq_nil_iff (r : BufReader) : r.fillBuf = [] ↔ r.rest = [] := by
  obtain ⟨fills, h⟩ := r
  cases fills with
  | nil => simp [fillBuf, rest]
  | cons c cs =>
    have hc := h c (by simp)
    simp [fillBuf, rest, hc]

/-- The buffer starts the remaining bytes. -/
theorem fillBuf_prefix (r : BufReader) : r.fillBuf <+: r.rest := by
  obtain ⟨fills, h⟩ := r
  cases fills with
  | nil => simp [fillBuf]
  | cons c cs => simp [fillBuf, rest]

/-- Consuming buffered bytes drops them from the remaining ones. -/
theorem rest_consume (r : BufReader) {n : Nat} (hn : n ≤ r.fillBuf.length) :
    (r.consume n).rest = r.rest.drop n := by
  obtain ⟨fills, h⟩ := r
  cases fills with
  | nil => simp [consume, rest]
  | cons c cs =>
    have hc : n ≤ c.length := hn
    simp only [consume, rest]
    split
    · next hd =>
      rw [List.flatten_cons, List.drop_append_of_le_length hc, hd, List.nil_append]
    · rw [List.flatten_cons, List.flatten_cons, List.drop_append_of_le_length hc]

/-- A one-fill reader reads exactly its bytes. -/
theorem rest_single (bs : Bytes) : (single bs).rest = bs := by
  unfold single
  split
  · next h => simp [rest, h]
  · simp [rest]

end BufReader

/-- How the operating system cuts the contents of a file into fills. -/
structure Fills where
  reader : Bytes → BufReader
  rest_reader : ∀ bs, (reader bs).rest = bs

/-- Every file arrives in one fill. -/
def Fills.whole : Fills := ⟨BufReader.single, BufReader.rest_single⟩

end Vidarax.Base
