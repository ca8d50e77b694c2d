import Mathlib.Data.Nat.Digits.Lemmas
import Vidarax.Base.Utf8

/-!
# Number texts

Library `Base`. Unsigned integers are printed in positional notation and read by
a checked left-to-right parser that accepts one leading plus sign and rejects a
value above its bound, as integer parsing does for the fixed-width types.
-/

namespace Vidarax.Base

/-- The ASCII digit of a value below 36, lower case from ten on. -/
def digitByte (d : Nat) : UInt8 := if d < 10 then UInt8.ofNat (48 + d) else UInt8.ofNat (87 + d)

/-- The value of an ASCII digit in a radix of at most 36; letters of either case count. -/
def digitValue (radix : Nat) (b : UInt8) : Option Nat :=
  let d :=
    if 48 ≤ b.toNat ∧ b.toNat ≤ 57 then some (b.toNat - 48)
    else if 97 ≤ b.toNat ∧ b.toNat ≤ 122 then some (b.toNat - 87)
    else if 65 ≤ b.toNat ∧ b.toNat ≤ 90 then some (b.toNat - 55)
    else none
  d.filter (· < radix)

/-- Digit loop: every multiplication and addition is checked against the bound. -/
def parseDigits (radix bound : Nat) : Nat → Bytes → Option Nat
  | acc, [] => some acc
  | acc, b :: bs =>
    match digitValue radix b with
    | none => none
    | some d =>
      if acc * radix ≤ bound ∧ acc * radix + d ≤ bound then
        parseDigits radix bound (acc * radix + d) bs
      else none

/-- Checked parsing of an unsigned integer of at most `bound`: empty text and a lone
sign are rejected, one leading plus sign is skipped. -/
def parseUnsigned (radix bound : Nat) : Bytes → Option Nat
  | [] => none
  | [b] => if b = 43 ∨ b = 45 then none else parseDigits radix bound 0 [b]
  | b :: bs => if b = 43 then parseDigits radix bound 0 bs else parseDigits radix bound 0 (b :: bs)

/-- Most significant first decimal digits; zero has one digit. -/
def decimalDigits (n : Nat) : List Nat := if n = 0 then [0] else (Nat.digits 10 n).reverse

/-- Decimal text of a number. -/
def decimal (n : Nat) : Bytes := (decimalDigits n).map digitByte

/-- Positional value of digits appended to an accumulator. -/
def positional (radix acc : Nat) (ds : List Nat) : Nat :=
  ds.foldl (fun a d => a * radix + d) acc

/-! ### Digits -/

/-- Reading the byte of a digit gives the digit. -/
theorem digitValue_digitByte {radix d : Nat} (hd : d < radix) (hr : radix ≤ 36) :
    digitValue radix (digitByte d) = some d := by
  unfold digitValue digitByte
  by_cases h : d < 10
  · have hv : (UInt8.ofNat (48 + d)).toNat = 48 + d := by rw [UInt8.toNat_ofNat']; omega
    simp only [h, if_true, hv]
    rw [if_pos (by omega), Nat.add_sub_cancel_left]
    simp [Option.filter, hd]
  · have hv : (UInt8.ofNat (87 + d)).toNat = 87 + d := by rw [UInt8.toNat_ofNat']; omega
    simp only [h, if_false, hv]
    rw [if_neg (by omega), if_pos (by omega), Nat.add_sub_cancel_left]
    simp [Option.filter, hd]

/-- In radix ten exactly the ASCII digits have a value. -/
theorem digitValue_ten (b : UInt8) :
    digitValue 10 b = if 48 ≤ b.toNat ∧ b.toNat ≤ 57 then some (b.toNat - 48) else none := by
  unfold digitValue
  by_cases h : 48 ≤ b.toNat ∧ b.toNat ≤ 57
  · have hd : b.toNat - 48 < 10 := by omega
    simp [h, hd]
  · simp only [h, if_false]
    by_cases hl : 97 ≤ b.toNat ∧ b.toNat ≤ 122
    · have hd : 10 ≤ b.toNat - 87 := by omega
      simp [hl, hd]
    · by_cases hu : 65 ≤ b.toNat ∧ b.toNat ≤ 90
      · have hd : 10 ≤ b.toNat - 55 := by omega
        simp [hl, hu, hd]
      · simp [hl, hu]

/-- Digit bytes are ASCII and are neither controls nor signs. -/
theorem digitByte_range {d : Nat} (hd : d < 36) :
    48 ≤ (digitByte d).toNat ∧ (digitByte d).toNat < 123 := by
  unfold digitByte
  split <;> rw [UInt8.toNat_ofNat'] <;> omega

/-! ### Positional values -/

/-- Appending digits splits the value. -/
theorem positional_append (radix acc : Nat) (xs ys : List Nat) :
    positional radix acc (xs ++ ys) = positional radix (positional radix acc xs) ys :=
  List.foldl_append

/-- The accumulator never decreases. -/
theorem le_positional {radix : Nat} (hr : 0 < radix) (acc : Nat) (ds : List Nat) :
    acc ≤ positional radix acc ds := by
  induction ds generalizing acc with
  | nil => exact Nat.le_refl _
  | cons d ds ih =>
    calc acc ≤ acc * radix + d := Nat.le_add_right_of_le (Nat.le_mul_of_pos_right _ hr)
      _ ≤ positional radix (acc * radix + d) ds := ih _

/-- The value is the little-endian value of the reversed digits. -/
theorem positional_eq_ofDigits (radix : Nat) (ds : List Nat) :
    positional radix 0 ds = Nat.ofDigits radix ds.reverse := by
  rw [Nat.ofDigits_eq_foldr, List.foldr_reverse, positional]
  congr 1
  funext a d
  simp [Nat.mul_comm, Nat.add_comm]

/-- Decimal digits are below ten. -/
theorem decimalDigits_lt {n d : Nat} (h : d ∈ decimalDigits n) : d < 10 := by
  unfold decimalDigits at h
  split at h
  · simp only [List.mem_singleton] at h
    omega
  · exact Nat.digits_lt_base (by decide) (List.mem_reverse.mp h)

/-- Decimal digits carry the number. -/
theorem positional_decimalDigits (n : Nat) : positional 10 0 (decimalDigits n) = n := by
  unfold decimalDigits
  split
  · next h => simp [positional, h]
  · rw [positional_eq_ofDigits, List.reverse_reverse, Nat.ofDigits_digits]

/-- The number of decimal digits is one more than the integer logarithm. -/
theorem length_decimal (n : Nat) :
    (decimal n).length = if n = 0 then 1 else Nat.log 10 n + 1 := by
  unfold decimal decimalDigits
  split
  · rfl
  · next h => rw [List.length_map, List.length_reverse, Nat.length_digits _ _ (by decide) h]

/-- A decimal text is not empty. -/
theorem decimal_ne_nil (n : Nat) : decimal n ≠ [] := by
  intro h
  have hl := length_decimal n
  rw [h, List.length_nil] at hl
  split at hl <;> omega

/-- Every byte of a decimal text is a digit. -/
theorem decimal_range {n : Nat} {b : UInt8} (h : b ∈ decimal n) :
    48 ≤ b.toNat ∧ b.toNat ≤ 57 := by
  obtain ⟨d, hd, rfl⟩ := List.mem_map.mp h
  have hlt := decimalDigits_lt hd
  rw [digitByte, if_pos hlt, UInt8.toNat_ofNat']
  omega

/-! ### Parsing -/

/-- Digits below the radix parse to their value when it fits the bound. -/
theorem parseDigits_map {radix bound acc : Nat} {ds : List Nat} (hr : 0 < radix)
    (hr' : radix ≤ 36) (hd : ∀ d ∈ ds, d < radix) (hb : positional radix acc ds ≤ bound) :
    parseDigits radix bound acc (ds.map digitByte) = some (positional radix acc ds) := by
  induction ds generalizing acc with
  | nil => rfl
  | cons d ds ih =>
    have hle : acc * radix + d ≤ bound := Nat.le_trans (le_positional hr _ ds) hb
    rw [List.map_cons, parseDigits, digitValue_digitByte (hd d (by simp)) hr']
    simp only
    rw [if_pos ⟨by omega, hle⟩]
    exact ih (fun x hx => hd x (by simp [hx])) hb

/-- A successful parse reads a digit from every byte and returns their value. -/
theorem parseDigits_eq_some {radix bound acc v : Nat} {bs : Bytes}
    (h : parseDigits radix bound acc bs = some v) :
    ∃ ds, bs.map (digitValue radix) = ds.map some ∧ v = positional radix acc ds := by
  induction bs generalizing acc with
  | nil => exact ⟨[], rfl, (Option.some.inj h).symm⟩
  | cons b bs ih =>
    rw [parseDigits] at h
    cases hd : digitValue radix b with
    | none => simp [hd] at h
    | some d =>
      simp only [hd] at h
      split at h
      · obtain ⟨ds, hm, hv⟩ := ih h
        exact ⟨d :: ds, by simp [hd, hm], hv⟩
      · cases h

/-- A text that starts with a digit is parsed as digits. -/
theorem parseUnsigned_cons {radix bound : Nat} {b : UInt8} {bs : Bytes} (hp : b ≠ 43)
    (hm : b ≠ 45) : parseUnsigned radix bound (b :: bs) = parseDigits radix bound 0 (b :: bs) := by
  cases bs with
  | nil => simp [parseUnsigned, hp, hm]
  | cons c cs => simp [parseUnsigned, hp]

/-- A text that starts with a byte that is neither a digit nor a plus sign does not parse. -/
theorem parseUnsigned_cons_none {radix bound : Nat} {b : UInt8} {bs : Bytes}
    (hd : digitValue radix b = none) (hp : b ≠ 43) :
    parseUnsigned radix bound (b :: bs) = none := by
  cases bs with
  | nil =>
    by_cases hm : b = 45
    · simp [parseUnsigned, hm]
    · rw [parseUnsigned_cons hp hm, parseDigits, hd]
  | cons c cs => simp [parseUnsigned, hp, parseDigits, hd]

private theorem parseUnsigned_digits {radix bound : Nat} (hr : radix ≤ 36) {d : Nat}
    (hd : d < radix) (bs : Bytes) :
    parseUnsigned radix bound (digitByte d :: bs) =
      parseDigits radix bound 0 (digitByte d :: bs) := by
  have h := digitByte_range (d := d) (by omega)
  apply parseUnsigned_cons
  · intro he
    rw [he] at h
    exact absurd h.1 (by decide)
  · intro he
    rw [he] at h
    exact absurd h.1 (by decide)

/-- A nonempty digit text parses to its value when it fits the bound. -/
theorem parseUnsigned_map {radix bound : Nat} {ds : List Nat} (hr : 0 < radix)
    (hr' : radix ≤ 36) (hn : ds ≠ []) (hd : ∀ d ∈ ds, d < radix)
    (hb : positional radix 0 ds ≤ bound) :
    parseUnsigned radix bound (ds.map digitByte) = some (positional radix 0 ds) := by
  cases ds with
  | nil => exact absurd rfl hn
  | cons d ds =>
    rw [List.map_cons, parseUnsigned_digits hr' (hd d (by simp)), ← List.map_cons]
    exact parseDigits_map hr hr' hd hb

/-- Reading the decimal text of a number within the bound gives the number. -/
theorem parseUnsigned_decimal {bound n : Nat} (h : n ≤ bound) :
    parseUnsigned 10 bound (decimal n) = some n := by
  have hn : decimalDigits n ≠ [] := fun he => decimal_ne_nil n (by simp [decimal, he])
  have hp := positional_decimalDigits n
  rw [decimal, parseUnsigned_map (by decide) (by decide) hn (fun d => decimalDigits_lt)
    (by omega), hp]

private theorem decimal_cons (n : Nat) : ∃ d ds, decimalDigits n = d :: ds ∧ d < 10 := by
  cases h : decimalDigits n with
  | nil => exact absurd (by simp [decimal, h]) (decimal_ne_nil n)
  | cons d ds => exact ⟨d, ds, rfl, decimalDigits_lt (n := n) (by simp [h])⟩

private theorem map_digitValue (ds : List Nat) (h : ∀ d ∈ ds, d < 10) :
    (ds.map digitByte).map (digitValue 10) = ds.map some := by
  rw [List.map_map]
  exact List.map_congr_left fun d hd => digitValue_digitByte (h d hd) (by decide)

private theorem map_some_inj {xs ys : List Nat} (h : xs.map some = ys.map some) : xs = ys :=
  List.map_injective_iff.mpr (Option.some_injective _) h

/-- A text that extends a decimal text parses, if at all, to at least that number. -/
theorem le_of_parseUnsigned_append {bound n v : Nat} {bs : Bytes}
    (h : parseUnsigned 10 bound (decimal n ++ bs) = some v) : n ≤ v := by
  obtain ⟨d, ds, hc, hd⟩ := decimal_cons n
  rw [decimal, hc, List.map_cons, List.cons_append, parseUnsigned_digits (by decide) hd,
    ← List.cons_append, ← List.map_cons, ← hc] at h
  obtain ⟨es, hm, rfl⟩ := parseDigits_eq_some h
  rw [List.map_append, map_digitValue _ (fun _ => decimalDigits_lt)] at hm
  obtain ⟨xs, ys, rfl, hx, _⟩ := List.map_eq_append_iff.mp hm.symm
  rw [positional_append, map_some_inj hx, positional_decimalDigits]
  exact le_positional (by decide) _ _

/-- A proper cut of a decimal text parses, if at all, to at most the number. -/
theorem parseUnsigned_prefix_le {bound n v : Nat} {xs ys : Bytes} (he : decimal n = xs ++ ys)
    (h : parseUnsigned 10 bound xs = some v) : v ≤ n := by
  obtain ⟨us, ws, hs, rfl, -⟩ := List.map_eq_append_iff.mp he
  cases us with
  | nil => cases h
  | cons d us =>
    have hd (x : Nat) (hx : x ∈ d :: us) : x < 10 :=
      decimalDigits_lt (n := n) (by rw [hs]; exact List.mem_append_left _ hx)
    rw [List.map_cons, parseUnsigned_digits (by decide) (hd d (by simp)), ← List.map_cons] at h
    obtain ⟨es, hm, rfl⟩ := parseDigits_eq_some h
    rw [map_digitValue _ hd] at hm
    have hp := positional_decimalDigits n
    rw [hs, positional_append] at hp
    rw [← map_some_inj hm]
    calc positional 10 0 (d :: us) ≤ positional 10 (positional 10 0 (d :: us)) ws :=
          le_positional (by decide) _ _
      _ = n := hp

end Vidarax.Base
