import Mathlib.Data.Nat.Basic

/-!
# Hexadecimal texts

Library `Base`. The lower-case hexadecimal text of a number, padded with zeros to a width. Numbers
that need more digits are not cut, so that different numbers have different texts.
-/

namespace Vidarax.Base

/-- `{n:0width$x}`. -/
def hex (width n : Nat) : List Char := (Nat.toDigits 16 n).leftpad width '0'

/-- Value of a hexadecimal digit. -/
def hexValue (c : Char) : Nat := if c.toNat < 97 then c.toNat - 48 else c.toNat - 87

/-- Value of a hexadecimal text. -/
def ofHex (text : List Char) : Nat := text.foldl (fun n c ↦ 16 * n + hexValue c) 0

theorem hexValue_digitChar : ∀ d < 16, hexValue d.digitChar = d := by decide

theorem ofHex_concat (text : List Char) (c : Char) :
    ofHex (text ++ [c]) = 16 * ofHex text + hexValue c := by
  rw [ofHex, List.foldl_append]
  rfl

/-- Zeros before a text do not change its value. -/
theorem ofHex_zeros (count : Nat) (text : List Char) :
    ofHex (List.replicate count '0' ++ text) = ofHex text := by
  have hzeros : ofHex (List.replicate count '0') = 0 := by
    induction count with
    | zero => rfl
    | succ count ih =>
      rw [List.replicate_succ', ofHex_concat, ih]
      rfl
  rw [ofHex, List.foldl_append, ← ofHex, hzeros]
  rfl

theorem ofHex_toDigits (n : Nat) : ofHex (Nat.toDigits 16 n) = n := by
  induction n using Nat.strong_induction_on with
  | _ n ih =>
    by_cases hn : n < 16
    · rw [Nat.toDigits_of_lt_base hn]
      exact (Nat.zero_add _).trans (hexValue_digitChar n hn)
    · rw [Nat.toDigits_of_base_le (by decide) (Nat.le_of_not_lt hn), ofHex_concat,
        ih (n / 16) (Nat.div_lt_self (by omega) (by decide)),
        hexValue_digitChar (n % 16) (Nat.mod_lt n (by decide))]
      exact Nat.div_add_mod n 16

/-- The text determines the number. -/
theorem ofHex_hex (width n : Nat) : ofHex (hex width n) = n := by
  rw [hex, List.leftpad, ofHex_zeros, ofHex_toDigits]

/-- Different numbers have different texts. -/
theorem hex_injective (width : Nat) : Function.Injective (hex width) :=
  Function.LeftInverse.injective (ofHex_hex width)

end Vidarax.Base
