import Mathlib.Data.List.Basic

/-!
# The grammar of JSON

Library `Base`. The texts of RFC 8259 as a derivation: values, the elements of an array and the
members of an object, with white space where it may stand.
-/

namespace Vidarax.Base

/-! ### Characters, strings and numbers -/

/-- White space between tokens. -/
def IsSpace (text : List Char) : Prop := ∀ c ∈ text, c = ' ' ∨ c = '\t' ∨ c = '\n' ∨ c = '\r'

/-- A hexadecimal digit. -/
def IsHex (c : Char) : Prop := c.isDigit ∨ 'a' ≤ c ∧ c ≤ 'f' ∨ 'A' ≤ c ∧ c ≤ 'F'

/-- A character between quotes as it is written. -/
inductive IsCharacter : List Char → Prop where
  | plain {c : Char} (hquote : c ≠ '"') (hback : c ≠ '\\') (hcontrol : 0x20 ≤ c.toNat) :
    IsCharacter [c]
  | short {c : Char} (h : c ∈ "\"\\/bfnrt".toList) : IsCharacter ['\\', c]
  | numbered {a b c d : Char} (ha : IsHex a) (hb : IsHex b) (hc : IsHex c) (hd : IsHex d) :
    IsCharacter ['\\', 'u', a, b, c, d]

/-- A string with its quotes. -/
def IsString (text : List Char) : Prop :=
  ∃ characters : List (List Char), (∀ c ∈ characters, IsCharacter c) ∧
    text = '"' :: (characters.flatten ++ ['"'])

/-- Digits, at least one. -/
def IsDigits (text : List Char) : Prop := text ≠ [] ∧ ∀ c ∈ text, c.isDigit

/-- A number: a sign, a whole part without needless zeros, a fraction and an exponent. -/
def IsNumber (text : List Char) : Prop :=
  ∃ sign whole fraction exponent : List Char,
    text = sign ++ (whole ++ (fraction ++ exponent)) ∧
      (sign = [] ∨ sign = ['-']) ∧
      (whole = ['0'] ∨ IsDigits whole ∧ whole.head? ≠ some '0') ∧
      (fraction = [] ∨ ∃ digits, IsDigits digits ∧ fraction = '.' :: digits) ∧
      (exponent = [] ∨ ∃ e signs digits, (e = 'e' ∨ e = 'E') ∧
        (signs = [] ∨ signs = ['+'] ∨ signs = ['-']) ∧ IsDigits digits ∧
          exponent = e :: (signs ++ digits))

/-! ### Values -/

/-- The parts of a text that are derived together. -/
inductive JsonPart where
  | value
  | elements
  | members

/-- The text is derived as such a part. -/
inductive IsJson : JsonPart → List Char → Prop where
  | null : IsJson .value "null".toList
  | true : IsJson .value "true".toList
  | false : IsJson .value "false".toList
  | number {t : List Char} (h : IsNumber t) : IsJson .value t
  | string {t : List Char} (h : IsString t) : IsJson .value t
  | emptyArray {s : List Char} (h : IsSpace s) : IsJson .value ('[' :: (s ++ [']']))
  | array {t : List Char} (h : IsJson .elements t) : IsJson .value ('[' :: (t ++ [']']))
  | emptyObject {s : List Char} (h : IsSpace s) : IsJson .value ('{' :: (s ++ ['}']))
  | object {t : List Char} (h : IsJson .members t) : IsJson .value ('{' :: (t ++ ['}']))
  | element {s t s' : List Char} (hs : IsSpace s) (h : IsJson .value t) (hs' : IsSpace s') :
    IsJson .elements (s ++ (t ++ s'))
  | elements {s t s' u : List Char} (hs : IsSpace s) (h : IsJson .value t) (hs' : IsSpace s')
    (hu : IsJson .elements u) : IsJson .elements (s ++ (t ++ (s' ++ ',' :: u)))
  | member {s k s' r t r' : List Char} (hs : IsSpace s) (hk : IsString k) (hs' : IsSpace s')
    (hr : IsSpace r) (h : IsJson .value t) (hr' : IsSpace r') :
    IsJson .members (s ++ (k ++ (s' ++ ':' :: (r ++ (t ++ r')))))
  | members {s k s' r t r' u : List Char} (hs : IsSpace s) (hk : IsString k) (hs' : IsSpace s')
    (hr : IsSpace r) (h : IsJson .value t) (hr' : IsSpace r') (hu : IsJson .members u) :
    IsJson .members (s ++ (k ++ (s' ++ ':' :: (r ++ (t ++ (r' ++ ',' :: u))))))

/-- A JSON text: a value with white space around it. -/
def IsJsonText (text : List Char) : Prop :=
  ∃ s t s', IsSpace s ∧ IsJson .value t ∧ IsSpace s' ∧ text = s ++ (t ++ s')

/-- An object. -/
def IsObject (text : List Char) : Prop :=
  ∃ inner, (IsSpace inner ∨ IsJson .members inner) ∧ text = '{' :: (inner ++ ['}'])

/-- An object is a text. -/
theorem IsObject.isJsonText {text : List Char} (h : IsObject text) : IsJsonText text := by
  obtain ⟨inner, hinner, rfl⟩ := h
  have hspace : IsSpace [] := fun _ hc ↦ nomatch hc
  have hvalue : IsJson .value ('{' :: (inner ++ ['}'])) := hinner.elim .emptyObject .object
  exact ⟨[], _, [], hspace, hvalue, hspace, by simp⟩

/-- A digit is none of the characters that stand for structure. -/
theorem isDigit_ne {c d : Char} (hc : c.isDigit) (hd : d.isDigit = false) : c ≠ d := by
  rintro rfl
  rw [hc] at hd
  cases hd

/-- Only objects start with a brace. -/
theorem isObject_of_value {text : List Char} (h : IsJson .value text)
    (hbrace : text.head? = some '{') : IsObject text := by
  cases h with
  | null => cases hbrace
  | true => cases hbrace
  | false => cases hbrace
  | number h =>
    obtain ⟨sign, whole, fraction, exponent, rfl, hsign, hwhole, -⟩ := h
    rcases hsign with rfl | rfl
    · rcases hwhole with rfl | ⟨⟨hne, hdigits⟩, -⟩
      · cases hbrace
      · obtain ⟨c, rest, rfl⟩ := List.exists_cons_of_ne_nil hne
        exact absurd (Option.some.inj hbrace)
          (isDigit_ne (hdigits c List.mem_cons_self) (by decide))
    · cases hbrace
  | string h =>
    obtain ⟨characters, -, rfl⟩ := h
    cases hbrace
  | emptyArray h => cases hbrace
  | array h => cases hbrace
  | emptyObject h => exact ⟨_, .inl h, rfl⟩
  | object h => exact ⟨_, .inr h, rfl⟩

/-- A text between braces is an object. -/
theorem isObject_of_text {text : List Char} (h : IsJsonText text)
    (hbrace : text.head? = some '{') (hlast : text.getLast? = some '}') : IsObject text := by
  obtain ⟨s, t, s', hs, ht, hs', rfl⟩ := h
  have hfirst : s = [] := by
    cases s with
    | nil => rfl
    | cons c s =>
      have hc := hs c List.mem_cons_self
      rw [List.cons_append, List.head?_cons, Option.some.injEq] at hbrace
      subst hbrace
      exact absurd hc (by decide)
  subst hfirst
  have hrest : s' = [] := by
    rcases List.eq_nil_or_concat s' with rfl | ⟨front, c, rfl⟩
    · rfl
    · have hc := hs' c (by simp)
      rw [List.nil_append, List.concat_eq_append, ← List.append_assoc, List.getLast?_concat,
        Option.some.injEq] at hlast
      subst hlast
      exact absurd hc (by decide)
  subst hrest
  rw [List.nil_append, List.append_nil] at hbrace ⊢
  exact isObject_of_value ht hbrace

end Vidarax.Base
