import Vidarax.Base.JsonGrammar

/-!
# JSON objects in prose

Package `vidarax-api`, `semantic_infer.rs` 1808–1862: the answer of a model is searched for the
first brace at which a JSON object starts. The parser of JSON texts is a parameter.
-/

namespace Vidarax.Reason

open Base

/-- `SemanticParseError`. -/
inductive SemanticParseError where
  | EmptyResponse
  | JsonObjectNotFound
  | InvalidJson
  | SchemaMismatch
  deriving DecidableEq

/-- `SemanticParseError::as_str`. -/
def SemanticParseError.asStr : SemanticParseError → String
  | EmptyResponse => "empty_response"
  | JsonObjectNotFound => "json_object_not_found"
  | InvalidJson => "invalid_json"
  | SchemaMismatch => "schema_mismatch"

/-- The loop of `extract_balanced_json_object`: the text up to the brace that closes the first. -/
def balanced (depth : Nat) (in_string escaped : Bool) : List Char → Option (List Char)
  | [] => none
  | ch :: rest =>
    if in_string then
      if escaped then (balanced depth true false rest).map (ch :: ·)
      else if ch = '\\' then (balanced depth true true rest).map (ch :: ·)
      else if ch = '"' then (balanced depth false escaped rest).map (ch :: ·)
      else (balanced depth true escaped rest).map (ch :: ·)
    else if ch = '"' then (balanced depth true escaped rest).map (ch :: ·)
    else if ch = '{' then (balanced (depth + 1) false escaped rest).map (ch :: ·)
    else if ch = '}' then
      match depth with
      | 0 => none
      | 1 => some [ch]
      | depth + 2 => (balanced (depth + 1) false escaped rest).map (ch :: ·)
    else (balanced depth false escaped rest).map (ch :: ·)

/-- `extract_balanced_json_object`. -/
def extractBalancedJsonObject (raw : List Char) : Option (List Char) :=
  if raw.head? = some '{' then balanced 0 false false raw else none

section Search

variable {V : Type} (fromStr : List Char → Option V)

/-- The loop of `parse_first_json_object`. -/
def parseFirstFrom (saw_balanced_object : Bool) : List Char → Except SemanticParseError V
  | [] => if saw_balanced_object then .error .InvalidJson else .error .JsonObjectNotFound
  | ch :: rest =>
    if ch ≠ '{' then parseFirstFrom saw_balanced_object rest
    else
      match extractBalancedJsonObject (ch :: rest) with
      | none => parseFirstFrom saw_balanced_object rest
      | some candidate =>
        match fromStr candidate with
        | some value => .ok value
        | none => parseFirstFrom true rest

/-- `parse_first_json_object`. -/
def parseFirstJsonObject (raw : List Char) : Except SemanticParseError V :=
  parseFirstFrom fromStr false raw

end Search

/-! ### Walking a text -/

section Steps

variable {depth : Nat} {escaped : Bool} {ch : Char} {rest : List Char}

theorem balanced_other (hquote : ch ≠ '"') (hopen : ch ≠ '{') (hclose : ch ≠ '}') :
    balanced depth false escaped (ch :: rest) =
      (balanced depth false escaped rest).map (ch :: ·) :=
  (if_neg hquote).trans ((if_neg hopen).trans (if_neg hclose))

theorem balanced_quote :
    balanced depth false escaped ('"' :: rest) =
      (balanced depth true escaped rest).map ('"' :: ·) := rfl

theorem balanced_open :
    balanced depth false escaped ('{' :: rest) =
      (balanced (depth + 1) false escaped rest).map ('{' :: ·) := rfl

theorem balanced_close :
    balanced (depth + 2) false escaped ('}' :: rest) =
      (balanced (depth + 1) false escaped rest).map ('}' :: ·) := rfl

theorem balanced_end : balanced 1 false escaped ('}' :: rest) = some ['}'] := rfl

theorem balanced_escaped :
    balanced depth true true (ch :: rest) = (balanced depth true false rest).map (ch :: ·) := rfl

theorem balanced_backslash :
    balanced depth true false ('\\' :: rest) =
      (balanced depth true true rest).map ('\\' :: ·) := rfl

theorem balanced_unquote :
    balanced depth true false ('"' :: rest) =
      (balanced depth false false rest).map ('"' :: ·) := rfl

theorem balanced_inside (hquote : ch ≠ '"') (hback : ch ≠ '\\') :
    balanced depth true false (ch :: rest) = (balanced depth true false rest).map (ch :: ·) :=
  (if_neg hback).trans (if_neg hquote)

end Steps

/-- What is found is a first part of the text that ends with a brace. -/
theorem prefix_of_balanced {depth : Nat} {in_string escaped : Bool} {raw text : List Char}
    (h : balanced depth in_string escaped raw = some text) :
    text <+: raw ∧ text.getLast? = some '}' := by
  have hcons {ch : Char} {rest : List Char} {found : Option (List Char)} {text : List Char}
      (ih : ∀ {text}, found = some text → text <+: rest ∧ text.getLast? = some '}')
      (h : found.map (ch :: ·) = some text) :
      text <+: ch :: rest ∧ text.getLast? = some '}' := by
    obtain ⟨tail, htail, rfl⟩ := Option.map_eq_some_iff.mp h
    obtain ⟨hpre, hlast⟩ := ih htail
    refine ⟨List.cons_prefix_cons.mpr ⟨rfl, hpre⟩, ?_⟩
    rw [List.getLast?_cons, hlast]
    rfl
  induction raw generalizing depth in_string escaped text with
  | nil =>
    rw [balanced.eq_def] at h
    cases h
  | cons ch rest ih =>
    rw [balanced.eq_def] at h
    dsimp only at h
    split at h
    · -- inside a string
      split at h
      · exact hcons ih h
      · split at h
        · exact hcons ih h
        · split at h
          · exact hcons ih h
          · exact hcons ih h
    · split at h
      · exact hcons ih h
      · split at h
        · exact hcons ih h
        · split at h
          · next hclose =>
            split at h
            · cases h
            · cases h
              exact ⟨⟨rest, rfl⟩, congrArg some hclose⟩
            · exact hcons ih h
          · exact hcons ih h

/-! ### JSON is walked through -/

/-- The text is walked without finding an end, at any depth. -/
def Neutral (text : List Char) : Prop :=
  ∀ depth rest, balanced (depth + 1) false false (text ++ rest) =
    (balanced (depth + 1) false false rest).map (text ++ ·)

theorem neutral_nil : Neutral [] := fun depth rest ↦ by simp

theorem Neutral.append {a b : List Char} (ha : Neutral a) (hb : Neutral b) : Neutral (a ++ b) := by
  intro depth rest
  rw [List.append_assoc, ha, hb, Option.map_map]
  simp [Function.comp_def]

/-- Characters other than quotes and braces. -/
theorem neutral_plain {text : List Char} (h : ∀ c ∈ text, c ≠ '"' ∧ c ≠ '{' ∧ c ≠ '}') :
    Neutral text := by
  induction text with
  | nil => exact neutral_nil
  | cons c text ih =>
    rw [List.forall_mem_cons] at h
    obtain ⟨⟨hquote, hopen, hclose⟩, h⟩ := h
    intro depth rest
    rw [List.cons_append, balanced_other hquote hopen hclose, ih h, Option.map_map]
    rfl

/-- One such character before a text. -/
theorem Neutral.cons {c : Char} (hc : c ≠ '"' ∧ c ≠ '{' ∧ c ≠ '}') {text : List Char}
    (h : Neutral text) : Neutral (c :: text) :=
  Neutral.append (a := [c]) (neutral_plain fun _ hd ↦ List.mem_singleton.mp hd ▸ hc) h

theorem neutral_literal {text : List Char} (h : text.all fun c ↦ c ≠ '"' ∧ c ≠ '{' ∧ c ≠ '}') :
    Neutral text :=
  neutral_plain fun c hc ↦ of_decide_eq_true (List.all_eq_true.mp h c hc)

theorem neutral_space {text : List Char} (h : IsSpace text) : Neutral text := by
  apply neutral_plain
  intro c hc
  rcases h c hc with rfl | rfl | rfl | rfl <;> decide

/-- A text between braces. -/
theorem Neutral.braces {text : List Char} (h : Neutral text) : Neutral ('{' :: (text ++ ['}'])) := by
  intro depth rest
  rw [List.cons_append, balanced_open, List.append_assoc, h, List.singleton_append, balanced_close,
    Option.map_map, Option.map_map]
  simp [Function.comp_def]

/-- A character of a string is walked inside the string. -/
theorem balanced_character {text : List Char} (h : IsCharacter text) (depth : Nat)
    (rest : List Char) :
    balanced depth true false (text ++ rest) =
      (balanced depth true false rest).map (text ++ ·) := by
  have hhex {c : Char} (h : IsHex c) : c ≠ '"' ∧ c ≠ '\\' := by
    constructor
    · rintro rfl
      revert h
      unfold IsHex
      decide
    · rintro rfl
      revert h
      unfold IsHex
      decide
  cases h with
  | plain hquote hback hcontrol => exact balanced_inside hquote hback
  | short h =>
    rw [List.cons_append, balanced_backslash, List.singleton_append, balanced_escaped,
      Option.map_map]
    rfl
  | @numbered a b c d ha hb hc hd =>
    simp only [List.cons_append, List.nil_append]
    rw [balanced_backslash, balanced_escaped, balanced_inside (hhex ha).1 (hhex ha).2,
      balanced_inside (hhex hb).1 (hhex hb).2, balanced_inside (hhex hc).1 (hhex hc).2,
      balanced_inside (hhex hd).1 (hhex hd).2]
    simp only [Option.map_map]
    rfl

theorem neutral_string {text : List Char} (h : IsString text) : Neutral text := by
  obtain ⟨characters, hcharacters, rfl⟩ := h
  have hinside (depth : Nat) (rest : List Char) :
      balanced depth true false (characters.flatten ++ rest) =
        (balanced depth true false rest).map (characters.flatten ++ ·) := by
    induction characters with
    | nil => simp
    | cons character characters ih =>
      rw [List.forall_mem_cons] at hcharacters
      rw [List.flatten_cons, List.append_assoc, balanced_character hcharacters.1,
        ih hcharacters.2, Option.map_map]
      simp [Function.comp_def]
  intro depth rest
  rw [List.cons_append, balanced_quote, List.append_assoc, hinside, List.singleton_append,
    balanced_unquote, Option.map_map, Option.map_map]
  simp [Function.comp_def]

theorem neutral_number {text : List Char} (h : IsNumber text) : Neutral text := by
  have hdigits {t : List Char} (h : IsDigits t) : Neutral t :=
    neutral_plain fun c hc ↦ ⟨isDigit_ne (h.2 c hc) (by decide), isDigit_ne (h.2 c hc) (by decide),
      isDigit_ne (h.2 c hc) (by decide)⟩
  obtain ⟨sign, whole, fraction, exponent, rfl, hsign, hwhole, hfraction, hexponent⟩ := h
  have hsign : Neutral sign := by
    rcases hsign with rfl | rfl
    · exact neutral_nil
    · exact neutral_literal (by decide)
  have hwhole : Neutral whole := by
    rcases hwhole with rfl | ⟨h, -⟩
    · exact neutral_literal (by decide)
    · exact hdigits h
  have hfraction : Neutral fraction := by
    rcases hfraction with rfl | ⟨digits, h, rfl⟩
    · exact neutral_nil
    · exact (hdigits h).cons (by decide)
  have hexponent : Neutral exponent := by
    rcases hexponent with rfl | ⟨e, signs, digits, he, hsigns, h, rfl⟩
    · exact neutral_nil
    · have hsigns : Neutral signs := by
        rcases hsigns with rfl | rfl | rfl
        · exact neutral_nil
        · exact neutral_literal (by decide)
        · exact neutral_literal (by decide)
      rcases he with rfl | rfl
      · exact (hsigns.append (hdigits h)).cons (by decide)
      · exact (hsigns.append (hdigits h)).cons (by decide)
  exact hsign.append (hwhole.append (hfraction.append hexponent))

/-- Every part of a JSON text is walked through. -/
theorem neutral_json {part : JsonPart} {text : List Char} (h : IsJson part text) : Neutral text := by
  have hbrackets {t : List Char} (ht : Neutral t) : Neutral ('[' :: (t ++ [']'])) :=
    (ht.append (neutral_literal (by decide))).cons (by decide)
  induction h with
  | null => exact neutral_literal (by decide)
  | true => exact neutral_literal (by decide)
  | false => exact neutral_literal (by decide)
  | number h => exact neutral_number h
  | string h => exact neutral_string h
  | emptyArray h => exact hbrackets (neutral_space h)
  | array h ih => exact hbrackets ih
  | emptyObject h => exact (neutral_space h).braces
  | object h ih => exact ih.braces
  | element hs h hs' ih => exact (neutral_space hs).append (ih.append (neutral_space hs'))
  | elements hs h hs' hu ih ihu =>
    exact (neutral_space hs).append (ih.append
      ((neutral_space hs').append (ihu.cons (by decide))))
  | member hs hk hs' hr h hr' ih =>
    exact (neutral_space hs).append ((neutral_string hk).append ((neutral_space hs').append
      (((neutral_space hr).append (ih.append (neutral_space hr'))).cons (by decide))))
  | members hs hk hs' hr h hr' hu ih ihu =>
    exact (neutral_space hs).append ((neutral_string hk).append ((neutral_space hs').append
      (((neutral_space hr).append (ih.append
        ((neutral_space hr').append (ihu.cons (by decide))))).cons (by decide))))

/-! ### Objects are found -/

theorem extract_brace (rest : List Char) :
    extractBalancedJsonObject ('{' :: rest) = (balanced 1 false false rest).map ('{' :: ·) :=
  balanced_open

/-- An object is extracted, whatever follows. -/
theorem extract_object {text : List Char} (h : IsObject text) (rest : List Char) :
    extractBalancedJsonObject (text ++ rest) = some text := by
  obtain ⟨inner, hinner, rfl⟩ := h
  have hneutral : Neutral inner := hinner.elim neutral_space neutral_json
  rw [List.cons_append, extract_brace, List.append_assoc, hneutral, List.singleton_append,
    balanced_end, Option.map_some, Option.map_some]

/-- At one place there is at most one object. -/
theorem object_unique {text text' rest rest' : List Char} (h : IsObject text) (h' : IsObject text')
    (heq : text ++ rest = text' ++ rest') : text = text' := by
  have hextract := extract_object h rest
  rw [heq, extract_object h' rest'] at hextract
  exact (Option.some.inj hextract).symm

/-- The object is in the text, and none starts before it. -/
def FirstObject (raw text : List Char) : Prop :=
  ∃ front rest, raw = front ++ (text ++ rest) ∧ IsObject text ∧
    ∀ front' text' rest', raw = front' ++ (text' ++ rest') → IsObject text' →
      front.length ≤ front'.length

theorem FirstObject.isObject {raw text : List Char} (h : FirstObject raw text) : IsObject text := by
  obtain ⟨-, -, -, hobject, -⟩ := h
  exact hobject

/-- An object at the start is the first one. -/
theorem firstObject_start {text rest : List Char} (h : IsObject text) (text' : List Char) :
    FirstObject (text ++ rest) text' ↔ text' = text := by
  constructor
  · rintro ⟨front, rest', heq, h', hfirst⟩
    have hfront : front = [] := List.length_eq_zero_iff.mp
      (Nat.le_zero.mp (hfirst [] text rest rfl h))
    subst hfront
    exact object_unique h' h heq.symm
  · rintro rfl
    exact ⟨[], rest, rfl, h, fun _ _ _ _ _ ↦ Nat.zero_le _⟩

/-- Where no object starts, the first one starts later. -/
theorem firstObject_cons {ch : Char} {raw : List Char}
    (hnone : ∀ text rest, ch :: raw = text ++ rest → ¬ IsObject text) (text : List Char) :
    FirstObject (ch :: raw) text ↔ FirstObject raw text := by
  have hlater {front text rest : List Char} (heq : ch :: raw = front ++ (text ++ rest))
      (h : IsObject text) : ∃ front', front = ch :: front' ∧ raw = front' ++ (text ++ rest) := by
    cases front with
    | nil => exact absurd h (hnone text rest heq)
    | cons c front =>
      obtain ⟨rfl, hrest⟩ := List.cons.inj heq
      exact ⟨front, rfl, hrest⟩
  constructor
  · rintro ⟨front, rest, heq, h, hfirst⟩
    obtain ⟨front, rfl, hrest⟩ := hlater heq h
    refine ⟨front, rest, hrest, h, fun front' text' rest' heq' h' ↦ ?_⟩
    exact Nat.le_of_succ_le_succ (hfirst (ch :: front') text' rest' (congrArg _ heq') h')
  · rintro ⟨front, rest, heq, h, hfirst⟩
    refine ⟨ch :: front, rest, congrArg _ heq, h, fun front' text' rest' heq' h' ↦ ?_⟩
    obtain ⟨front', rfl, hrest'⟩ := hlater heq' h'
    exact Nat.succ_le_succ (hfirst front' text' rest' hrest' h')

/-- A text with an object has a first one. -/
theorem exists_firstObject {raw : List Char}
    (h : ∃ front text rest, raw = front ++ (text ++ rest) ∧ IsObject text) :
    ∃ text, FirstObject raw text := by
  induction raw with
  | nil =>
    obtain ⟨front, text, rest, heq, inner, -, rfl⟩ := h
    simp at heq
  | cons ch raw ih =>
    by_cases hstart : ∃ text rest, ch :: raw = text ++ rest ∧ IsObject text
    · obtain ⟨text, rest, heq, hobject⟩ := hstart
      rw [heq]
      exact ⟨text, (firstObject_start hobject text).mpr rfl⟩
    · have hnone : ∀ text rest, ch :: raw = text ++ rest → ¬ IsObject text :=
        fun text rest heq hobject ↦ hstart ⟨text, rest, heq, hobject⟩
      obtain ⟨front, text, rest, heq, hobject⟩ := h
      cases front with
      | nil => exact absurd hobject (hnone text rest heq)
      | cons c front =>
        obtain ⟨text, hfirst⟩ := ih ⟨front, text, rest, (List.cons.inj heq).2, hobject⟩
        exact ⟨text, (firstObject_cons hnone text).mpr hfirst⟩

section Search

variable {V : Type} {fromStr : List Char → Option V}
  (hfromStr : ∀ text, (fromStr text).isSome ↔ IsJsonText text)

include hfromStr

/-- At each character an object is returned, or there is none and the search goes on. -/
theorem parseFirstFrom_cons (saw : Bool) (ch : Char) (rest : List Char) :
    (∃ text back value, ch :: rest = text ++ back ∧ IsObject text ∧ fromStr text = some value ∧
        parseFirstFrom fromStr saw (ch :: rest) = .ok value) ∨
      (∀ text back, ch :: rest = text ++ back → ¬ IsObject text) ∧
        ∃ saw', parseFirstFrom fromStr saw (ch :: rest) = parseFirstFrom fromStr saw' rest := by
  have hbrace {text back : List Char} (heq : ch :: rest = text ++ back) (h : IsObject text) :
      ch = '{' ∧ extractBalancedJsonObject (ch :: rest) = some text := by
    refine ⟨?_, by rw [heq, extract_object h]⟩
    obtain ⟨inner, -, rfl⟩ := h
    exact (List.cons.inj heq).1
  rw [parseFirstFrom]
  by_cases hch : ch = '{'
  · rw [if_neg (not_not.mpr hch)]
    cases hextract : extractBalancedJsonObject (ch :: rest) with
    | none =>
      refine .inr ⟨fun text back heq h ↦ ?_, saw, rfl⟩
      exact nomatch hextract.symm.trans (hbrace heq h).2
    | some candidate =>
      dsimp only
      cases hvalue : fromStr candidate with
      | some value =>
        have htext := (hfromStr candidate).mp (by rw [hvalue]; rfl)
        subst hch
        have hfirst : candidate.head? = some '{' := by
          obtain ⟨tail, -, rfl⟩ := Option.map_eq_some_iff.mp (extract_brace rest ▸ hextract)
          rfl
        have hbalanced : balanced 0 false false ('{' :: rest) = some candidate := hextract
        obtain ⟨⟨back, hback⟩, hlast⟩ := prefix_of_balanced hbalanced
        exact .inl ⟨candidate, back, value, hback.symm, isObject_of_text htext hfirst hlast,
          hvalue, rfl⟩
      | none =>
        refine .inr ⟨fun text back heq h ↦ ?_, true, rfl⟩
        obtain rfl := Option.some.inj (hextract.symm.trans (hbrace heq h).2)
        have := (hfromStr candidate).mpr h.isJsonText
        rw [hvalue] at this
        cases this
  · rw [if_pos hch]
    exact .inr ⟨fun text back heq h ↦ hch (hbrace heq h).1, saw, rfl⟩

/-- What is returned is the value of the first object of the text. -/
theorem parseFirstFrom_eq_ok_iff (saw : Bool) (raw : List Char) (value : V) :
    parseFirstFrom fromStr saw raw = .ok value ↔
      ∃ text, FirstObject raw text ∧ fromStr text = some value := by
  induction raw generalizing saw with
  | nil =>
    refine iff_of_false ?_ ?_
    · rw [parseFirstFrom]
      split
      · exact fun h ↦ nomatch h
      · exact fun h ↦ nomatch h
    · rintro ⟨text, ⟨front, rest, heq, ⟨inner, -, rfl⟩, -⟩, -⟩
      simp at heq
  | cons ch raw ih =>
    rcases parseFirstFrom_cons hfromStr saw ch raw with
      ⟨text, back, found, heq, hobject, hvalue, hparse⟩ | ⟨hnone, saw', hparse⟩
    · rw [hparse, heq]
      simp only [firstObject_start hobject, exists_eq_left, hvalue]
      exact ⟨fun h ↦ by cases h; rfl, fun h ↦ by cases h; rfl⟩
    · rw [hparse, ih]
      simp only [firstObject_cons hnone]

/-- The first object of a text is found, and nothing else: a text with an object gives a value, and
the value is that of the object which starts first. In particular an object is recovered behind any
text in which no object starts, whatever follows it. -/
theorem parseFirstJsonObject_spec :
    (∀ raw value, parseFirstJsonObject fromStr raw = .ok value ↔
      ∃ text, FirstObject raw text ∧ fromStr text = some value) ∧
    (∀ raw, (∃ value, parseFirstJsonObject fromStr raw = .ok value) ↔
      ∃ front text rest, raw = front ++ (text ++ rest) ∧ IsObject text) ∧
    ∀ front text rest, IsObject text →
      (∀ front' text' rest', front ++ (text ++ rest) = front' ++ (text' ++ rest') →
        IsObject text' → front.length ≤ front'.length) →
      ∃ value, fromStr text = some value ∧
        parseFirstJsonObject fromStr (front ++ (text ++ rest)) = .ok value := by
  have hvalue {text : List Char} (h : IsObject text) : ∃ value, fromStr text = some value :=
    Option.isSome_iff_exists.mp ((hfromStr text).mpr h.isJsonText)
  refine ⟨fun raw value ↦ parseFirstFrom_eq_ok_iff hfromStr false raw value, ?_, ?_⟩
  · intro raw
    constructor
    · rintro ⟨value, h⟩
      obtain ⟨text, ⟨front, rest, heq, hobject, -⟩, -⟩ :=
        (parseFirstFrom_eq_ok_iff hfromStr false raw value).mp h
      exact ⟨front, text, rest, heq, hobject⟩
    · intro h
      obtain ⟨text, hfirst⟩ := exists_firstObject h
      obtain ⟨value, hvalue⟩ := hvalue hfirst.isObject
      exact ⟨value, (parseFirstFrom_eq_ok_iff hfromStr false raw value).mpr
        ⟨text, hfirst, hvalue⟩⟩
  · intro front text rest hobject hfirst
    obtain ⟨value, hvalue⟩ := hvalue hobject
    exact ⟨value, hvalue, (parseFirstFrom_eq_ok_iff hfromStr false _ value).mpr
      ⟨text, ⟨front, rest, rfl, hobject, hfirst⟩, hvalue⟩⟩

end Search

open Classical in
/-- A parser that keeps the text. -/
noncomputable def keepText (text : List Char) : Option (List Char) :=
  if IsJsonText text then some text else none

theorem keepText_isSome (text : List Char) : (keepText text).isSome ↔ IsJsonText text := by
  unfold keepText
  split
  · next h => exact iff_of_true rfl h
  · next h => exact iff_of_false (fun hsome ↦ nomatch hsome) h

/-- An empty object before other text. -/
theorem parseFirstJsonObject_spec_sample :
    ∃ value, keepText ['{', '}'] = some value ∧
      parseFirstJsonObject keepText ([] ++ (['{', '}'] ++ [' ', 'o', 'k'])) = .ok value :=
  (parseFirstJsonObject_spec keepText_isSome).2.2 [] ['{', '}'] [' ', 'o', 'k']
    ⟨[], .inl (fun _ h ↦ nomatch h), rfl⟩ fun _ _ _ _ _ ↦ Nat.zero_le _

end Vidarax.Reason
