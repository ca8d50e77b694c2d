import Vidarax.Base.Paragraphs
import Vidarax.Sdk.Sse

/-!
# Fields of server-sent events

Package `vidarax-sdk`, `packages/vidarax-sdk/src/client.ts:118–136`. What an event says is in the lines
of its block. A line break of two units that is cut in two leaves a carriage return at the end of its
line: a value grows by it, a name without a value is another name, and an empty line is none.
-/

namespace Vidarax.Sdk

open Vidarax.Base

/-! ### Fields -/

/-- The name of a field. -/
def fieldName (line : Utf16) : Utf16 := (cut colon line).1

/-- The value of a field. -/
def fieldValue (line : Utf16) : Utf16 :=
  let raw := (cut colon line).2.getD []
  if raw.head? = some space then raw.tail else raw

/-- A line with a field of a name. -/
def isField (name : String) (line : Utf16) : Bool := fieldName line = units name

/-- Values of a field in lines. -/
def valuesOf (name : String) (lines : List Utf16) : List Utf16 :=
  (lines.filter (isField name)).map fieldValue

/-- The last value of a field in lines. -/
def lastValue (name : String) (default : Utf16) (lines : List Utf16) : Utf16 :=
  (valuesOf name lines).getLast?.getD default

/-- The event of the lines of a block. -/
def eventOf (lines : List Utf16) : Option ParsedSseEvent :=
  if valuesOf "data" lines = [] then none
  else some ⟨lastValue "id" [] lines, lastValue "event" (units "message") lines,
    [lineFeed].intercalate (valuesOf "data" lines)⟩

/-- Lines with data. -/
def hasData (lines : List Utf16) : Bool := valuesOf "data" lines ≠ []

theorem isField_iff {name : String} {line : Utf16} :
    isField name line = true ↔ fieldName line = units name := decide_eq_true_iff

theorem not_isField_comment {name : String} {line : Utf16} (hname : units name ≠ [])
    (h : line.head? = some colon) : isField name line = false := by
  cases line with
  | nil => cases h
  | cons u line =>
    cases h
    have hcut : fieldName (colon :: line) = [] := congrArg Prod.fst (if_pos rfl)
    rw [isField, hcut, decide_eq_false_iff_not]
    exact fun hempty ↦ hname hempty.symm

theorem acceptLine_eq (fields : BlockFields) (line : Utf16) : fields.acceptLine line =
    if isField "id" line then { fields with id := fieldValue line }
    else if isField "event" line then { fields with event := fieldValue line }
    else if isField "data" line then { fields with data := fields.data ++ [fieldValue line] }
    else fields := by
  unfold BlockFields.acceptLine
  by_cases hcomment : line.head? = some colon
  · rw [if_pos hcomment, not_isField_comment (by decide) hcomment,
      not_isField_comment (by decide) hcomment, not_isField_comment (by decide) hcomment]
    rfl
  · simp only [if_neg hcomment, isField_iff]
    rfl

/-- Values of one more line. -/
theorem valuesOf_concat (name : String) (lines : List Utf16) (line : Utf16) :
    valuesOf name (lines ++ [line]) =
      valuesOf name lines ++ if isField name line then [fieldValue line] else [] := by
  unfold valuesOf
  rw [List.filter_append, List.map_append]
  congr 1
  cases hfield : isField name line <;> simp [hfield]

theorem lastValue_concat (name : String) (default : Utf16) (lines : List Utf16) (line : Utf16) :
    lastValue name default (lines ++ [line]) =
      if isField name line then fieldValue line else lastValue name default lines := by
  unfold lastValue
  rw [valuesOf_concat]
  split
  · rw [List.getLast?_concat]
    rfl
  · rw [List.append_nil]

/-- Fields of lines that are read one after another. -/
theorem foldl_acceptLine (lines : List Utf16) :
    lines.foldl BlockFields.acceptLine ⟨[], units "message", []⟩ =
      ⟨lastValue "id" [] lines, lastValue "event" (units "message") lines, valuesOf "data" lines⟩ := by
  induction lines using List.reverseRecOn with
  | nil => rfl
  | append_singleton lines line ih =>
    have hdistinct (first second : String) (hne : units first ≠ units second)
        (hfirst : isField first line = true) : isField second line = false := by
      rw [isField, decide_eq_false_iff_not]
      exact fun hsecond ↦ hne ((of_decide_eq_true hfirst).symm.trans hsecond)
    rw [List.foldl_concat, ih, acceptLine_eq, lastValue_concat, lastValue_concat, valuesOf_concat]
    by_cases hid : isField "id" line = true
    · simp [hid, hdistinct "id" "event" (by decide) hid, hdistinct "id" "data" (by decide) hid]
    · by_cases hevent : isField "event" line = true
      · simp [hid, hevent, hdistinct "event" "data" (by decide) hevent]
      · by_cases hdata : isField "data" line = true <;> simp [hid, hevent, hdata]

/-- A block is read by its lines. -/
theorem parseBlock_eq (block : Utf16) : parseBlock block = eventOf (block.splitOn lineFeed) := by
  unfold parseBlock
  rw [foldl_acceptLine]
  rfl

theorem isField_nil {name : String} (hname : units name ≠ []) : isField name [] = false := by
  rw [isField, decide_eq_false_iff_not]
  exact fun h ↦ hname h.symm

/-- An empty line says nothing. -/
theorem valuesOf_cons_nil {name : String} (hname : units name ≠ []) (lines : List Utf16) :
    valuesOf name ([] :: lines) = valuesOf name lines := by
  rw [valuesOf, List.filter_cons_of_neg (by rw [isField_nil hname]; exact Bool.false_ne_true), valuesOf]

theorem eventOf_cons_nil (lines : List Utf16) : eventOf ([] :: lines) = eventOf lines := by
  unfold eventOf lastValue
  rw [valuesOf_cons_nil (by decide), valuesOf_cons_nil (by decide), valuesOf_cons_nil (by decide)]

/-- Events of a text are those of its paragraphs. -/
theorem filterMap_parseBlock (text : Utf16) :
    (blocks lineFeed text).1.filterMap parseBlock = paragraphs lineFeed eventOf text := by
  rw [← blocks_filterMap rfl eventOf_cons_nil]
  exact List.filterMap_congr fun block _ ↦ parseBlock_eq block

/-- Values of lines are those of their paragraphs. -/
theorem valuesOf_flatMap {name : String} (hname : units name ≠ []) (lines : List Utf16) :
    valuesOf name lines = (lines.splitOn []).flatMap (valuesOf name) := by
  induction lines with
  | nil => rfl
  | cons line lines ih =>
    obtain ⟨first, more, hsplit⟩ := List.exists_cons_of_ne_nil (List.splitOn_ne_nil [] lines)
    rw [List.splitOn_cons_eq_if_modifyHead]
    by_cases hline : line = []
    · subst hline
      rw [if_pos BEq.rfl, valuesOf_cons_nil hname, ih]
      rfl
    · rw [if_neg (by simpa using hline), hsplit, List.modifyHead_cons, List.flatMap_cons]
      rw [hsplit, List.flatMap_cons] at ih
      unfold valuesOf at ih ⊢
      cases hfield : isField name line
      · rw [List.filter_cons_of_neg (by simp [hfield]), List.filter_cons_of_neg (by simp [hfield]), ih]
      · rw [List.filter_cons_of_pos hfield, List.filter_cons_of_pos hfield, List.map_cons, ih]
        rfl

theorem eventOf_eq_none_iff (lines : List Utf16) : eventOf lines = none ↔ hasData lines = false := by
  unfold eventOf hasData
  rw [decide_eq_false_iff_not, not_not]
  split <;> simp_all

/-- Events of paragraphs are those of the ones with data. -/
theorem filterMap_eventOf (paragraphs : List (List Utf16)) :
    (paragraphs.filterMap eventOf).length = (paragraphs.filter hasData).length ∧
      paragraphs.filterMap eventOf = (paragraphs.filter hasData).filterMap eventOf := by
  induction paragraphs with
  | nil => exact ⟨rfl, rfl⟩
  | cons lines paragraphs ih =>
    cases hdata : hasData lines with
    | false =>
      rw [List.filterMap_cons_none ((eventOf_eq_none_iff lines).mpr hdata),
        List.filter_cons_of_neg (by simp [hdata])]
      exact ih
    | true =>
      obtain ⟨event, hevent⟩ : ∃ event, eventOf lines = some event :=
        Option.ne_none_iff_exists'.mp fun hnone ↦ by
          rw [(eventOf_eq_none_iff lines).mp hnone] at hdata
          cases hdata
      rw [List.filterMap_cons_some hevent, List.filter_cons_of_pos hdata,
        List.filterMap_cons_some hevent, List.length_cons, List.length_cons, ih.1, ih.2]
      exact ⟨rfl, rfl⟩

end Vidarax.Sdk
