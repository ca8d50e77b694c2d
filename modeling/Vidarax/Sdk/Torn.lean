import Vidarax.Sdk.Fields

/-!
# Line breaks that are cut

Package `vidarax-sdk`, `packages/vidarax-sdk/src/client.ts:115–136`. When the two units of a line break
are received in different chunks, the line keeps a carriage return at its end. What may go wrong
stays within the lines between two empty ones: they say one event, and they would say those of the
blocks that they fall into without the carriage returns.
-/

namespace Vidarax.Sdk

open Vidarax.Base

/-! ### Lines -/

/-- A line without carriage returns. -/
def untorn (line : Utf16) : Utf16 := line.filter (· ≠ carriageReturn)

/-- The line break of the line was cut. -/
def Torn (line : Utf16) : Prop := line.getLast? = some carriageReturn

instance (line : Utf16) : Decidable (Torn line) := inferInstanceAs (Decidable (_ = _))

/-- A line of which only the line break may have been cut. -/
structure Sound (line : Utf16) : Prop where
  unbroken : lineFeed ∉ line
  inside : carriageReturn ∉ line.dropLast

variable {line : Utf16} {lines : List Utf16} {name : String}

theorem untorn_of_not_mem (h : carriageReturn ∉ line) : untorn line = line := by
  refine List.filter_eq_self.mpr fun u hu ↦ decide_eq_true ?_
  rintro rfl
  exact h hu

theorem Sound.untorn_of_not_torn (h : Sound line) (htorn : ¬Torn line) : untorn line = line := by
  refine untorn_of_not_mem fun hmem ↦ ?_
  have hne := List.ne_nil_of_mem hmem
  rw [← List.dropLast_append_getLast hne, List.mem_append, List.mem_singleton] at hmem
  rcases hmem with hmem | hlast
  · exact h.inside hmem
  · exact htorn (by rw [Torn, List.getLast?_eq_some_getLast hne, ← hlast])

/-- A torn line ends in a carriage return and has no other. -/
theorem Sound.untorn_of_torn (h : Sound line) (htorn : Torn line) :
    line = untorn line ++ [carriageReturn] := by
  obtain ⟨core, rfl⟩ : ∃ core, line = core ++ [carriageReturn] :=
    List.getLast?_eq_some_iff.mp htorn
  have hcore : carriageReturn ∉ core := by
    have hinside := h.inside
    rwa [List.dropLast_concat] at hinside
  have hend : untorn [carriageReturn] = [] := rfl
  rw [untorn, List.filter_append, ← untorn, ← untorn, untorn_of_not_mem hcore, hend, List.append_nil]

/-- Values are parts of their lines. -/
theorem mem_of_mem_fieldValue {u : UInt16} (h : u ∈ fieldValue line) : u ∈ line := by
  have hraw : u ∈ (cut colon line).2.getD [] := by
    unfold fieldValue at h
    dsimp only at h
    split at h
    · exact List.mem_of_mem_tail h
    · exact h
  rcases cut_cases colon line with ⟨first, rest, hline, -, hcut⟩ | ⟨-, hcut⟩
  · rw [hcut] at hraw
    rw [hline]
    exact List.mem_append_right _ (List.mem_cons_of_mem _ hraw)
  · rw [hcut] at hraw
    cases hraw

theorem not_mem_of_mem_valuesOf {u : UInt16} (h : ∀ line ∈ lines, u ∉ line) :
    ∀ value ∈ valuesOf name lines, u ∉ value := by
  intro value hvalue hu
  obtain ⟨line, hline, rfl⟩ := List.mem_map.mp hvalue
  exact h line (List.mem_filter.mp hline).1 (mem_of_mem_fieldValue hu)

/-- What lines say is what each of them says. -/
theorem valuesOf_eq_flatMap (name : String) (lines : List Utf16) :
    valuesOf name lines = lines.flatMap fun line ↦ valuesOf name [line] := by
  induction lines with
  | nil => rfl
  | cons line lines ih =>
    rw [List.flatMap_cons, ← ih, valuesOf, ← List.singleton_append, List.filter_append,
      List.map_append]
    rfl

/-- What a torn line says: its value grows, and a name without a value is another one. -/
theorem valuesOf_torn {core : Utf16} (hname : carriageReturn ∉ units name) :
    valuesOf name [core ++ [carriageReturn]] =
      if colon ∈ core then (valuesOf name [core]).map (· ++ [carriageReturn]) else [] := by
  rcases cut_cases colon core with ⟨first, rest, hcore, hfirst, hcut⟩ | ⟨hcolon, -⟩
  · have htorn : cut colon (core ++ [carriageReturn]) = (first, some (rest ++ [carriageReturn])) := by
      rw [hcore, List.append_assoc, List.cons_append]
      exact cut_append hfirst
    have hfield : isField name (core ++ [carriageReturn]) = isField name core := by
      unfold isField fieldName
      rw [htorn, hcut]
    have hvalue : fieldValue (core ++ [carriageReturn]) = fieldValue core ++ [carriageReturn] := by
      unfold fieldValue
      rw [htorn, hcut]
      cases rest with
      | nil => rfl
      | cons u rest =>
        by_cases hspace : some u = some space
        · exact (if_pos hspace).trans (congrArg (· ++ [carriageReturn]) (if_pos hspace).symm)
        · exact (if_neg hspace).trans (congrArg (· ++ [carriageReturn]) (if_neg hspace).symm)
    rw [if_pos (hcore ▸ List.mem_append_right _ List.mem_cons_self)]
    unfold valuesOf
    cases h : isField name core
    · rw [List.filter_cons_of_neg (by rw [hfield, h]; exact Bool.false_ne_true),
        List.filter_cons_of_neg (by rw [h]; exact Bool.false_ne_true)]
      rfl
    · rw [List.filter_cons_of_pos (hfield.trans h), List.filter_cons_of_pos h]
      exact congrArg (· :: []) hvalue
  · have htorn : colon ∉ core ++ [carriageReturn] := by
      rw [List.mem_append, List.mem_singleton, not_or]
      exact ⟨hcolon, by decide⟩
    have hfield : isField name (core ++ [carriageReturn]) = false := by
      rw [isField, fieldName, cut_of_not_mem htorn, decide_eq_false_iff_not]
      intro heq
      exact hname (heq ▸ List.mem_append_right _ List.mem_cons_self)
    rw [if_neg hcolon, valuesOf, List.filter_cons_of_neg (by rw [hfield]; exact Bool.false_ne_true)]
    rfl

/-- A line says no more when it is torn, and says the same unless it has the field. -/
theorem Sound.valuesOf_untorn (h : Sound line) (hname : carriageReturn ∉ units name) :
    (valuesOf name [line]).length ≤ (valuesOf name [untorn line]).length ∧
      (valuesOf name [line] = valuesOf name [untorn line] ↔
        (isField name (untorn line) = true → ¬Torn line)) := by
  by_cases htorn : Torn line
  · have hline : valuesOf name [line] = valuesOf name [untorn line ++ [carriageReturn]] :=
      congrArg (fun l ↦ valuesOf name [l]) (h.untorn_of_torn htorn)
    rw [hline, valuesOf_torn hname]
    cases hfield : isField name (untorn line) with
    | false =>
      have hnone : valuesOf name [untorn line] = [] := by
        rw [valuesOf, List.filter_cons_of_neg (by rw [hfield]; exact Bool.false_ne_true)]
        rfl
      simp [hnone]
    | true =>
      have hone : valuesOf name [untorn line] = [fieldValue (untorn line)] := by
        rw [valuesOf, List.filter_cons_of_pos hfield]
        rfl
      rw [hone]
      split <;> simp [htorn]
  · rw [h.untorn_of_not_torn htorn]
    simp [htorn]

/-! ### Paragraphs -/

/-- The blocks that lines between two empty ones fall into without their carriage returns. -/
def rejoined (lines : List Utf16) : List (List Utf16) := (lines.map untorn).splitOn []

/-- Torn lines say the same event as the blocks they fall into: neither has data, or one block has all
of it, no line with data is torn, and `id` and `event` stay. -/
def Harmless (lines : List Utf16) : Prop :=
  (rejoined lines).filter hasData = [] ∨
    ∃ block, (rejoined lines).filter hasData = [block] ∧
      (∀ line ∈ lines, isField "data" (untorn line) = true → ¬Torn line) ∧
      lastValue "id" [] lines = lastValue "id" [] block ∧
      lastValue "event" (units "message") lines = lastValue "event" (units "message") block

/-- All data are in the blocks that have some. -/
theorem flatMap_filter_hasData (paragraphs : List (List Utf16)) :
    (paragraphs.filter hasData).flatMap (valuesOf "data") =
      paragraphs.flatMap (valuesOf "data") := by
  induction paragraphs with
  | nil => rfl
  | cons lines paragraphs ih =>
    cases hdata : hasData lines with
    | true => rw [List.filter_cons_of_pos hdata, List.flatMap_cons, List.flatMap_cons, ih]
    | false =>
      have hnone : valuesOf "data" lines = [] := of_not_not (of_decide_eq_false hdata)
      rw [List.filter_cons_of_neg (by simp [hdata]), List.flatMap_cons, hnone, ih]
      rfl

theorem valuesOf_rejoined (lines : List Utf16) :
    ((rejoined lines).filter hasData).flatMap (valuesOf "data") =
      valuesOf "data" (lines.map untorn) := by
  rw [flatMap_filter_hasData, rejoined, ← valuesOf_flatMap (by decide)]

/-- The same data are said if no line with data is torn. -/
theorem valuesOf_untorn_iff (h : ∀ line ∈ lines, Sound line) :
    valuesOf "data" lines = valuesOf "data" (lines.map untorn) ↔
      ∀ line ∈ lines, isField "data" (untorn line) = true → ¬Torn line := by
  have hname : carriageReturn ∉ units "data" := by decide
  have hline := fun line hmem ↦ (h line hmem).valuesOf_untorn hname
  have hiff := flatMap_eq_iff [] fun line hmem ↦ (hline line hmem).1
  rw [valuesOf_eq_flatMap, valuesOf_eq_flatMap "data" (lines.map untorn), List.flatMap_map,
    ← List.append_nil (lines.flatMap fun line ↦ valuesOf "data" [untorn line]), hiff]
  constructor
  · exact fun ⟨hall, _⟩ line hmem ↦ (hline line hmem).2.mp (hall line hmem)
  · exact fun hall ↦ ⟨fun line hmem ↦ (hline line hmem).2.mpr (hall line hmem), rfl⟩

/-- Torn lines with data leave a block with data. -/
theorem rejoined_ne_nil (h : ∀ line ∈ lines, Sound line) (hdata : valuesOf "data" lines ≠ []) :
    (rejoined lines).filter hasData ≠ [] := by
  have hname : carriageReturn ∉ units "data" := by decide
  intro hnone
  have hvalues := valuesOf_rejoined lines
  rw [hnone, List.flatMap_nil, valuesOf_eq_flatMap, List.flatMap_map] at hvalues
  rw [valuesOf_eq_flatMap] at hdata
  refine hdata (List.flatMap_eq_nil_iff.mpr fun line hmem ↦ ?_)
  have hle := ((h line hmem).valuesOf_untorn hname).1
  rw [List.flatMap_eq_nil_iff.mp hvalues.symm line hmem] at hle
  exact List.length_eq_zero_iff.mp (Nat.le_zero.mp hle)

theorem eventOf_of_hasData (h : valuesOf "data" lines ≠ []) :
    eventOf lines = some ⟨lastValue "id" [] lines, lastValue "event" (units "message") lines,
      [lineFeed].intercalate (valuesOf "data" lines)⟩ := if_neg h

/-- Data of lines are known from the text they make. -/
theorem intercalate_valuesOf_inj {first last : List Utf16} (hfirst : ∀ line ∈ first, lineFeed ∉ line)
    (hlast : ∀ line ∈ last, lineFeed ∉ line) (hne : valuesOf "data" first ≠ [])
    (hne' : valuesOf "data" last ≠ []) (h : [lineFeed].intercalate (valuesOf "data" first) =
      [lineFeed].intercalate (valuesOf "data" last)) :
    valuesOf "data" first = valuesOf "data" last := by
  rw [← List.splitOn_intercalate lineFeed (not_mem_of_mem_valuesOf hfirst) hne, h,
    List.splitOn_intercalate lineFeed (not_mem_of_mem_valuesOf hlast) hne']

/-- Lines between two empty ones say at most one event, and the same one if they are harmless. -/
theorem toList_eventOf (h : ∀ line ∈ lines, Sound line) :
    (eventOf lines).toList.length ≤ ((rejoined lines).filterMap eventOf).length ∧
      ((eventOf lines).toList = (rejoined lines).filterMap eventOf ↔ Harmless lines) := by
  obtain ⟨hcount, hfilter⟩ := filterMap_eventOf (rejoined lines)
  have hvalues := valuesOf_rejoined lines
  rw [hcount, hfilter]
  unfold Harmless
  by_cases hdata : valuesOf "data" lines = []
  · have hnone : eventOf lines = none := if_pos hdata
    rw [hnone, Option.toList_none]
    refine ⟨Nat.zero_le _, fun heq ↦ .inl ?_, ?_⟩
    · rw [← hfilter, List.nil_eq, ← List.length_eq_zero_iff, hcount, List.length_eq_zero_iff] at heq
      exact heq
    · rintro (hblocks | ⟨block, hblocks, htorn, -⟩)
      · rw [hblocks]
        rfl
      · -- the data of the block would be those of the lines
        rw [hblocks, List.flatMap_singleton, ← (valuesOf_untorn_iff h).mpr htorn, hdata] at hvalues
        have hblock : hasData block = true := by
          have hmem : block ∈ (rejoined lines).filter hasData := hblocks ▸ List.mem_cons_self
          exact (List.mem_filter.mp hmem).2
        exact absurd hvalues (of_decide_eq_true hblock)
  · have hblocks := rejoined_ne_nil h hdata
    rw [eventOf_of_hasData hdata, Option.toList_some]
    refine ⟨List.length_pos_iff.mpr hblocks, ?_, ?_⟩
    · intro heq
      have hlength := congrArg List.length heq
      rw [← hfilter, hcount, List.length_singleton] at hlength
      obtain ⟨block, hblock⟩ := List.length_eq_one_iff.mp hlength.symm
      rw [hblock] at hvalues heq
      rw [List.flatMap_singleton] at hvalues
      have hne : valuesOf "data" block ≠ [] := by
        have hmem : block ∈ (rejoined lines).filter hasData := hblock ▸ List.mem_cons_self
        exact of_decide_eq_true (List.mem_filter.mp hmem).2
      rw [List.filterMap_cons_some (eventOf_of_hasData hne), List.filterMap_nil] at heq
      injection List.cons.inj heq |>.1 with hid hevent htext
      rw [hvalues] at htext hne
      have hsame := intercalate_valuesOf_inj (fun line hmem ↦ (h line hmem).unbroken)
        (List.forall_mem_map.mpr fun line hmem hfeed ↦
          (h line hmem).unbroken (List.mem_filter.mp hfeed).1) hdata hne htext
      exact .inr ⟨block, hblock, (valuesOf_untorn_iff h).mp hsame, hid, hevent⟩
    · rintro (hnone | ⟨block, hblock, htorn, hid, hevent⟩)
      · exact absurd hnone hblocks
      · have hsame := (valuesOf_untorn_iff h).mpr htorn
        rw [hblock, List.flatMap_singleton, ← hsame] at hvalues
        have hne : valuesOf "data" block ≠ [] := hvalues ▸ hdata
        rw [hblock, List.filterMap_cons_some (eventOf_of_hasData hne), List.filterMap_nil, hid, hevent,
          hvalues]

/-! ### Texts -/

/-- The complete lines of a text, between its empty ones. -/
def groups (text : Utf16) : List (List Utf16) := (text.splitOn lineFeed).dropLast.splitOn []

theorem groups_ne_nil (text : Utf16) : groups text ≠ [] := List.splitOn_ne_nil _ _

/-- The line breaks that are cut do no harm: between two empty lines they change no event, and after
the last empty line there are none yet. -/
def HarmlessCuts (text : Utf16) : Prop :=
  (∀ lines ∈ (groups text).dropLast, Harmless lines) ∧
    (rejoined ((groups text).getLast (groups_ne_nil text))).dropLast.filter hasData = []

/-- A carriage return is directly before a line feed. -/
def Breaks (text : Utf16) : Prop := text.IsChain fun u v ↦ u = carriageReturn → v = lineFeed

theorem Breaks.sound {text : Utf16} (h : Breaks text) :
    ∀ lines ∈ groups text, ∀ line ∈ lines, Sound line := by
  intro lines hlines line hline
  rw [groups] at hlines
  have hmem := List.dropLast_subset _ (mem_of_mem_splitOn hlines hline)
  exact ⟨not_mem_of_mem_splitOn hmem, not_mem_dropLast_of_mem_splitOn h hmem⟩

theorem filterMap_eq_nil_iff (paragraphs : List (List Utf16)) :
    paragraphs.filterMap eventOf = [] ↔ paragraphs.filter hasData = [] := by
  rw [← List.length_eq_zero_iff, (filterMap_eventOf paragraphs).1, List.length_eq_zero_iff]

/-- Groups of a text fall into the paragraphs of the text without its carriage returns. -/
theorem paragraphs_untorn (text : Utf16) : paragraphs lineFeed eventOf (untorn text) =
    ((groups text).dropLast.flatMap fun lines ↦ (rejoined lines).filterMap eventOf) ++
      (rejoined ((groups text).getLast (groups_ne_nil text))).dropLast.filterMap eventOf := by
  have hlines : (untorn text).splitOn lineFeed = (text.splitOn lineFeed).map untorn :=
    splitOn_filter (by decide) text
  have hempty : untorn [] = [] := rfl
  have hgroups := dropLast_splitOn_map hempty (text.splitOn lineFeed).dropLast
  rw [paragraphs, hlines, ← List.map_dropLast, hgroups, List.filterMap_append, List.filterMap_flatMap]
  rfl

/-- A text says the events of the text without its carriage returns if the cuts do no harm. -/
theorem Breaks.paragraphs_eq_iff {text : Utf16} (h : Breaks text) :
    paragraphs lineFeed eventOf text = paragraphs lineFeed eventOf (untorn text) ↔
      HarmlessCuts text := by
  have hevents (lines : List Utf16) (hlines : lines ∈ (groups text).dropLast) :=
    toList_eventOf (h.sound lines (List.dropLast_subset _ hlines))
  have hwhole : paragraphs lineFeed eventOf text =
      (groups text).dropLast.flatMap fun lines ↦ (eventOf lines).toList :=
    List.filterMap_eq_flatMap_toList _ _
  rw [hwhole, paragraphs_untorn, flatMap_eq_iff _ fun lines hlines ↦ (hevents lines hlines).1,
    filterMap_eq_nil_iff]
  exact and_congr_left' (forall₂_congr fun lines hlines ↦ (hevents lines hlines).2)

end Vidarax.Sdk
