import Vidarax.Sdk.Subscribe

/-!
# Streams of run events on the wire

Package `vidarax-api`, `crates/vidarax-api/src/delivery.rs:388–397,460`. The server writes an event as
the lines of its fields and a blank line, and a keep-alive as a comment. However the bytes of a
stream are cut into values, the SDK finds the events of which all bytes have come.
-/

namespace Vidarax.Sdk

open Vidarax.Base

/-! ### Events -/

/-- A text without line breaks. -/
structure Line where
  text : List Char
  unbroken : ∀ c ∈ text, c ≠ '\n' ∧ c ≠ '\r'

/-- No character of the text breaks a line. -/
theorem unbroken_of_all {text : List Char} (h : text.all fun c ↦ c ≠ '\n' ∧ c ≠ '\r') :
    ∀ c ∈ text, c ≠ '\n' ∧ c ≠ '\r' := fun c hc ↦ by simpa using List.all_eq_true.mp h c hc

/-- An event of a run with its envelope; `delivery.rs:460`. -/
structure RunEvent where
  seq : Nat
  kind : Line
  data : Line

/-- Digits of a number. -/
def digits (n : Nat) : List Char := (decimalDigits n).map Nat.digitChar

/-- Line of a field. -/
def fieldLine (name : String) (value : List Char) : List Char := name.toList ++ ':' :: ' ' :: value

/-- What the server writes: events, and comments that keep the connection alive;
`delivery.rs:392`. -/
inductive Item where
  | event (e : RunEvent)
  | keepalive

namespace Item

/-- Lines of an item; `delivery.rs:460`. -/
def lines : Item → List (List Char)
  | event e =>
    [fieldLine "id" (digits e.seq), fieldLine "event" e.kind.text, fieldLine "data" e.data.text]
  | keepalive => [": keepalive".toList]

/-- Text of an item with its blank line. -/
def text (item : Item) : List Char := ['\n'].intercalate item.lines ++ ['\n', '\n']

/-- Event of an item. -/
def event? : Item → Option RunEvent
  | event e => some e
  | keepalive => none

end Item

/-- Text of a stream. -/
def wireText (items : List Item) : List Char := items.flatMap Item.text

/-- Bytes of a stream. -/
def wire (items : List Item) : Bytes := utf8Chars (wireText items)

/-- Message of an event. -/
def RunEvent.message (e : RunEvent) : ParsedSseEvent :=
  ⟨utf16 (digits e.seq), utf16 e.kind.text, utf16 e.data.text⟩

/-! ### Digits -/

private theorem digitUnit_digitChar : ∀ d < 10,
    utf16Units (Nat.digitChar d).toNat = [UInt16.ofNat (48 + d)] ∧
      digitUnit (UInt16.ofNat (48 + d)) = some d := by
  decide

private theorem digitChar_ne : ∀ d < 10, Nat.digitChar d ≠ '\n' ∧ Nat.digitChar d ≠ '\r' := by
  decide

theorem digits_unbroken (n : Nat) : ∀ c ∈ digits n, c ≠ '\n' ∧ c ≠ '\r' := by
  intro c hc
  obtain ⟨d, hd, rfl⟩ := List.mem_map.mp hc
  exact digitChar_ne d (decimalDigits_lt hd)

private theorem mapM_digits {ds : List Nat} (h : ∀ d ∈ ds, d < 10) :
    (utf16 (ds.map Nat.digitChar)).mapM digitUnit = some ds := by
  induction ds with
  | nil => rfl
  | cons d ds ih =>
    obtain ⟨hunit, hvalue⟩ := digitUnit_digitChar d (h d List.mem_cons_self)
    have ih := ih fun d hd ↦ h d (List.mem_cons_of_mem _ hd)
    rw [List.map_cons, utf16_cons, hunit, List.singleton_append, List.mapM_cons, hvalue, ih]
    rfl

/-- The id of a message is its sequence number, unless this is too large. -/
theorem safeInteger_digits (n : Nat) :
    safeInteger (utf16 (digits n)) = if n ≤ MAX_SAFE_INTEGER then some n else none := by
  rw [safeInteger, digits, mapM_digits fun d ↦ decimalDigits_lt, Option.map_some,
    positional_decimalDigits]
  simp [Option.filter]

/-! ### Blocks -/

/-- Units of a line. -/
theorem utf16_fieldLine (name : String) (value : List Char) :
    utf16 (fieldLine name value) = units name ++ colon :: space :: utf16 value := by
  rw [fieldLine, utf16_append]
  rfl

/-- A field is accepted with its value. -/
private theorem acceptLine_field {name : String} (value : List Char) (hcolon : colon ∉ units name)
    (hname : units name ≠ []) (fields : BlockFields) :
    fields.acceptLine (utf16 (fieldLine name value)) =
      if units name = units "id" then { fields with id := utf16 value }
      else if units name = units "event" then { fields with event := utf16 value }
      else if units name = units "data" then { fields with data := fields.data ++ [utf16 value] }
      else fields := by
  have hhead : (units name ++ colon :: space :: utf16 value).head? ≠ some colon := by
    obtain ⟨u, us, hu⟩ := List.exists_cons_of_ne_nil hname
    rw [hu, List.mem_cons, not_or] at hcolon
    rw [hu, List.cons_append, List.head?_cons]
    exact fun he ↦ hcolon.1 (Option.some.inj he).symm
  rw [utf16_fieldLine, BlockFields.acceptLine, if_neg hhead, cut_append hcolon]
  rfl

private theorem acceptLine_keepalive (fields : BlockFields) :
    fields.acceptLine (utf16 ": keepalive".toList) = fields := if_pos rfl

private theorem acceptLine_id (value : List Char) (fields : BlockFields) :
    fields.acceptLine (utf16 (fieldLine "id" value)) = { fields with id := utf16 value } := by
  rw [acceptLine_field value (by decide) (by decide), if_pos rfl]

private theorem acceptLine_event (value : List Char) (fields : BlockFields) :
    fields.acceptLine (utf16 (fieldLine "event" value)) = { fields with event := utf16 value } := by
  rw [acceptLine_field value (by decide) (by decide), if_neg (by decide), if_pos rfl]

private theorem acceptLine_data (value : List Char) (fields : BlockFields) :
    fields.acceptLine (utf16 (fieldLine "data" value)) =
      { fields with data := fields.data ++ [utf16 value] } := by
  rw [acceptLine_field value (by decide) (by decide), if_neg (by decide), if_neg (by decide),
    if_pos rfl]

private theorem mem_intercalate {c separator : Char} {lines : List (List Char)}
    (h : c ∈ [separator].intercalate lines) : c = separator ∨ ∃ line ∈ lines, c ∈ line := by
  match lines with
  | [] => cases h
  | [line] => exact .inr ⟨line, List.mem_cons_self, by rwa [List.intercalate_singleton] at h⟩
  | line :: next :: lines =>
    rw [List.intercalate_cons_cons, List.mem_append, List.mem_append, List.mem_singleton] at h
    rcases h with (hline | hseparator) | hrest
    · exact .inr ⟨line, List.mem_cons_self, hline⟩
    · exact .inl hseparator
    · rcases mem_intercalate hrest with hseparator | ⟨line', hline', hc⟩
      · exact .inl hseparator
      · exact .inr ⟨line', List.mem_cons_of_mem _ hline', hc⟩

namespace Item

/-- The block of an item. -/
def block (item : Item) : Utf16 := [lineFeed].intercalate (item.lines.map utf16)

theorem lines_ne_nil (item : Item) : item.lines ≠ [] := by
  cases item <;> exact List.cons_ne_nil _ _

/-- No line is empty or broken. -/
theorem lines_unbroken (item : Item) :
    ∀ line ∈ item.lines, line ≠ [] ∧ ∀ c ∈ line, c ≠ '\n' ∧ c ≠ '\r' := by
  have hfield {name : String} {value : List Char} (hname : name.toList.all fun c ↦ c ≠ '\n' ∧ c ≠ '\r')
      (h : ∀ c ∈ value, c ≠ '\n' ∧ c ≠ '\r') :
      fieldLine name value ≠ [] ∧ ∀ c ∈ fieldLine name value, c ≠ '\n' ∧ c ≠ '\r' := by
    refine ⟨by simp [fieldLine], fun c hc ↦ ?_⟩
    rw [fieldLine, List.mem_append, List.mem_cons, List.mem_cons] at hc
    rcases hc with hc | rfl | rfl | hc
    · exact unbroken_of_all hname c hc
    · decide
    · decide
    · exact h c hc
  cases item with
  | event e =>
    simp only [lines, List.forall_mem_cons, List.not_mem_nil, IsEmpty.forall_iff, implies_true,
      and_true]
    exact ⟨hfield (by decide) (digits_unbroken _), hfield (by decide) e.kind.unbroken,
      hfield (by decide) e.data.unbroken⟩
  | keepalive =>
    simp only [lines, List.forall_mem_cons, List.not_mem_nil, IsEmpty.forall_iff, implies_true,
      and_true]
    exact ⟨by decide, unbroken_of_all (by decide)⟩

/-- A unit of a line is not that of a break. -/
private theorem not_mem_line {item : Item} {line : List Char} (hline : line ∈ item.lines) {c : Char}
    (hc : c = '\n' ∨ c = '\r') : UInt16.ofNat c.toNat ∉ utf16 line := by
  intro hu
  have hlow : (UInt16.ofNat c.toNat).toNat = c.toNat ∧ c.toNat < 0x80 := by
    rcases hc with rfl | rfl <;> decide
  obtain ⟨c', hc', heq⟩ := exists_of_mem_utf16 hu (by omega)
  have hsame : c' = c := Char.toNat_inj.mp (by omega)
  rcases hc with rfl | rfl
  · exact ((item.lines_unbroken line hline).2 c' hc').1 hsame
  · exact ((item.lines_unbroken line hline).2 c' hc').2 hsame

theorem isBlock_block (item : Item) : IsBlock lineFeed item.block := by
  apply isBlock_lines
  · exact fun he ↦ item.lines_ne_nil (List.map_eq_nil_iff.mp he)
  · intro us hus
    obtain ⟨line, hline, rfl⟩ := List.mem_map.mp hus
    refine ⟨fun hnil ↦ ?_, not_mem_line hline (.inl rfl)⟩
    obtain ⟨c, cs, hcs⟩ := List.exists_cons_of_ne_nil (item.lines_unbroken line hline).1
    rw [hcs, utf16_cons, utf16Units] at hnil
    split at hnil <;> cases hnil

private theorem utf16_intercalate (lines : List (List Char)) :
    utf16 (['\n'].intercalate lines) = [lineFeed].intercalate (lines.map utf16) := by
  match lines with
  | [] => rfl
  | [line] => simp [List.intercalate_singleton]
  | line :: next :: lines =>
    have ih := utf16_intercalate (next :: lines)
    rw [List.map_cons] at ih
    rw [List.intercalate_cons_cons, List.map_cons, List.map_cons, List.intercalate_cons_cons,
      utf16_append, utf16_append, ih]
    rfl

/-- Units of an item. -/
theorem utf16_text (item : Item) : utf16 item.text = item.block ++ [lineFeed, lineFeed] := by
  rw [text, utf16_append, utf16_intercalate]
  rfl

/-- The message in the block of an item. -/
def message? (item : Item) : Option ParsedSseEvent := item.event?.map RunEvent.message

/-- The SDK reads back the event that was written. -/
theorem parseBlock_block (item : Item) : parseBlock item.block = item.message? := by
  have hsplit : item.block.splitOn lineFeed = item.lines.map utf16 := by
    apply List.splitOn_intercalate
    · intro us hus
      obtain ⟨line, hline, rfl⟩ := List.mem_map.mp hus
      exact not_mem_line hline (.inl rfl)
    · exact fun he ↦ item.lines_ne_nil (List.map_eq_nil_iff.mp he)
  rw [parseBlock, hsplit]
  cases item with
  | event e =>
    simp only [lines, List.map_cons, List.map_nil, List.foldl_cons, List.foldl_nil]
    rw [acceptLine_id, acceptLine_event, acceptLine_data]
    simp [message?, event?, RunEvent.message, List.intercalate_singleton]
  | keepalive =>
    simp only [lines, List.map_cons, List.map_nil, List.foldl_cons, List.foldl_nil]
    rw [acceptLine_keepalive]
    rfl

/-- No unit of an item is a carriage return. -/
theorem not_mem_utf16_text (item : Item) : carriageReturn ∉ utf16 item.text := by
  intro hu
  obtain ⟨c, hc, heq⟩ := exists_of_mem_utf16 hu (by decide)
  have hc' : c = '\r' := Char.toNat_inj.mp heq
  subst hc'
  rw [text, List.mem_append] at hc
  rcases hc with hc | hc
  · rcases mem_intercalate hc with hc | ⟨line, hline, hc⟩
    · exact absurd hc (by decide)
    · exact ((item.lines_unbroken line hline).2 _ hc).2 rfl
  · exact absurd hc (by decide)

/-- An item begins with an ASCII character. -/
theorem exists_text (item : Item) : ∃ c cs, item.text = c :: cs ∧ c.toNat < 0x80 := by
  cases item with
  | event e =>
    rw [text, lines, List.intercalate_cons_cons]
    exact ⟨'i', _, rfl, by decide⟩
  | keepalive =>
    rw [text, lines, List.intercalate_singleton]
    exact ⟨':', _, rfl, by decide⟩

end Item

/-! ### Streams -/

/-- Units of a stream. -/
theorem utf16_wireText (items : List Item) : utf16 (wireText items) =
    (items.map Item.block).flatMap (· ++ [lineFeed, lineFeed]) := by
  induction items with
  | nil => rfl
  | cons item items ih =>
    rw [wireText, List.flatMap_cons, ← wireText, utf16_append, ih, Item.utf16_text]
    rfl

/-- The text of a stream is decoded to its items. -/
theorem decode_wire (items : List Item) : (TextDecoder.new.decode (wire items)).2 =
    (items.map Item.block).flatMap (· ++ [lineFeed, lineFeed]) := by
  rw [← utf16_wireText]
  cases items with
  | nil => rfl
  | cons item items =>
    obtain ⟨c, cs, hc, hlow⟩ := item.exists_text
    rw [wire, wireText, List.flatMap_cons, hc, List.cons_append, TextDecoder.decode_new hlow]

/-- Text that a part of a stream is decoded to. -/
def received (values : List Bytes) : Utf16 := (TextDecoder.new.decode values.flatten).2

/-- The values are a first part of a stream, which ends inside its last item. -/
def Reaches (values : List Bytes) (items : List Item) : Prop :=
  ∃ missing, values.flatten ++ missing = wire items ∧
    ∀ item ∈ items.getLast?, missing.length < (utf8Chars item.text).length

/-- The messages in a part of a stream. -/
def found (values : List Bytes) : List ParsedSseEvent :=
  (blocks lineFeed (received values)).1.filterMap parseBlock

/-- What is kept of a part of a stream. -/
def unfinished (values : List Bytes) : Utf16 := (blocks lineFeed (received values)).2

/-- The items of which all bytes have come are found, and a part of the next one is kept. -/
theorem found_eq {values : List Bytes} {items : List Item} (h : values.flatten <+: wire items) :
    ∃ n, found values = (items.take n).filterMap Item.message? ∧
      (unfinished values = [] ∨
        ∃ item, items[n]? = some item ∧ (unfinished values).length < (utf16 item.text).length) := by
  have htext : received values <+: (items.map Item.block).flatMap (· ++ [lineFeed, lineFeed]) := by
    rw [← decode_wire items]
    exact TextDecoder.decode_prefix _ h
  obtain ⟨n, part, hblocks, hnext⟩ := exists_take_of_prefix_blocks
    (List.forall_mem_map.mpr fun item _ ↦ item.isBlock_block) htext
  refine ⟨n, ?_, ?_⟩
  · rw [found, hblocks, ← List.map_take, List.filterMap_map]
    exact List.filterMap_congr fun item _ ↦ item.parseBlock_block
  · rw [unfinished, hblocks]
    rcases hnext with hnil | ⟨block, hblock, hlength⟩
    · exact .inl hnil
    · rw [List.getElem?_map, Option.map_eq_some_iff] at hblock
      obtain ⟨item, hitem, rfl⟩ := hblock
      refine .inr ⟨item, hitem, ?_⟩
      rw [Item.utf16_text, List.length_append]
      exact hlength

/-- Nothing is replaced in a stream. -/
theorem not_mem_received {values : List Bytes} {items : List Item}
    (h : values.flatten <+: wire items) : carriageReturn ∉ received values := by
  intro hu
  have hall := (TextDecoder.decode_prefix .new h).mem hu
  rw [decode_wire, List.mem_flatMap] at hall
  obtain ⟨us, hus, hmem⟩ := hall
  obtain ⟨item, -, rfl⟩ := List.mem_map.mp hus
  rw [← Item.utf16_text] at hmem
  exact item.not_mem_utf16_text hmem

end Vidarax.Sdk
