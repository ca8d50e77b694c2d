import Vidarax.Sdk.Torn

/-!
# Chunks of a stream

Package `vidarax-sdk`, `packages/vidarax-sdk/src/client.ts:107–142`. Line breaks are normalized, and the
limit is checked, on what has been received: the messages are those of the whole text exactly if no
read exceeds the limit and the line breaks that are cut do no harm.
-/

namespace Vidarax.Sdk

open Vidarax.Base Vidarax.Base.TextDecoder

/-! ### The generator -/

/-- Messages that are yielded from the next reads on, and the error that ends them; `client.ts:113`. -/
def SseReader.decodeFrom (r : SseReader) : List Bytes → List ParsedSseEvent × Option SdkError
  | [] =>
    match r.readEnd with
    | .error err => ([], some err)
    | .ok (messages, _) => (messages, none)
  | value :: values =>
    match r.read value with
    | .error err => ([], some err)
    | .ok (messages, r) => (messages ++ (r.decodeFrom values).1, (r.decodeFrom values).2)

/-- `decodeSse` of the values of a body; `client.ts:107`. -/
def decodeSse (values : List Bytes) : List ParsedSseEvent × Option SdkError :=
  SseReader.new.decodeFrom values

/-! ### Texts that are received -/

/-- What is decoded in each read, the last of which is at the end. -/
def pieces (d : TextDecoder) : List Bytes → List Utf16
  | [] => [d.finish]
  | value :: values => (d.decode value).2 :: pieces (d.decode value).1 values

/-- Text of pieces that are normalized one by one. -/
def tornText (pieces : List Utf16) : Utf16 := pieces.flatMap replaceCrlf

/-- After the text `front`, no read exceeds the limit: what is left of the last block and the next
piece are not too long. -/
def Fits (front : Utf16) : List Utf16 → Prop
  | [] => True
  | piece :: pieces =>
    ((blocks lineFeed front).2 ++ replaceCrlf piece).length ≤ MAX_SSE_EVENT_BYTES ∧
      Fits (front ++ replaceCrlf piece) pieces

/-- A carriage return is directly before a line feed, also at the end. -/
structure CrBeforeLf (text : Utf16) : Prop where
  breaks : Breaks text
  ended : text.getLast? ≠ some carriageReturn

/-- Messages of a whole text: its line breaks are normalized, and each complete block is read. -/
def messagesOf (text : Utf16) : List ParsedSseEvent :=
  (blocks lineFeed (replaceCrlf text)).1.filterMap parseBlock

theorem flatten_pieces (d : TextDecoder) (values : List Bytes) :
    (pieces d values).flatten = (d.decode values.flatten).2 ++ (d.decode values.flatten).1.finish := by
  induction values generalizing d with
  | nil => exact List.append_nil _
  | cons value values ih =>
    rw [pieces, List.flatten_cons, ih, List.flatten_cons, decode_append, List.append_assoc]

/-- Pieces of a text are cut from the whole text. -/
theorem flatten_pieces_new (values : List Bytes) :
    (pieces .new values).flatten = decodeText values.flatten := flatten_pieces .new values

/-! ### Normalizing -/

theorem untorn_append (us vs : Utf16) : untorn (us ++ vs) = untorn us ++ untorn vs :=
  List.filter_append ..

theorem untorn_replaceCrlf (us : Utf16) : untorn (replaceCrlf us) = untorn us := by
  fun_induction replaceCrlf us with
  | case1 => rfl
  | case2 u => rfl
  | case3 u v rest h ih =>
    obtain ⟨rfl, rfl⟩ := h
    have hstep (us : Utf16) : untorn (lineFeed :: us) = lineFeed :: untorn us := rfl
    have hdrop : untorn (carriageReturn :: lineFeed :: rest) = untorn (lineFeed :: rest) := rfl
    rw [hdrop, hstep, hstep, ih]
  | case4 u v rest h ih =>
    rw [← List.singleton_append, untorn_append, ih, ← untorn_append]
    rfl

/-- Normalized pieces have the text without its carriage returns. -/
theorem untorn_tornText (pieces : List Utf16) : untorn (tornText pieces) = untorn pieces.flatten := by
  induction pieces with
  | nil => rfl
  | cons piece pieces ih =>
    rw [tornText, List.flatMap_cons, ← tornText, untorn_append, ih, untorn_replaceCrlf,
      List.flatten_cons, untorn_append]

/-- A carriage return may be dropped before a line feed. -/
theorem Breaks.drop {front back : Utf16}
    (h : Breaks (front ++ carriageReturn :: lineFeed :: back)) : Breaks (front ++ lineFeed :: back) := by
  obtain ⟨hfront, hback, -⟩ := List.isChain_append.mp h
  refine List.isChain_append.mpr ⟨hfront, List.IsChain.tail hback, fun u _ v hv _ ↦ ?_⟩
  exact (Option.mem_some.mp hv).symm

theorem Breaks.replaceCrlf {us : Utf16} (front back : Utf16) (h : Breaks (front ++ us ++ back)) :
    Breaks (front ++ Sdk.replaceCrlf us ++ back) := by
  fun_induction Sdk.replaceCrlf us generalizing front with
  | case1 => exact h
  | case2 u => exact h
  | case3 u v rest hsep ih =>
    obtain ⟨rfl, rfl⟩ := hsep
    have hnext := ih (front ++ [lineFeed]) (by
      rw [List.append_assoc, List.append_assoc]
      rw [List.append_assoc] at h
      exact h.drop)
    rwa [List.append_assoc front] at hnext
  | case4 u v rest hsep ih =>
    have hnext := ih (front ++ [u]) (by rwa [List.append_assoc front])
    rwa [List.append_assoc front] at hnext

/-- Normalized pieces of a text keep only line breaks that were cut. -/
theorem Breaks.tornText {pieces : List Utf16} (front : Utf16) (h : Breaks (front ++ pieces.flatten)) :
    Breaks (front ++ Sdk.tornText pieces) := by
  induction pieces generalizing front with
  | nil => exact h
  | cons piece pieces ih =>
    rw [Sdk.tornText, List.flatMap_cons, ← Sdk.tornText, ← List.append_assoc]
    refine ih _ (Breaks.replaceCrlf front _ ?_)
    rwa [List.append_assoc, ← List.flatten_cons]

theorem CrBeforeLf.replaceCrlf_eq {text : Utf16} (h : CrBeforeLf text) :
    replaceCrlf text = untorn text := by
  have hclean : carriageReturn ∉ replaceCrlf text := by
    obtain ⟨hbreaks, hended⟩ := h
    fun_induction replaceCrlf text with
    | case1 => exact List.not_mem_nil
    | case2 u =>
      rw [List.mem_singleton]
      rintro rfl
      exact hended rfl
    | case3 u v rest hsep ih =>
      obtain ⟨rfl, rfl⟩ := hsep
      rw [List.mem_cons, not_or]
      refine ⟨by decide, ih (List.IsChain.tail (List.IsChain.tail hbreaks)) ?_⟩
      intro hlast
      obtain ⟨start, rfl⟩ : ∃ start, rest = start ++ [carriageReturn] :=
        List.getLast?_eq_some_iff.mp hlast
      exact hended (List.getLast?_concat (l := carriageReturn :: lineFeed :: start))
    | case4 u v rest hsep ih =>
      rw [List.mem_cons, not_or]
      refine ⟨?_, ih (List.IsChain.tail hbreaks) (by rwa [List.getLast?_cons_cons] at hended)⟩
      rintro rfl
      exact hsep ⟨rfl, (List.isChain_cons_cons.mp hbreaks).1 rfl⟩
  rw [← untorn_replaceCrlf, untorn_of_not_mem hclean]

/-- Messages of a text in which the cuts do no harm are those of the normalized text. -/
theorem CrBeforeLf.messages_eq_iff {text torn : Utf16} (h : CrBeforeLf text) (htorn : Breaks torn)
    (hsame : untorn torn = untorn text) :
    (blocks lineFeed torn).1.filterMap parseBlock = messagesOf text ↔ HarmlessCuts torn := by
  rw [messagesOf, h.replaceCrlf_eq, ← hsame, filterMap_parseBlock, filterMap_parseBlock]
  exact htorn.paragraphs_eq_iff

/-! ### Reads -/

/-- What is in the buffer is what is left of the text that was read. -/
theorem SseReader.add_eq (d d' : TextDecoder) (front piece : Utf16) :
    (⟨d, (blocks lineFeed front).2⟩ : SseReader).add (d', piece) =
      if MAX_SSE_EVENT_BYTES < ((blocks lineFeed front).2 ++ replaceCrlf piece).length then
        .error (tooLong ((blocks lineFeed front).2 ++ replaceCrlf piece))
      else .ok ((blocks lineFeed ((blocks lineFeed front).2 ++ replaceCrlf piece)).1.filterMap parseBlock,
        ⟨d', (blocks lineFeed (front ++ replaceCrlf piece)).2⟩) := by
  rw [blocks_append front]
  rfl

/-- The messages of the next pieces are yielded if all of them fit. -/
theorem SseReader.decodeFrom_eq_iff (d : TextDecoder) (front : Utf16) (values : List Bytes)
    (messages : List ParsedSseEvent) :
    (⟨d, (blocks lineFeed front).2⟩ : SseReader).decodeFrom values = (messages, none) ↔
      Fits front (pieces d values) ∧ messages =
        (blocks lineFeed ((blocks lineFeed front).2 ++ tornText (pieces d values))).1.filterMap
          parseBlock := by
  induction values generalizing d front messages with
  | nil =>
    have htorn : tornText (pieces d []) = replaceCrlf d.finish := List.append_nil _
    rw [decodeFrom, readEnd, add_eq, htorn]
    by_cases hlong : MAX_SSE_EVENT_BYTES < ((blocks lineFeed front).2 ++ replaceCrlf d.finish).length
    · rw [if_pos hlong]
      exact iff_of_false (by simp) fun h ↦ Nat.not_le.mpr hlong h.1.1
    · rw [if_neg hlong]
      simp only [Prod.mk.injEq, and_true]
      exact ⟨fun h ↦ ⟨⟨Nat.not_lt.mp hlong, trivial⟩, h.symm⟩, fun h ↦ h.2.symm⟩
  | cons value values ih =>
    have htorn : tornText (pieces d (value :: values)) =
        replaceCrlf (d.decode value).2 ++ tornText (pieces (d.decode value).1 values) := rfl
    rw [decodeFrom, read, add_eq, htorn, ← List.append_assoc]
    by_cases hlong :
        MAX_SSE_EVENT_BYTES < ((blocks lineFeed front).2 ++ replaceCrlf (d.decode value).2).length
    · rw [if_pos hlong]
      exact iff_of_false (by simp) fun h ↦ Nat.not_le.mpr hlong h.1.1
    · have hnext := ih (d.decode value).1 (front ++ replaceCrlf (d.decode value).2)
      rw [if_neg hlong, blocks_append ((blocks lineFeed front).2 ++ replaceCrlf (d.decode value).2),
        List.filterMap_append]
      rw [blocks_append front] at hnext ⊢
      simp only [Prod.mk.injEq]
      constructor
      · rintro ⟨rfl, hnone⟩
        obtain ⟨hfits, hfound⟩ := (hnext _).mp (Prod.ext rfl hnone)
        exact ⟨⟨Nat.not_lt.mp hlong, hfits⟩, congrArg _ hfound⟩
      · rintro ⟨hfits, rfl⟩
        have hrun := (hnext _).mpr ⟨hfits.2, rfl⟩
        exact ⟨congrArg _ (congrArg Prod.fst hrun), congrArg Prod.snd hrun⟩

/-- Messages do not depend on how the stream is cut into chunks, and no error ends them, exactly if no
read exceeds the limit and the line breaks that are cut do no harm. -/
theorem decodeSse_eq_iff (values : List Bytes) (h : CrBeforeLf (decodeText values.flatten)) :
    decodeSse values = (messagesOf (decodeText values.flatten), none) ↔
      Fits [] (pieces .new values) ∧ HarmlessCuts (tornText (pieces .new values)) := by
  have hwhole := flatten_pieces_new values
  have htorn : Breaks (tornText (pieces .new values)) := by
    refine Breaks.tornText [] ?_
    rw [List.nil_append, hwhole]
    exact h.breaks
  have hmessages := h.messages_eq_iff htorn (by rw [untorn_tornText, hwhole])
  have hdecode := SseReader.decodeFrom_eq_iff .new [] values (messagesOf (decodeText values.flatten))
  refine hdecode.trans (and_congr_right' ?_)
  rw [← hmessages]
  exact eq_comm

/-- A character that is cut is decoded, and the event is yielded. -/
theorem decodeSse_eq_iff_sample :
    let values : List Bytes := [[100, 97, 116, 97, 58, 0xC3], [0xA9, 13, 10, 13, 10]]
    decodeSse values = ([⟨[], units "message", [0xE9]⟩], none) := by
  intro values
  have hbreaks : Breaks (decodeText values.flatten) := by
    unfold Breaks
    decide +kernel
  have hiff := decodeSse_eq_iff values ⟨hbreaks, by decide +kernel⟩
  refine hiff.mpr ⟨⟨by decide +kernel, by decide +kernel, by decide +kernel, trivial⟩, ?_, by decide +kernel⟩
  intro lines hlines
  have hgroup : lines = [units "data:" ++ [0xE9]] := by
    have hgroups : (groups (tornText (pieces .new values))).dropLast = [[units "data:" ++ [0xE9]]] := by
      decide +kernel
    rw [hgroups] at hlines
    exact List.mem_singleton.mp hlines
  rw [hgroup]
  exact .inr ⟨[units "data:" ++ [0xE9]], by decide +kernel, by decide +kernel, rfl, rfl⟩

/-- The carriage return of a line break that is cut is kept in the data. -/
theorem cut_line_break_is_kept :
    let values : List Bytes := [utf8Chars "data:a\r".toList, utf8Chars "\n\r\n".toList]
    values.flatten = utf8Chars "data:a\r\n\r\n".toList ∧ CrBeforeLf (decodeText values.flatten) ∧
      messagesOf (decodeText values.flatten) = [⟨[], units "message", units "a"⟩] ∧
      decodeSse values = ([⟨[], units "message", units "a\r"⟩], none) := by
  intro values
  have hbreaks : Breaks (decodeText values.flatten) := by
    unfold Breaks
    decide +kernel
  exact ⟨by decide +kernel, ⟨hbreaks, by decide +kernel⟩, by decide +kernel, rfl⟩

end Vidarax.Sdk
