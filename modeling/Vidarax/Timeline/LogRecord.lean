import Vidarax.Timeline.Record

/-!
# Records of a log

Package `vidarax-core`, `crates/vidarax-core/src/timeline.rs:254–302,510–573`.
A log record is a line that decodes to an event. The lines `stage` builds are log
records, and so are the lines of older writers that a scan accepts.
-/

namespace Vidarax.Timeline

open Vidarax.Base

variable {crc : Bytes → UInt32}

/-! ### Checksum text -/

/-- The hexadecimal digits of a checksum, most significant first. -/
def hexDigits (checksum : UInt32) : List Nat :=
  (List.range 8).map fun index ↦ (checksum.toNat >>> (4 * (7 - index))) &&& 0xF

private theorem nibble_eq (n k : Nat) : (n >>> k) &&& 0xF = n / 2 ^ k % 16 := by
  rw [Nat.shiftRight_eq_div_pow]
  exact Nat.and_two_pow_sub_one_eq_mod _ 4

theorem hexDigits_lt {checksum : UInt32} {d : Nat} (h : d ∈ hexDigits checksum) : d < 16 := by
  obtain ⟨index, -, rfl⟩ := List.mem_map.mp h
  rw [nibble_eq]
  exact Nat.mod_lt _ (by decide)

/-- The checksum text is the text of its digits. -/
theorem hexChecksum_eq (checksum : UInt32) :
    hexChecksum checksum = (hexDigits checksum).map digitByte := by
  rw [hexChecksum, hexDigits, List.map_map]
  apply List.map_congr_left
  intro index _
  have : (0x61 : Nat) + ((checksum.toNat >>> (4 * (7 - index))) &&& 0xF) - 10 =
      87 + ((checksum.toNat >>> (4 * (7 - index))) &&& 0xF) := by omega
  simp only [Function.comp_apply, digitByte, this]

/-- A checksum text has eight digits. -/
theorem length_hexChecksum (checksum : UInt32) : (hexChecksum checksum).length = 8 := by
  simp [hexChecksum]

/-- The digits of a checksum spell the checksum. -/
theorem positional_hexDigits (checksum : UInt32) :
    positional 16 0 (hexDigits checksum) = checksum.toNat := by
  have h : checksum.toNat < 4294967296 := checksum.toNat_lt
  have hr : List.range 8 = [0, 1, 2, 3, 4, 5, 6, 7] := rfl
  simp only [hexDigits, nibble_eq, hr, List.map_cons, List.map_nil, positional, List.foldl_cons,
    List.foldl_nil, Nat.reduceSub, Nat.reduceMul, Nat.reducePow]
  omega

/-- Reading a checksum text gives the checksum. -/
theorem parseUnsigned_hexChecksum (checksum : UInt32) :
    parseUnsigned 16 u32Max (hexChecksum checksum) = some checksum.toNat := by
  have hp := positional_hexDigits checksum
  have hn : hexDigits checksum ≠ [] := by simp [hexDigits]
  have hb : checksum.toNat ≤ u32Max := Nat.le_sub_one_of_lt checksum.toNat_lt
  rw [hexChecksum_eq, parseUnsigned_map (by decide) (by decide) hn (fun d ↦ hexDigits_lt)
    (by omega), hp]

/-- A checksum text is made of lower case hex digits. -/
theorem hexChecksum_range {checksum : UInt32} {b : UInt8} (h : b ∈ hexChecksum checksum) :
    48 ≤ b.toNat ∧ b.toNat < 123 := by
  rw [hexChecksum_eq] at h
  obtain ⟨d, hd, rfl⟩ := List.mem_map.mp h
  exact digitByte_range (Nat.lt_of_lt_of_le (hexDigits_lt hd) (by decide))

/-- A checksum text holds no tab and no newline. -/
theorem mem_hexChecksum {checksum : UInt32} {b : UInt8} (h : b ∈ hexChecksum checksum) :
    b ≠ tab ∧ b ≠ newline := by
  have hr := hexChecksum_range h
  constructor <;> rintro rfl <;> exact absurd hr.1 (by decide)

/-- A checksum text is ASCII. -/
theorem isUtf8_hexChecksum (checksum : UInt32) : IsUtf8 (hexChecksum checksum) := by
  apply isUtf8_of_ascii
  intro b hb
  rw [UInt8.lt_iff_toNat_lt]
  exact Nat.lt_trans (hexChecksum_range hb).2 (by decide)

/-! ### The line of a staged event -/

/-- The line of a staged event, written in full: overwriting the placeholder leaves the
checksum of exactly the body in its place. -/
theorem recordLine_eq (crc : Bytes → UInt32) (bodyLen : Nat) (e : TimelineEvent) :
    recordLine crc bodyLen e = v2Tag ++ (decimal bodyLen ++ tab ::
      (hexChecksum (crc e.body) ++ tab :: (e.body ++ [newline]))) := by
  have hdrop (xs ys : Bytes) :
      (xs ++ List.replicate 8 0x30 ++ [tab] ++ ys).drop (xs.length + 8) = tab :: ys := by
    rw [List.append_assoc, List.append_assoc, ← List.drop_drop, List.drop_left,
      List.drop_left' (by simp)]
    rfl
  simp only [recordLine, TimelineEvent.encodeBodyInto_eq, List.drop_left, hdrop]
  rw [List.append_assoc _ (List.replicate 8 0x30), List.append_assoc _ _ e.body, List.take_left]
  simp

/-- A staged line without its terminator. -/
theorem dropLast_recordLine (crc : Bytes → UInt32) (bodyLen : Nat) (e : TimelineEvent) :
    (recordLine crc bodyLen e).dropLast = v2Tag ++ (decimal bodyLen ++ tab ::
      (hexChecksum (crc e.body) ++ tab :: e.body)) := by
  rw [recordLine_eq]
  simp only [← List.append_assoc, ← List.cons_append, List.dropLast_concat]

/-- A staged line ends in its only newline. -/
theorem isFrame_recordLine (crc : Bytes → UInt32) (bodyLen : Nat) (e : TimelineEvent) :
    IsFrame newline (recordLine crc bodyLen e) := by
  have hd (n : Nat) : newline ∉ decimal n := fun h ↦ (mem_decimal h).2 rfl
  have hc (n : UInt32) : newline ∉ hexChecksum n := fun h ↦ (mem_hexChecksum h).2 rfl
  have ht : newline ≠ tab := by decide
  have hv : newline ∉ v2Tag := by decide
  refine ⟨v2Tag ++ (decimal bodyLen ++ tab :: (hexChecksum (crc e.body) ++ tab :: e.body)),
    by rw [recordLine_eq]; simp, ?_⟩
  simp only [List.mem_append, List.mem_cons, hv, hd, hc, ht, e.newline_not_mem_body, or_false,
    not_false_iff]

/-- The size of a staged line is the one computed without building it. -/
theorem length_recordLine (crc : Bytes → UInt32) (bodyLen : Nat) (e : TimelineEvent)
    (hl : e.body.length = bodyLen) :
    (recordLine crc bodyLen e).length = framedLenForBody bodyLen := by
  rw [recordLine_eq, framedLenForBody, ← length_decimal_eq]
  simp only [List.length_append, List.length_cons, List.length_nil, length_hexChecksum, v2Tag, hl]
  omega

/-! ### Decoding -/

private theorem three_of_map {α β : Type} {g : α → β} {xs : List α} {a b c : β}
    (h : xs.map g = [a, b, c]) : ∃ u v w, xs = [u, v, w] ∧ g u = a ∧ g v = b ∧ g w = c := by
  match xs, h with
  | [u, v, w], h =>
    simp only [List.map_cons, List.map_nil, List.cons.injEq, and_true] at h
    exact ⟨u, v, w, rfl, h⟩

/-- Decoding the part after the tag, by its three parts. -/
theorem decodeV2_of_cutN (crc : Bytes → UInt32) {line : String} {a b c : Bytes} (h : cutN tab 3 (utf8 line) = [a, b, c])
    (offset : Nat) :
    ∃ body, utf8 body = c ∧ decodeV2 crc line offset =
      match parseUnsigned 10 u64Max a, parseUnsigned 16 u32Max b with
      | none, _ => .error (.corrupt offset "invalid length")
      | some _, none => .error (.corrupt offset "invalid checksum")
      | some length, some checksum =>
        if length ≠ c.length ∨ (crc c).toNat ≠ checksum then
          .error (.corrupt offset "record length or checksum mismatch")
        else
          (TimelineEvent.decodeLine body).elim (.error (.corrupt offset "invalid event body"))
            .ok := by
  obtain ⟨u, v, w, hs, rfl, rfl, rfl⟩ :=
    three_of_map ((utf8_splitn tab tab_ascii 3 line).trans h)
  refine ⟨w, rfl, ?_⟩
  simp only [decodeV2, hs, parseUsize, parseHexU32, List.getElem?_cons_zero,
    List.getElem?_cons_succ, Option.elim_some, bind, Except.bind]
  cases parseUnsigned 10 u64Max (utf8 u) with
  | none => rfl
  | some length =>
    cases parseUnsigned 16 u32Max (utf8 v) with
    | none => rfl
    | some checksum => rfl

/-- Decoding the three parts of a staged line gives the event. -/
theorem decodeV2_parts {line : String} {e : TimelineEvent} {bodyLen : Nat}
    (hl : e.body.length = bodyLen) (hb : bodyLen ≤ u64Max)
    (h : utf8 line = decimal bodyLen ++ tab :: (hexChecksum (crc e.body) ++ tab :: e.body))
    (offset : Nat) : decodeV2 crc line offset = .ok e := by
  have hd : tab ∉ decimal bodyLen := fun hm ↦ (mem_decimal hm).1 rfl
  have hc : tab ∉ hexChecksum (crc e.body) := fun hm ↦ (mem_hexChecksum hm).1 rfl
  have hcut : cutN tab 3 (utf8 line) = [decimal bodyLen, hexChecksum (crc e.body), e.body] := by
    rw [h, cutN_append 1 hd, cutN_append 0 hc]
    rfl
  obtain ⟨body, hbody, hdec⟩ := decodeV2_of_cutN crc hcut offset
  rw [hdec, parseUnsigned_decimal hb, parseUnsigned_hexChecksum]
  simp [hl, TimelineEvent.decodeLine_body hbody]

/-- Bytes that are not valid text are corrupt. -/
theorem decodeRecord_of_not_isUtf8 {bytes : Bytes} (h : ¬ IsUtf8 bytes) (offset : Nat) :
    decodeRecord crc bytes offset =
      .error (.corrupt offset ("invalid UTF-8: " ++ utf8ErrorText bytes)) := by
  have hn : fromUtf8 bytes = none := by
    rw [Option.eq_none_iff_forall_ne_some]
    intro s hs
    exact h (fromUtf8_eq_some_iff.mp hs ▸ isUtf8_utf8 s)
  rw [decodeRecord, hn]

/-- A tagged line is decoded in the new format. -/
theorem decodeRecord_tagged (rest : String) (offset : Nat) :
    decodeRecord crc (v2Tag ++ utf8 rest) offset = decodeV2 crc rest offset := by
  have hu : IsUtf8 (v2Tag ++ utf8 rest) := (isUtf8_of_ascii v2Tag_ascii).append (isUtf8_utf8 rest)
  have hf : fromUtf8 (v2Tag ++ utf8 rest) = some (ofUtf8 _ hu) :=
    fromUtf8_eq_some_iff.mpr (utf8_ofUtf8 _ hu)
  have hs : stripPrefix v2Tag v2Tag_ascii (ofUtf8 _ hu) = some rest :=
    stripPrefix_eq_some_iff.mpr (utf8_ofUtf8 _ hu)
  rw [decodeRecord, hf]
  simp only [hs]

/-- An untagged line is decoded in the old format. -/
theorem decodeRecord_untagged {text : String} (h : ¬ v2Tag <+: utf8 text) (offset : Nat) :
    decodeRecord crc (utf8 text) offset =
      (TimelineEvent.decodeLine text).elim (.error (.corrupt offset "invalid legacy record"))
        .ok := by
  have hs : stripPrefix v2Tag v2Tag_ascii text = none := stripPrefix_eq_none_iff.mpr h
  rw [decodeRecord, fromUtf8_utf8]
  simp only [hs]

/-- Decoding a staged line gives the event. -/
theorem decodeRecord_recordLine {e : TimelineEvent} {bodyLen : Nat}
    (hl : e.body.length = bodyLen) (hb : bodyLen ≤ u64Max) (offset : Nat) :
    decodeRecord crc (recordLine crc bodyLen e).dropLast offset = .ok e := by
  have hu : IsUtf8 (decimal bodyLen ++ tab :: (hexChecksum (crc e.body) ++ tab :: e.body)) :=
    (isUtf8_decimal _).join (by decide) ((isUtf8_hexChecksum _).join (by decide) e.isUtf8_body)
  rw [dropLast_recordLine, ← utf8_ofUtf8 _ hu, decodeRecord_tagged]
  exact decodeV2_parts hl hb (utf8_ofUtf8 _ hu) offset

private theorem elim_eq_ok {α : Type} {x : Option α} {err : TimelineError} {a : α}
    (h : x.elim (.error err) .ok = (Except.ok a : Except TimelineError α)) : x = some a := by
  cases x with
  | none => cases h
  | some x => exact congrArg some (Except.ok.inj h)

private theorem elim_bind_eq_ok {α β : Type} {x : Option α} {err : TimelineError}
    {f : α → Except TimelineError β} {b : β}
    (h : (x.elim (.error err) .ok >>= f) = Except.ok b) : ∃ a, x = some a ∧ f a = .ok b := by
  cases x with
  | none => cases h
  | some a => exact ⟨a, rfl, h⟩

/-- What the part after the tag decodes to does not depend on where it stands. -/
theorem decodeV2_offset {line : String} {offset : Nat} {e : TimelineEvent}
    (h : decodeV2 crc line offset = .ok e) (offset' : Nat) : decodeV2 crc line offset' = .ok e := by
  obtain ⟨a, ha, h⟩ := elim_bind_eq_ok h
  obtain ⟨length, hlen, h⟩ := elim_bind_eq_ok h
  obtain ⟨b, hb, h⟩ := elim_bind_eq_ok h
  obtain ⟨checksum, hsum, h⟩ := elim_bind_eq_ok h
  obtain ⟨body, hbody, h⟩ := elim_bind_eq_ok h
  simp only [decodeV2, ha, hlen, hb, hsum, hbody, Option.elim_some, bind, Except.bind]
  split at h
  · cases h
  · next hmatch => rw [if_neg hmatch, elim_eq_ok h, Option.elim_some]

/-- What a line decodes to does not depend on where it stands. -/
theorem decodeRecord_offset {bytes : Bytes} {offset : Nat} {e : TimelineEvent}
    (h : decodeRecord crc bytes offset = .ok e) (offset' : Nat) :
    decodeRecord crc bytes offset' = .ok e := by
  unfold decodeRecord at h ⊢
  split at h
  · cases h
  · split at h
    · exact decodeV2_offset h offset'
    · rw [elim_eq_ok h, Option.elim_some]

/-! ### Log records -/

/-- A line of a log: a terminated line of accepted size together with its event. -/
structure LogRecord (crc : Bytes → UInt32) where
  bytes : Bytes
  event : TimelineEvent
  frame : IsFrame newline bytes
  size_le : bytes.length ≤ MAX_LINE_BYTES
  decodes : ∀ offset, decodeRecord crc bytes.dropLast offset = .ok event

/-- A number below ten to the ninth has at most nine digits. -/
theorem decimalLen_le {n : Nat} (h : n < 10 ^ 9) : decimalLen n ≤ 9 := by
  unfold decimalLen
  split
  · omega
  · next hn => exact Nat.log_lt_of_lt_pow hn h

/-- Framing a body within the record limit keeps the line within the line limit. -/
theorem framedLenForBody_le {bodyLen : Nat} (h : bodyLen ≤ MAX_RECORD_BYTES) :
    framedLenForBody bodyLen ≤ MAX_LINE_BYTES := by
  have hm : MAX_RECORD_BYTES < 10 ^ 9 := by decide
  have hd := decimalLen_le (Nat.lt_of_le_of_lt h hm)
  unfold framedLenForBody MAX_LINE_BYTES
  omega

/-- The record of a staged event. -/
def LogRecord.staged (crc : Bytes → UInt32) (e : TimelineEvent)
    (h : e.body.length ≤ MAX_RECORD_BYTES) : LogRecord crc where
  bytes := recordLine crc e.body.length e
  event := e
  frame := isFrame_recordLine crc _ e
  size_le := length_recordLine crc _ e rfl ▸ framedLenForBody_le h
  decodes := decodeRecord_recordLine rfl (Nat.le_trans h (by decide))

/-- A body does not start with the version tag. -/
theorem TimelineEvent.not_v2Tag_body (e : TimelineEvent) : ¬ v2Tag <+: e.body := by
  intro h
  obtain ⟨d, ds, hd⟩ := List.exists_cons_of_ne_nil (decimal_ne_nil e.seq.toNat)
  have hr := decimal_range (hd ▸ List.mem_cons_self : d ∈ decimal e.seq.toNat)
  rw [e.body_eq, hd, List.cons_append, v2Tag, List.cons_prefix_cons] at h
  exact absurd (h.1 ▸ hr.2) (by decide)

/-- The record of an event that an older writer wrote as a bare body. -/
def LogRecord.legacy (crc : Bytes → UInt32) (e : TimelineEvent)
    (h : e.body.length < MAX_LINE_BYTES) : LogRecord crc where
  bytes := e.body ++ [newline]
  event := e
  frame := ⟨e.body, rfl, e.newline_not_mem_body⟩
  size_le := by simpa using h
  decodes := by
    intro offset
    obtain ⟨text, htext⟩ : ∃ text, utf8 text = e.body := ⟨_, utf8_ofUtf8 _ e.isUtf8_body⟩
    have hn : ¬ v2Tag <+: utf8 text := by
      rw [htext]
      exact e.not_v2Tag_body
    rw [List.dropLast_concat, ← htext, decodeRecord_untagged hn,
      TimelineEvent.decodeLine_body htext]
    rfl

namespace LogRecord

/-- The bytes of a log. -/
def content (records : List (LogRecord crc)) : Bytes := (records.map bytes).flatten

/-- The events of a log. -/
def events (records : List (LogRecord crc)) : List TimelineEvent := records.map event

@[simp] theorem content_nil : content ([] : List (LogRecord crc)) = [] := rfl

@[simp] theorem content_cons (r : LogRecord crc) (records : List (LogRecord crc)) :
    content (r :: records) = r.bytes ++ content records := rfl

@[simp] theorem content_append (xs ys : List (LogRecord crc)) :
    content (xs ++ ys) = content xs ++ content ys := by
  simp [content]

@[simp] theorem events_append (xs ys : List (LogRecord crc)) :
    events (xs ++ ys) = events xs ++ events ys := by
  simp [events]

/-- First records make up first bytes. -/
theorem content_mono {xs ys : List (LogRecord crc)} (h : xs <+: ys) :
    content xs <+: content ys := by
  obtain ⟨rest, rfl⟩ := h
  rw [content_append]
  exact List.prefix_append _ _

/-- A log without bytes has no records. -/
theorem content_eq_nil {records : List (LogRecord crc)} : content records = [] ↔ records = [] := by
  cases records with
  | nil => simp
  | cons r records => simp [r.frame.ne_nil]

/-- A log is a sequence of frames. -/
theorem isFrame_of_mem {records : List (LogRecord crc)} {f : Bytes}
    (h : f ∈ records.map bytes) : IsFrame newline f := by
  obtain ⟨r, -, rfl⟩ := List.mem_map.mp h
  exact r.frame

/-- A log record is not empty. -/
theorem length_pos (r : LogRecord crc) : 0 < r.bytes.length :=
  List.length_pos_iff.mpr r.frame.ne_nil

/-- A record is determined by its bytes. -/
theorem eq_of_bytes {r s : LogRecord crc} (h : r.bytes = s.bytes) : r = s := by
  have he := (r.decodes 0).symm.trans (h ▸ s.decodes 0)
  cases r
  cases s
  simp_all

/-- Records differ in their bytes. -/
theorem bytes_injective : Function.Injective (bytes : LogRecord crc → Bytes) :=
  fun _ _ h ↦ eq_of_bytes h

/-- A cut of a log at any byte is a number of whole records and a terminator-free rest
within the line limit. -/
theorem exists_take_of_prefix {records : List (LogRecord crc)} {tail image : Bytes}
    (ht : newline ∉ tail) (hsize : tail.length ≤ MAX_LINE_BYTES)
    (h : image <+: content records ++ tail) :
    ∃ k rest, image = content (records.take k) ++ rest ∧ newline ∉ rest ∧
      rest.length ≤ MAX_LINE_BYTES := by
  obtain ⟨k, rest, -, himage, hn, hrest⟩ :=
    Base.exists_take_of_prefix (fun _ hf ↦ isFrame_of_mem hf) ht h
  refine ⟨k, rest, by rw [himage, content, List.map_take], hn, ?_⟩
  rcases hrest with ⟨f, hf, hp⟩ | hp
  · obtain ⟨r, -, rfl⟩ := List.mem_map.mp hf
    exact Nat.le_trans hp.length_le r.size_le
  · exact Nat.le_trans hp.length_le hsize

/-- A log that starts another one, up to a terminator-free rest, has its first records. -/
theorem prefix_of_content {xs ys : List (LogRecord crc)} {rest : Bytes}
    (hn : newline ∉ rest) (h : content xs <+: content ys ++ rest) : xs <+: ys := by
  have hp : (xs.map bytes).flatten ++ [] <+: (ys.map bytes).flatten ++ rest := by
    rw [List.append_nil]
    exact h
  exact (List.prefix_map_iff_of_injective bytes_injective).mp
    (frames_prefix_of_flatten (fun _ hf ↦ isFrame_of_mem hf) (fun _ hf ↦ isFrame_of_mem hf) hn hp)

/-- A nonempty log ends in a newline. -/
theorem getLast?_content {records : List (LogRecord crc)} (h : content records ≠ []) :
    (content records).getLast? = some newline := by
  rcases List.eq_nil_or_concat records with rfl | ⟨init, r, rfl⟩
  · exact absurd rfl h
  · rw [List.concat_eq_append, content_append, content_cons, ← r.frame.dropLast_append]
    simp

end LogRecord

/-! ### Reading a line of a log -/

private theorem map_eq_ok {α β : Type} {x : Except TimelineError α} {f : α → β} {b : β}
    (h : x.map f = .ok b) : ∃ a, x = .ok a ∧ f a = b := by
  cases x with
  | error err => cases h
  | ok a => exact ⟨a, rfl, Except.ok.inj h⟩

/-- A record at the front of the input is read as one terminated line. -/
theorem readBoundedLine_record (r : LogRecord crc) {reader : BufReader} {more : Bytes}
    (h : reader.rest = r.bytes ++ more) (offset : Nat) :
    ∃ reader', readBoundedLine reader offset = .ok (r.bytes, true, reader') ∧
      reader'.rest = more := by
  have hloop := readBoundedLineLoop_eq offset [] reader (Nat.zero_le _)
  have hb := r.frame.dropLast_append
  have hsize := r.size_le
  rw [h, ← hb, List.append_assoc, List.singleton_append, frontLine,
    cut_append r.frame.not_mem_dropLast] at hloop
  have hlen : r.bytes.dropLast.length + 1 = r.bytes.length := by
    rw [← hb]
    simp
  simp only [List.length_nil, List.nil_append, Nat.zero_add, hlen] at hloop
  rw [if_neg (by omega), hb] at hloop
  obtain ⟨⟨bytes, terminated, reader'⟩, hread, hp⟩ := map_eq_ok hloop
  simp only [Prod.mk.injEq] at hp
  obtain ⟨rfl, rfl, hrest⟩ := hp
  exact ⟨reader', hread, hrest⟩

/-- Input without a terminator is read to its end. -/
theorem readBoundedLine_tail {reader : BufReader} (h : newline ∉ reader.rest)
    (hsize : reader.rest.length ≤ MAX_LINE_BYTES) (offset : Nat) :
    ∃ reader', readBoundedLine reader offset = .ok (reader.rest, false, reader') := by
  have hloop := readBoundedLineLoop_eq offset [] reader (Nat.zero_le _)
  rw [frontLine, cut_of_not_mem h] at hloop
  simp only [List.length_nil, List.nil_append, Nat.zero_add] at hloop
  rw [if_neg (by omega)] at hloop
  obtain ⟨⟨bytes, terminated, reader'⟩, hread, hp⟩ := map_eq_ok hloop
  simp only [Prod.mk.injEq] at hp
  obtain ⟨rfl, rfl, -⟩ := hp
  exact ⟨reader', hread⟩

/-- A line that was read is a frame of accepted size, or all of a terminator-free input. -/
theorem readBoundedLine_cases {reader reader' : BufReader} {offset : Nat} {bytes : Bytes}
    {terminated : Bool} (h : readBoundedLine reader offset = .ok (bytes, terminated, reader')) :
    bytes.length ≤ MAX_LINE_BYTES ∧ reader.rest = bytes ++ reader'.rest ∧
      ((terminated = true ∧ IsFrame newline bytes) ∨
        (terminated = false ∧ newline ∉ bytes ∧ reader'.rest = [])) := by
  have hloop := readBoundedLineLoop_eq offset [] reader (Nat.zero_le _)
  rw [show readBoundedLineLoop offset [] reader = _ from h, frontLine] at hloop
  rcases cut_cases newline reader.rest with ⟨xs, ys, hx, hn, hc⟩ | ⟨hn, hc⟩
  · simp only [hc, Except.map, List.length_nil, List.nil_append, Nat.zero_add] at hloop
    split at hloop
    · cases hloop
    · next hsize =>
      simp only [Except.ok.injEq, Prod.mk.injEq] at hloop
      obtain ⟨rfl, rfl, hr⟩ := hloop
      refine ⟨by simpa using hsize, by rw [hr, hx]; simp, Or.inl ⟨rfl, xs, rfl, hn⟩⟩
  · simp only [hc, Except.map, List.length_nil, List.nil_append, Nat.zero_add] at hloop
    split at hloop
    · cases hloop
    · next hsize =>
      simp only [Except.ok.injEq, Prod.mk.injEq] at hloop
      obtain ⟨rfl, rfl, hr⟩ := hloop
      exact ⟨by omega, by rw [hr, List.append_nil], Or.inr ⟨rfl, hn, hr⟩⟩

/-- A nonempty line leaves less to read. -/
theorem readBoundedLine_decreases {reader reader' : BufReader} {offset : Nat} {bytes : Bytes}
    {terminated : Bool} (h : readBoundedLine reader offset = .ok (bytes, terminated, reader'))
    (hne : bytes ≠ []) : reader'.rest.length < reader.rest.length := by
  have hrest := (readBoundedLine_cases h).2.1
  have hpos := List.length_pos_iff.mpr hne
  rw [hrest, List.length_append]
  omega

end Vidarax.Timeline
