import Vidarax.Base.BufRead
import Vidarax.Timeline.Event

/-!
# Framed records

Package `vidarax-core`, `crates/vidarax-core/src/timeline.rs:263–291,510–573`.
A record is one line: a version tag, the body length, a checksum of the body and the
body. Lines without the tag are older records that hold a bare body. The checksum
function of the dependency is a parameter.
-/

namespace Vidarax.Timeline

open Vidarax.Base

/-- Version tag of new records. -/
def v2Tag : Bytes := [0x56, 0x32, tab]

theorem v2Tag_ascii : ∀ b ∈ v2Tag, b < 0x80 :=
  List.forall_mem_cons.mpr ⟨by decide, List.forall_mem_cons.mpr ⟨by decide,
    List.forall_mem_singleton.mpr (by decide)⟩⟩

/-- Eight lower case hex digits of a checksum; `timeline.rs:277`. -/
def hexChecksum (checksum : UInt32) : Bytes :=
  (List.range 8).map fun index ↦
    let nibble := (checksum.toNat >>> (4 * (7 - index))) &&& 0xF
    if nibble < 10 then UInt8.ofNat (0x30 + nibble) else UInt8.ofNat (0x61 + nibble - 10)

/-- The line `stage` builds: the checksum is computed from the bytes of the body and
then written over its placeholder; `timeline.rs:270`. -/
def recordLine (crc : Bytes → UInt32) (bodyLen : Nat) (e : TimelineEvent) : Bytes :=
  let line := v2Tag ++ decimal bodyLen ++ [tab]
  let checksumStart := line.length
  let line := line ++ List.replicate 8 0x30 ++ [tab]
  let bodyStart := line.length
  let line := e.encodeBodyInto line
  let checksum := crc (line.drop bodyStart)
  let line := line.take checksumStart ++ hexChecksum checksum ++ line.drop (checksumStart + 8)
  line ++ [newline]

/-- Parse a `usize` field. -/
def parseUsize (s : String) : Option Nat := parseUnsigned 10 u64Max (utf8 s)

/-- Parse a `u32` field in hexadecimal. -/
def parseHexU32 (s : String) : Option Nat := parseUnsigned 16 u32Max (utf8 s)

/-- Decode the part of a record after its tag; `timeline.rs:554`. -/
def decodeV2 (crc : Bytes → UInt32) (line : String) (offset : Nat) :
    Except TimelineError TimelineEvent := do
  let corrupt (reason : String) : TimelineError := .corrupt offset reason
  let parts := splitn tab tab_ascii 3 line
  let length ← parts[0]?.elim (.error (corrupt "missing length")) .ok
  let length ← (parseUsize length).elim (.error (corrupt "invalid length")) .ok
  let checksum ← parts[1]?.elim (.error (corrupt "missing checksum")) .ok
  let checksum ← (parseHexU32 checksum).elim (.error (corrupt "invalid checksum")) .ok
  let body ← parts[2]?.elim (.error (corrupt "missing record body")) .ok
  if length ≠ (utf8 body).length ∨ (crc (utf8 body)).toNat ≠ checksum then
    .error (corrupt "record length or checksum mismatch")
  else
    (TimelineEvent.decodeLine body).elim (.error (corrupt "invalid event body")) .ok

/-- Decode a line without its terminator; `timeline.rs:539`. -/
def decodeRecord (crc : Bytes → UInt32) (bytes : Bytes) (offset : Nat) :
    Except TimelineError TimelineEvent :=
  match fromUtf8 bytes with
  | none => .error (.corrupt offset ("invalid UTF-8: " ++ utf8ErrorText bytes))
  | some text =>
    match stripPrefix v2Tag v2Tag_ascii text with
    | some rest => decodeV2 crc rest offset
    | none =>
      (TimelineEvent.decodeLine text).elim (.error (.corrupt offset "invalid legacy record")) .ok

/-- Greatest accepted line, with its terminator; `timeline.rs:524`. -/
def MAX_LINE_BYTES : Nat := MAX_RECORD_BYTES + 64

/-- Bytes up to and including the first newline, or all of them; `timeline.rs:520`. -/
def lineLen (chunk : Bytes) : Nat :=
  match chunk.findIdx? (· = newline) with
  | some pos => pos + 1
  | none => chunk.length

/-- A newline ends the line. -/
theorem lineLen_append {xs ys : Bytes} (h : newline ∉ xs) :
    lineLen (xs ++ newline :: ys) = xs.length + 1 := by
  have hx : xs.findIdx? (· = newline) = none := by
    rw [List.findIdx?_eq_none_iff]
    intro x hx
    exact decide_eq_false fun he ↦ h (he ▸ hx)
  simp [lineLen, List.findIdx?_append, hx, List.findIdx?_cons]

/-- Without a newline the line is everything. -/
theorem lineLen_of_not_mem {xs : Bytes} (h : newline ∉ xs) : lineLen xs = xs.length := by
  have hx : xs.findIdx? (· = newline) = none := by
    rw [List.findIdx?_eq_none_iff]
    intro x hx
    exact decide_eq_false fun he ↦ h (he ▸ hx)
  simp [lineLen, hx]

/-- A line of a nonempty buffer is not empty. -/
theorem lineLen_pos {chunk : Bytes} (h : chunk ≠ []) : 0 < lineLen chunk := by
  unfold lineLen
  split
  · omega
  · exact List.length_pos_iff.mpr h

/-- A line is at most the buffer. -/
theorem lineLen_le (chunk : Bytes) : lineLen chunk ≤ chunk.length := by
  unfold lineLen
  split
  · next pos h =>
    exact (List.findIdx?_eq_some_iff_findIdx_eq.mp h).1
  · exact Nat.le_refl _

/-- The loop of `read_bounded_line` with the part of the line read so far. -/
def readBoundedLineLoop (offset : Nat) (line : Bytes) (reader : BufReader) :
    Except TimelineError (Bytes × Bool × BufReader) :=
  if _hc : reader.fillBuf = [] then .ok (line, false, reader)
  else
    let chunk := reader.fillBuf
    let take := lineLen chunk
    if line.length + take > MAX_LINE_BYTES then
      .error (.corrupt offset "record exceeds maximum size")
    else if chunk[take - 1]? = some newline then
      .ok (line ++ chunk.take take, true, reader.consume take)
    else readBoundedLineLoop offset (line ++ chunk.take take) (reader.consume take)
termination_by reader.rest.length
decreasing_by
  have hlen := (BufReader.fillBuf_prefix reader).length_le
  have hpos := lineLen_pos _hc
  have hle := lineLen_le reader.fillBuf
  rw [BufReader.rest_consume _ hle, List.length_drop]
  omega

/-- Read one line of bounded size, and whether it is terminated; `timeline.rs:510`. -/
def readBoundedLine (reader : BufReader) (offset : Nat) :
    Except TimelineError (Bytes × Bool × BufReader) :=
  readBoundedLineLoop offset [] reader

/-- The line at the front of a byte sequence, as `readBoundedLine` reads it. -/
def frontLine (offset : Nat) (line bs : Bytes) : Except TimelineError (Bytes × Bool × Bytes) :=
  match cut newline bs with
  | (xs, some ys) =>
    if line.length + xs.length + 1 > MAX_LINE_BYTES then
      .error (.corrupt offset "record exceeds maximum size")
    else .ok (line ++ xs ++ [newline], true, ys)
  | (xs, none) =>
    if line.length + xs.length > MAX_LINE_BYTES then
      .error (.corrupt offset "record exceeds maximum size")
    else .ok (line ++ xs, false, [])

private theorem frontLine_append {offset : Nat} {line xs : Bytes} (ys : Bytes)
    (h : newline ∉ xs) : frontLine offset line (xs ++ ys) = frontLine offset (line ++ xs) ys := by
  unfold frontLine
  rw [cut_append_of_not_mem ys h]
  rcases cut newline ys with ⟨a, _ | r⟩ <;>
    simp only [List.length_append, List.append_assoc, Nat.add_assoc]

private theorem frontLine_oversize {offset : Nat} {line : Bytes} (bs : Bytes)
    (h : line.length > MAX_LINE_BYTES) :
    frontLine offset line bs = .error (.corrupt offset "record exceeds maximum size") := by
  unfold frontLine
  rcases cut newline bs with ⟨a, _ | r⟩
  · exact if_pos (by omega)
  · exact if_pos (by omega)

/-- The result of the loop depends on the bytes to read and not on how they are cut
into fills. -/
theorem readBoundedLineLoop_eq (offset : Nat) (line : Bytes) (reader : BufReader)
    (hl : line.length ≤ MAX_LINE_BYTES) :
    (readBoundedLineLoop offset line reader).map (fun p ↦ (p.1, p.2.1, p.2.2.rest)) =
      frontLine offset line reader.rest := by
  fun_induction readBoundedLineLoop offset line reader with
  | case1 line reader hc =>
    rw [(BufReader.fillBuf_eq_nil_iff reader).mp hc]
    simp only [frontLine, cut, Except.map, (BufReader.fillBuf_eq_nil_iff reader).mp hc]
    rw [if_neg (by simpa using hl), List.append_nil]
  | case2 line reader hc chunk take hsize =>
    obtain ⟨more, hm⟩ := BufReader.fillBuf_prefix reader
    rw [← hm]
    rcases cut_cases newline reader.fillBuf with ⟨xs, ys, hx, hn, -⟩ | ⟨hn, -⟩
    · have ht : take = xs.length + 1 := by
        show lineLen reader.fillBuf = _
        rw [hx, lineLen_append hn]
      rw [hx, List.append_assoc, frontLine, List.cons_append, cut_append hn]
      simp only
      rw [if_pos (by omega)]
      rfl
    · have ht : take = reader.fillBuf.length := lineLen_of_not_mem hn
      rw [frontLine_append _ hn, frontLine_oversize _ (by rw [List.length_append]; omega)]
      rfl
  | case3 line reader hc chunk take hsize hended =>
    obtain ⟨more, hm⟩ := BufReader.fillBuf_prefix reader
    rcases cut_cases newline reader.fillBuf with ⟨xs, ys, hx, hn, -⟩ | ⟨hn, -⟩
    · have ht : take = xs.length + 1 := by
        show lineLen reader.fillBuf = _
        rw [hx, lineLen_append hn]
      simp only [Except.map]
      rw [BufReader.rest_consume _ (lineLen_le _), ← hm]
      show Except.ok (line ++ reader.fillBuf.take take, true,
        (reader.fillBuf ++ more).drop take) = _
      rw [ht, hx, List.append_assoc xs, frontLine, List.cons_append, cut_append hn]
      simp only
      rw [if_neg (by omega)]
      simp [List.take_append, List.drop_append, List.take_of_length_le]
    · exact absurd (List.mem_of_getElem? hended) hn
  | case4 line reader hc chunk take hsize hended ih =>
    obtain ⟨more, hm⟩ := BufReader.fillBuf_prefix reader
    rcases cut_cases newline reader.fillBuf with ⟨xs, ys, hx, hn, -⟩ | ⟨hn, -⟩
    · have ht : take = xs.length + 1 := by
        show lineLen reader.fillBuf = _
        rw [hx, lineLen_append hn]
      refine absurd ?_ hended
      show reader.fillBuf[take - 1]? = _
      rw [ht, hx]
      simp
    · have ht : take = reader.fillBuf.length := lineLen_of_not_mem hn
      have htake : chunk.take take = reader.fillBuf := by rw [ht]; exact List.take_length
      rw [ih (by rw [htake, List.length_append]; omega), htake,
        BufReader.rest_consume _ (lineLen_le _), ← hm]
      show frontLine offset _ ((reader.fillBuf ++ more).drop take) = _
      rw [ht, List.drop_left, frontLine_append _ hn]

end Vidarax.Timeline
