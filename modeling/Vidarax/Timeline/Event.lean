import Vidarax.Base.Machine
import Vidarax.Base.Number
import Vidarax.Base.Str

/-!
# Timeline events and their record bodies

Package `vidarax-core`, `crates/vidarax-core/src/timeline.rs:41–121,388–455,738–792`.
An event body is six tab-separated fields whose strings are escaped byte by byte.
The encoded size comes from a separate arithmetic path that is checked against the
record limit before anything is written.
-/

namespace Vidarax.Timeline

open Vidarax.Base

/-- Separator of body fields. -/
abbrev tab : UInt8 := 0x09

/-- Terminator of records. -/
abbrev newline : UInt8 := 0x0A

/-- Escape byte. -/
abbrev backslash : UInt8 := 0x5C

theorem tab_ascii : tab < 0x80 := by decide

/-- Maximum escaped body size of one event; `timeline.rs:389`. -/
def MAX_RECORD_BYTES : Nat := 64 * 1024 * 1024

/-- One timeline event; `timeline.rs:41`. -/
structure TimelineEvent where
  seq : UInt64
  runId : String
  streamId : String
  ptsMs : UInt64
  kind : String
  payload : String
  deriving DecidableEq

/-- Failures of timeline operations; `timeline.rs:95`. -/
inductive TimelineError where
  | io (message : String)
  | index (message : String)
  | corrupt (offset : Nat) (reason : String)
  deriving DecidableEq

/-- Texts of failures; `timeline.rs:102`. -/
def TimelineError.display : TimelineError → String
  | io message => message
  | index message => message
  | corrupt offset reason => s!"timeline WAL corrupt at byte {offset}: {reason}"

/-- Rejection of an event above the record limit; `timeline.rs:391`. -/
def oversizeRecord : TimelineError := .io "timeline event exceeds maximum record size"

/-! ### Escaping -/

/-- Two-byte escape of a backslash, tab or newline; every other byte stands for itself. -/
def escape (b : UInt8) : Bytes :=
  if b = backslash then [backslash, backslash]
  else if b = tab then [backslash, 0x74]
  else if b = newline then [backslash, 0x6E]
  else [b]

/-- A byte is one of the three escaped ones or stands for itself. -/
theorem escape_cases (b : UInt8) :
    (b = backslash ∧ escape b = [backslash, backslash]) ∨
      (b = tab ∧ escape b = [backslash, 0x74]) ∨
      (b = newline ∧ escape b = [backslash, 0x6E]) ∨
      (b ≠ backslash ∧ b ≠ tab ∧ b ≠ newline ∧ escape b = [b]) := by
  by_cases h₁ : b = backslash
  · subst h₁
    exact Or.inl ⟨rfl, rfl⟩
  · by_cases h₂ : b = tab
    · subst h₂
      exact Or.inr (Or.inl ⟨rfl, rfl⟩)
    · by_cases h₃ : b = newline
      · subst h₃
        exact Or.inr (Or.inr (Or.inl ⟨rfl, rfl⟩))
      · exact Or.inr (Or.inr (Or.inr ⟨h₁, h₂, h₃, by simp [escape, h₁, h₂, h₃]⟩))

/-- Append the escaped bytes of a string; `timeline.rs:740`. -/
def sanitizeInto (s : String) (out : Bytes) : Bytes := out ++ (utf8 s).flatMap escape

/-- Byte loop of `restore`: an unrecognised escape keeps its backslash and is read again. -/
def restoreBytes : Bytes → Bytes
  | [] => []
  | [b] => [b]
  | b :: c :: cs =>
    if b = backslash then
      if c = 0x74 then tab :: restoreBytes cs
      else if c = 0x6E then newline :: restoreBytes cs
      else if c = backslash then backslash :: restoreBytes cs
      else backslash :: restoreBytes (c :: cs)
    else b :: restoreBytes (c :: cs)

/-- A byte that starts no escape is kept. -/
theorem restoreBytes_cons {b : UInt8} (h : b ≠ backslash) (bs : Bytes) :
    restoreBytes (b :: bs) = b :: restoreBytes bs := by
  cases bs with
  | nil => rfl
  | cons c cs => exact if_neg h

/-- Un-escaping keeps text valid: it only rewrites ASCII bytes. -/
theorem isUtf8_restoreBytes {bs : Bytes} (h : IsUtf8 bs) : IsUtf8 (restoreBytes bs) := by
  -- the bytes already read are kept in front, since a cut inside a character is not valid text
  suffices key : ∀ front, IsUtf8 (front ++ bs) → IsUtf8 (front ++ restoreBytes bs) from key [] h
  clear h
  fun_induction restoreBytes bs with
  | case1 => exact fun front hf ↦ hf
  | case2 b => exact fun front hf ↦ hf
  | case3 cs ih =>
    intro front hf
    obtain ⟨hl, hr⟩ := hf.split (by decide)
    exact hl.join (by decide) (ih [] (IsUtf8.tail (by decide) hr))
  | case4 cs _ ih =>
    intro front hf
    obtain ⟨hl, hr⟩ := hf.split (by decide)
    exact hl.join (by decide) (ih [] (IsUtf8.tail (by decide) hr))
  | case5 cs _ _ ih =>
    intro front hf
    obtain ⟨hl, hr⟩ := hf.split (by decide)
    exact hl.join (by decide) (ih [] (IsUtf8.tail (by decide) hr))
  | case6 c cs _ _ _ ih =>
    intro front hf
    obtain ⟨hl, hr⟩ := hf.split (by decide)
    exact hl.join (by decide) (ih [] hr)
  | case7 b c cs _ ih =>
    intro front hf
    have := ih (front ++ [b]) (by simpa using hf)
    simpa using this

/-- Undo the escapes of a field; `timeline.rs:758`. -/
def restore (s : String) : String :=
  ofUtf8 (restoreBytes (utf8 s)) (isUtf8_restoreBytes (isUtf8_utf8 s))

/-- Un-escaping undoes escaping, whatever follows. -/
theorem restoreBytes_flatMap_escape_append (bs rest : Bytes) :
    restoreBytes (bs.flatMap escape ++ rest) = bs ++ restoreBytes rest := by
  induction bs with
  | nil => rfl
  | cons b bs ih =>
    rw [List.flatMap_cons, List.append_assoc]
    rcases escape_cases b with ⟨rfl, he⟩ | ⟨rfl, he⟩ | ⟨rfl, he⟩ | ⟨hb, -, -, he⟩
    · rw [he]
      exact congrArg (backslash :: ·) ih
    · rw [he]
      exact congrArg (tab :: ·) ih
    · rw [he]
      exact congrArg (newline :: ·) ih
    · rw [he, List.singleton_append, restoreBytes_cons hb, ih, List.cons_append]

/-- Un-escaping undoes escaping. -/
theorem restoreBytes_flatMap_escape (bs : Bytes) : restoreBytes (bs.flatMap escape) = bs := by
  have h := restoreBytes_flatMap_escape_append bs []
  rw [List.append_nil] at h
  exact h.trans (List.append_nil bs)

/-- Escaped bytes hold no tab and no newline. -/
theorem mem_flatMap_escape {bs : Bytes} {b : UInt8} (h : b ∈ bs.flatMap escape) :
    b ≠ tab ∧ b ≠ newline := by
  obtain ⟨c, -, hb⟩ := List.mem_flatMap.mp h
  rcases escape_cases c with ⟨-, he⟩ | ⟨-, he⟩ | ⟨-, he⟩ | ⟨-, ht, hn, he⟩
  · rw [he] at hb
    simp only [List.mem_cons, List.not_mem_nil, or_false, or_self] at hb
    subst hb
    decide
  · rw [he] at hb
    simp only [List.mem_cons, List.not_mem_nil, or_false] at hb
    rcases hb with rfl | rfl <;> decide
  · rw [he] at hb
    simp only [List.mem_cons, List.not_mem_nil, or_false] at hb
    rcases hb with rfl | rfl <;> decide
  · rw [he] at hb
    rw [List.mem_singleton.mp hb]
    exact ⟨ht, hn⟩

/-- Escaping keeps text valid. -/
theorem isUtf8_flatMap_escape {bs : Bytes} (h : IsUtf8 bs) : IsUtf8 (bs.flatMap escape) := by
  have hpair {b c : UInt8} (hc : c < 0x80) (he : escape b = [backslash, c]) :
      ∀ d ∈ escape b, d < 0x80 := by
    rw [he]
    intro d hd
    rcases List.mem_pair.mp hd with rfl | rfl
    · decide
    · exact hc
  apply h.flatMap
  intro b
  rcases escape_cases b with ⟨rfl, he⟩ | ⟨rfl, he⟩ | ⟨rfl, he⟩ | ⟨-, -, -, he⟩
  · exact .inr ⟨by decide, hpair (by decide) he⟩
  · exact .inr ⟨by decide, hpair (by decide) he⟩
  · exact .inr ⟨by decide, hpair (by decide) he⟩
  · exact .inl he

/-! ### Body encoding and decoding -/

/-- Append the six-field body of an event; `timeline.rs:64`. -/
def TimelineEvent.encodeBodyInto (e : TimelineEvent) (out : Bytes) : Bytes :=
  let out := out ++ decimal e.seq.toNat ++ [tab]
  let out := sanitizeInto e.runId out ++ [tab]
  let out := sanitizeInto e.streamId out
  let out := out ++ [tab] ++ decimal e.ptsMs.toNat ++ [tab]
  let out := sanitizeInto e.kind out ++ [tab]
  sanitizeInto e.payload out

/-- The body of an event on its own. -/
def TimelineEvent.body (e : TimelineEvent) : Bytes := e.encodeBodyInto []

/-- Parse a `u64` field. -/
def parseU64 (s : String) : Option UInt64 :=
  (parseUnsigned 10 u64Max (utf8 s)).map UInt64.ofNat

/-- Decode a body of six tab-separated fields; `timeline.rs:75`. -/
def TimelineEvent.decodeLine (line : String) : Option TimelineEvent :=
  match splitn tab tab_ascii 6 line with
  | [seq, runId, streamId, ptsMs, kind, payload] =>
    match parseU64 seq, parseU64 ptsMs with
    | some seq, some ptsMs =>
      some ⟨seq, restore runId, restore streamId, ptsMs, restore kind, restore payload⟩
    | _, _ => none
  | _ => none

/-- The six fields of a body, written in full. -/
theorem TimelineEvent.body_eq (e : TimelineEvent) :
    e.body = decimal e.seq.toNat ++ tab :: ((utf8 e.runId).flatMap escape ++
      tab :: ((utf8 e.streamId).flatMap escape ++ tab :: (decimal e.ptsMs.toNat ++
      tab :: ((utf8 e.kind).flatMap escape ++ tab :: (utf8 e.payload).flatMap escape)))) := by
  simp [TimelineEvent.body, encodeBodyInto, sanitizeInto]

/-- Appending a body is appending its bytes. -/
theorem TimelineEvent.encodeBodyInto_eq (e : TimelineEvent) (out : Bytes) :
    e.encodeBodyInto out = out ++ e.body := by
  simp [TimelineEvent.body, encodeBodyInto, sanitizeInto]

/-- A decimal text holds no tab and no newline. -/
theorem mem_decimal {n : Nat} {b : UInt8} (h : b ∈ decimal n) : b ≠ tab ∧ b ≠ newline := by
  have hr := decimal_range h
  constructor <;> rintro rfl <;> exact absurd hr.1 (by decide)

/-- A decimal text is ASCII. -/
theorem isUtf8_decimal (n : Nat) : IsUtf8 (decimal n) := by
  apply isUtf8_of_ascii
  intro b hb
  have := (decimal_range hb).2
  rw [UInt8.lt_iff_toNat_lt]
  exact Nat.lt_of_le_of_lt this (by decide)

/-- A body is valid text. -/
theorem TimelineEvent.isUtf8_body (e : TimelineEvent) : IsUtf8 e.body := by
  have hf (s : String) : IsUtf8 ((utf8 s).flatMap escape) := isUtf8_flatMap_escape (isUtf8_utf8 s)
  rw [e.body_eq]
  exact (isUtf8_decimal _).join (by decide) ((hf _).join (by decide) ((hf _).join (by decide)
    ((isUtf8_decimal _).join (by decide) ((hf _).join (by decide) (hf _)))))

/-- A body holds no newline. -/
theorem TimelineEvent.newline_not_mem_body (e : TimelineEvent) : newline ∉ e.body := by
  have hf (s : String) : newline ∉ (utf8 s).flatMap escape := fun h ↦ (mem_flatMap_escape h).2 rfl
  have hd (n : Nat) : newline ∉ decimal n := fun h ↦ (mem_decimal h).2 rfl
  have ht : newline ≠ tab := by decide
  rw [e.body_eq]
  simp only [List.mem_append, List.mem_cons, ht, hf, hd, or_false, not_false_iff]

/-- The fields of a body are found again. -/
theorem TimelineEvent.cutN_body (e : TimelineEvent) :
    cutN tab 6 e.body =
      [decimal e.seq.toNat, (utf8 e.runId).flatMap escape, (utf8 e.streamId).flatMap escape,
        decimal e.ptsMs.toNat, (utf8 e.kind).flatMap escape, (utf8 e.payload).flatMap escape] := by
  have hf (s : String) : tab ∉ (utf8 s).flatMap escape := fun h ↦ (mem_flatMap_escape h).1 rfl
  have hd (n : Nat) : tab ∉ decimal n := fun h ↦ (mem_decimal h).1 rfl
  rw [e.body_eq, cutN_append 4 (hd _), cutN_append 3 (hf _), cutN_append 2 (hf _),
    cutN_append 1 (hd _), cutN_append 0 (hf _)]
  rfl

/-- Reading the decimal text of a `u64` gives the number. -/
theorem parseU64_of_utf8 {s : String} {n : UInt64} (h : utf8 s = decimal n.toNat) :
    parseU64 s = some n := by
  have hn : n.toNat ≤ u64Max := Nat.le_sub_one_of_lt n.toNat_lt
  rw [parseU64, h, parseUnsigned_decimal hn]
  simp

/-- A field whose bytes are escaped text is restored to the text. -/
theorem restore_of_utf8 {s t : String} (h : utf8 s = (utf8 t).flatMap escape) :
    restore s = t := by
  apply utf8_inj.mp
  rw [restore, utf8_ofUtf8, h, restoreBytes_flatMap_escape]

/-- Decoding depends on the six parts of the line. -/
theorem TimelineEvent.decodeLine_of_parts {line a b c d e f : String}
    (h : splitn tab tab_ascii 6 line = [a, b, c, d, e, f]) {seq ptsMs : UInt64}
    (hs : parseU64 a = some seq) (hp : parseU64 d = some ptsMs) :
    decodeLine line = some ⟨seq, restore b, restore c, ptsMs, restore e, restore f⟩ := by
  simp [decodeLine, h, hs, hp]

private theorem six_of_map {α β : Type} {g : α → β} {xs : List α} {a b c d e f : β}
    (h : xs.map g = [a, b, c, d, e, f]) :
    ∃ u v w x y z, xs = [u, v, w, x, y, z] ∧
      g u = a ∧ g v = b ∧ g w = c ∧ g x = d ∧ g y = e ∧ g z = f := by
  match xs, h with
  | [u, v, w, x, y, z], h =>
    simp only [List.map_cons, List.map_nil, List.cons.injEq, and_true] at h
    exact ⟨u, v, w, x, y, z, rfl, h⟩

/-- A line whose bytes are six parts splits into strings with these bytes. -/
theorem splitn_six_of_cutN {line : String} {a b c d e f : Bytes}
    (h : cutN tab 6 (utf8 line) = [a, b, c, d, e, f]) :
    ∃ u v w x y z, splitn tab tab_ascii 6 line = [u, v, w, x, y, z] ∧
      utf8 u = a ∧ utf8 v = b ∧ utf8 w = c ∧ utf8 x = d ∧ utf8 y = e ∧ utf8 z = f :=
  six_of_map ((utf8_splitn tab tab_ascii 6 line).trans h)

/-- Decoding a body gives the event back. -/
theorem TimelineEvent.decodeLine_body {line : String} {e : TimelineEvent}
    (h : utf8 line = e.body) : decodeLine line = some e := by
  have hc := e.cutN_body
  rw [← h] at hc
  obtain ⟨u, v, w, x, y, z, hs, hu, hv, hw, hx, hy, hz⟩ := splitn_six_of_cutN hc
  rw [decodeLine_of_parts hs (parseU64_of_utf8 hu) (parseU64_of_utf8 hx), restore_of_utf8 hv,
    restore_of_utf8 hw, restore_of_utf8 hy, restore_of_utf8 hz]

/-! ### Encoded size -/

/-- Add to a body size, rejecting a sum above the record limit; `timeline.rs:398`. -/
def checkedBodyAdd (current additional : Nat) : Except TimelineError Nat :=
  if current + additional > u64Max then .error oversizeRecord
  else if current + additional > MAX_RECORD_BYTES then .error oversizeRecord
  else .ok (current + additional)

/-- Bytes that need an escape. -/
def isEscaped (b : UInt8) : Bool := b = backslash ∨ b = tab ∨ b = newline

/-- Add a field's raw length, then one byte for each of its escapes; `timeline.rs:408`. -/
def checkedEscapedAdd (current : Nat) (field : String) : Except TimelineError Nat := do
  let withRaw ← checkedBodyAdd current (utf8 field).length
  let escapes := (utf8 field).countP isEscaped
  checkedBodyAdd withRaw escapes

/-- Number of decimal digits; `timeline.rs:414`. -/
def decimalLen (value : Nat) : Nat := if value = 0 then 1 else Nat.log 10 value + 1

/-- Size of an event body computed field by field; `timeline.rs:422`. -/
def encodedLenFields (e : TimelineEvent) : Except TimelineError Nat := do
  let len ← checkedBodyAdd (decimalLen e.seq.toNat) 5
  let len ← checkedEscapedAdd len e.runId
  let len ← checkedEscapedAdd len e.streamId
  let len ← checkedBodyAdd len (decimalLen e.ptsMs.toNat)
  let len ← checkedEscapedAdd len e.kind
  checkedEscapedAdd len e.payload

/-- Size of a framed record with a body of the given size; `timeline.rs:438`. -/
def framedLenForBody (bodyLen : Nat) : Nat := bodyLen + 14 + decimalLen bodyLen

/-- Exact bytes of an event's record on disk; `timeline.rs:53,444`. -/
def TimelineEvent.framedLen (e : TimelineEvent) : Except TimelineError Nat := do
  let bodyLen ← encodedLenFields e
  return framedLenForBody bodyLen

/-- Escaping adds one byte for each escaped byte. -/
theorem length_flatMap_escape (bs : Bytes) :
    (bs.flatMap escape).length = bs.length + bs.countP isEscaped := by
  induction bs with
  | nil => rfl
  | cons b bs ih =>
    have hb : (escape b).length = 1 + (if isEscaped b then 1 else 0) := by
      rcases escape_cases b with ⟨rfl, he⟩ | ⟨rfl, he⟩ | ⟨rfl, he⟩ | ⟨h₁, h₂, h₃, he⟩
      · rw [he]
        rfl
      · rw [he]
        rfl
      · rw [he]
        rfl
      · simp [he, isEscaped, h₁, h₂, h₃]
    rw [List.flatMap_cons, List.length_append, ih, hb, List.countP_cons, List.length_cons]
    omega

/-- The checked sum is the sum when it fits the record limit. -/
theorem checkedBodyAdd_eq (current additional : Nat) :
    checkedBodyAdd current additional =
      if current + additional ≤ MAX_RECORD_BYTES then .ok (current + additional)
      else .error oversizeRecord := by
  have hm : MAX_RECORD_BYTES ≤ u64Max := by decide
  unfold checkedBodyAdd
  split
  · rw [if_neg (by omega)]
  · split
    · rw [if_neg (by omega)]
    · rw [if_pos (by omega)]

/-- The checked size of a field is its escaped length. -/
theorem checkedEscapedAdd_eq (current : Nat) (field : String) :
    checkedEscapedAdd current field =
      if current + ((utf8 field).flatMap escape).length ≤ MAX_RECORD_BYTES then
        .ok (current + ((utf8 field).flatMap escape).length)
      else .error oversizeRecord := by
  rw [checkedEscapedAdd, checkedBodyAdd_eq, length_flatMap_escape]
  by_cases h : current + (utf8 field).length ≤ MAX_RECORD_BYTES
  · rw [if_pos h]
    simp only [bind, Except.bind, checkedBodyAdd_eq, Nat.add_assoc]
  · rw [if_neg h, if_neg (by omega)]
    rfl

/-- Checked steps that each add a length compose to one check of the total. -/
theorem bind_checked {total add : Nat} {f : Nat → Except TimelineError Nat}
    (hf : ∀ n, n ≤ MAX_RECORD_BYTES → f n =
      if n + add ≤ MAX_RECORD_BYTES then .ok (n + add) else .error oversizeRecord) :
    ((if total ≤ MAX_RECORD_BYTES then Except.ok total
      else Except.error oversizeRecord : Except TimelineError Nat) >>= f) =
      if total + add ≤ MAX_RECORD_BYTES then .ok (total + add) else .error oversizeRecord := by
  by_cases h : total ≤ MAX_RECORD_BYTES
  · rw [if_pos h]
    exact hf total h
  · rw [if_neg h, if_neg (by omega)]
    rfl

/-- The printed length of a number is its number of decimal digits. -/
theorem length_decimal_eq (n : Nat) : (decimal n).length = decimalLen n := length_decimal n

/-- The separate size computation agrees with the encoder: it gives the length of the
body, or rejects a body above the record limit. -/
theorem encodedLenFields_eq (e : TimelineEvent) :
    encodedLenFields e =
      if e.body.length ≤ MAX_RECORD_BYTES then .ok e.body.length
      else .error oversizeRecord := by
  have hlen : e.body.length = decimalLen e.seq.toNat + 5 + ((utf8 e.runId).flatMap escape).length +
      ((utf8 e.streamId).flatMap escape).length + decimalLen e.ptsMs.toNat +
      ((utf8 e.kind).flatMap escape).length + ((utf8 e.payload).flatMap escape).length := by
    rw [e.body_eq]
    simp only [List.length_append, List.length_cons, length_decimal_eq]
    omega
  rw [encodedLenFields, checkedBodyAdd_eq]
  simp only [← bind_assoc]
  rw [bind_checked fun n _ ↦ checkedEscapedAdd_eq n e.runId,
    bind_checked fun n _ ↦ checkedEscapedAdd_eq n e.streamId,
    bind_checked fun n _ ↦ checkedBodyAdd_eq n (decimalLen e.ptsMs.toNat),
    bind_checked fun n _ ↦ checkedEscapedAdd_eq n e.kind,
    bind_checked fun n _ ↦ checkedEscapedAdd_eq n e.payload, hlen]

end Vidarax.Timeline
