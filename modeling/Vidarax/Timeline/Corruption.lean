import Vidarax.Base.Crc32
import Vidarax.Timeline.Writer

/-!
# Damaged records

Package `vidarax-core`, `crates/vidarax-core/src/timeline.rs:75–91,539–573`.
One byte of a staged line is replaced. Damage behind the first byte is reported or
harmless: the frame gives the length of the body and a checksum of it. A first byte that
turns into a digit or a sign makes the line a record of the older format, which has no
checksum, and it is read as a different event.
-/

namespace Vidarax.Timeline

open Vidarax.Base

variable {crc : Bytes → UInt32}

/-- Decoding reports corruption or returns the original event. -/
def Detected (e : TimelineEvent) (offset : Nat) (res : Except TimelineError TimelineEvent) : Prop :=
  (∃ reason, res = .error (.corrupt offset reason)) ∨ res = .ok e

/-- A checksum function that tells any two byte strings apart that differ in one byte. -/
def DetectsReplacement (crc : Bytes → UInt32) : Prop :=
  ∀ (xs ys : Bytes) (b c : UInt8), b ≠ c → crc (xs ++ b :: ys) ≠ crc (xs ++ c :: ys)

/-! ### Damage behind the tag -/

/-- A tagged line is detected when length and checksum only agree for the original body. -/
theorem detected_of_cutN {e : TimelineEvent} {rest a b c : Bytes}
    (hcut : cutN tab 3 rest = [a, b, c])
    (hmatch : ∀ v s, parseUnsigned 10 u64Max a = some v → parseUnsigned 16 u32Max b = some s →
      v = c.length → (crc c).toNat = s → c = e.body) (offset : Nat) :
    Detected e offset (decodeRecord crc (v2Tag ++ rest) offset) := by
  by_cases hu : IsUtf8 (v2Tag ++ rest)
  · have hrest := hu.drop_ascii v2Tag_ascii (List.prefix_append _ _)
    rw [List.drop_left] at hrest
    obtain ⟨text, rfl⟩ : ∃ text, utf8 text = rest := ⟨_, utf8_ofUtf8 _ hrest⟩
    obtain ⟨body, hbody, hdec⟩ := decodeV2_of_cutN crc hcut offset
    rw [decodeRecord_tagged, hdec]
    cases ha : parseUnsigned 10 u64Max a with
    | none => exact Or.inl ⟨_, rfl⟩
    | some v =>
      cases hb : parseUnsigned 16 u32Max b with
      | none => exact Or.inl ⟨_, rfl⟩
      | some s =>
        by_cases hm : v = c.length ∧ (crc c).toNat = s
        · have hc := hmatch v s ha hb hm.1 hm.2
          have hok := TimelineEvent.decodeLine_body (hbody.trans hc)
          exact Or.inr (by simp [hm, hok])
        · exact Or.inl ⟨_, if_pos (not_and_or.mp hm)⟩
  · exact Or.inl ⟨_, decodeRecord_of_not_isUtf8 hu offset⟩

private theorem cutN_three {a b c : Bytes} (ha : tab ∉ a) (hb : tab ∉ b) :
    cutN tab 3 (a ++ tab :: (b ++ tab :: c)) = [a, b, c] := by
  rw [cutN_append 1 ha, cutN_append 0 hb]
  rfl

private theorem tab_not_mem_decimal (n : Nat) : tab ∉ decimal n := fun h ↦ (mem_decimal h).1 rfl

private theorem tab_not_mem_hexChecksum (n : UInt32) : tab ∉ hexChecksum n :=
  fun h ↦ (mem_hexChecksum h).1 rfl

/-- The first field of a body and the rest behind its tab. -/
theorem TimelineEvent.exists_body_eq (e : TimelineEvent) :
    ∃ fields, e.body = decimal e.seq.toNat ++ tab :: fields := ⟨_, e.body_eq⟩

private theorem set_split {α : Type} (xs : List α) {i : Nat} (h : i < xs.length) (b : α) :
    ∃ ys a zs, xs = ys ++ a :: zs ∧ xs.set i b = ys ++ b :: zs ∧ xs[i]? = some a := by
  refine ⟨xs.take i, xs[i], xs.drop (i + 1), ?_, ?_, List.getElem?_eq_getElem h⟩
  · rw [← List.drop_eq_getElem_cons h, List.take_append_drop]
  · rw [List.set_eq_take_append_cons_drop, if_pos h]

/-- A replaced byte of the length. -/
theorem detected_length {e : TimelineEvent} {xs ys : Bytes} {a b : UInt8}
    (hl : decimal e.body.length = xs ++ a :: ys) (offset : Nat) :
    Detected e offset (decodeRecord crc (v2Tag ++ (xs ++ b :: ys ++ tab ::
      (hexChecksum (crc e.body) ++ tab :: e.body))) offset) := by
  have hd := tab_not_mem_decimal e.body.length
  rw [hl] at hd
  simp only [List.mem_append, List.mem_cons, not_or] at hd
  by_cases hb : b = tab
  · -- a new tab ends the length early, and the body gets longer
    subst hb
    have hcut : cutN tab 3 (xs ++ tab :: (ys ++ tab ::
        (hexChecksum (crc e.body) ++ tab :: e.body))) =
        [xs, ys, hexChecksum (crc e.body) ++ tab :: e.body] := cutN_three hd.1 hd.2.2
    rw [List.append_assoc, List.cons_append]
    refine detected_of_cutN hcut (fun v s hv _ hlen _ ↦ ?_) offset
    have hle := parseUnsigned_prefix_le hl hv
    rw [List.length_append, List.length_cons] at hlen
    omega
  · have hn : tab ∉ xs ++ b :: ys := by
      simp only [List.mem_append, List.mem_cons, not_or]
      exact ⟨hd.1, Ne.symm hb, hd.2.2⟩
    exact detected_of_cutN (cutN_three hn (tab_not_mem_hexChecksum _)) (fun _ _ _ _ _ _ ↦ rfl)
      offset

/-- A replaced tab behind the length: the number in front of the body is at least the
length of the original body, and the body gets shorter. -/
theorem detected_first_tab {e : TimelineEvent} {b : UInt8} (hb : b ≠ tab) (offset : Nat) :
    Detected e offset (decodeRecord crc (v2Tag ++ (decimal e.body.length ++ b ::
      (hexChecksum (crc e.body) ++ tab :: e.body))) offset) := by
  obtain ⟨fields, hbody⟩ := e.exists_body_eq
  have hn : tab ∉ decimal e.body.length ++ b :: hexChecksum (crc e.body) := by
    simp only [List.mem_append, List.mem_cons, not_or]
    exact ⟨tab_not_mem_decimal _, Ne.symm hb, tab_not_mem_hexChecksum _⟩
  have hcut : cutN tab 3 (decimal e.body.length ++ b :: (hexChecksum (crc e.body) ++
      tab :: e.body)) =
      [decimal e.body.length ++ b :: hexChecksum (crc e.body), decimal e.seq.toNat, fields] := by
    have := cutN_three (c := fields) hn (tab_not_mem_decimal e.seq.toNat)
    rwa [← hbody, List.append_assoc, List.cons_append] at this
  refine detected_of_cutN hcut (fun v s hv _ hlen _ ↦ ?_) offset
  have hle := le_of_parseUnsigned_append hv
  have hlt := congrArg List.length hbody
  rw [List.length_append, List.length_cons] at hlt
  omega

/-- A replaced byte of the checksum. -/
theorem detected_checksum {e : TimelineEvent} {xs ys : Bytes} {a b : UInt8}
    (hc : hexChecksum (crc e.body) = xs ++ a :: ys) (offset : Nat) (hsize : e.body.length ≤ u64Max) :
    Detected e offset (decodeRecord crc (v2Tag ++ (decimal e.body.length ++ tab ::
      (xs ++ b :: ys ++ tab :: e.body))) offset) := by
  have hh := tab_not_mem_hexChecksum (crc e.body)
  rw [hc] at hh
  simp only [List.mem_append, List.mem_cons, not_or] at hh
  by_cases hb : b = tab
  · -- a new tab ends the checksum early, and the body gets longer
    subst hb
    have hcut : cutN tab 3 (decimal e.body.length ++ tab :: (xs ++ tab :: (ys ++ tab :: e.body))) =
        [decimal e.body.length, xs, ys ++ tab :: e.body] :=
      cutN_three (tab_not_mem_decimal _) hh.1
    rw [List.append_assoc, List.cons_append]
    refine detected_of_cutN hcut (fun v s hv _ hlen _ ↦ ?_) offset
    rw [parseUnsigned_decimal hsize] at hv
    rw [← Option.some.inj hv, List.length_append, List.length_cons] at hlen
    omega
  · have hn : tab ∉ xs ++ b :: ys := by
      simp only [List.mem_append, List.mem_cons, not_or]
      exact ⟨hh.1, Ne.symm hb, hh.2.2⟩
    exact detected_of_cutN (cutN_three (tab_not_mem_decimal _) hn) (fun _ _ _ _ _ _ ↦ rfl) offset

/-- A replaced tab behind the checksum: the body gets shorter. -/
theorem detected_second_tab {e : TimelineEvent} {b : UInt8} (hb : b ≠ tab) (offset : Nat)
    (hsize : e.body.length ≤ u64Max) :
    Detected e offset (decodeRecord crc (v2Tag ++ (decimal e.body.length ++ tab ::
      (hexChecksum (crc e.body) ++ b :: e.body))) offset) := by
  obtain ⟨fields, hbody⟩ := e.exists_body_eq
  have hn : tab ∉ hexChecksum (crc e.body) ++ b :: decimal e.seq.toNat := by
    simp only [List.mem_append, List.mem_cons, not_or]
    exact ⟨tab_not_mem_hexChecksum _, Ne.symm hb, tab_not_mem_decimal _⟩
  have hcut : cutN tab 3 (decimal e.body.length ++ tab :: (hexChecksum (crc e.body) ++
      b :: e.body)) =
      [decimal e.body.length, hexChecksum (crc e.body) ++ b :: decimal e.seq.toNat, fields] := by
    have := cutN_three (c := fields) (tab_not_mem_decimal e.body.length) hn
    rwa [List.append_assoc, List.cons_append, ← hbody] at this
  refine detected_of_cutN hcut (fun v s hv _ hlen _ ↦ ?_) offset
  rw [parseUnsigned_decimal hsize] at hv
  have hlt := congrArg List.length hbody
  rw [List.length_append, List.length_cons] at hlt
  have := Option.some.inj hv
  omega

/-- A replaced byte of the body. -/
theorem detected_body (hcrc : DetectsReplacement crc) {e : TimelineEvent} {xs ys : Bytes}
    {a b : UInt8} (hbody : e.body = xs ++ a :: ys) (hne : a ≠ b) (offset : Nat) :
    Detected e offset (decodeRecord crc (v2Tag ++ (decimal e.body.length ++ tab ::
      (hexChecksum (crc e.body) ++ tab :: (xs ++ b :: ys)))) offset) := by
  refine detected_of_cutN (cutN_three (tab_not_mem_decimal _) (tab_not_mem_hexChecksum _))
    (fun v s _ hs _ hsum ↦ ?_) offset
  rw [parseUnsigned_hexChecksum] at hs
  have heq : crc (xs ++ b :: ys) = crc (xs ++ a :: ys) := by
    apply UInt32.toNat_inj.mp
    rw [hsum, ← Option.some.inj hs, hbody]
  exact absurd heq.symm (hcrc xs ys a b hne)

/-! ### Damage in the tag -/

/-- A line whose first field is no number is no record of the old format. -/
theorem TimelineEvent.decodeLine_eq_none {text : String}
    (h : parseUnsigned 10 u64Max (cut tab (utf8 text)).1 = none) : decodeLine text = none := by
  rw [utf8_splitOnce tab tab_ascii] at h
  have hfirst : parseU64 (splitOnce tab tab_ascii text).1 = none := by
    rw [parseU64, h]
    rfl
  unfold decodeLine
  rw [splitn]
  rcases hs : splitOnce tab tab_ascii text with ⟨first, _ | rest⟩
  · rfl
  · rw [hs] at hfirst
    simp only
    split
    · next hsplit =>
      rw [List.cons.injEq] at hsplit
      rw [← hsplit.1, hfirst]
    · rfl

/-- An untagged line whose first field is no number is reported. -/
theorem detected_untagged {e : TimelineEvent} {bytes : Bytes} (hn : ¬ v2Tag <+: bytes)
    (hfirst : parseUnsigned 10 u64Max (cut tab bytes).1 = none) (offset : Nat) :
    Detected e offset (decodeRecord crc bytes offset) := by
  by_cases hu : IsUtf8 bytes
  · obtain ⟨text, rfl⟩ : ∃ text, utf8 text = bytes := ⟨_, utf8_ofUtf8 _ hu⟩
    rw [decodeRecord_untagged hn, TimelineEvent.decodeLine_eq_none hfirst]
    exact Or.inl ⟨_, rfl⟩
  · exact Or.inl ⟨_, decodeRecord_of_not_isUtf8 hu offset⟩

/-- Bytes that a number can start with. -/
def StartsNumber (b : UInt8) : Prop := b = 0x2B ∨ (0x30 ≤ b.toNat ∧ b.toNat ≤ 0x39)

instance (b : UInt8) : Decidable (StartsNumber b) := inferInstanceAs (Decidable (_ ∨ _))

/-- The damaged tag is a number exactly when its first byte can start one. -/
theorem parseUnsigned_tag (b : UInt8) :
    (parseUnsigned 10 u64Max [b, 0x32]).isSome ↔ StartsNumber b := by
  by_cases hp : b = 0x2B
  · subst hp
    decide
  · have htwo : digitValue 10 0x32 = some 2 := by decide
    have hparse : parseUnsigned 10 u64Max [b, 0x32] = parseDigits 10 u64Max 0 [b, 0x32] :=
      if_neg hp
    rw [hparse, parseDigits, digitValue_ten]
    by_cases hr : 48 ≤ b.toNat ∧ b.toNat ≤ 57
    · have hbound : u64Max = 18446744073709551615 := by decide
      have hsmall : 0 * 10 ≤ u64Max ∧ 0 * 10 + (b.toNat - 48) ≤ u64Max := by omega
      have hfits : (0 * 10 + (b.toNat - 48)) * 10 ≤ u64Max ∧
          (0 * 10 + (b.toNat - 48)) * 10 + 2 ≤ u64Max := by omega
      simp only [if_pos hr, if_pos hsmall, parseDigits, htwo, if_pos hfits]
      exact iff_of_true rfl (Or.inr hr)
    · simp only [if_neg hr]
      exact iff_of_false (by simp) (not_or.mpr ⟨hp, hr⟩)

/-- Bytes without a backslash are not escapes. -/
theorem restoreBytes_append {xs : Bytes} (h : backslash ∉ xs) (ys : Bytes) :
    restoreBytes (xs ++ ys) = xs ++ restoreBytes ys := by
  induction xs with
  | nil => rfl
  | cons x xs ih =>
    simp only [List.mem_cons, not_or] at h
    rw [List.cons_append, restoreBytes_cons (Ne.symm h.1), ih h.2, List.cons_append]

/-- The bytes behind the tag of a staged line, without the terminator. -/
def untagged (crc : Bytes → UInt32) (e : TimelineEvent) : Bytes :=
  decimal e.body.length ++ tab :: (hexChecksum (crc e.body) ++ tab :: e.body)

theorem isUtf8_untagged (crc : Bytes → UInt32) (e : TimelineEvent) : IsUtf8 (untagged crc e) :=
  (isUtf8_decimal _).join (by decide) ((isUtf8_hexChecksum _).join (by decide) e.isUtf8_body)

/-- A damaged first byte is detected unless it can start a number. -/
theorem detected_tag_zero {e : TimelineEvent} {b : UInt8} (hb : b ≠ 0x56) (hs : ¬ StartsNumber b)
    (offset : Nat) :
    Detected e offset (decodeRecord crc (b :: 0x32 :: tab :: untagged crc e) offset) := by
  apply detected_untagged
  · intro h
    exact hb (List.cons_prefix_cons.mp h).1.symm
  · by_cases ht : b = tab
    · subst ht
      rfl
    · have hfree : tab ∉ [b, 0x32] := List.not_mem_cons_of_ne_of_not_mem (Ne.symm ht) (by decide)
      have hcut : cut tab (b :: 0x32 :: tab :: untagged crc e) = ([b, 0x32], some _) :=
        cut_append hfree
      rw [hcut, ← Option.not_isSome_iff_eq_none, parseUnsigned_tag]
      exact hs

/-- A line that keeps its first byte but not its tag is detected. -/
theorem detected_tag_rest {e : TimelineEvent} {bytes : Bytes} (h : ¬ v2Tag <+: 0x56 :: bytes)
    (offset : Nat) : Detected e offset (decodeRecord crc (0x56 :: bytes) offset) := by
  apply detected_untagged h
  have hcut : (cut tab (0x56 :: bytes)).1 = 0x56 :: (cut tab bytes).1 := by
    rw [cut, if_neg (by decide)]
  rw [hcut]
  exact parseUnsigned_cons_none (by decide) (by decide)

/-- Un-escaping the last three fields and the separators between them. -/
theorem restoreBytes_fields (e : TimelineEvent) :
    restoreBytes ((utf8 e.streamId).flatMap escape ++ tab :: (decimal e.ptsMs.toNat ++
      tab :: ((utf8 e.kind).flatMap escape ++ tab :: (utf8 e.payload).flatMap escape))) =
      utf8 e.streamId ++ tab :: (decimal e.ptsMs.toNat ++
        tab :: (utf8 e.kind ++ tab :: utf8 e.payload)) := by
  have ht : tab ≠ backslash := by decide
  have hd : backslash ∉ decimal e.ptsMs.toNat := by
    intro h
    exact absurd (decimal_range h).2 (by decide)
  rw [restoreBytes_flatMap_escape_append, restoreBytes_cons ht, restoreBytes_append hd,
    restoreBytes_cons ht, restoreBytes_flatMap_escape_append, restoreBytes_cons ht,
    restoreBytes_flatMap_escape]

/-- A first byte that can start a number turns the line into a record of the old format
with another payload. -/
theorem decodeRecord_renumbered (crc : Bytes → UInt32) (e : TimelineEvent) {b : UInt8} (hs : StartsNumber b)
    (offset : Nat) :
    ∃ e', decodeRecord crc (b :: 0x32 :: tab :: untagged crc e) offset = .ok e' ∧
      e'.payload ≠ e.payload := by
  have hascii : b < 0x80 := by
    rw [UInt8.lt_iff_toNat_lt]
    rcases hs with rfl | ⟨-, hle⟩
    · decide
    · exact Nat.lt_of_le_of_lt hle (by decide)
  have hv : b ≠ 0x56 := by
    rintro rfl
    exact absurd hs (by decide)
  have ht : b ≠ tab := by
    rintro rfl
    exact absurd hs (by decide)
  have hu : IsUtf8 (b :: 0x32 :: tab :: untagged crc e) :=
    IsUtf8.cons hascii (IsUtf8.cons (by decide) (IsUtf8.cons (by decide) (isUtf8_untagged crc e)))
  obtain ⟨text, htext⟩ : ∃ text, utf8 text = b :: 0x32 :: tab :: untagged crc e :=
    ⟨_, utf8_ofUtf8 _ hu⟩
  have hn : ¬ v2Tag <+: utf8 text := by
    rw [htext]
    intro h
    exact hv (List.cons_prefix_cons.mp h).1.symm
  -- the six fields are the number, the length, the checksum and the first fields of the body
  have hf (s : String) : tab ∉ (utf8 s).flatMap escape := fun h ↦ (mem_flatMap_escape h).1 rfl
  have hfree : tab ∉ [b, 0x32] := List.not_mem_cons_of_ne_of_not_mem (Ne.symm ht) (by decide)
  have hcut : cutN tab 6 (utf8 text) = [[b, 0x32], decimal e.body.length,
      hexChecksum (crc e.body), decimal e.seq.toNat, (utf8 e.runId).flatMap escape,
      (utf8 e.streamId).flatMap escape ++ tab :: (decimal e.ptsMs.toNat ++
        tab :: ((utf8 e.kind).flatMap escape ++ tab :: (utf8 e.payload).flatMap escape))] := by
    have hline : utf8 text = [b, 0x32] ++ tab :: untagged crc e := htext
    rw [hline, untagged, e.body_eq, ← e.body_eq, cutN_append 4 hfree,
      cutN_append 3 (tab_not_mem_decimal _), cutN_append 2 (tab_not_mem_hexChecksum _), e.body_eq,
      cutN_append 1 (tab_not_mem_decimal _), cutN_append 0 (hf _)]
    rfl
  obtain ⟨u, v, w, x, y, z, hsplit, hu, -, -, hx, -, hz⟩ := splitn_six_of_cutN hcut
  obtain ⟨seq, hseq⟩ := Option.isSome_iff_exists.mp ((parseUnsigned_tag b).mpr hs)
  have hnumber : parseU64 u = some (UInt64.ofNat seq) := by
    rw [parseU64, hu, hseq]
    rfl
  have hdecode := TimelineEvent.decodeLine_of_parts hsplit hnumber (parseU64_of_utf8 hx)
  refine ⟨_, by rw [← htext, decodeRecord_untagged hn, hdecode]; rfl, fun heq ↦ ?_⟩
  -- the last field swallows the stream, the time and the kind
  have hlen := congrArg (fun s ↦ (utf8 s).length) heq
  simp only [restore, utf8_ofUtf8, hz, restoreBytes_fields, List.length_append,
    List.length_cons] at hlen
  omega

/-! ### Every replacement -/

private theorem v2Tag_append (xs : Bytes) : v2Tag ++ xs = 0x56 :: 0x32 :: tab :: xs := rfl

/-- The damaged line without its terminator. -/
def damaged (crc : Bytes → UInt32) (e : TimelineEvent) (position : Nat) (b : UInt8) : Bytes :=
  ((stagedLine crc e).set position b).dropLast

private theorem damaged_eq {e : TimelineEvent} {position : Nat}
    (h : position + 1 < (stagedLine crc e).length) (b : UInt8) :
    damaged crc e position b = (v2Tag ++ untagged crc e).set position b ∧
      (stagedLine crc e)[position]? = (v2Tag ++ untagged crc e)[position]? ∧
      position < (v2Tag ++ untagged crc e).length := by
  have hline : stagedLine crc e = (v2Tag ++ untagged crc e) ++ [newline] := by
    rw [stagedLine, recordLine_eq, untagged]
    simp
  have hpos : position < (v2Tag ++ untagged crc e).length := by
    rw [hline, List.length_append, List.length_singleton] at h
    omega
  refine ⟨?_, ?_, hpos⟩
  · rw [damaged, hline, List.set_append_left _ _ hpos, List.dropLast_concat]
  · rw [hline, List.getElem?_append_left hpos]

/-- Damage behind the tag is detected. -/
theorem detected_untagged_set (hcrc : DetectsReplacement crc) {e : TimelineEvent}
    (hsize : e.body.length ≤ u64Max) {i : Nat} (hi : i < (untagged crc e).length) {b : UInt8}
    (hne : (untagged crc e)[i]? ≠ some b) (offset : Nat) :
    Detected e offset (decodeRecord crc (v2Tag ++ (untagged crc e).set i b) offset) := by
  unfold untagged at hi hne ⊢
  rcases Nat.lt_or_ge i (decimal e.body.length).length with hlen | hlen
  · obtain ⟨xs, a, ys, hl, hset, -⟩ := set_split _ hlen b
    rw [List.set_append_left _ _ hlen, hset]
    exact detected_length hl offset
  rw [List.set_append_right _ _ hlen]
  rw [List.getElem?_append_right hlen] at hne
  rw [List.length_append, List.length_cons, List.length_append, List.length_cons] at hi
  obtain ⟨i, rfl⟩ := Nat.exists_eq_add_of_le hlen
  rw [Nat.add_sub_cancel_left] at hne ⊢
  cases i with
  | zero => exact detected_first_tab (fun hb ↦ hne (by rw [hb]; rfl)) offset
  | succ i =>
    rw [List.set_cons_succ]
    rw [List.getElem?_cons_succ] at hne
    rcases Nat.lt_or_ge i (hexChecksum (crc e.body)).length with hsum | hsum
    · obtain ⟨xs, a, ys, hc, hset, -⟩ := set_split _ hsum b
      rw [List.set_append_left _ _ hsum, hset]
      exact detected_checksum hc offset hsize
    rw [List.set_append_right _ _ hsum]
    rw [List.getElem?_append_right hsum] at hne
    obtain ⟨i, rfl⟩ := Nat.exists_eq_add_of_le hsum
    rw [Nat.add_sub_cancel_left] at hne ⊢
    cases i with
    | zero => exact detected_second_tab (fun hb ↦ hne (by rw [hb]; rfl)) offset hsize
    | succ i =>
      rw [List.set_cons_succ]
      rw [List.getElem?_cons_succ] at hne
      obtain ⟨xs, a, ys, hbody, hset, ha⟩ := set_split e.body (show i < e.body.length by omega) b
      rw [hset]
      exact detected_body hcrc hbody (fun hab ↦ hne (ha.trans (congrArg some hab))) offset

/-- A staged line with one byte before its terminator replaced is reported as corrupt or
read as the original event exactly when the damage does not turn the first byte into one
that can start a number. -/
theorem damaged_detected_iff (crc : Bytes → UInt32) (hcrc : DetectsReplacement crc)
    (e : TimelineEvent) (hsize : e.body.length ≤ MAX_RECORD_BYTES) (position : Nat)
    (hpos : position + 1 < (stagedLine crc e).length) (b : UInt8)
    (hne : (stagedLine crc e)[position]? ≠ some b) (offset : Nat) :
    ((∃ reason, decodeRecord crc ((stagedLine crc e).set position b).dropLast offset =
        .error (.corrupt offset reason)) ∨
      decodeRecord crc ((stagedLine crc e).set position b).dropLast offset = .ok e) ↔
      ¬ (position = 0 ∧ (b = 0x2B ∨ (0x30 ≤ b.toNat ∧ b.toNat ≤ 0x39))) := by
  obtain ⟨hset, hget, hlt⟩ := damaged_eq hpos b
  rw [hget] at hne
  show Detected e offset (decodeRecord crc (damaged crc e position b) offset) ↔
    ¬ (position = 0 ∧ StartsNumber b)
  rw [hset]
  rw [v2Tag_append] at hne hlt ⊢
  rcases position with _ | _ | _ | i
  · rw [List.getElem?_cons_zero] at hne
    rw [List.set_cons_zero]
    by_cases hs : StartsNumber b
    · obtain ⟨e', hok, hpayload⟩ := decodeRecord_renumbered crc e hs offset
      refine iff_of_false ?_ (not_not.mpr ⟨rfl, hs⟩)
      rintro (⟨reason, herr⟩ | horig)
      · exact absurd (hok.symm.trans herr) (by simp)
      · exact hpayload (congrArg TimelineEvent.payload (Except.ok.inj (hok.symm.trans horig)))
    · exact iff_of_true (detected_tag_zero (fun hb ↦ hne (congrArg some hb.symm)) hs offset)
        (fun h ↦ hs h.2)
  · refine iff_of_true (detected_tag_rest (fun h ↦ ?_) offset) (by simp)
    exact hne (congrArg some (List.cons_prefix_cons.mp (List.cons_prefix_cons.mp h).2).1)
  · refine iff_of_true (detected_tag_rest (fun h ↦ ?_) offset) (by simp)
    have h := (List.cons_prefix_cons.mp (List.cons_prefix_cons.mp h).2).2
    exact hne (congrArg some (List.cons_prefix_cons.mp h).1)
  · refine iff_of_true ?_ (by simp)
    simp only [List.getElem?_cons_succ] at hne
    have hi : i < (untagged crc e).length := by
      simp only [List.length_cons] at hlt
      omega
    rw [List.set_cons_succ, List.set_cons_succ, List.set_cons_succ, ← v2Tag_append]
    exact detected_untagged_set hcrc (Nat.le_trans hsize (by decide)) hi hne offset

/-- An event with a short record. -/
def shortEvent : TimelineEvent := ⟨7, "run", "cam", 40, "tick", "x"⟩

/-- A replaced byte in the body of a short record, with the checksum in use. -/
theorem damaged_detected_iff_body :
    ((∃ reason, decodeRecord crc32 ((stagedLine crc32 shortEvent).set 33 0x79).dropLast 0 =
        .error (.corrupt 0 reason)) ∨
      decodeRecord crc32 ((stagedLine crc32 shortEvent).set 33 0x79).dropLast 0 =
        .ok shortEvent) ↔
      ¬ (33 = 0 ∧ ((0x79 : UInt8) = 0x2B ∨
        (0x30 ≤ (0x79 : UInt8).toNat ∧ (0x79 : UInt8).toNat ≤ 0x39))) :=
  damaged_detected_iff crc32 (fun xs ys _ _ h ↦ crc32_replace_ne xs ys h) shortEvent
    (by decide +kernel) 33 (by decide +kernel) 0x79 (by decide +kernel) 0

/-- With the first byte of a short record replaced by a digit another event is read. -/
theorem damaged_tag_misread :
    ¬ ∀ (e : TimelineEvent) (position : Nat) (b : UInt8) (offset : Nat),
      e.body.length ≤ MAX_RECORD_BYTES → position + 1 < (stagedLine crc32 e).length →
      b ≠ newline → (stagedLine crc32 e)[position]? ≠ some b →
      (∃ reason, decodeRecord crc32 ((stagedLine crc32 e).set position b).dropLast offset =
        .error (.corrupt offset reason)) ∨
      decodeRecord crc32 ((stagedLine crc32 e).set position b).dropLast offset = .ok e := by
  intro h
  have hread : decodeRecord crc32 ((stagedLine crc32 shortEvent).set 0 0x37).dropLast 0 =
      .ok ⟨72, "19", "abd00048", 7, "run", "cam\t40\ttick\tx"⟩ := by
    decide +kernel
  rcases h shortEvent 0 0x37 0 (by decide +kernel) (by decide +kernel) (by decide)
    (by decide +kernel) with ⟨reason, herr⟩ | horig
  · exact absurd (hread.symm.trans herr) (by simp)
  · exact absurd (hread.symm.trans horig) (by decide +kernel)

end Vidarax.Timeline
