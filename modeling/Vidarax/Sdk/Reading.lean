import Vidarax.Sdk.Wire

/-!
# Reading a stream

Package `vidarax-sdk`, `packages/vidarax-sdk/src/client.ts:107–142,838`. Wherever the bytes of a
stream are cut into values, a generator receives the messages that are in them, one after another,
until it ends or until the buffer is too long after a read.
-/

namespace Vidarax.Sdk

open Vidarax.Base

/-- Nothing is replaced in a text without carriage returns. -/
theorem replaceCrlf_of_not_mem {us : Utf16} (h : carriageReturn ∉ us) : replaceCrlf us = us := by
  fun_induction replaceCrlf us with
  | case1 => rfl
  | case2 u => rfl
  | case3 u v rest hsep ih => exact absurd (hsep.1 ▸ List.mem_cons_self) h
  | case4 u v rest hsep ih => rw [ih fun hmem ↦ h (List.mem_cons_of_mem _ hmem)]

/-- The reader after some values. -/
def readerAt (values : List Bytes) : SseReader :=
  ⟨(TextDecoder.new.decode values.flatten).1, unfinished values⟩

/-- The buffer when one more value has been read. -/
def bufferAt (values : List Bytes) (value : Bytes) : Utf16 :=
  unfinished values ++ ((readerAt values).decoder.decode value).2

theorem received_concat (values : List Bytes) (value : Bytes) :
    received (values ++ [value]) =
      received values ++ ((readerAt values).decoder.decode value).2 := by
  rw [received, List.flatten_concat, TextDecoder.decode_append]
  rfl

/-- The messages of one more value are found in the buffer. -/
theorem found_concat (values : List Bytes) (value : Bytes) :
    found (values ++ [value]) =
      found values ++ (blocks lineFeed (bufferAt values value)).1.filterMap parseBlock := by
  rw [found, received_concat, blocks_append, List.filterMap_append]
  rfl

theorem unfinished_concat (values : List Bytes) (value : Bytes) :
    unfinished (values ++ [value]) = (blocks lineFeed (bufferAt values value)).2 := by
  rw [unfinished, received_concat, blocks_append]
  rfl

/-- A read finds the next messages, unless the buffer is too long then. -/
theorem read_readerAt {values : List Bytes} {value : Bytes}
    (h : carriageReturn ∉ received (values ++ [value])) :
    (readerAt values).read value =
      if MAX_SSE_EVENT_BYTES < (bufferAt values value).length then
        .error (SseReader.tooLong (bufferAt values value))
      else .ok ((blocks lineFeed (bufferAt values value)).1.filterMap parseBlock,
        readerAt (values ++ [value])) := by
  have hclean : carriageReturn ∉ ((readerAt values).decoder.decode value).2 := by
    rw [received_concat, List.mem_append, not_or] at h
    exact h.2
  have hdecoder : ((readerAt values).decoder.decode value).1 =
      (readerAt (values ++ [value])).decoder := by
    rw [readerAt, readerAt, List.flatten_concat, TextDecoder.decode_append]
  rw [SseReader.read, SseReader.add, replaceCrlf_of_not_mem hclean]
  change (if MAX_SSE_EVENT_BYTES < (bufferAt values value).length then _ else _) = _
  split
  · rfl
  · change Except.ok (_, (⟨_, (blocks lineFeed (bufferAt values value)).2⟩ : SseReader)) = _
    rw [hdecoder, ← unfinished_concat]
    rfl

/-- At the end of a body nothing is found. -/
theorem readEnd_readerAt (values : List Bytes) :
    (∃ raw, MAX_SSE_EVENT_BYTES ≤ (unfinished values).length ∧
        (readerAt values).readEnd = .error (SseReader.tooLong raw)) ∨
      ∃ r, (readerAt values).readEnd = .ok ([], r) := by
  have hfinish : (readerAt values).decoder.finish = [] ∨
      ∃ u, (readerAt values).decoder.finish = [u] ∧ u ≠ carriageReturn ∧ u ≠ lineFeed := by
    rw [TextDecoder.finish]
    split
    · exact .inl rfl
    · exact .inr ⟨_, rfl, by decide, by decide⟩
  have hkept : (blocks lineFeed (unfinished values)).1 = [] := by
    rw [unfinished, blocks_rest]
  rw [SseReader.readEnd, SseReader.add]
  rcases hfinish with hfinish | ⟨u, hfinish, hcr, hlf⟩
  · simp only [hfinish, replaceCrlf, List.append_nil]
    split
    · next hlong => exact .inl ⟨_, Nat.le_of_lt hlong, rfl⟩
    · simp only [readerAt, hkept, List.filterMap_nil]
      exact .inr ⟨_, rfl⟩
  · simp only [hfinish, replaceCrlf]
    split
    · next hlong =>
      rw [List.length_append] at hlong
      exact .inl ⟨_, Nat.le_of_lt_succ hlong, rfl⟩
    · simp only [readerAt, blocks_concat hlf hkept, List.filterMap_nil]
      exact .inr ⟨_, rfl⟩

/-! ### Generators -/

section Generators

variable (parse : Utf16 → Except String JsValue)

/-- Messages are received one after another. -/
def Subscription.receiveAll (s : Subscription) (messages : List ParsedSseEvent) : Subscription :=
  messages.foldl (Subscription.receive parse) s

variable {parse} {s : Subscription}

/-- A generator that has ended receives nothing. -/
theorem Subscription.receiveAll_of_ended (h : s.ended.isSome) (messages : List ParsedSseEvent) :
    s.receiveAll parse messages = s := by
  induction messages with
  | nil => rfl
  | cons message messages ih =>
    rw [receiveAll, List.foldl_cons, receive, if_pos h]
    exact ih

theorem Subscription.receiveAll_append (first last : List ParsedSseEvent) :
    s.receiveAll parse (first ++ last) = (s.receiveAll parse first).receiveAll parse last :=
  List.foldl_append

/-- Values are read to their end, or until the generator has ended, or until a read that leaves too
much in the buffer. -/
theorem readValues_cases {front values : List Bytes}
    (h : carriageReturn ∉ received (front ++ values)) :
    ∃ n,
      (n = values.length ∧ (s.receiveAll parse (found front)).readValues parse (readerAt front) values =
        (s.receiveAll parse (found (front ++ values)), readerAt (front ++ values))) ∨
      ((s.receiveAll parse (found (front ++ values.take n))).ended.isSome ∧
        ((s.receiveAll parse (found front)).readValues parse (readerAt front) values).1 =
          s.receiveAll parse (found (front ++ values.take n))) ∨
      ∃ value, values[n]? = some value ∧
        MAX_SSE_EVENT_BYTES < (bufferAt (front ++ values.take n) value).length ∧
        ((s.receiveAll parse (found front)).readValues parse (readerAt front) values).1 =
          (s.receiveAll parse (found (front ++ values.take n))).finish
            (.threw (SseReader.tooLong (bufferAt (front ++ values.take n) value))) := by
  induction values generalizing front with
  | nil => exact ⟨0, .inl ⟨rfl, by rw [List.append_nil]; rfl⟩⟩
  | cons value values ih =>
    have hfront : front ++ value :: values = front ++ [value] ++ values := by simp
    have hread : carriageReturn ∉ received (front ++ [value]) := by
      intro hu
      rw [hfront, received, List.flatten_append, TextDecoder.decode_append] at h
      exact h (List.mem_append_left _ hu)
    rw [Subscription.readValues]
    split
    · next hended => exact ⟨0, .inr (.inl ⟨by simpa using hended, by simp⟩)⟩
    · rw [read_readerAt hread]
      by_cases hlong : MAX_SSE_EVENT_BYTES < (bufferAt front value).length
      · rw [if_pos hlong]
        exact ⟨0, .inr (.inr ⟨value, rfl, by simpa using hlong, by simp⟩)⟩
      · have hnext : (s.receiveAll parse (found front)).receiveAll parse
            ((blocks lineFeed (bufferAt front value)).1.filterMap parseBlock) =
              s.receiveAll parse (found (front ++ [value])) := by
          rw [found_concat, Subscription.receiveAll_append]
        have htake (n : Nat) : front ++ [value] ++ values.take n =
            front ++ (value :: values).take (n + 1) := by simp
        rw [if_neg hlong]
        simp only
        rw [← Subscription.receiveAll, hnext, hfront]
        obtain ⟨n, ih⟩ := @ih (front ++ [value]) (hfront ▸ h)
        rw [htake] at ih
        exact ⟨n + 1, by simpa using ih⟩

end Generators

end Vidarax.Sdk
