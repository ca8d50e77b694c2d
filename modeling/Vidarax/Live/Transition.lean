import Vidarax.Live.Words

/-!
# State transitions between descriptions

Package `vidarax-core`, `webrtc/workers.rs` 2276–2346 and 2383–2403: a worker compares each
description with what it carries of the previous one, which is its first 200 bytes, and emits a
transition when they differ.
-/

namespace Vidarax.Live

open Base

/-! ### The worker -/

/-- `str::len` of a text. -/
def byteLength (text : List Char) : Nat := (text.map Char.utf8Size).sum

/-- The characters that end within a number of bytes. -/
def takeBytes (max_bytes : Nat) : List Char → List Char
  | [] => []
  | c :: text => if c.utf8Size ≤ max_bytes then c :: takeBytes (max_bytes - c.utf8Size) text else []

/-- `truncate_arc_str`. -/
def truncateArcStr (text : List Char) (max_bytes : Nat) : List Char :=
  if byteLength text ≤ max_bytes then text else takeBytes max_bytes text

/-- What comes of a keyframe: an inference that fails, a probe that only measures, or a
description. -/
inductive Outcome where
  | failed
  | shadow (description : List Char)
  | described (description : List Char)

/-- A `state_transition` event. -/
structure Transition where
  from_state : List Char
  to_state : List Char
  deriving DecidableEq

section Worker

variable {K : Type} [LinearOrder K] (hash : List Char → K)

/-- `state_changed`; `workers.rs:2282`. -/
def stateChanged (last_description description : List Char) : Bool :=
  if last_description = [] then true
  else (jaccardWordOverlap hash last_description description).lt STATE_CHANGE_JACCARD_MAX

/-- The worker handles an outcome: what it carries on, and the transition that it emits;
`workers.rs:2245`. -/
def handle (last_description : List Char) : Outcome → List Char × Option Transition
  | .failed => (last_description, none)
  | .shadow _ => (last_description, none)
  | .described description =>
    let state_changed := stateChanged hash last_description description
    let prev_description := last_description
    let last_description := truncateArcStr description 200
    (last_description,
      if state_changed ∧ prev_description ≠ [] then some ⟨prev_description, description⟩ else none)

/-- What the worker carries after some outcomes. -/
def carried (outcomes : List Outcome) : List Char :=
  outcomes.foldl (fun last outcome ↦ (handle hash last outcome).1) []

/-- The transition emitted for a description after some outcomes. -/
def emitted (outcomes : List Outcome) (description : List Char) : Option Transition :=
  (handle hash (carried hash outcomes) (.described description)).2

end Worker

/-- The previous description, which is empty before the first one. -/
def previous (outcomes : List Outcome) : List Char :=
  outcomes.foldl (fun last outcome ↦ match outcome with
    | .described description => description
    | _ => last) []

/-! ### Cutting texts -/

theorem prefix_takeBytes (n : Nat) (text : List Char) : takeBytes n text <+: text := by
  induction text generalizing n with
  | nil => exact List.prefix_rfl
  | cons c text ih =>
    rw [takeBytes]
    split
    · exact List.cons_prefix_cons.mpr ⟨rfl, ih _⟩
    · exact List.nil_prefix

/-- The carried text is a first part of the description. -/
theorem prefix_truncateArcStr (text : List Char) (n : Nat) : truncateArcStr text n <+: text := by
  unfold truncateArcStr
  split
  · exact List.prefix_rfl
  · exact prefix_takeBytes n text

/-- Nothing is carried only of an empty description. -/
theorem truncateArcStr_eq_nil {text : List Char} {n : Nat} (hn : 4 ≤ n) :
    truncateArcStr text n = [] ↔ text = [] := by
  unfold truncateArcStr
  split
  · exact Iff.rfl
  · cases text with
    | nil => exact iff_of_true rfl rfl
    | cons c text =>
      have hsize : c.utf8Size ≤ n := c.utf8Size_le_four.trans hn
      rw [takeBytes, if_pos hsize]
      exact iff_of_false (List.cons_ne_nil _ _) (List.cons_ne_nil _ _)

private theorem wordsFrom_ne_nil {word : List Char} (h : word ≠ []) (text : List Char) :
    wordsFrom word text ≠ [] := by
  induction text generalizing word with
  | nil =>
    rw [wordsFrom, if_neg h]
    exact List.cons_ne_nil _ _
  | cons c text ih =>
    rw [wordsFrom, if_neg h]
    split
    · exact List.cons_ne_nil _ _
    · exact ih (List.cons_ne_nil _ _)

private theorem length_wordsFrom_le (word text more : List Char) :
    (wordsFrom word text).length ≤ (wordsFrom word (text ++ more)).length := by
  induction text generalizing word with
  | nil =>
    rw [wordsFrom, List.nil_append]
    split
    · exact Nat.zero_le _
    · next h => exact List.length_pos_iff.mpr (wordsFrom_ne_nil h more)
  | cons c text ih =>
    rw [List.cons_append, wordsFrom, wordsFrom]
    split
    · split
      · exact ih []
      · exact Nat.succ_le_succ (ih [])
    · exact ih (c :: word)

/-- A first part of a text has no more words than the text. -/
theorem length_splitWhitespace_le {part text : List Char} (h : part <+: text) :
    (splitWhitespace part).length ≤ (splitWhitespace text).length := by
  obtain ⟨more, rfl⟩ := h
  exact length_wordsFrom_le [] part more

/-! ### Runs -/

section Runs

variable {K : Type} [LinearOrder K] {hash : List Char → K}

/-- The worker carries the first 200 bytes of the previous description. -/
theorem carried_eq (outcomes : List Outcome) :
    carried hash outcomes = truncateArcStr (previous outcomes) 200 := by
  induction outcomes using List.reverseRecOn with
  | nil => rfl
  | append_singleton outcomes outcome ih =>
    rw [carried, previous, List.foldl_append, List.foldl_append, ← carried, ← previous]
    cases outcome with
    | failed => exact ih
    | shadow description => exact ih
    | described description => rfl

/-- Cutting the previous description to what is carried does not move its similarity with a
description across one half. -/
def KeepsSide (prev curr : List Char) : Prop :=
  jaccard (truncateArcStr prev 200) curr < 1 / 2 ↔ jaccard prev curr < 1 / 2

/-- A previous description of at most 200 bytes is carried whole. -/
theorem keepsSide_of_short {prev curr : List Char} (h : byteLength prev ≤ 200) :
    KeepsSide prev curr := by
  rw [KeepsSide, truncateArcStr, if_pos h]

/-- A transition is emitted when the carried text is less than half similar. -/
theorem emitted_isSome (outcomes : List Outcome) {curr : List Char}
    (hprev : (splitWhitespace (previous outcomes)).length ≤ JACCARD_MAX_WORDS)
    (hcurr : (splitWhitespace curr).length ≤ JACCARD_MAX_WORDS)
    (hhash : Set.InjOn hash
      (wordSet (truncateArcStr (previous outcomes) 200) ∪ wordSet curr : Finset (List Char))) :
    (emitted hash outcomes curr).isSome ↔ previous outcomes ≠ [] ∧
      jaccard (truncateArcStr (previous outcomes) 200) curr < 1 / 2 := by
  have hwords := (length_splitWhitespace_le (prefix_truncateArcStr _ 200)).trans hprev
  rw [emitted, carried_eq, handle, stateChanged, jaccardWordOverlap_lt hwords hcurr hhash]
  by_cases hnil : previous outcomes = []
  · have hcut := (truncateArcStr_eq_nil (n := 200) (by decide)).mpr hnil
    rw [hcut]
    exact iff_of_false (by simp) fun h ↦ h.1 hnil
  · have hcut := mt (truncateArcStr_eq_nil (n := 200) (by decide)).mp hnil
    rw [if_neg hcut]
    by_cases hlt : jaccard (truncateArcStr (previous outcomes) 200) curr < 1 / 2
    · rw [if_pos ⟨decide_eq_true hlt, hcut⟩]
      exact iff_of_true rfl ⟨hnil, hlt⟩
    · rw [if_neg fun h ↦ hlt (of_decide_eq_true h.1)]
      exact iff_of_false (fun h ↦ nomatch h) fun h ↦ hlt h.2

/-- A transition is emitted for a description exactly when the previous one is not empty and less
than half similar, if and only if the cut keeps the side of one half. -/
theorem emitted_iff (hash : List Char → K) (outcomes : List Outcome) (curr : List Char)
    (hprev : (splitWhitespace (previous outcomes)).length ≤ JACCARD_MAX_WORDS)
    (hcurr : (splitWhitespace curr).length ≤ JACCARD_MAX_WORDS)
    (hhash : Set.InjOn hash
      (wordSet (truncateArcStr (previous outcomes) 200) ∪ wordSet curr : Finset (List Char))) :
    ((emitted hash outcomes curr).isSome ↔
      previous outcomes ≠ [] ∧ jaccard (previous outcomes) curr < 1 / 2) ↔
        KeepsSide (previous outcomes) curr := by
  rw [emitted_isSome outcomes hprev hcurr hhash, KeepsSide]
  by_cases hnil : previous outcomes = []
  · have hcut := (truncateArcStr_eq_nil (n := 200) (by decide)).mpr hnil
    rw [hcut, hnil]
    simp
  · simp [hnil]

end Runs

/-! ### A long description twice -/

/-- A description of 205 bytes. -/
def longDescription : List Char := List.replicate 197 'a' ++ " b c d e".toList

/-- Two descriptions in a row, the first one short. -/
theorem emitted_iff_short :
    ((emitted hashWord [.described "a b".toList] "a c d".toList).isSome ↔
      previous [.described "a b".toList] ≠ [] ∧
        jaccard (previous [.described "a b".toList]) "a c d".toList < 1 / 2) :=
  (emitted_iff hashWord [.described "a b".toList] "a c d".toList (by decide +kernel)
    (by decide +kernel) (by decide +kernel)).mpr (keepsSide_of_short (by decide +kernel))

/-- The same description again gives a transition. -/
theorem repeated_emits :
    (splitWhitespace longDescription).length ≤ JACCARD_MAX_WORDS ∧
      jaccard longDescription longDescription = 1 ∧
      (emitted hashWord [.described longDescription] longDescription).isSome := by
  have hwords : (splitWhitespace longDescription).length ≤ JACCARD_MAX_WORDS := by decide +kernel
  have hhash : Set.InjOn hashWord (wordSet (truncateArcStr longDescription 200) ∪
      wordSet longDescription : Finset (List Char)) := by decide +kernel
  exact ⟨hwords, by decide +kernel,
    (emitted_isSome [.described longDescription] hwords hwords hhash).mpr
      ⟨by decide, by decide +kernel⟩⟩

end Vidarax.Live
