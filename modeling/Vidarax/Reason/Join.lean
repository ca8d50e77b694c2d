import Mathlib.Data.Prod.Lex
import Mathlib.Data.List.Range
import Vidarax.Reason.Dispatch

/-!
# The join of dispatcher and journal

Package `vidarax-api`, `crates/vidarax-api/src/semantic_infer.rs:498–723` and
`crates/vidarax-api/src/handlers.rs:1464–1600,2195–2248`. Every chunk is completed once, and its
events come to the log in the order of completion. A journal that fails leaves the channel open, so
the dispatcher goes on if and only if the channel has room for all that is to come.
-/

namespace Vidarax.Reason

open Vidarax.Base

variable {Moment : Type}

theorem maxInFlight_pos (config : DispatchConfig) : 1 ≤ config.maxInFlight := by
  unfold DispatchConfig.maxInFlight
  split
  · exact Nat.le_refl 1
  · exact Nat.le_max_right _ 1

theorem maxInFlight_le (config : DispatchConfig) : config.maxInFlight ≤ config.vlmConcurrency := by
  unfold DispatchConfig.maxInFlight
  split
  · exact config.one_le
  · exact Nat.max_le.mpr ⟨Nat.le_refl _, config.one_le⟩

namespace Request

variable {config : DispatchConfig} {s s' : Request Moment}

/-- Inferences that the dispatcher has still to start before it waits. -/
def left (s : Request Moment) : Nat :=
  match s.dispatcher with
  | .filling left => left
  | _ => 0

/-- What has been sent. -/
def sent (s : Request Moment) : List (Completion Moment) := s.received ++ s.channel

/-- What holds of the chunks, their results and the journal. -/
structure Inv (config : DispatchConfig) (s : Request Moment) : Prop where
  chunks : (s.completed.map Prod.fst ++ s.tasks.map Prod.fst).Perm (List.range s.next)
  bound : s.next + s.left ≤ config.numChunks
  inFlight : s.tasks.length + s.sending.length + s.left ≤ config.maxInFlight
  ended : s.dispatcher = .done → s.tasks = [] ∧ s.next = config.numChunks
  length : s.semanticResults.length = config.numChunks
  results : ∀ chunk result, s.semanticResults[chunk]? = some (some result) ↔
    (chunk, result) ∈ s.sent
  room : s.channel.length ≤ config.vlmConcurrency
  attempted : ∀ completion ∈ s.completed, completion.2.attempted = true
  inferred : ∀ chunk result, (chunk, some result) ∈ s.tasks → result.attempted = true
  logged : s.journal ≠ .failed → s.log ++ s.todo = s.received.flatMap chunkEvents
  begun : s.log <+: s.received.flatMap chunkEvents
  closed : s.journal = .done → s.channel = [] ∧ s.dispatcher = .done

theorem startNext_cases (config : DispatchConfig) (s : Request Moment) :
    s.next < config.numChunks ∧ startNext config s =
        { s with tasks := s.tasks ++ [(s.next, none)], next := s.next + 1 } ∨
      config.numChunks ≤ s.next ∧ startNext config s = s := by
  unfold startNext
  split
  · next hlt => exact .inl ⟨hlt, rfl⟩
  · next hge => exact .inr ⟨Nat.not_lt.mp hge, rfl⟩

theorem inv_initial (config : DispatchConfig) : Inv config (initial config : Request Moment) where
  chunks := List.Perm.refl _
  bound := by
    show 0 + min _ _ ≤ _
    omega
  inFlight := by
    show 0 + 0 + min _ _ ≤ _
    omega
  ended := nofun
  length := List.length_replicate
  results chunk result := by
    constructor
    · intro h
      have := List.mem_of_getElem? h
      rw [initial, List.mem_replicate] at this
      cases this.2
    · exact nofun
  room := Nat.zero_le _
  attempted := nofun
  inferred := nofun
  logged _ := rfl
  begun := List.nil_prefix
  closed := nofun

theorem Inv.nodup (h : Inv config s) : (s.completed.map Prod.fst).Nodup :=
  (List.nodup_append.mp (h.chunks.nodup_iff.mpr List.nodup_range)).1

/-- Chunks that are completed or being inferred. -/
theorem Inv.lt_next (h : Inv config s) {chunk : Nat}
    (hchunk : chunk ∈ s.completed.map Prod.fst ∨ chunk ∈ s.tasks.map Prod.fst) :
    chunk < s.next :=
  List.mem_range.mp (h.chunks.mem_iff.mp (List.mem_append.mpr hchunk))

/-- The next inference starts. -/
theorem Inv.startNext (h : Inv config s) (hgoing : s.dispatcher ≠ .done)
    (hroom : s.tasks.length + s.sending.length + s.left < config.maxInFlight)
    (hleft : s.next < config.numChunks → s.next + s.left < config.numChunks) :
    Inv config (startNext config s) := by
  rcases startNext_cases config s with ⟨hlt, heq⟩ | ⟨-, heq⟩
  · rw [heq]
    refine ⟨?_, ?_, ?_, fun hdone ↦ absurd hdone hgoing, h.length, h.results, h.room, h.attempted,
      fun chunk result hmem ↦ ?_, h.logged, h.begun, h.closed⟩
    · show (s.completed.map Prod.fst ++ (s.tasks ++ [(s.next, none)]).map Prod.fst).Perm _
      rw [List.map_append, ← List.append_assoc, List.range_succ]
      exact h.chunks.append_right _
    · have := hleft hlt
      show s.next + 1 + s.left ≤ _
      omega
    · show (s.tasks ++ [(s.next, none)]).length + s.sending.length + s.left ≤ _
      rw [List.length_append, List.length_singleton]
      omega
    · rcases List.mem_append.mp hmem with hold | hnew
      · exact h.inferred chunk result hold
      · cases List.mem_singleton.mp hnew
  · rw [heq]
    exact h

/-- The dispatcher goes on with the same chunks. -/
theorem Inv.redispatch (h : Inv config s) {dispatcher : Dispatcher Moment}
    (hsending : sending { s with dispatcher := dispatcher } = s.sending)
    (hleft : left { s with dispatcher := dispatcher } ≤ s.left)
    (hended : dispatcher = .done → s.tasks = [] ∧ s.next = config.numChunks)
    (hopen : s.dispatcher ≠ .done) : Inv config { s with dispatcher := dispatcher } := by
  have hbound := h.bound
  have hinFlight := h.inFlight
  have hcompleted : completed { s with dispatcher := dispatcher } = s.completed := by
    rw [completed, completed, hsending]
  refine ⟨?_, ?_, ?_, hended, h.length, h.results, h.room, ?_, h.inferred, h.logged, h.begun,
    fun hdone ↦ absurd (h.closed hdone).2 hopen⟩
  · rw [hcompleted]
    exact h.chunks
  · dsimp only
    omega
  · rw [hsending]
    dsimp only
    omega
  · rw [hcompleted]
    exact h.attempted

/-- An inference is done. -/
theorem Inv.finish (h : Inv config s) {l r : List (Nat × Option (ChunkSemanticResult Moment))}
    {chunk : Nat} (hat : s.tasks = l ++ (chunk, none) :: r)
    {result : ChunkSemanticResult Moment} (hattempted : result.attempted = true) :
    Inv config { s with tasks := l ++ (chunk, some result) :: r } := by
  have hchunks := h.chunks
  have hinFlight := h.inFlight
  rw [hat] at hchunks hinFlight
  refine ⟨?_, h.bound, ?_, fun hdone ↦ ?_, h.length, h.results, h.room, h.attempted,
    fun other result' hmem ↦ ?_, h.logged, h.begun, h.closed⟩
  · show (s.completed.map Prod.fst ++ (l ++ (chunk, some result) :: r).map Prod.fst).Perm _
    simpa only [List.map_append, List.map_cons] using hchunks
  · show (l ++ (chunk, some result) :: r).length + s.sending.length + s.left ≤ _
    simpa only [List.length_append, List.length_cons] using hinFlight
  · rw [(h.ended hdone).1] at hat
    simp at hat
  · rcases mem_replace hat hmem with heq | hold
    · cases heq
      exact hattempted
    · exact h.inferred other result' hold

/-- A task that is done is joined. -/
theorem Inv.join (h : Inv config s) {l r : List (Nat × Option (ChunkSemanticResult Moment))}
    {chunk : Nat} {result : ChunkSemanticResult Moment} (hjoining : s.dispatcher = .joining)
    (hat : s.tasks = l ++ (chunk, some result) :: r) :
    Inv config { s with dispatcher := .sending (chunk, result), tasks := l ++ r } := by
  have hsending : s.sending = [] := by rw [sending, hjoining]
  have hleft : s.left = 0 := by rw [left, hjoining]
  have hchunks := h.chunks
  have hbound := h.bound
  have hinFlight := h.inFlight
  rw [completed, hsending, hat] at hchunks
  rw [hat, hsending, hleft] at hinFlight
  refine ⟨?_, ?_, ?_, nofun, h.length, h.results, h.room, fun completion hmem ↦ ?_,
    fun other result' hmem ↦ h.inferred other result' (mem_remove hat hmem), h.logged, h.begun,
    fun hdone ↦ ?_⟩
  · show ((s.received ++ s.channel ++ [(chunk, result)]).map Prod.fst ++
      (l ++ r).map Prod.fst).Perm _
    refine List.Perm.trans ?_ hchunks
    simp only [List.append_nil, List.map_append, List.map_cons, List.map_nil, List.append_assoc,
      List.singleton_append]
    exact (List.Perm.append_left _ (List.Perm.append_left _ List.perm_middle.symm))
  · show s.next + 0 ≤ _
    omega
  · show (l ++ r).length + 1 + 0 ≤ _
    simp only [List.length_append, List.length_cons, List.length_nil] at hinFlight ⊢
    omega
  · rcases List.mem_append.mp hmem with hold | hnew
    · apply h.attempted
      rw [completed]
      exact List.mem_append_left _ hold
    · rw [List.mem_singleton.mp hnew]
      exact h.inferred chunk result (mem_focus hat)
  · have := (h.closed hdone).2
    rw [hjoining] at this
    cases this

/-- A completion is sent and its result stored. -/
theorem Inv.send (h : Inv config s) {completion : Completion Moment}
    (hsending : s.dispatcher = .sending completion)
    (hroom : s.channel.length < config.vlmConcurrency) :
    Inv config { s with
      dispatcher := .joining
      channel := s.channel ++ [completion]
      semanticResults := s.semanticResults.set completion.1 (some completion.2) } := by
  have hone : s.sending = [completion] := by rw [sending, hsending]
  have hleft : s.left = 0 := by rw [left, hsending]
  have hbound := h.bound
  have hinFlight := h.inFlight
  rw [hone, hleft] at hinFlight
  have hcompleted : completed { s with
      dispatcher := .joining
      channel := s.channel ++ [completion]
      semanticResults := s.semanticResults.set completion.1 (some completion.2) } = s.completed := by
    rw [completed, completed, hone]
    show s.received ++ (s.channel ++ [completion]) ++ [] = _
    simp only [List.append_nil, List.append_assoc]
  have hnodup := h.nodup
  rw [completed, hone, List.map_append] at hnodup
  have hfresh : completion.1 ∉ s.sent.map Prod.fst := by
    intro hmem
    exact (List.nodup_append.mp hnodup).2.2 _ hmem _ (List.mem_singleton_self _) rfl
  have hlt : completion.1 < s.semanticResults.length := by
    rw [h.length]
    have hmem : completion ∈ s.completed := by
      rw [completed, hone]
      exact List.mem_append_right _ (List.mem_singleton_self _)
    have := h.lt_next (.inl (List.mem_map_of_mem hmem))
    omega
  refine ⟨?_, ?_, ?_, nofun, ?_, fun chunk result ↦ ?_, ?_, ?_, h.inferred, h.logged, h.begun,
    fun hdone ↦ ?_⟩
  · rw [hcompleted]
    exact h.chunks
  · show s.next + 0 ≤ _
    omega
  · show s.tasks.length + 0 + 0 ≤ _
    simp only [List.length_cons, List.length_nil] at hinFlight
    omega
  · rw [List.length_set]
    exact h.length
  · show (s.semanticResults.set completion.1 (some completion.2))[chunk]? = _ ↔
      _ ∈ s.received ++ (s.channel ++ [completion])
    rw [← List.append_assoc, List.mem_append, List.mem_singleton, ← sent, ← h.results,
      List.getElem?_set]
    by_cases hsame : completion.1 = chunk
    · subst hsame
      rw [if_pos rfl, if_pos hlt, h.results]
      have hnot (result' : ChunkSemanticResult Moment) : (completion.1, result') ∉ s.sent :=
        fun hmem ↦ hfresh (List.mem_map.mpr ⟨_, hmem, rfl⟩)
      simp only [hnot, false_or, Option.some.injEq]
      constructor
      · rintro rfl
        rfl
      · intro heq
        rw [← heq]
    · rw [if_neg hsame]
      have hne : (chunk, result) ≠ completion := fun heq ↦ hsame (by rw [← heq])
      simp only [hne, or_false]
  · show (s.channel ++ [completion]).length ≤ _
    rw [List.length_append]
    exact hroom
  · rw [hcompleted]
    exact h.attempted
  · have := (h.closed hdone).2
    rw [hsending] at this
    cases this

/-- The journal receives a completion. -/
theorem Inv.receive (h : Inv config s) {completion : Completion Moment}
    {rest : List (Completion Moment)} (hreceiving : s.journal = .receiving)
    (hchannel : s.channel = completion :: rest) :
    Inv config { s with
      journal := .appending (chunkEvents completion)
      channel := rest
      received := s.received ++ [completion] } := by
  have hsent : sent { s with
      journal := .appending (chunkEvents completion)
      channel := rest
      received := s.received ++ [completion] } = s.sent := by
    rw [sent, sent, hchannel, List.append_assoc]
    rfl
  have hcompleted : completed { s with
      journal := .appending (chunkEvents completion)
      channel := rest
      received := s.received ++ [completion] } = s.completed := by
    rw [completed, completed, ← sent, ← sent, hsent]
    rfl
  have hlogged := h.logged (by rw [hreceiving]; exact nofun)
  rw [todo, hreceiving, List.append_nil] at hlogged
  have hroom := h.room
  rw [hchannel, List.length_cons] at hroom
  refine ⟨?_, h.bound, h.inFlight, h.ended, h.length, fun chunk result ↦ ?_,
    Nat.le_of_succ_le hroom, ?_, h.inferred, fun _ ↦ ?_, ?_, nofun⟩
  · rw [hcompleted]
    exact h.chunks
  · rw [hsent]
    exact h.results chunk result
  · rw [hcompleted]
    exact h.attempted
  · show s.log ++ chunkEvents completion = _
    rw [List.flatMap_append, ← hlogged, List.flatMap_singleton]
  · rw [List.flatMap_append, hlogged]
    exact List.prefix_append _ _

/-- The journal goes on with what it has received. -/
theorem Inv.rejournal (h : Inv config s) {journal : Journal Moment}
    {log : List (JournalEvent Moment)} (hclosed : journal = .done → s.channel = [] ∧ s.dispatcher = .done)
    (hlogged : journal ≠ .failed →
      log ++ todo { s with journal := journal } = s.received.flatMap chunkEvents)
    (hbegun : log <+: s.received.flatMap chunkEvents) :
    Inv config { s with journal := journal, log := log } :=
  ⟨h.chunks, h.bound, h.inFlight, h.ended, h.length, h.results, h.room, h.attempted, h.inferred,
    hlogged, hbegun, hclosed⟩

/-- While a chunk is left, an inference is going on or is to be started. -/
def Busy (config : DispatchConfig) (s : Request Moment) : Prop :=
  s.next < config.numChunks → 0 < s.tasks.length + s.sending.length + s.left

theorem busy_initial (config : DispatchConfig) : Busy config (initial config : Request Moment) := by
  intro hlt
  have := maxInFlight_pos config
  show 0 < 0 + 0 + min _ _
  change 0 < config.numChunks at hlt
  omega

theorem busy_startNext (config : DispatchConfig) (s : Request Moment) :
    Busy config (startNext config s) := by
  intro hlt
  rcases startNext_cases config s with ⟨-, heq⟩ | ⟨hge, heq⟩
  · rw [heq]
    show 0 < (s.tasks ++ [(s.next, none)]).length + _ + _
    rw [List.length_append, List.length_singleton]
    omega
  · rw [heq] at hlt
    omega

theorem Busy.finish (h : Busy config s) {l r : List (Nat × Option (ChunkSemanticResult Moment))}
    {task task' : Nat × Option (ChunkSemanticResult Moment)} (hat : s.tasks = l ++ task :: r) :
    Busy config { s with tasks := l ++ task' :: r } := by
  intro hlt
  have := h hlt
  rw [hat] at this
  show 0 < (l ++ task' :: r).length + s.sending.length + s.left
  simpa only [List.length_append, List.length_cons] using this

theorem Busy.step (h : Busy config s) (hstep : Step config s s') : Busy config s' := by
  cases hstep with
  | start _ => exact busy_startNext config _
  | send _ _ => exact busy_startNext config _
  | filled hfilling =>
    intro hlt
    have := h hlt
    rw [sending, left, hfilling] at this
    exact this
  | infer hat _ _ => exact h.finish hat
  | panic hat _ _ => exact h.finish hat
  | join hjoining hat =>
    intro _
    exact Nat.add_pos_left (Nat.add_pos_right _ Nat.one_pos) _
  | exhausted hjoining hnone =>
    intro hlt
    have := h hlt
    rw [sending, left, hjoining, hnone] at this
    exact absurd this (Nat.lt_irrefl 0)
  | receive _ _ => exact h
  | append _ => exact h
  | fail _ => exact h
  | appended _ => exact h
  | close _ _ _ => exact h

/-- Every operation keeps the invariant. -/
theorem Inv.step (h : Inv config s) (hbusy : Busy config s) (hstep : Step config s s') :
    Inv config s' := by
  cases hstep with
  | @start left hfilling =>
    have hleft : s.left = left + 1 := by rw [Request.left, hfilling]
    have hsending : s.sending = [] := by rw [sending, hfilling]
    have hbound := h.bound
    have hinFlight := h.inFlight
    rw [hleft] at hbound hinFlight
    rw [hsending] at hinFlight
    refine Inv.startNext (h.redispatch ?_ ?_ nofun (by rw [hfilling]; exact nofun)) nofun ?_
      fun _ ↦ ?_
    · rw [hsending]
      rfl
    · rw [hleft]
      exact Nat.le_succ left
    · show s.tasks.length + 0 + left < _
      simp only [List.length_nil] at hinFlight
      omega
    · show s.next + left < _
      omega
  | filled hfilling =>
    refine h.redispatch ?_ (Nat.zero_le _) nofun (by rw [hfilling]; exact nofun)
    rw [sending, sending, hfilling]
  | infer hat result hattempted => exact h.finish hat hattempted
  | panic hat _ err => exact h.finish hat rfl
  | join hjoining hat => exact h.join hjoining hat
  | exhausted hjoining hnone =>
    have hsending : s.sending = [] := by rw [sending, hjoining]
    have hleft : s.left = 0 := by rw [left, hjoining]
    refine h.redispatch (by rw [hsending]; rfl) (Nat.zero_le _) (fun _ ↦ ⟨hnone, ?_⟩)
      (by rw [hjoining]; exact nofun)
    apply Nat.le_antisymm (Nat.le_of_add_right_le h.bound)
    apply Nat.le_of_not_lt
    intro hlt
    have := hbusy hlt
    rw [hsending, hleft, hnone] at this
    exact Nat.lt_irrefl 0 this
  | @send completion hsending hroom =>
    have hone : s.sending = [completion] := by rw [sending, hsending]
    have hinFlight := h.inFlight
    rw [hone, List.length_singleton] at hinFlight
    refine (h.send hsending hroom).startNext nofun ?_ id
    show s.tasks.length + 0 + 0 < _
    omega
  | receive hreceiving hchannel => exact h.receive hreceiving hchannel
  | append happending =>
    have hlogged := h.logged (by rw [happending]; exact nofun)
    rw [todo, happending] at hlogged
    refine h.rejournal nofun (fun _ ↦ ?_) ?_
    · rw [List.append_assoc]
      exact hlogged
    · rw [← hlogged]
      exact List.prefix_append_right_inj s.log |>.mpr (List.prefix_append [_] _)
  | fail happending => exact h.rejournal nofun (fun hgoing ↦ absurd rfl hgoing) h.begun
  | appended happending =>
    have hlogged := h.logged (by rw [happending]; exact nofun)
    rw [todo, happending] at hlogged
    exact h.rejournal nofun (fun _ ↦ hlogged) h.begun
  | close hreceiving hchannel hdone =>
    have hlogged := h.logged (by rw [hreceiving]; exact nofun)
    rw [todo, hreceiving] at hlogged
    exact h.rejournal (fun _ ↦ ⟨hchannel, hdone⟩) (fun _ ↦ hlogged) h.begun

end Request

end Vidarax.Reason
