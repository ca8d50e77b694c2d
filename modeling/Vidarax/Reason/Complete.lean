import Mathlib.Algebra.GroupWithZero.Nat
import Vidarax.Reason.Join

/-!
# Completion of a realtime reason request

Package `vidarax-api`, `crates/vidarax-api/src/semantic_infer.rs:498–723` and
`crates/vidarax-api/src/handlers.rs:1464–1600,2195–2248`. Every run ends. It ends with a complete
join unless the journal has failed while more chunks were to come than the channel has room for;
then it never does.
-/

namespace Vidarax.Reason

variable {Moment : Type}

namespace Request

variable {config : DispatchConfig} {s s' : Request Moment}

/-! ### Every run ends -/

/-- Operations left for a task. -/
def taskWork : Nat × Option (ChunkSemanticResult Moment) → Nat
  | (_, some _) => 5
  | (_, none) => 6

/-- Operations left for what the dispatcher is at. -/
def dispatcherWork : Dispatcher Moment → Nat
  | .filling left => left + 2
  | .joining => 1
  | .sending _ => 5
  | .done => 0

/-- Operations left for what the journal is at, without its appends. -/
def journalWork : Journal Moment → Nat
  | .receiving => 1
  | .appending _ => 3
  | .failed | .done => 0

/-- Operations left, without the appends. -/
def work (config : DispatchConfig) (s : Request Moment) : Nat :=
  7 * (config.numChunks - s.next) + (s.tasks.map taskWork).sum + dispatcherWork s.dispatcher +
    3 * s.channel.length + journalWork s.journal

theorem work_startNext_le (config : DispatchConfig) (s : Request Moment) :
    work config (startNext config s) ≤ work config s := by
  rcases startNext_cases config s with ⟨hlt, heq⟩ | ⟨-, heq⟩
  · rw [heq, work, work, List.map_append, List.sum_append]
    have : (([(s.next, none)] : List (Nat × Option (ChunkSemanticResult Moment))).map
      taskWork).sum = 6 := rfl
    dsimp only
    omega
  · rw [heq]

theorem sum_focus (l r : List (Nat × Option (ChunkSemanticResult Moment)))
    (task : Nat × Option (ChunkSemanticResult Moment)) :
    ((l ++ task :: r).map taskWork).sum = ((l ++ r).map taskWork).sum + taskWork task := by
  simp only [List.map_append, List.map_cons, List.sum_append, List.sum_cons]
  omega

/-- An operation leaves less work, or it is an append. -/
theorem work_step (hstep : Step config s s') :
    work config s' < work config s ∨
      work config s' = work config s ∧ s'.todo.length < s.todo.length := by
  cases hstep with
  | start hfilling =>
    left
    refine Nat.lt_of_le_of_lt (work_startNext_le config _) ?_
    rw [work, work, hfilling]
    dsimp only [dispatcherWork]
    omega
  | filled hfilling =>
    left
    rw [work, work, hfilling]
    dsimp only [dispatcherWork]
    omega
  | infer hat result _ =>
    left
    rw [work, work, hat, sum_focus, sum_focus]
    dsimp only [taskWork]
    omega
  | panic hat _ err =>
    left
    rw [work, work, hat, sum_focus, sum_focus]
    dsimp only [taskWork]
    omega
  | join hjoining hat =>
    left
    rw [work, work, hjoining, hat, sum_focus]
    dsimp only [taskWork, dispatcherWork]
    omega
  | exhausted hjoining _ =>
    left
    rw [work, work, hjoining]
    dsimp only [dispatcherWork]
    omega
  | send hsending _ =>
    left
    refine Nat.lt_of_le_of_lt (work_startNext_le config _) ?_
    rw [work, work, hsending, List.length_append]
    dsimp only [dispatcherWork, List.length_singleton]
    omega
  | receive hreceiving hchannel =>
    left
    rw [work, work, hreceiving, hchannel, List.length_cons]
    dsimp only [journalWork]
    omega
  | append happending =>
    right
    constructor
    · rw [work, work, happending]
      rfl
    · rw [todo, todo, happending]
      exact Nat.lt_succ_self _
  | fail happending =>
    left
    rw [work, work, happending]
    dsimp only [journalWork]
    omega
  | appended happending =>
    left
    rw [work, work, happending]
    dsimp only [journalWork]
    omega
  | close hreceiving _ _ =>
    left
    rw [work, work, hreceiving]
    dsimp only [journalWork]
    omega

theorem wellFounded_step (config : DispatchConfig) :
    WellFounded fun s' s : Request Moment ↦ Step config s s' := by
  apply Subrelation.wf (r := InvImage (Prod.Lex (· < ·) (· < ·))
    fun s : Request Moment ↦ (work config s, s.todo.length))
  · intro s' s hstep
    rcases work_step hstep with hlt | ⟨heq, hlt⟩
    · exact Prod.Lex.left _ _ hlt
    · show Prod.Lex _ _ (work config s', _) (work config s, _)
      rw [heq]
      exact Prod.Lex.right _ hlt
  · exact InvImage.wf _ (WellFounded.prod_lex Nat.lt_wfRel.wf Nat.lt_wfRel.wf)

/-! ### What a failed journal leaves -/

theorem inv_reachable (hreachable : Reachable config s) : Inv config s ∧ Busy config s := by
  induction hreachable with
  | refl => exact ⟨inv_initial config, busy_initial config⟩
  | tail _ hstep ih => exact ⟨ih.1.step ih.2 hstep, ih.2.step hstep⟩

theorem Inv.length_completed (h : Inv config s) : s.completed.length ≤ s.next := by
  have := h.chunks.length_eq
  rw [List.length_append, List.length_map, List.length_range] at this
  omega

/-- Nothing is received after a failure. -/
theorem failed_step (hfailed : s.journal = .failed) (hstep : Step config s s') :
    s'.journal = .failed ∧ s'.received = s.received := by
  have hstarted (t : Request Moment) : (startNext config t).journal = t.journal ∧
      (startNext config t).received = t.received := by
    rcases startNext_cases config t with ⟨-, heq⟩ | ⟨-, heq⟩ <;> rw [heq] <;> exact ⟨rfl, rfl⟩
  cases hstep with
  | start _ => exact ⟨(hstarted _).1.trans hfailed, (hstarted _).2⟩
  | send _ _ => exact ⟨(hstarted _).1.trans hfailed, (hstarted _).2⟩
  | filled _ => exact ⟨hfailed, rfl⟩
  | infer _ _ _ => exact ⟨hfailed, rfl⟩
  | panic _ _ _ => exact ⟨hfailed, rfl⟩
  | join _ _ => exact ⟨hfailed, rfl⟩
  | exhausted _ _ => exact ⟨hfailed, rfl⟩
  | receive hreceiving _ => exact absurd (hfailed.symm.trans hreceiving) nofun
  | append happending => exact absurd (hfailed.symm.trans happending) nofun
  | fail happending => exact absurd (hfailed.symm.trans happending) nofun
  | appended happending => exact absurd (hfailed.symm.trans happending) nofun
  | close hreceiving _ _ => exact absurd (hfailed.symm.trans hreceiving) nofun

/-- A step in which the journal fails receives nothing. -/
theorem received_failing (hstep : Step config s s') (hgoing : s.journal ≠ .failed)
    (hfailed : s'.journal = .failed) : s'.received = s.received := by
  have hstarted (t : Request Moment) : (startNext config t).journal = t.journal := by
    rcases startNext_cases config t with ⟨-, heq⟩ | ⟨-, heq⟩ <;> rw [heq]
  cases hstep with
  | start _ => exact absurd ((hstarted _).symm.trans hfailed) hgoing
  | send _ _ => exact absurd ((hstarted _).symm.trans hfailed) hgoing
  | receive _ _ => cases hfailed
  | _ => rfl

/-- Once the journal has failed, the channel has room for all that is to come. -/
theorem fits_of_timely (h : ReachableTimely config s) (hfailed : s.journal = .failed) :
    config.numChunks ≤ s.received.length + config.vlmConcurrency := by
  induction h with
  | refl => cases hfailed
  | @tail s s' _ hstep ih =>
    by_cases hbefore : s.journal = .failed
    · rw [(failed_step hbefore hstep.1).2]
      exact ih hbefore
    · rw [received_failing hstep.1 hbefore hfailed]
      exact hstep.2 hbefore hfailed

theorem ReachableTimely.reachable (h : ReachableTimely config s) : Reachable config s :=
  Relation.ReflTransGen.mono (fun _ _ (hstep : _ ∧ _) ↦ hstep.1) _ _ h

/-- The journal of a request whose dispatcher waits for room can go on. -/
theorem exists_step_of_sending (h : Inv config s) {completion : Completion Moment}
    (hsending : s.dispatcher = .sending completion)
    (hfits : s.journal = .failed → config.numChunks ≤ s.received.length + config.vlmConcurrency) :
    ∃ s', Step config s s' := by
  by_cases hroom : s.channel.length < config.vlmConcurrency
  · exact ⟨_, .send hsending hroom⟩
  cases hjournal : s.journal with
  | receiving =>
    cases hchannel : s.channel with
    | nil =>
      rw [hchannel] at hroom
      exact absurd config.one_le hroom
    | cons first rest => exact ⟨_, .receive hjournal hchannel⟩
  | appending todo =>
    cases todo with
    | nil => exact ⟨_, .appended hjournal⟩
    | cons event todo => exact ⟨_, .append hjournal⟩
  | failed =>
    have hfits := hfits hjournal
    have hlength := h.length_completed
    have hbound := h.bound
    rw [completed, List.length_append, List.length_append, sending, hsending,
      List.length_singleton] at hlength
    omega
  | done =>
    have := (h.closed hjournal).2
    rw [hsending] at this
    cases this

/-- A request that does not rest has joined. -/
theorem joined_or_exists_step (h : Inv config s)
    (hfits : s.journal = .failed → config.numChunks ≤ s.received.length + config.vlmConcurrency) :
    Joined s ∨ ∃ s', Step config s s' := by
  cases hdispatcher : s.dispatcher with
  | filling left =>
    right
    cases left with
    | zero => exact ⟨_, .filled hdispatcher⟩
    | succ left => exact ⟨_, .start hdispatcher⟩
  | joining =>
    right
    cases htasks : s.tasks with
    | nil => exact ⟨_, .exhausted hdispatcher htasks⟩
    | cons task rest =>
      obtain ⟨chunk, result⟩ := task
      cases result with
      | none => exact ⟨_, .infer (l := []) htasks ⟨true, false, none, []⟩ rfl⟩
      | some result => exact ⟨_, .join (l := []) hdispatcher htasks⟩
  | sending completion => exact .inr (exists_step_of_sending h hdispatcher hfits)
  | done =>
    cases hjournal : s.journal with
    | receiving =>
      right
      cases hchannel : s.channel with
      | nil => exact ⟨_, .close hjournal hchannel hdispatcher⟩
      | cons first rest => exact ⟨_, .receive hjournal hchannel⟩
    | appending todo =>
      right
      cases todo with
      | nil => exact ⟨_, .appended hjournal⟩
      | cons event todo => exact ⟨_, .append hjournal⟩
    | failed => exact .inl ⟨hdispatcher, .inr hjournal⟩
    | done => exact .inl ⟨hdispatcher, .inl hjournal⟩

/-- A dispatcher that has ended has sent every chunk. -/
theorem Inv.sent_of_done (h : Inv config s) (hdone : s.dispatcher = .done) :
    ((s.received ++ s.channel).map Prod.fst).Perm (List.range config.numChunks) := by
  have hchunks := h.chunks
  rw [completed, sending, hdone, (h.ended hdone).1, (h.ended hdone).2, List.append_nil,
    List.map_nil, List.append_nil] at hchunks
  exact hchunks

/-- A journal that fails too early keeps the dispatcher from its end. -/
theorem not_joined_of_failed {t : Request Moment} (hreachable : Reachable config s)
    (hfailed : s.journal = .failed)
    (hearly : s.received.length + config.vlmConcurrency < config.numChunks)
    (hruns : Relation.ReflTransGen (Step config) s t) : ¬Joined t := by
  have hkept : t.journal = .failed ∧ t.received = s.received := by
    induction hruns with
    | refl => exact ⟨hfailed, rfl⟩
    | tail _ hstep ih =>
      have hnext := failed_step ih.1 hstep
      exact ⟨hnext.1, hnext.2.trans ih.2⟩
  intro hjoined
  have hinv := (inv_reachable (hreachable.trans hruns)).1
  have hlength := (hinv.sent_of_done hjoined.1).length_eq
  have hroom := hinv.room
  rw [List.length_map, List.length_append, List.length_range, hkept.2] at hlength
  omega

/-! ### Every state of every run -/

theorem completed_startNext (config : DispatchConfig) (s : Request Moment) :
    (startNext config s).completed = s.completed := by
  rcases startNext_cases config s with ⟨-, heq⟩ | ⟨-, heq⟩
  · rw [heq]
    rfl
  · rw [heq]

/-- Completions come one after the other. -/
theorem completed_step (hstep : Step config s s') : s.completed <+: s'.completed := by
  cases hstep with
  | start hfilling =>
    rw [completed_startNext]
    simp only [completed, sending, hfilling, List.prefix_rfl]
  | filled hfilling => simp only [completed, sending, hfilling, List.prefix_rfl]
  | join hjoining _ =>
    rw [completed, completed, sending, hjoining, List.append_nil]
    apply List.prefix_append
  | exhausted hjoining _ => simp only [completed, sending, hjoining, List.prefix_rfl]
  | send hsending _ =>
    rw [completed_startNext]
    simp only [completed, sending, hsending, List.append_assoc, List.append_nil, List.prefix_rfl]
  | receive _ hchannel =>
    simp only [completed, sending, hchannel, List.append_assoc, List.nil_append,
      List.cons_append, List.prefix_rfl]
  | infer _ _ _ => exact List.prefix_rfl
  | panic _ _ _ => exact List.prefix_rfl
  | append _ => exact List.prefix_rfl
  | fail _ => exact List.prefix_rfl
  | appended _ => exact List.prefix_rfl
  | close _ _ _ => exact List.prefix_rfl

/-- What holds of a request at any time. -/
structure Guarantees (config : DispatchConfig) (s : Request Moment) : Prop where
  inFlight : s.tasks.length ≤ config.vlmConcurrency
  /-- No chunk is completed twice, and each completion has an event of its own. -/
  once : (s.completed.map Prod.fst).Nodup
  attempted : ∀ completion ∈ s.completed, completion.2.attempted = true
  /-- A result is stored at its chunk's index, and once it was sent. -/
  length : s.semanticResults.length = config.numChunks
  stored : ∀ chunk result, s.semanticResults[chunk]? = some (some result) ↔
    (chunk, result) ∈ s.received ++ s.channel
  /-- The log has the events of the completed chunks, and until a failure it gets all of them. -/
  logged : s.log <+: s.completed.flatMap chunkEvents
  journaled : s.journal ≠ .failed → s.log ++ s.todo ++
    (s.channel ++ s.sending).flatMap chunkEvents = s.completed.flatMap chunkEvents
  /-- A join that is complete leaves no chunk without a result. -/
  joined : Joined s → ∀ chunk < config.numChunks, ∃ result,
    s.semanticResults[chunk]? = some (some result)
  whole : s.journal = .done → s.log = s.completed.flatMap chunkEvents

theorem Inv.guarantees (h : Inv config s) : Guarantees config s := by
  have hevents : s.completed.flatMap chunkEvents =
      s.received.flatMap chunkEvents ++ (s.channel ++ s.sending).flatMap chunkEvents := by
    rw [completed, List.append_assoc, List.flatMap_append]
  have hjournaled (hgoing : s.journal ≠ .failed) : s.log ++ s.todo ++
      (s.channel ++ s.sending).flatMap chunkEvents = s.completed.flatMap chunkEvents := by
    rw [h.logged hgoing, hevents]
  refine ⟨?_, h.nodup, h.attempted, h.length, h.results, ?_, hjournaled, fun hjoined chunk hlt ↦ ?_,
    fun hdone ↦ ?_⟩
  · have := h.inFlight
    have := maxInFlight_le config
    omega
  · rw [hevents]
    exact h.begun.trans (List.prefix_append _ _)
  · have hchunk := (h.sent_of_done hjoined.1).mem_iff.mpr (List.mem_range.mpr hlt)
    obtain ⟨completion, hsent, rfl⟩ := List.mem_map.mp hchunk
    exact ⟨completion.2, (h.results _ _).mpr hsent⟩
  · have hgoing : s.journal ≠ .failed := by
      rw [hdone]
      rintro ⟨⟩
    have hall := hjournaled hgoing
    rw [todo, hdone, (h.closed hdone).1, sending, (h.closed hdone).2] at hall
    simpa only [List.append_nil, List.flatMap_nil] using hall

/-- Every run of a request ends, with the guarantees in each of its states. If its journal fails in
time, or not at all, it ends with a complete join; if it fails too early, the join is never
complete. -/
theorem dispatch_joins (config : DispatchConfig) :
    WellFounded (fun s' s : Request Moment ↦ Step config s s') ∧
      (∀ s : Request Moment, Reachable config s → Guarantees config s) ∧
      (∀ s s' : Request Moment, Reachable config s → Step config s s' →
        s.completed <+: s'.completed) ∧
      (∀ s : Request Moment, ReachableTimely config s → Joined s ∨ ∃ s', Step config s s') ∧
      ∀ s t : Request Moment, Reachable config s → s.journal = .failed →
        s.received.length + config.vlmConcurrency < config.numChunks →
          Relation.ReflTransGen (Step config) s t → ¬Joined t := by
  refine ⟨wellFounded_step config, fun s hreachable ↦ ?_, fun s s' _ hstep ↦ completed_step hstep,
    fun s htimely ↦ ?_, fun s t hreachable hfailed hearly hruns ↦ ?_⟩
  · exact (inv_reachable hreachable).1.guarantees
  · exact joined_or_exists_step (inv_reachable htimely.reachable).1 (fits_of_timely htimely)
  · exact not_joined_of_failed hreachable hfailed hearly hruns

/-- Three chunks, one at a time, and a journal whose first append fails: the third completion waits
for room in the channel forever. -/
theorem dispatch_blocked : ∃ (config : DispatchConfig) (s : Request Unit),
    Reachable config s ∧ ¬Joined s ∧ ∀ s', ¬Step config s s' := by
  let result : ChunkSemanticResult Unit := ⟨true, false, none, []⟩
  refine ⟨⟨3, false, 1, Nat.le_refl 1, by decide⟩, ⟨.sending (2, result), 3, [],
    [some result, some result, none], [(1, result)], .failed, [], [(0, result)]⟩, ?_, ?_, ?_⟩
  · refine .head (@Step.start _ _ _ 0 rfl) <| .head (.filled rfl) <|
      .head (@Step.infer _ _ _ [] [] 0 rfl result rfl) <|
      .head (@Step.join _ _ _ [] [] 0 result rfl rfl) <| .head (.send rfl (by decide)) <|
      .head (.receive rfl rfl) <| .head (.fail rfl) <|
      .head (@Step.infer _ _ _ [] [] 1 rfl result rfl) <|
      .head (@Step.join _ _ _ [] [] 1 result rfl rfl) <| .head (.send rfl (by decide)) <|
      .head (@Step.infer _ _ _ [] [] 2 rfl result rfl) <|
      .head (@Step.join _ _ _ [] [] 2 result rfl rfl) .refl
  · rintro ⟨hdone, -⟩
    cases hdone
  · intro s' hstep
    cases hstep with
    | infer hat _ _ => simp at hat
    | panic hat _ _ => simp at hat
    | send _ hroom => exact absurd hroom (Nat.lt_irrefl 1)
    | start hfilling => cases hfilling
    | filled hfilling => cases hfilling
    | join hjoining _ => cases hjoining
    | exhausted hjoining _ => cases hjoining
    | receive hreceiving _ => cases hreceiving
    | append happending => cases happending
    | fail happending => cases happending
    | appended happending => cases happending
    | close hreceiving _ _ => cases hreceiving

end Request

end Vidarax.Reason
