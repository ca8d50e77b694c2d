import Vidarax.Base.Focus
import Vidarax.Runs.Restart
import Vidarax.Runs.SlotCounts
import Vidarax.Runs.SlotRuns

/-!
# The limit of active streams

Package `vidarax-api`, `crates/vidarax-api/src/state.rs:348–369,1469–1526`. A creator that counts
under the lock misses no run whose guard was dropped, so the runs of a principal and the guards
for runs to come stay within the limit. Runs that expire make room, which the bound has to leave out.
-/

namespace Vidarax.Runs

open Vidarax.Base Vidarax.Timeline

namespace Slots

/-- Elements of two kinds. -/
theorem countP_le_add {α : Type} {P Q R : α → Bool} {l : List α}
    (h : ∀ x ∈ l, P x = true → Q x = true ∨ R x = true) :
    l.countP P ≤ l.countP Q + l.countP R := by
  induction l with
  | nil => simp
  | cons x l ih =>
    have hrest := ih fun y hy ↦ h y (List.mem_cons_of_mem _ hy)
    have hfirst := h x List.mem_cons_self
    rw [List.countP_cons, List.countP_cons, List.countP_cons]
    cases hp : P x with
    | false =>
      simp only [Bool.false_eq_true, if_false]
      omega
    | true =>
      rcases hfirst hp with hq | hr
      · simp only [hq, if_true]
        omega
      · simp only [hr, if_true]
        omega

/-- At most one creation is that of a run. -/
theorem countP_run_le_one {creations : List Creation} (run : String)
    (h : (creations.filterMap fun c ↦ c.created.map (·.2.runId)).Nodup) :
    creations.countP (fun c ↦ c.created.any fun (_, e) ↦ e.runId = run) ≤ 1 := by
  have hcount := List.nodup_iff_count_le_one.mp h run
  rw [List.count_filterMap] at hcount
  refine Nat.le_trans (List.countP_mono_left fun c _ hc ↦ ?_) hcount
  cases hcreated : c.created with
  | none =>
    rw [hcreated] at hc
    exact Bool.noConfusion hc
  | some created =>
    rw [hcreated] at hc
    simpa using hc

variable {config : SlotConfig} {fromStr : String → Option Json} {s s' : Slots}

/-! ### Expiry -/

theorem unexpired_iff {nowMs : UInt64} {e : TimelineEvent} : Unexpired config nowMs e ↔
    config.ttlMs = 0 ∨ e.ptsMs = 0 ∨ nowMs.toNat - e.ptsMs.toNat ≤ config.ttlMs.toNat := by
  unfold Unexpired applyExpiry
  simp only [StreamState.isTerminal, Bool.false_eq_true, false_or]
  split
  · next hnever => exact iff_of_true rfl (hnever.elim .inl fun h ↦ .inr (.inl h))
  · next hnever =>
    rw [not_or] at hnever
    simp only [hnever.1, hnever.2, false_or]
    simp only [UInt64.lt_iff_toNat_lt, toNat_satSub]
    split
    · next hlate => exact iff_of_false StreamState.noConfusion (Nat.not_le.mpr hlate)
    · next hearly => exact iff_of_true rfl (Nat.not_lt.mp hearly)

/-- What is not expired now was not expired before. -/
theorem Unexpired.mono {nowMs laterMs : UInt64} {e : TimelineEvent}
    (h : Unexpired config laterMs e) (hle : config.ttlMs = 0 ∨ nowMs ≤ laterMs) :
    Unexpired config nowMs e := by
  rw [unexpired_iff] at h ⊢
  rcases hle with hnever | hle
  · exact .inl hnever
  · rw [UInt64.le_iff_toNat_le] at hle
    rcases h with hnever | hzero | hage
    · exact .inl hnever
    · exact .inr (.inl hzero)
    · exact .inr (.inr (by omega))

/-- The count includes a run that is entered and not expired. -/
theorem counts_entered {p : String} {e : TimelineEvent} {nowMs : UInt64}
    (h : s.worker.Entered p e) (hfresh : Unexpired config nowMs e) :
    s.worker.registry.runs[e.runId]?.any (config.counts p nowMs) = true := by
  have hentry := h.entry
  cases hrun : s.worker.registry.runs[e.runId]? with
  | none =>
    rw [hrun] at hentry
    cases hentry
  | some run =>
    rw [hrun] at hentry
    have hsnapshot : run.snapshot = createdSummary p e := Option.some.inj hentry
    have hstate : applyExpiry .pending e.ptsMs nowMs config.ttlMs = .pending := hfresh
    simp [SlotConfig.counts, hsnapshot, createdSummary, hstate, StreamState.isTerminal]

/-! ### Runs that only the count can find -/

/-- A run whose guard was dropped, that goes on, is not expired and not among some runs. -/
def freed (config : SlotConfig) (log : List TimelineEvent) (nowMs : UInt64) (p : String)
    (rest : List String) : Creation → Bool
  | .released q e => q = p ∧ Ongoing log e.runId ∧ Unexpired config nowMs e ∧ e.runId ∉ rest
  | _ => false

/-- How many there are. -/
def uncovered (config : SlotConfig) (s : Slots) (nowMs : UInt64) (p : String)
    (rest : List String) : Nat :=
  s.creations.countP (freed config s.worker.log nowMs p rest)

/-- What a creator counts is at least what it has to. -/
def Tallies (config : SlotConfig) (s : Slots) : Creation → Prop
  | .entered _ nowMs _ => nowMs ∈ s.times
  | .counting p nowMs _ rest committed => nowMs ∈ s.times ∧
    uncovered config s nowMs p rest ≤ committed
  | _ => True

/-- A creator that goes on counts no more than it had to. -/
theorem Tallies.mono {c : Creation} (h : Tallies config s c)
    (htimes : ∀ nowMs ∈ s.times, nowMs ∈ s'.times)
    (huncovered : ∀ nowMs p rest, c.reads p = true →
      uncovered config s' nowMs p rest ≤ uncovered config s nowMs p rest) :
    Tallies config s' c := by
  cases c with
  | entered p nowMs reserved => exact htimes nowMs h
  | counting p nowMs reserved rest committed =>
    have hreads : (Creation.counting p nowMs reserved rest committed).reads p = true :=
      decide_eq_true rfl
    exact ⟨htimes nowMs h.1, Nat.le_trans (huncovered nowMs p rest hreads) h.2⟩
  | _ => trivial

theorem freed_mono {log log' : List TimelineEvent} (h : ∀ e ∈ log, e ∈ log') {nowMs : UInt64}
    {p : String} {rest : List String} {c : Creation}
    (hc : freed config log' nowMs p rest c = true) : freed config log nowMs p rest c = true := by
  cases c with
  | released q e =>
    simp only [freed, decide_eq_true_eq] at hc ⊢
    exact ⟨hc.1, fun x hx ↦ hc.2.1 x (h x hx), hc.2.2⟩
  | _ => exact hc

theorem freed_acknowledge (event : TimelineEvent) (log : List TimelineEvent) (nowMs : UInt64)
    (p : String) (rest : List String) (c : Creation) :
    freed config log nowMs p rest (c.acknowledge event) = freed config log nowMs p rest c := by
  rcases Creation.acknowledge_cases event c with ⟨hsame, -⟩ | ⟨q, rfl, hnew⟩
  · rw [hsame]
  · rw [hnew]
    rfl

/-! ### The invariant -/

/-- The counts, the registry and the bound. -/
structure Inv (config : SlotConfig) (fromStr : String → Option Json) (s : Slots) : Prop where
  counted : Counted s
  agrees : s.worker.Agrees fromStr
  apart : (s.creations.filterMap fun c ↦ c.created.map (·.2.runId)).Nodup
  tracks : ∀ c ∈ s.creations, s.worker.Tracks fromStr c
  tallies : ∀ c ∈ s.creations, Tallies config s c
  bounded : ∀ p nowMs, Covers config s nowMs →
    activeAt config s nowMs p + s.pending p ≤ config.activeStreamLimit.toNat

/-- The creation of a run is in the log. -/
theorem known_of_tracks {c : Creation} {p : String} {e : TimelineEvent}
    (h : s.worker.Tracks fromStr c) (hcreated : c.created = some (p, e)) :
    s.worker.Known fromStr p e := by
  cases c with
  | durable q x => cases hcreated; exact SlotWorker.Waits.known h
  | applied q x => cases hcreated; exact SlotWorker.Done.known h
  | released q x => cases hcreated; exact SlotWorker.Done.known h
  | _ => cases hcreated

/-- The runs of the creators stay apart. -/
theorem Inv.apart_step (h : Inv config fromStr s) (hstep : Step config fromStr s s') :
    (s'.creations.filterMap fun c ↦ c.created.map (·.2.runId)).Nodup := by
  have hapart := h.apart
  cases hstep with
  | enter p nowMs _ => simpa [Creation.created] using hapart
  | opens ids hat _ _ => simpa [hat, Creation.created] using hapart
  | look hat => simpa [hat, Creation.created] using hapart
  | refuse hat _ => simpa [hat, Creation.created] using hapart
  | grant hat _ => simpa [hat, Creation.created] using hapart
  | commitEnd event _ => exact hapart
  | index before after _ _ _ _ _ _ => exact hapart
  | nudge _ _ _ _ _ => exact hapart
  | finish isProtected _ _ => simpa [List.filterMap_map, Function.comp_def] using hapart
  | release hat _ => simpa [hat, Creation.created] using hapart
  | fail hat _ => simpa [hat, Creation.created] using hapart
  | @commit l r p event hat hkind hprincipal hnew =>
    rw [hat, List.filterMap_append, List.filterMap_cons] at hapart
    rw [List.filterMap_append, List.filterMap_cons]
    have hnot : event.runId ∉ (l ++ r).filterMap fun c ↦ c.created.map (·.2.runId) := by
      intro hmem
      obtain ⟨c, hc, hrun⟩ := List.mem_filterMap.mp hmem
      obtain ⟨⟨q, e⟩, hcreated, hsame⟩ := Option.map_eq_some_iff.mp hrun
      have hknown := known_of_tracks (h.tracks c (mem_remove hat hc)) hcreated
      exact hnew e hknown.logged hsame
    rw [List.filterMap_append] at hnot
    exact (List.nodup_middle.mpr (List.nodup_cons.mpr ⟨hnot, hapart⟩))

/-- A creation is not an event that ends a run. -/
theorem ends_created {event : TimelineEvent} (h : event.kind = "run_created") :
    Ends event.kind = false := by
  rw [h]
  decide

theorem Inv.agrees_step (h : Inv config fromStr s) (hstep : Step config fromStr s s') :
    s'.worker.Agrees fromStr := by
  cases hstep with
  | commit event _ _ _ _ => exact h.agrees.commit event
  | commitEnd event _ => exact h.agrees.commit event
  | index before after hqueue _ _ hbefore hafter _ => exact h.agrees.index hqueue hbefore hafter
  | finish isProtected hqueue _ => exact h.agrees.finish hqueue isProtected
  | nudge hqueue hindexed _ _ _ => exact h.agrees.nudge hqueue hindexed _
  | _ => exact h.agrees

/-- Every step keeps what holds of the runs. -/
theorem Inv.tracks_step (h : Inv config fromStr s) (hstep : Step config fromStr s s') :
    ∀ c ∈ s'.creations, s'.worker.Tracks fromStr c := by
  intro c hc
  cases hstep with
  | enter p nowMs _ =>
    rcases List.mem_append.mp hc with hc | hc
    · exact h.tracks c hc
    · rw [List.mem_singleton.mp hc]
      trivial
  | opens ids hat _ _ =>
    rcases mem_replace hat hc with rfl | hc
    · trivial
    · exact h.tracks c hc
  | look hat =>
    rcases mem_replace hat hc with rfl | hc
    · trivial
    · exact h.tracks c hc
  | refuse hat _ => exact h.tracks c (mem_remove hat hc)
  | grant hat _ =>
    rcases mem_replace hat hc with rfl | hc
    · trivial
    · exact h.tracks c hc
  | @commit l r p event hat hkind hprincipal hnew =>
    rcases mem_replace hat hc with rfl | hc
    · exact SlotWorker.tracks_new h.agrees hkind hprincipal hnew
    · apply SlotWorker.Tracks.commit (h.tracks c hc)
      intro q x hcreated
      have hknown := known_of_tracks (h.tracks c hc) hcreated
      refine ⟨?_, fun hsame ↦ absurd hsame.symm (hnew x hknown.logged)⟩
      rintro rfl
      exact hnew x hknown.logged rfl
  | commitEnd event hends =>
    apply SlotWorker.Tracks.commit (h.tracks c hc)
    intro q x hcreated
    have hknown := known_of_tracks (h.tracks c hc) hcreated
    refine ⟨?_, fun _ ↦ hends⟩
    rintro rfl
    rw [ends_created hknown.kind] at hends
    exact Bool.noConfusion hends
  | index before after hqueue _ _ hbefore hafter _ =>
    have htracks := h.tracks c hc
    cases c with
    | durable q e => exact SlotWorker.Waits.index htracks hqueue hbefore hafter
    | applied q e => exact SlotWorker.Done.index htracks h.agrees hqueue
    | released q e => exact SlotWorker.Done.index htracks h.agrees hqueue
    | _ => trivial
  | @finish event queue before after isProtected hqueue hindexed =>
    obtain ⟨c, hmem, rfl⟩ := List.mem_map.mp hc
    have htracks := h.tracks c hmem
    rcases Creation.acknowledge_cases event c with ⟨hsame, hother⟩ | ⟨q, rfl, hnew⟩
    · rw [hsame]
      cases c with
      | durable q e =>
        refine SlotWorker.Waits.finish htracks h.agrees hqueue ?_ isProtected
        rintro rfl
        exact hother q rfl
      | applied q e => exact SlotWorker.Done.finish htracks h.agrees hqueue isProtected
      | released q e => exact SlotWorker.Done.finish htracks h.agrees hqueue isProtected
      | _ => trivial
    · rw [hnew]
      exact SlotWorker.Waits.done htracks h.agrees hqueue hindexed isProtected
  | nudge hqueue hindexed hcreated _ _ =>
    have htracks := h.tracks c hc
    cases c with
    | durable q e => exact SlotWorker.Waits.nudge htracks h.agrees hqueue hindexed hcreated _
    | applied q e => exact SlotWorker.Done.nudge htracks h.agrees hqueue _
    | released q e => exact SlotWorker.Done.nudge htracks h.agrees hqueue _
    | _ => trivial
  | @release l r p event hat _ =>
    rcases mem_replace hat hc with rfl | hc
    · exact h.tracks (.applied p event) (by rw [hat]; simp)
    · exact h.tracks c hc
  | fail hat _ => exact h.tracks c (mem_remove hat hc)

/-- A run that the bucket shows is counted if it has to be. -/
theorem Inv.uncovered_look (h : Inv config fromStr s) (nowMs : UInt64) (p run : String)
    (rest : List String) : uncovered config s nowMs p rest ≤
      uncovered config s nowMs p (run :: rest) +
        if s.worker.registry.runs[run]?.any (config.counts p nowMs) then 1 else 0 := by
  by_cases hcounted : s.worker.registry.runs[run]?.any (config.counts p nowMs) = true
  · rw [if_pos hcounted]
    refine Nat.le_trans (countP_le_add fun c _ hfreed ↦ ?_)
      (Nat.add_le_add_left (countP_run_le_one run h.apart) _)
    cases c with
    | released q e =>
      simp only [freed, decide_eq_true_eq, List.mem_cons, not_or, Creation.created,
        Option.any_some] at hfreed ⊢
      by_cases hrun : e.runId = run
      · exact .inr hrun
      · exact .inl ⟨hfreed.1, hfreed.2.1, hfreed.2.2.1, hrun, hfreed.2.2.2⟩
    | _ => exact Bool.noConfusion hfreed
  · rw [if_neg hcounted, Nat.add_zero]
    apply List.countP_mono_left
    intro c hc hfreed
    cases c with
    | released q e =>
      simp only [freed, decide_eq_true_eq, List.mem_cons, not_or] at hfreed ⊢
      obtain ⟨rfl, hgo, hfresh, hrest⟩ := hfreed
      refine ⟨rfl, hgo, hfresh, ?_, hrest⟩
      rintro rfl
      exact hcounted (counts_entered (SlotWorker.Done.enters (h.tracks _ hc) hgo) hfresh)
    | _ => exact Bool.noConfusion hfreed

/-- The whole bucket shows every run that has to be counted. -/
theorem Inv.uncovered_opens (h : Inv config fromStr s) (nowMs : UInt64) {p : String}
    {ids : List String} (hids : ∀ run, run ∈ ids ↔ run ∈ s.worker.registry.members p) :
    uncovered config s nowMs p ids = 0 := by
  apply List.countP_eq_zero.mpr
  intro c hc hfreed
  cases c with
  | released q e =>
    simp only [freed, decide_eq_true_eq] at hfreed
    obtain ⟨rfl, hgo, -, hrest⟩ := hfreed
    exact hrest ((hids e.runId).mpr (SlotWorker.Done.enters (h.tracks _ hc) hgo).bucket)
  | _ => exact Bool.noConfusion hfreed

/-- A step of one creator that frees no run uncovers none. -/
theorem uncovered_replace {l r : List Creation} {c c' : Creation} {log : List TimelineEvent}
    (hat : s.creations = l ++ c :: r) (hlog : ∀ e ∈ s.worker.log, e ∈ log) (nowMs : UInt64)
    (p : String) (rest : List String) (hfreed : freed config log nowMs p rest c' = false) :
    (l ++ c' :: r).countP (freed config log nowMs p rest) ≤ uncovered config s nowMs p rest := by
  have hmono (creations : List Creation) :
      creations.countP (freed config log nowMs p rest) ≤
        creations.countP (freed config s.worker.log nowMs p rest) :=
    List.countP_mono_left fun c _ hc ↦ freed_mono hlog hc
  have hleft := hmono l
  have hright := hmono r
  simp only [uncovered, hat, List.countP_append, List.countP_cons, hfreed,
    Bool.false_eq_true, if_false]
  omega

theorem uncovered_remove {l r : List Creation} {c : Creation} (hat : s.creations = l ++ c :: r)
    (nowMs : UInt64) (p : String) (rest : List String) :
    (l ++ r).countP (freed config s.worker.log nowMs p rest) ≤ uncovered config s nowMs p rest := by
  simp only [uncovered, hat, List.countP_append, List.countP_cons]
  omega

/-- Every step keeps what the creators have counted. -/
theorem Inv.tallies_step (h : Inv config fromStr s) (hstep : Step config fromStr s s') :
    ∀ c ∈ s'.creations, Tallies config s' c := by
  intro c hc
  cases hstep with
  | enter p nowMs _ =>
    rcases List.mem_append.mp hc with hc | hc
    · refine (h.tallies c hc).mono (fun t ht ↦ List.mem_cons_of_mem _ ht) ?_
      intro t q rest _
      simp [uncovered, freed]
    · rw [List.mem_singleton.mp hc]
      exact List.mem_cons_self
  | @opens l r p nowMs reserved ids hat hnodup hids =>
    rcases mem_replace hat hc with rfl | hc
    · refine ⟨h.tallies (.entered p nowMs reserved) (by rw [hat]; simp), ?_⟩
      rw [← h.uncovered_opens nowMs hids]
      exact uncovered_replace hat (fun _ he ↦ he) nowMs p ids rfl
    · exact (h.tallies c hc).mono (fun _ ht ↦ ht) fun t q rest _ ↦
        uncovered_replace hat (fun _ he ↦ he) t q rest rfl
  | @look l r p nowMs reserved committed run rest hat =>
    rcases mem_replace hat hc with rfl | hc
    · obtain ⟨htime, htally⟩ := h.tallies (.counting p nowMs reserved (run :: rest) committed)
        (by rw [hat]; simp)
      refine ⟨htime, Nat.le_trans
        (uncovered_replace hat (fun _ he ↦ he) nowMs p rest rfl) ?_⟩
      have hlook := h.uncovered_look nowMs p run rest
      split at hlook
      · next hcounted =>
        rw [if_pos hcounted]
        omega
      · next hcounted =>
        rw [if_neg hcounted]
        omega
    · exact (h.tallies c hc).mono (fun _ ht ↦ ht) fun t q rest _ ↦
        uncovered_replace hat (fun _ he ↦ he) t q rest rfl
  | refuse hat _ =>
    exact (h.tallies c (mem_remove hat hc)).mono (fun _ ht ↦ ht) fun t q rest _ ↦
      uncovered_remove hat t q rest
  | fail hat _ =>
    exact (h.tallies c (mem_remove hat hc)).mono (fun _ ht ↦ ht) fun t q rest _ ↦
      uncovered_remove hat t q rest
  | grant hat _ =>
    rcases mem_replace hat hc with rfl | hc
    · trivial
    · exact (h.tallies c hc).mono (fun _ ht ↦ ht) fun t q rest _ ↦
        uncovered_replace hat (fun _ he ↦ he) t q rest rfl
  | commit event hat _ _ _ =>
    rcases mem_replace hat hc with rfl | hc
    · trivial
    · exact (h.tallies c hc).mono (fun _ ht ↦ ht) fun t q rest _ ↦
        uncovered_replace hat (fun _ he ↦ List.mem_append_left _ he) t q rest rfl
  | commitEnd event _ =>
    refine (h.tallies c hc).mono (fun _ ht ↦ ht) fun t q rest _ ↦ ?_
    exact List.countP_mono_left fun c _ hfreed ↦
      freed_mono (fun _ he ↦ List.mem_append_left _ he) hfreed
  | index before after _ _ _ _ _ _ =>
    exact (h.tallies c hc).mono (fun _ ht ↦ ht) fun _ _ _ _ ↦ Nat.le_refl _
  | nudge _ _ _ _ _ =>
    exact (h.tallies c hc).mono (fun _ ht ↦ ht) fun _ _ _ _ ↦ Nat.le_refl _
  | @finish event queue before after isProtected _ _ =>
    obtain ⟨c, hmem, rfl⟩ := List.mem_map.mp hc
    have hsame : Tallies config { s with
        worker := s.worker.finish isProtected event queue before after
        creations := s.creations.map (Creation.acknowledge event) } c := by
      refine (h.tallies c hmem).mono (fun _ ht ↦ ht) fun t q rest _ ↦ ?_
      simp only [uncovered, List.countP_map, Function.comp_def, freed_acknowledge]
      exact Nat.le_refl _
    rcases Creation.acknowledge_cases event c with ⟨heq, -⟩ | ⟨q, rfl, hnew⟩
    · rw [heq]
      exact hsame
    · rw [hnew]
      trivial
  | @release l r p event hat hfree =>
    rcases mem_replace hat hc with rfl | hc
    · trivial
    · refine (h.tallies c hc).mono (fun _ ht ↦ ht) fun t q rest hreads ↦ ?_
      -- nobody counts the runs of the principal while its guard is dropped
      have hne : p ≠ q := by
        rintro rfl
        have hlocked := hfree c hc
        cases c with
        | counting x _ _ _ _ =>
          rw [show (Creation.counting x _ _ _ _).locks p = true from hreads] at hlocked
          exact Bool.noConfusion hlocked
        | _ => exact Bool.noConfusion hreads
      apply uncovered_replace hat (fun _ he ↦ he) t q rest
      simp [freed, hne]

/-! ### The bound -/

/-- A guard whose run is not committed, or an active run that is not expired. -/
def loads (config : SlotConfig) (log : List TimelineEvent) (nowMs : UInt64) (p : String)
    (c : Creation) : Bool :=
  c.pends p || c.created.any fun (q, e) ↦ q = p ∧ Ongoing log e.runId ∧ Unexpired config nowMs e

theorem loads_eq (s : Slots) (nowMs : UInt64) (p : String) :
    s.creations.countP (loads config s.worker.log nowMs p) =
      activeAt config s nowMs p + s.pending p := by
  unfold activeAt pending
  induction s.creations with
  | nil => rfl
  | cons c creations ih =>
    rw [List.countP_cons, List.countP_cons, List.countP_cons, ih]
    cases c with
    | holding q =>
      simp only [loads, Creation.created, Option.any_none, Bool.or_false, Bool.false_eq_true,
        if_false]
      omega
    | _ =>
      simp only [loads, Creation.pends, Bool.false_or, Bool.false_eq_true, if_false]
      omega

theorem loads_mono {log log' : List TimelineEvent} (h : ∀ e ∈ log, e ∈ log') {nowMs : UInt64}
    {p : String} {c : Creation} (hc : loads config log' nowMs p c = true) :
    loads config log nowMs p c = true := by
  rcases Bool.or_eq_true_iff.mp hc with hpends | hcreated
  · exact Bool.or_eq_true_iff.mpr (.inl hpends)
  · apply Bool.or_eq_true_iff.mpr (.inr _)
    cases hsome : c.created with
    | none =>
      rw [hsome] at hcreated
      exact Bool.noConfusion hcreated
    | some created =>
      rw [hsome] at hcreated
      simp only [Option.any_some, decide_eq_true_eq] at hcreated ⊢
      exact ⟨hcreated.1, fun x hx ↦ hcreated.2.1 x (h x hx), hcreated.2.2⟩

theorem loads_replace {l r : List Creation} {c c' : Creation} {log log' : List TimelineEvent}
    (hlog : ∀ e ∈ log, e ∈ log') (nowMs : UInt64) (p : String)
    (hc : loads config log' nowMs p c' = true → loads config log nowMs p c = true) :
    (l ++ c' :: r).countP (loads config log' nowMs p) ≤
      (l ++ c :: r).countP (loads config log nowMs p) := by
  have hmono (creations : List Creation) :
      creations.countP (loads config log' nowMs p) ≤ creations.countP (loads config log nowMs p) :=
    List.countP_mono_left fun c _ hc ↦ loads_mono hlog hc
  have hleft := hmono l
  have hright := hmono r
  rw [List.countP_append, List.countP_append, List.countP_cons, List.countP_cons]
  split
  · next hload =>
    rw [if_pos (hc hload)]
    omega
  · omega

/-- At the decision of a creator, what loads its principal was counted or holds a guard. -/
theorem Inv.loads_le (h : Inv config fromStr s) {l r : List Creation} {p : String}
    {nowMs laterMs : UInt64} {reserved committed : Nat}
    (hat : s.creations = l ++ .counting p nowMs reserved [] committed :: r)
    (hcovers : Covers config s laterMs) :
    s.creations.countP (loads config s.worker.log laterMs p) ≤ committed + reserved := by
  have hmem : Creation.counting p nowMs reserved [] committed ∈ s.creations := by
    rw [hat]
    simp
  obtain ⟨htime, htally⟩ := h.tallies _ hmem
  have hreserved := h.counted.read _ hmem p reserved rfl
  have hnow : config.ttlMs = 0 ∨ nowMs ≤ laterMs := hcovers.imp_right fun hle ↦ hle nowMs htime
  have hsplit : s.creations.countP (loads config s.worker.log laterMs p) ≤
      uncovered config s nowMs p [] + s.guards p := by
    apply countP_le_add
    intro c _ hload
    rcases Bool.or_eq_true_iff.mp hload with hpends | hcreated
    · cases c with
      | holding q => exact .inr hpends
      | _ => exact Bool.noConfusion hpends
    · cases c with
      | released q e =>
        simp only [Creation.created, Option.any_some, decide_eq_true_eq] at hcreated
        simp only [freed, decide_eq_true_eq]
        exact .inl ⟨hcreated.1, hcreated.2.1, hcreated.2.2.mono hnow, List.not_mem_nil⟩
      | durable q e =>
        simp only [Creation.created, Option.any_some, decide_eq_true_eq] at hcreated
        exact .inr (decide_eq_true hcreated.1)
      | applied q e =>
        simp only [Creation.created, Option.any_some, decide_eq_true_eq] at hcreated
        exact .inr (decide_eq_true hcreated.1)
      | _ => exact Bool.noConfusion hcreated
  omega

/-- Every step keeps the bound. -/
theorem Inv.bounded_step (h : Inv config fromStr s) (hstep : Step config fromStr s s')
    (p : String) (nowMs : UInt64) (hcovers : Covers config s' nowMs) :
    s'.creations.countP (loads config s'.worker.log nowMs p) ≤ config.activeStreamLimit.toNat := by
  have hbefore (hcovers : Covers config s nowMs) :
      s.creations.countP (loads config s.worker.log nowMs p) ≤ config.activeStreamLimit.toNat := by
    rw [loads_eq]
    exact h.bounded p nowMs hcovers
  cases hstep with
  | enter q passed _ =>
    have hload : loads config s.worker.log nowMs p
        (.entered q passed (s.reservations[q]?.getD 0)) = false := rfl
    rw [List.countP_append, List.countP_singleton, hload, if_neg Bool.false_ne_true]
    exact hbefore (hcovers.imp_right fun hle t ht ↦ hle t (List.mem_cons_of_mem _ ht))
  | opens ids hat _ _ =>
    refine Nat.le_trans (loads_replace (fun _ he ↦ he) nowMs p ?_) (hat ▸ hbefore hcovers)
    exact fun hload ↦ Bool.noConfusion hload
  | look hat =>
    refine Nat.le_trans (loads_replace (fun _ he ↦ he) nowMs p ?_) (hat ▸ hbefore hcovers)
    exact fun hload ↦ Bool.noConfusion hload
  | refuse hat _ =>
    have hall := hbefore hcovers
    rw [hat, List.countP_append, List.countP_cons] at hall
    dsimp only
    rw [List.countP_append]
    omega
  | fail hat _ =>
    have hall := hbefore hcovers
    rw [hat, List.countP_append, List.countP_cons] at hall
    dsimp only
    rw [List.countP_append]
    omega
  | @grant l r q passed reserved committed hat hroom =>
    have hall := hbefore hcovers
    dsimp only
    rw [List.countP_append, List.countP_cons]
    by_cases hsame : p = q
    · subst hsame
      have hload := h.loads_le hat hcovers
      rw [hat, List.countP_append, List.countP_cons] at hload
      have hlimit := toNat_le_u64Max config.activeStreamLimit
      split <;> omega
    · have hload : loads config s.worker.log nowMs p (.holding q) = false := by
        simp [loads, Creation.pends, Creation.created, Ne.symm hsame]
      rw [hat, List.countP_append, List.countP_cons] at hall
      rw [hload, if_neg Bool.false_ne_true]
      omega
  | @commit l r q event hat hkind hprincipal hnew =>
    refine Nat.le_trans (loads_replace (fun _ he ↦ List.mem_append_left _ he) nowMs p ?_)
      (hat ▸ hbefore hcovers)
    intro hload
    simp only [loads, Creation.pends, Creation.created, Bool.false_or, Option.any_some,
      decide_eq_true_eq] at hload
    simp [loads, Creation.pends, hload.1]
  | commitEnd event _ =>
    refine Nat.le_trans (List.countP_mono_left fun c _ hload ↦ ?_) (hbefore hcovers)
    exact loads_mono (fun _ he ↦ List.mem_append_left _ he) hload
  | index before after _ _ _ _ _ _ => exact hbefore hcovers
  | nudge _ _ _ _ _ => exact hbefore hcovers
  | finish isProtected _ _ =>
    refine Nat.le_trans ?_ (hbefore hcovers)
    simp only [List.countP_map, Function.comp_def, loads, Creation.pends_acknowledge,
      Creation.created_acknowledge]
    exact Nat.le_refl _
  | release hat _ =>
    refine Nat.le_trans (loads_replace (fun _ he ↦ he) nowMs p ?_) (hat ▸ hbefore hcovers)
    exact fun hload ↦ hload

theorem Inv.step (h : Inv config fromStr s) (hstep : Step config fromStr s s') :
    Inv config fromStr s' where
  counted := h.counted.step hstep
  agrees := h.agrees_step hstep
  apart := h.apart_step hstep
  tracks := h.tracks_step hstep
  tallies := h.tallies_step hstep
  bounded p nowMs hcovers := by
    rw [← loads_eq]
    exact h.bounded_step hstep p nowMs hcovers

/-- A registry knows only runs of its events. -/
theorem unknown_build (stored : List TimelineEvent) (run : String)
    (h : ∀ e ∈ stored, e.runId ≠ run) : (RunRegistry.build fromStr stored).runs[run]? = none ∧
      ∀ q, run ∉ (RunRegistry.build fromStr stored).members q := by
  induction stored using List.reverseRecOn with
  | nil =>
    constructor
    · simp [RunRegistry.build, RunRegistry.empty]
    · intro q
      simp [RunRegistry.build, RunRegistry.empty, RunRegistry.members]
  | append_singleton stored event ih =>
    obtain ⟨hnone, hmembers⟩ := ih fun e he ↦ h e (List.mem_append_left _ he)
    have hne : run ≠ event.runId := (h event (by simp)).symm
    rw [RunRegistry.build_concat, RunRegistry.apply]
    dsimp only
    rw [RunRegistry.applyStructuralEvent_eq_finish]
    dsimp only
    have hindex : ((RunRegistry.build fromStr stored).reindex event.runId
        ((RunRegistry.build fromStr stored).summary event.runId)
        (((RunRegistry.build fromStr stored).summary event.runId).applyEvent fromStr
          event)).runs[run]? = none := by
      rw [(RunRegistry.reindex_frame _ _ _ _).1]
      exact hnone
    constructor
    · rw [RunRegistry.get?_finishStructural_of_ne _ _ _ _ hne (by rw [hindex]; rfl)]
      exact hindex
    · intro q
      rw [RunRegistry.members_finishStructural, RunRegistry.mem_members_reindex_of_ne _ hne]
      exact hmembers q

theorem inv_initial (config : SlotConfig) (stored : List TimelineEvent) :
    Inv config fromStr (initial fromStr stored) where
  counted := ⟨fun p ↦ by simp [initial, guards], fun p ↦ by simp [initial],
    fun c hc ↦ absurd hc List.not_mem_nil⟩
  agrees := ⟨unknown_build stored, fun e he ↦ absurd he List.not_mem_nil,
    fun before after h ↦ by cases h⟩
  apart := List.nodup_nil
  tracks := fun c hc ↦ absurd hc List.not_mem_nil
  tallies := fun c hc ↦ absurd hc List.not_mem_nil
  bounded p nowMs _ := by simp [initial, activeAt, pending]

theorem Inv.reachable (h : Reachable config fromStr s) : Inv config fromStr s := by
  obtain ⟨stored, hrun⟩ := h
  induction hrun with
  | refl => exact inv_initial config stored
  | tail _ hstep ih => exact ih.step hstep

/-- In every reachable state the active runs of a principal that are not expired, with the guards
for runs to come, are within the limit at any time that no reservation was later than. The map
counts the guards of each principal, and has no entry where there are none. -/
theorem slots_bounded (h : Reachable config fromStr s) (p : String) :
    (∀ nowMs, Covers config s nowMs →
      activeAt config s nowMs p + s.pending p ≤ config.activeStreamLimit.toNat) ∧
    s.reservations[p]? = if s.guards p = 0 then none else some (s.guards p) :=
  ⟨(Inv.reachable h).bounded p, (Inv.reachable h).counted.counts p⟩

/-! ### A run that expires -/

/-- One stream at a time, for one second. -/
def oneStream : SlotConfig := ⟨1, 1⟩

/-- Every payload names one principal. -/
def onePrincipal : String → Option Json := fun _ ↦ some (.object [("principal_key", .string "p")])

/-- The creation of a run at time five. -/
def firstCreated : TimelineEvent := ⟨1, "a", "default", 5, "run_created", ""⟩

/-- The registry before and after the creation is applied. -/
def beforeFirst : RunRegistry := .build onePrincipal []

def afterFirst : RunRegistry :=
  beforeFirst.applyStructuralEvent onePrincipal RunRegistry.unprotected firstCreated

/-- The only run of the principal expires without an event that ends it, and its slot is reserved
again. -/
theorem exists_expired : ∃ s, Reachable oneStream onePrincipal s ∧ s.times = [2000, 5] ∧
    s.active "p" = 1 ∧ s.pending "p" = 1 := by
  have hempty : beforeFirst.members "p" = ∅ := by decide +kernel
  have hfilled : afterFirst.members "p" = {"a"} := by decide +kernel
  have hentered : Step oneStream onePrincipal (initial onePrincipal []) _ :=
    .enter "p" 5 fun c hc ↦ absurd hc List.not_mem_nil
  have hreserved := ((Relation.ReflTransGen.single hentered).tail
    (Step.opens [] (l := []) (r := []) rfl .nil
      fun run ↦ iff_of_false List.not_mem_nil (by
        show run ∉ beforeFirst.members "p"
        rw [hempty]
        exact Finset.notMem_empty run))).tail
    (Step.grant (l := []) (r := []) rfl (by decide))
  have hcreated := ((hreserved.tail
    (Step.commit firstCreated (l := []) (r := []) rfl rfl (by decide +kernel)
      fun e he ↦ absurd he List.not_mem_nil)).tail
    (Step.index _ _ rfl rfl (.inl rfl) rfl rfl fun q ↦ .inl fun c hc ↦ by
      rw [List.mem_singleton.mp hc]
      rfl)).tail
    (Step.finish RunRegistry.unprotected rfl rfl)
  have hreleased := hcreated.tail (Step.release (l := []) (r := []) rfl fun c hc ↦ by
    rw [List.mem_singleton.mp hc]
    rfl)
  have hagain := (((hreleased.tail
    (Step.enter "p" 2000 fun c hc ↦ by
      rw [List.mem_singleton.mp hc]
      rfl)).tail
    (Step.opens ["a"] (l := [.released "p" firstCreated]) (r := []) rfl (List.nodup_singleton _)
      fun run ↦ by
        show run ∈ ["a"] ↔ run ∈ afterFirst.members "p"
        rw [hfilled, List.mem_singleton, Finset.mem_singleton])).tail
    (Step.look (l := [.released "p" firstCreated]) (r := []) rfl)).tail
    (Step.grant (l := [.released "p" firstCreated]) (r := []) rfl (by decide +kernel))
  exact ⟨_, ⟨[], hagain⟩, rfl, by decide +kernel, by decide +kernel⟩

/-- With the expired run, the principal is over its limit. -/
theorem expired_over_limit : ∃ s, Reachable oneStream onePrincipal s ∧
    oneStream.activeStreamLimit.toNat < s.active "p" + s.pending "p" := by
  obtain ⟨s, hreachable, -, hactive, hpending⟩ := exists_expired
  refine ⟨s, hreachable, ?_⟩
  rw [hactive, hpending]
  decide

/-- Without it, the principal is within the limit. -/
theorem slots_bounded_expired : ∃ s, s.active "p" + s.pending "p" = 2 ∧
    activeAt oneStream s 2000 "p" + s.pending "p" ≤ 1 ∧
    s.reservations["p"]? = if s.guards "p" = 0 then none else some (s.guards "p") := by
  obtain ⟨s, hreachable, htimes, hactive, hpending⟩ := exists_expired
  have hcovers : Covers oneStream s 2000 := by
    apply Or.inr
    intro passed hpassed
    rw [htimes, List.mem_cons, List.mem_singleton] at hpassed
    rcases hpassed with rfl | rfl
    · exact UInt64.le_refl 2000
    · decide
  exact ⟨s, by rw [hactive, hpending], (slots_bounded hreachable "p").1 2000 hcovers,
    (slots_bounded hreachable "p").2⟩

end Slots

end Vidarax.Runs
