import Vidarax.Base.Focus
import Vidarax.Whip.Winner

/-!
# What reclaims guarantee

Packages `vidarax-api` and `vidarax-core`, `crates/vidarax-api/src/whip.rs:937–1261`. The invariant
of sessions and their runs, one operation at a time, and what follows for every run of the tasks.
-/

namespace Vidarax.Whip

open Vidarax.Base Vidarax.Timeline Vidarax.Runs

/-! ### Tasks -/

namespace Phase

/-- Only reclaimers come here. -/
def reclaims : Phase → Bool
  | stamping | looking | claiming | waiting _ | retrying _ | reading | checking _ | failed
  | removing | recording | returned _ => true
  | _ => false

/-- A reclaimer holds the claim here. -/
def holds : Phase → Bool
  | reading | checking _ | deleting | sent _ _ | awaiting _ _ | failed | removing => true
  | _ => false

/-- A reclaimer may have committed its event here. -/
def wrote : Phase → Bool
  | awaiting _ _ | removing => true
  | _ => false

/-- The event that is appended here. -/
def appends : Phase → Option String
  | checking kind | sent kind _ | awaiting kind _ => some kind
  | deleting => some "run_deleted"
  | _ => none

/-- A reclaimer that saw a deletion comes here behind its tombstone. -/
def tombstoned : Phase → Bool
  | checking _ | removing => true
  | _ => false

/-- The run was found settled. -/
def settled : Phase → Bool
  | removing | recording | returned true | answered true => true
  | _ => false

end Phase

/-- A stop was marked, and no deletion. -/
def Stopped (seen : List SessionCloseDisposition) : Prop := .stop ∈ seen ∧ .delete ∉ seen

instance (seen : List SessionCloseDisposition) : Decidable (Stopped seen) :=
  inferInstanceAs (Decidable (_ ∧ _))

/-- Kinds of events that reclaimers append. -/
def reclaimKinds : List String := ["run_completed", "run_failed", "run_deleted"]

/-- An event that a reclaimer committed. -/
def Logged.reclaims (x : Logged) : Bool :=
  x.author.any Role.reclaims && decide (x.event.kind ∈ reclaimKinds)

/-- The winner may have committed an event that the marks asked for. -/
def Removal.wrote (removal : Removal) : Bool := !decide (Stopped removal.seen)

namespace Task

/-- The task holds the claim of the session. -/
def owns (t : Task) : Bool := t.role.reclaims && t.phase.holds

/-- The task may have committed an event that the marks asked for. -/
def wrote (t : Task) : Bool := t.role.reclaims && t.phase.wrote && !decide (Stopped t.seen)

/-- The event that the task is to append. -/
def Wants (t : Task) (kind : String) : Prop :=
  match t.role with
  | .stop => kind = "stop_requested"
  | .delete => kind = "run_deleted"
  | .watcher | .terminate =>
    .delete ∈ t.seen ∧ kind = "run_deleted" ∨
      .delete ∉ t.seen ∧ .stop ∉ t.seen ∧ (kind = "run_completed" ∨ kind = "run_failed")

theorem wants_iff {t : Task} (hrole : t.role.reclaims = true) {kind : String} :
    t.Wants kind ↔ .delete ∈ t.seen ∧ kind = "run_deleted" ∨
      .delete ∉ t.seen ∧ .stop ∉ t.seen ∧ (kind = "run_completed" ∨ kind = "run_failed") := by
  unfold Wants
  cases hcase : t.role with
  | watcher => exact Iff.rfl
  | terminate => exact Iff.rfl
  | stop =>
    rw [hcase] at hrole
    cases hrole
  | delete =>
    rw [hcase] at hrole
    cases hrole

/-- What reclaimers append is not asked for by a stop alone. -/
theorem Wants.reclaims {t : Task} {kind : String} (h : t.Wants kind)
    (hrole : t.role.reclaims = true) : kind ∈ reclaimKinds ∧ ¬ Stopped t.seen := by
  simp only [reclaimKinds, List.mem_cons, List.not_mem_nil, or_false, Stopped]
  rcases (wants_iff hrole).mp h with ⟨hdelete, hkind⟩ | ⟨-, hstop, hkind⟩
  · exact ⟨.inr (.inr hkind), fun hstopped ↦ hstopped.2 hdelete⟩
  · exact ⟨hkind.elim .inl fun hfailed ↦ .inr (.inl hfailed), fun hstopped ↦ hstop hstopped.1⟩

theorem Wants.endKinds {t : Task} {kind : String} (h : t.Wants kind) : kind ∈ endKinds := by
  simp only [Whip.endKinds, List.mem_cons, List.not_mem_nil, or_false]
  cases hrole : t.role with
  | stop =>
    simp only [Wants, hrole] at h
    exact .inr (.inr (.inl h))
  | delete =>
    simp only [Wants, hrole] at h
    exact .inr (.inr (.inr h))
  | watcher | terminate =>
    rcases (wants_iff (by rw [hrole]; rfl)).mp h with ⟨-, hkind⟩ | ⟨-, -, hkind⟩
    · exact .inr (.inr (.inr hkind))
    · exact hkind.elim .inl fun hfailed ↦ .inr (.inl hfailed)

end Task

namespace Reclaim

variable {fromStr : String → Option Json} {ttlMs : UInt64} {start : Nat} {s s' : Reclaim}

/-- What holds of a task. -/
structure TaskInv (ttlMs : UInt64) (start : Nat) (s : Reclaim) (t : Task) : Prop where
  role : t.phase.reclaims = true → t.role.reclaims = true
  wants : ∀ kind ∈ t.phase.appends, t.Wants kind
  place : ∀ kind place, t.phase = .awaiting kind place →
    start ≤ place ∧ ∃ x, s.log[place]? = some x ∧ x.event.kind = kind
  tombstone : t.phase.tombstoned = true → .delete ∈ t.seen → HasKind s.log "run_deleted"
  settled : t.phase.settled = true ∨ t.phase = .marking ∧ t.role.reclaims = false →
    Settled ttlMs s.summary s.times

/-- Nothing that tasks rely on is lost. -/
structure Grows (ttlMs : UInt64) (s s' : Reclaim) : Prop where
  log : s.log <+: s'.log
  settled : Settled ttlMs s.summary s.times → Settled ttlMs s'.summary s'.times

theorem TaskInv.mono {t : Task} (h : s.TaskInv ttlMs start t) (hgrows : Grows ttlMs s s') :
    s'.TaskInv ttlMs start t where
  role := h.role
  wants := h.wants
  place kind place hphase := by
    obtain ⟨hstart, x, hx, hkind⟩ := h.place kind place hphase
    obtain ⟨rest, hrest⟩ := hgrows.log
    refine ⟨hstart, x, ?_, hkind⟩
    rw [← hrest, List.getElem?_append_left (List.getElem?_eq_some_iff.mp hx).1]
    exact hx
  tombstone hphase hdelete := (h.tombstone hphase hdelete).mono hgrows.log
  settled hphase := hgrows.settled (h.settled hphase)

/-- A session, its run and its tasks. -/
structure Inv (ttlMs : UInt64) (start : Nat) (s : Reclaim) : Prop where
  tasks : ∀ t ∈ s.tasks, s.TaskInv ttlMs start t
  owners : s.tasks.countP Task.owns + s.removals.length = if s.claimed then 1 else 0
  live : s.live = true ↔ s.removals = []
  written : s.log.countP Logged.reclaims ≤
    s.tasks.countP Task.wrote + s.removals.countP Removal.wrote
  marks : s.disposition = SessionCloseDisposition.codeOf s.marks
  marked : .stop ∈ s.marks ∨ .delete ∈ s.marks → Settled ttlMs s.summary s.times
  fresh : ∀ place x, s.applied ≤ place → s.log[place]? = some x → x.event.kind ∈ endKinds
  front : start ≤ s.applied
  back : s.applied ≤ s.log.length
  applied : start < s.applied → Settled ttlMs s.summary s.times
  known : Known s.summary s.log
  removals : ∀ removal ∈ s.removals, Settled ttlMs removal.summary removal.times ∧
    Known removal.summary removal.log ∧
    (.delete ∈ removal.seen → HasKind removal.log "run_deleted")
  gone : s.removals ≠ [] → Settled ttlMs s.summary s.times

/-- While a task holds the claim, the session is in the map. -/
theorem Inv.live_of_owns (h : Inv ttlMs start s) {t : Task} (ht : t ∈ s.tasks)
    (howns : t.owns = true) : s.live = true ∧ s.claimed = true ∧ s.removals = [] := by
  have hone : 0 < s.tasks.countP Task.owns := List.countP_pos_iff.mpr ⟨t, ht, howns⟩
  have howners := h.owners
  cases hclaimed : s.claimed with
  | false =>
    rw [hclaimed, if_neg Bool.false_ne_true] at howners
    omega
  | true =>
    rw [hclaimed, if_pos rfl] at howners
    have hremovals : s.removals = [] := List.length_eq_zero_iff.mp (by omega)
    exact ⟨h.live.mpr hremovals, rfl, hremovals⟩

/-- An operation that leaves the log and what is known of the run as they are. -/
theorem Inv.frame (h : Inv ttlMs start s)
    (htasks : ∀ t ∈ s'.tasks, t ∈ s.tasks ∨ s'.TaskInv ttlMs start t)
    (howners : s'.tasks.countP Task.owns + s'.removals.length = if s'.claimed then 1 else 0)
    (hwritten : s.tasks.countP Task.wrote ≤ s'.tasks.countP Task.wrote)
    (hmarks : s'.disposition = SessionCloseDisposition.codeOf s'.marks)
    (hmarked : .stop ∈ s'.marks ∨ .delete ∈ s'.marks → .stop ∈ s.marks ∨ .delete ∈ s.marks ∨
      Settled ttlMs s.summary s.times)
    (hlive : s'.live = s.live) (hlog : s'.log = s.log) (happlied : s'.applied = s.applied)
    (hsummary : s'.summary = s.summary) (hremovals : s'.removals = s.removals)
    (htimes : s.times ⊆ s'.times) : Inv ttlMs start s' := by
  have hsettled (hold : Settled ttlMs s.summary s.times) :
      Settled ttlMs s'.summary s'.times := by
    rw [hsummary]
    exact hold.mono htimes
  have hgrows : Grows ttlMs s s' := ⟨by rw [hlog], hsettled⟩
  refine ⟨fun t ht ↦ ?_, howners, ?_, ?_, hmarks, fun hmark ↦ ?_, ?_, ?_, ?_, fun hlt ↦ ?_, ?_, ?_,
    fun hgone ↦ ?_⟩
  · rcases htasks t ht with hold | hnew
    · exact (h.tasks t hold).mono hgrows
    · exact hnew
  · rw [hlive, hremovals]
    exact h.live
  · have := h.written
    rw [hlog, hremovals]
    omega
  · rcases hmarked hmark with hstop | hdelete | hold
    · exact hsettled (h.marked (.inl hstop))
    · exact hsettled (h.marked (.inr hdelete))
    · exact hsettled hold
  · rw [happlied, hlog]
    exact h.fresh
  · rw [happlied]
    exact h.front
  · rw [happlied, hlog]
    exact h.back
  · rw [happlied] at hlt
    exact hsettled (h.applied hlt)
  · rw [hsummary, hlog]
    exact h.known
  · rw [hremovals]
    exact h.removals
  · rw [hremovals] at hgone
    exact hsettled (h.gone hgone)

/-- One task goes on with its claim. -/
theorem Inv.owners_replace (h : Inv ttlMs start s) {l r : List Task} {t t' : Task}
    (hat : s.tasks = l ++ t :: r) (howns : t'.owns = t.owns) :
    (l ++ t' :: r).countP Task.owns + s.removals.length = if s.claimed then 1 else 0 := by
  have howners := h.owners
  rw [hat, countP_focus] at howners
  rw [countP_focus, howns]
  exact howners

theorem wrote_replace {l r : List Task} {t t' : Task} (hat : s.tasks = l ++ t :: r)
    (hwrote : t.wrote = true → t'.wrote = true) :
    s.tasks.countP Task.wrote ≤ (l ++ t' :: r).countP Task.wrote := by
  rw [hat, countP_focus, countP_focus]
  by_cases hold : t.wrote = true
  · rw [if_pos hold, if_pos (hwrote hold)]
  · rw [if_neg hold]
    omega

theorem mem_tasks_replace {l r : List Task} {t t' : Task} (hat : s.tasks = l ++ t :: r)
    (ht' : s'.TaskInv ttlMs start t') :
    ∀ u ∈ l ++ t' :: r, u ∈ s.tasks ∨ s'.TaskInv ttlMs start u := by
  intro u hu
  rcases mem_replace hat hu with rfl | hold
  · exact .inr ht'
  · exact .inl hold

/-! ### Where tasks go on -/

/-- Phases of which nothing is required but the role. -/
theorem TaskInv.plain {t : Task} (hrole : t.phase.reclaims = true → t.role.reclaims = true)
    (happends : t.phase.appends = none) (hsettled : t.phase.settled = false)
    (hmarking : t.phase = .marking → t.role.reclaims = true) : s.TaskInv ttlMs start t where
  role := hrole
  wants kind hkind := by
    rw [happends] at hkind
    cases hkind
  place kind place hphase := by
    rw [hphase] at happends
    cases happends
  tombstone htombstoned := by
    cases hphase : t.phase with
    | checking kind =>
      rw [hphase] at happends
      cases happends
    | removing =>
      rw [hphase] at hsettled
      cases hsettled
    | _ =>
      rw [hphase] at htombstoned
      cases htombstoned
  settled hphase := by
    rcases hphase with hphase | ⟨hphase, hnot⟩
    · rw [hsettled] at hphase
      cases hphase
    · rw [hmarking hphase] at hnot
      cases hnot

/-- Phases in which an event is to be appended. -/
theorem TaskInv.appending {t : Task} {kind : String}
    (hrole : t.phase.reclaims = true → t.role.reclaims = true)
    (happends : t.phase.appends = some kind) (hplace : t.phase.wrote = false)
    (hsettled : t.phase.settled = false) (hmarking : t.phase ≠ .marking)
    (htombstone : t.phase.tombstoned = true → .delete ∉ t.seen) (hwants : t.Wants kind) :
    s.TaskInv ttlMs start t where
  role := hrole
  wants kind' hkind := by
    rw [happends] at hkind
    cases hkind
    exact hwants
  place kind place hphase := by
    rw [hphase] at hplace
    cases hplace
  tombstone htombstoned hdelete := absurd hdelete (htombstone htombstoned)
  settled hphase := by
    rcases hphase with hphase | ⟨hphase, -⟩
    · rw [hsettled] at hphase
      cases hphase
    · exact absurd hphase hmarking

/-- Phases in which the run was found settled. -/
theorem TaskInv.ended {t : Task} (hrole : t.phase.reclaims = true → t.role.reclaims = true)
    (happends : t.phase.appends = none) (hsettled : Settled ttlMs s.summary s.times)
    (htombstone : t.phase.tombstoned = true → .delete ∈ t.seen → HasKind s.log "run_deleted") :
    s.TaskInv ttlMs start t where
  role := hrole
  wants kind hkind := by
    rw [happends] at hkind
    cases hkind
  place kind place hphase := by
    rw [hphase] at happends
    cases happends
  tombstone := htombstone
  settled _ := hsettled

/-- Where a task goes on with its event in the log of a settled run. -/
theorem TaskInv.appended {role : Role} {seen : List SessionCloseDisposition}
    (hsettled : Settled ttlMs s.summary s.times)
    (htombstone : role.reclaims = true → .delete ∈ seen → HasKind s.log "run_deleted") :
    s.TaskInv ttlMs start ⟨role, appended role, seen⟩ := by
  have hrole : (Reclaim.appended role).reclaims = true → role.reclaims = true := by
    cases role <;> exact id
  refine .ended hrole ?_ hsettled fun hphase ↦ ?_
  · cases role <;> rfl
  · apply htombstone
    cases role <;> first | rfl | cases hphase

/-- Without a stop and a deletion, the run is to be completed or to fail. -/
theorem TaskInv.checking {role : Role} (hrole : role.reclaims = true)
    {marks : List SessionCloseDisposition} (hmarks : .delete ∉ marks ∧ .stop ∉ marks)
    {kind : String} (hkind : kind = "run_completed" ∨ kind = "run_failed") :
    s.TaskInv ttlMs start ⟨role, .checking kind, marks⟩ :=
  .appending (fun _ ↦ hrole) rfl rfl rfl nofun (fun _ ↦ hmarks.1)
    ((Task.wants_iff (t := ⟨role, .checking kind, marks⟩) hrole).mpr
      (.inr ⟨hmarks.1, hmarks.2, hkind⟩))

theorem owns_appended (role : Role) (seen seen' : List SessionCloseDisposition) {phase : Phase}
    (hphase : phase.holds = true) :
    Task.owns ⟨role, appended role, seen⟩ = Task.owns ⟨role, phase, seen'⟩ := by
  show (role.reclaims && (appended role).holds) = (role.reclaims && phase.holds)
  rw [hphase]
  cases role <;> rfl

theorem wrote_of_phase {t t' : Task} (h : t.phase.wrote = false) :
    t.wrote = true → t'.wrote = true := by
  rw [Task.wrote, h, Bool.and_false, Bool.false_and]
  exact fun hwrote ↦ absurd hwrote Bool.false_ne_true

/-- The deleted run of an entry is deleted in its summary. -/
theorem deleted_of_entry {arc : Nat} {run : RunState} (hentry : s.entry = some (arc, run))
    (hdeleted : run.deleteState = .deleted) : s.summary.deleted = true := by
  rw [summary, hentry]
  exact decide_eq_true hdeleted

/-- What a reclaimer reads is the highest mark. -/
theorem Inv.reads (h : Inv ttlMs start s) :
    (SessionCloseDisposition.ofCode s.disposition = .delete → .delete ∈ s.marks) ∧
      (SessionCloseDisposition.ofCode s.disposition = .stop → Stopped s.marks) ∧
      (SessionCloseDisposition.ofCode s.disposition = .complete ∨
        SessionCloseDisposition.ofCode s.disposition = .fault →
          .delete ∉ s.marks ∧ .stop ∉ s.marks) := by
  rw [h.marks, SessionCloseDisposition.ofCode_codeOf, Stopped]
  by_cases hdelete : .delete ∈ s.marks
  · simp [hdelete]
  · by_cases hstop : .stop ∈ s.marks
    · simp [hdelete, hstop]
    · by_cases hcomplete : .complete ∈ s.marks <;> simp [hdelete, hstop, hcomplete]

/-- The run of a session that is not in the map any more is settled. -/
theorem Inv.settled_of_gone (h : Inv ttlMs start s) (hgone : s.live = false) :
    Settled ttlMs s.summary s.times := by
  apply h.gone
  intro hnone
  rw [h.live.mpr hnone] at hgone
  cases hgone

/-- An operation that writes nothing keeps the claim, what was written, and the task in order. -/
theorem Move.spec (h : Inv ttlMs start s) {t t' : Task} (ht : t ∈ s.tasks) (hmove : Move s t t') :
    t'.owns = t.owns ∧ (t.wrote = true → t'.wrote = true) ∧ s.TaskInv ttlMs start t' := by
  have hold := h.tasks t ht
  cases hmove with
  | owned _ => exact ⟨rfl, wrote_of_phase rfl, .plain (fun _ ↦ rfl) rfl rfl fun _ ↦ rfl⟩
  | unknown _ => exact ⟨rfl, wrote_of_phase rfl, .plain (fun _ ↦ rfl) rfl rfl fun _ ↦ rfl⟩
  | traced _ => exact ⟨rfl, wrote_of_phase rfl, .plain (fun _ ↦ rfl) rfl rfl fun _ ↦ rfl⟩
  | notFound _ => exact ⟨rfl, wrote_of_phase rfl, .plain (fun _ ↦ rfl) rfl rfl fun _ ↦ rfl⟩
  | peer => exact ⟨rfl, wrote_of_phase rfl, .plain (fun _ ↦ rfl) rfl rfl fun _ ↦ rfl⟩
  | find _ => exact ⟨rfl, wrote_of_phase rfl, .plain (fun _ ↦ rfl) rfl rfl fun _ ↦ rfl⟩
  | unmarked _ => exact ⟨rfl, wrote_of_phase rfl, .plain (fun _ ↦ rfl) rfl rfl fun _ ↦ rfl⟩
  | unclosed _ _ => exact ⟨rfl, wrote_of_phase rfl, .plain nofun rfl rfl nofun⟩
  | look _ => exact ⟨rfl, wrote_of_phase rfl, .plain hold.role rfl rfl nofun⟩
  | absent hgone =>
    exact ⟨rfl, wrote_of_phase rfl, .ended hold.role rfl (h.settled_of_gone hgone) nofun⟩
  | await _ => exact ⟨rfl, wrote_of_phase rfl, .plain hold.role rfl rfl nofun⟩
  | turn _ => exact ⟨rfl, wrote_of_phase rfl, .plain hold.role rfl rfl nofun⟩
  | vanished hgone =>
    exact ⟨rfl, wrote_of_phase rfl, .ended hold.role rfl (h.settled_of_gone hgone) nofun⟩
  | again _ => exact ⟨rfl, wrote_of_phase rfl, .plain hold.role rfl rfl nofun⟩
  | tired => exact ⟨rfl, wrote_of_phase rfl, .plain hold.role rfl rfl nofun⟩
  | @readDelete role seen hread =>
    have hrole : role.reclaims = true := hold.role rfl
    refine ⟨rfl, wrote_of_phase rfl, .appending nofun rfl rfl rfl nofun nofun ?_⟩
    exact (Task.wants_iff hrole).mpr (.inl ⟨h.reads.1 hread, rfl⟩)
  | readStop hread =>
    have hstopped := h.reads.2.1 hread
    refine ⟨rfl, wrote_of_phase rfl, .ended hold.role rfl (h.marked (.inl hstopped.1)) ?_⟩
    exact fun _ hdelete ↦ absurd hdelete hstopped.2
  | readComplete hread =>
    exact ⟨rfl, wrote_of_phase rfl,
      .checking (hold.role rfl) (h.reads.2.2 (.inl hread)) (.inl rfl)⟩
  | readFault hread =>
    exact ⟨rfl, wrote_of_phase rfl,
      .checking (hold.role rfl) (h.reads.2.2 (.inr hread)) (.inr rfl)⟩
  | missing _ =>
    exact ⟨rfl, wrote_of_phase rfl, .appending nofun rfl rfl rfl nofun nofun (hold.wants _ rfl)⟩
  | @alreadyDeleted role arc run seen hentry hdeleted =>
    have hsummary := deleted_of_entry hentry hdeleted
    exact ⟨owns_appended role seen seen rfl, wrote_of_phase rfl,
      .appended (.inr (.inl hsummary)) fun _ _ ↦ h.known.deleted hsummary⟩
  | @answer role kind place seen happlied =>
    obtain ⟨hstart, x, hx, hkind⟩ := hold.place kind place rfl
    have hwants := hold.wants kind rfl
    refine ⟨owns_appended role seen seen rfl, fun hwrote ↦ ?_,
      .appended (h.applied (Nat.lt_of_le_of_lt hstart happlied)) fun hrole hdelete ↦ ?_⟩
    · cases role <;> exact hwrote
    · rcases (Task.wants_iff hrole).mp hwants with ⟨-, rfl⟩ | ⟨hnot, -⟩
      · exact ⟨x, List.mem_of_getElem? hx, hkind⟩
      · exact absurd hdelete hnot
  | @stay role seen hgone =>
    have howns : Task.owns ⟨role, .removing, seen⟩ = true := by
      rw [Task.owns, hold.role rfl]
      rfl
    rw [(h.live_of_owns ht howns).1] at hgone
    cases hgone
  | succeed =>
    exact ⟨rfl, wrote_of_phase rfl, .ended (fun _ ↦ rfl) rfl (hold.settled (.inl rfl)) nofun⟩
  | finish => exact ⟨rfl, wrote_of_phase rfl, .plain nofun rfl rfl nofun⟩
  | retry _ => exact ⟨rfl, wrote_of_phase rfl, .plain (fun _ ↦ rfl) rfl rfl fun _ ↦ rfl⟩
  | probe _ => exact ⟨rfl, wrote_of_phase rfl, .plain (fun _ ↦ rfl) rfl rfl fun _ ↦ rfl⟩
  | recorded _ => exact ⟨rfl, wrote_of_phase rfl, .plain nofun rfl rfl nofun⟩
  | unrecorded _ => exact ⟨rfl, wrote_of_phase rfl, .plain (fun _ ↦ rfl) rfl rfl fun _ ↦ rfl⟩

/-- The time of a look is kept. -/
theorem Look.spec (h : Inv ttlMs start s) {nowMs : UInt64} {t t' : Task} (ht : t ∈ s.tasks)
    (hlook : Look ttlMs s nowMs t t') {tasks : List Task} :
    t'.owns = t.owns ∧ (t.wrote = true → t'.wrote = true) ∧
      TaskInv ttlMs start { s with times := nowMs :: s.times, tasks := tasks } t' := by
  have hold := h.tasks t ht
  cases hlook with
  | stop _ _ =>
    exact ⟨rfl, wrote_of_phase rfl, .appending nofun rfl rfl rfl nofun nofun rfl⟩
  | conflict _ => exact ⟨rfl, wrote_of_phase rfl, .plain nofun rfl rfl nofun⟩
  | delete _ => exact ⟨rfl, wrote_of_phase rfl, .appending nofun rfl rfl rfl nofun nofun rfl⟩
  | notFound _ => exact ⟨rfl, wrote_of_phase rfl, .plain nofun rfl rfl nofun⟩
  | skip hterminal =>
    exact ⟨rfl, wrote_of_phase rfl, .ended (fun _ ↦ hold.role rfl) rfl
      (settled_of_terminal hterminal) fun _ ↦ hold.tombstone rfl⟩
  | append _ =>
    exact ⟨rfl, wrote_of_phase rfl, .appending nofun rfl rfl rfl nofun nofun (hold.wants _ rfl)⟩
  | answer =>
    refine ⟨rfl, wrote_of_phase rfl, ?_⟩
    cases hterminal : s.whipRunIsTerminal ttlMs nowMs with
    | false => exact .plain nofun rfl rfl nofun
    | true => exact .ended nofun rfl (settled_of_terminal hterminal) nofun
  | quit _ => exact ⟨rfl, wrote_of_phase rfl, .plain nofun rfl rfl nofun⟩
  | goesOn _ => exact ⟨rfl, wrote_of_phase rfl, .plain (fun _ ↦ rfl) rfl rfl fun _ ↦ rfl⟩

/-! ### Operations that write -/

theorem summary_rolledBack (guard : Option Nat) :
    summary { s with entry := s.rolledBack guard } = s.summary := by
  unfold summary rolledBack
  cases s.entry with
  | none => rfl
  | some run =>
    simp only [Option.map_some, Option.getD_some]
    split
    · exact RunState.snapshot_rollbackDeleteAppend run.2
    · rfl

theorem applyAppendedEvent_eq (fromStr : String → Option Json) (s : Reclaim)
    (event : TimelineEvent) : ∃ entry nextArc, s.applyAppendedEvent fromStr event = { s with entry := entry, nextArc := nextArc } := by
  unfold applyAppendedEvent
  dsimp only
  split
  · exact ⟨_, _, rfl⟩
  · split
    · exact ⟨_, _, rfl⟩
    · split
      · exact ⟨_, s.nextArc, rfl⟩
      · exact ⟨_, _, rfl⟩

/-- Someone is claimed for. -/
theorem Inv.claim (h : Inv ttlMs start s) {l r : List Task} {role : Role} {phase : Phase} {seen}
    (hat : s.tasks = l ++ ⟨role, phase, seen⟩ :: r)
    (hphase : phase = .claiming ∨ ∃ left, phase = .retrying left) (hfree : s.claimed = false) :
    Inv ttlMs start { s with claimed := true, tasks := l ++ ⟨role, .reading, seen⟩ :: r } := by
  have hold := h.tasks _ (mem_focus hat)
  have hfacts : phase.reclaims = true ∧ phase.holds = false ∧ phase.wrote = false := by
    rcases hphase with rfl | ⟨left, rfl⟩ <;> exact ⟨rfl, rfl, rfl⟩
  have hrole : role.reclaims = true := hold.role hfacts.1
  refine h.frame (mem_tasks_replace hat (.plain (fun _ ↦ hrole) rfl rfl nofun)) ?_
    (wrote_replace hat (wrote_of_phase hfacts.2.2)) h.marks
    (fun hmark ↦ hmark.elim .inl fun hdelete ↦ .inr (.inl hdelete)) rfl rfl rfl rfl rfl
    (List.Subset.refl _)
  have howners := h.owners
  have hbefore : Task.owns ⟨role, phase, seen⟩ = false := by
    show (role.reclaims && phase.holds) = false
    rw [hfacts.2.1, Bool.and_false]
  have hafter : Task.owns ⟨role, .reading, seen⟩ = true := by
    show (role.reclaims && true) = true
    rw [hrole]
    rfl
  rw [hat, countP_focus, hbefore, hfree] at howners
  rw [countP_focus, hafter]
  simp only [Bool.false_eq_true, if_false, if_true] at howners ⊢
  omega

/-- The claim is given back. -/
theorem Inv.release (h : Inv ttlMs start s) {l r : List Task} {role : Role} {seen}
    (hat : s.tasks = l ++ ⟨role, .failed, seen⟩ :: r) :
    Inv ttlMs start { s with claimed := false, tasks := l ++ ⟨role, .returned false, seen⟩ :: r } := by
  have hold := h.tasks _ (mem_focus hat)
  have hrole : role.reclaims = true := hold.role rfl
  refine h.frame (mem_tasks_replace hat (.plain (fun _ ↦ hrole) rfl rfl nofun)) ?_
    (wrote_replace hat (wrote_of_phase rfl)) h.marks
    (fun hmark ↦ hmark.elim .inl fun hdelete ↦ .inr (.inl hdelete)) rfl rfl rfl rfl rfl
    (List.Subset.refl _)
  have hbefore : Task.owns ⟨role, .failed, seen⟩ = true := by
    show (role.reclaims && true) = true
    rw [hrole]
    rfl
  have hafter : Task.owns ⟨role, .returned false, seen⟩ = false := Bool.and_false _
  have hclaimed := (h.live_of_owns (mem_focus hat) hbefore).2.1
  have howners := h.owners
  rw [hat, countP_focus, hbefore, hclaimed] at howners
  rw [countP_focus, hafter]
  simp only [Bool.false_eq_true, if_false, if_true] at howners ⊢
  omega

/-- The session is removed, and the claim stays with it. -/
theorem Inv.remove (h : Inv ttlMs start s) {l r : List Task} {role : Role} {seen}
    (hat : s.tasks = l ++ ⟨role, .removing, seen⟩ :: r) :
    Inv ttlMs start { s with
      live := false
      removals := ⟨seen, s.log, s.summary, s.times⟩ :: s.removals
      tasks := l ++ ⟨role, .recording, seen⟩ :: r } := by
  have hold := h.tasks _ (mem_focus hat)
  have hrole : role.reclaims = true := hold.role rfl
  have hsettled := hold.settled (.inl rfl)
  have hnew : TaskInv ttlMs start { s with
      live := false
      removals := ⟨seen, s.log, s.summary, s.times⟩ :: s.removals
      tasks := l ++ ⟨role, .recording, seen⟩ :: r } ⟨role, .recording, seen⟩ :=
    .ended (fun _ ↦ hrole) rfl hsettled nofun
  refine ⟨fun t ht ↦ ?_, ?_, ⟨nofun, nofun⟩, ?_, h.marks, h.marked, h.fresh, h.front, h.back,
    h.applied, h.known, fun removal hremoval ↦ ?_, fun _ ↦ hsettled⟩
  · rcases mem_tasks_replace hat hnew t ht with hother | hsame
    · exact (h.tasks t hother).mono ⟨List.prefix_rfl, id⟩
    · exact hsame
  · have howners := h.owners
    have hbefore : Task.owns ⟨role, .removing, seen⟩ = true := by
      show (role.reclaims && true) = true
      rw [hrole]
      rfl
    have hafter : Task.owns ⟨role, .recording, seen⟩ = false := Bool.and_false _
    rw [hat, countP_focus, hbefore] at howners
    rw [countP_focus, hafter, List.length_cons]
    simp only [Bool.false_eq_true, if_false, if_true] at howners ⊢
    omega
  · have hwritten := h.written
    have hbefore : Task.wrote ⟨role, .removing, seen⟩ = !decide (Stopped seen) := by
      show (role.reclaims && true && !decide (Stopped seen)) = _
      rw [hrole]
      rfl
    have hafter : Task.wrote ⟨role, .recording, seen⟩ = false := by
      show (role.reclaims && false && !decide (Stopped seen)) = _
      rw [Bool.and_false, Bool.false_and]
    rw [hat, countP_focus, hbefore] at hwritten
    rw [countP_focus, hafter, List.countP_cons, Removal.wrote]
    simp only [Bool.false_eq_true, if_false] at hwritten ⊢
    omega
  · rcases List.mem_cons.mp hremoval with rfl | hother
    · exact ⟨hsettled, h.known, hold.tombstone rfl⟩
    · exact h.removals removal hother

/-- The event of a task comes to the log. -/
theorem Inv.commit (h : Inv ttlMs start s) {l r : List Task} {role : Role} {kind : String}
    {guard : Option Nat} {seen} (hat : s.tasks = l ++ ⟨role, .sent kind guard, seen⟩ :: r)
    {event : TimelineEvent} (hkind : event.kind = kind) :
    Inv ttlMs start { s with
      log := s.log ++ [⟨event, some role⟩]
      tasks := l ++ ⟨role, .awaiting kind s.log.length, seen⟩ :: r } := by
  have hold := h.tasks _ (mem_focus hat)
  have hwants : Task.Wants ⟨role, .sent kind guard, seen⟩ kind := hold.wants kind rfl
  have hgrows : s.log <+: s.log ++ [⟨event, some role⟩] := List.prefix_append _ _
  have hnew : TaskInv ttlMs start { s with
      log := s.log ++ [⟨event, some role⟩]
      tasks := l ++ ⟨role, .awaiting kind s.log.length, seen⟩ :: r }
        ⟨role, .awaiting kind s.log.length, seen⟩ := by
    refine ⟨nofun, fun kind' hkind' ↦ ?_, fun kind' place hphase ↦ ?_, nofun, nofun⟩
    · cases hkind'
      exact hwants
    · cases hphase
      exact ⟨Nat.le_trans h.front h.back, ⟨event, some role⟩, List.getElem?_concat_length, hkind⟩
  refine ⟨fun t ht ↦ ?_, h.owners_replace hat rfl, h.live, ?_, h.marks, h.marked,
    fun place x hplace hx ↦ ?_, h.front, ?_, h.applied, h.known.mono hgrows, h.removals, h.gone⟩
  · rcases mem_tasks_replace hat hnew t ht with hother | hsame
    · exact (h.tasks t hother).mono ⟨hgrows, id⟩
    · exact hsame
  · have hwritten := h.written
    have hbefore : Task.wrote ⟨role, .sent kind guard, seen⟩ = false := by
      show (role.reclaims && false && !decide (Stopped seen)) = _
      rw [Bool.and_false, Bool.false_and]
    rw [hat, countP_focus, hbefore, if_neg Bool.false_ne_true] at hwritten
    rw [List.countP_append, List.countP_singleton, countP_focus]
    dsimp only
    cases hrole : role.reclaims with
    | true =>
      have hafter : Task.wrote ⟨role, .awaiting kind s.log.length, seen⟩ = true := by
        show (role.reclaims && true && !decide (Stopped seen)) = _
        rw [hrole, decide_eq_false (hwants.reclaims hrole).2]
        rfl
      rw [if_pos hafter]
      split <;> omega
    | false =>
      have hother : Logged.reclaims ⟨event, some role⟩ = false := by
        show (role.reclaims && _) = false
        rw [hrole, Bool.false_and]
      rw [if_neg (by rw [hother]; exact Bool.false_ne_true)]
      omega
  · rw [List.getElem?_append] at hx
    split at hx
    · exact h.fresh place x hplace hx
    · obtain rfl : x = ⟨event, some role⟩ := by
        have := List.mem_of_getElem? hx
        rwa [List.mem_singleton] at this
      dsimp only
      rw [hkind]
      exact hwants.endKinds
  · rw [List.length_append]
    exact Nat.le_trans h.back (Nat.le_add_right _ _)

/-- An event of the log that is applied settles the run. -/
theorem Inv.apply (h : Inv ttlMs start s) {x : Logged} (hnext : s.log[s.applied]? = some x) :
    Inv ttlMs start { s.applyAppendedEvent fromStr x.event with applied := s.applied + 1 } := by
  have hsummary := summary_applyAppendedEvent fromStr s x.event
  obtain ⟨entry, nextArc, heq⟩ := applyAppendedEvent_eq fromStr s x.event
  rw [heq] at hsummary ⊢
  have hended := h.fresh s.applied x (Nat.le_refl _) hnext
  have hsettled : Settled ttlMs (summary { s with entry := entry, nextArc := nextArc }) s.times := by
    rw [hsummary]
    exact settled_applyEvent hended
  refine ⟨fun t ht ↦ (h.tasks t ht).mono ⟨List.prefix_rfl, fun _ ↦ hsettled⟩, h.owners, h.live,
    h.written, h.marks, fun _ ↦ hsettled, fun place y hplace ↦ ?_, ?_, ?_, fun _ ↦ hsettled, ?_,
    h.removals, fun _ ↦ hsettled⟩
  · exact h.fresh place y (Nat.le_of_succ_le hplace)
  · exact Nat.le_succ_of_le h.front
  · exact (List.getElem?_eq_some_iff.mp hnext).1
  · show Known (summary { s with entry := entry, nextArc := nextArc }) s.log
    rw [hsummary]
    exact h.known.applyEvent (List.mem_of_getElem? hnext)

/-- A forgotten run is settled. -/
theorem Inv.forget (h : Inv ttlMs start s) {arc : Nat} {run : RunState}
    (hentry : s.entry = some (arc, run)) (hdeleted : run.deleteState = .deleted) :
    Inv ttlMs start { s with entry := none } := by
  have hsettled : Settled ttlMs (summary { s with entry := none }) s.times := .inl rfl
  have htombstone := h.known.deleted (deleted_of_entry hentry hdeleted)
  exact ⟨fun t ht ↦ (h.tasks t ht).mono ⟨List.prefix_rfl, fun _ ↦ hsettled⟩, h.owners, h.live,
    h.written, h.marks, fun _ ↦ hsettled, h.fresh, h.front, h.back, fun _ ↦ hsettled,
    ⟨⟨fun _ ↦ htombstone, nofun⟩, fun _ ↦ htombstone⟩, h.removals, fun _ ↦ hsettled⟩

/-- Every operation keeps the invariant. -/
theorem Inv.step (h : Inv ttlMs start s) (hstep : Step fromStr ttlMs s s') :
    Inv ttlMs start s' := by
  have hmarked (hmark : .stop ∈ s.marks ∨ .delete ∈ s.marks) : .stop ∈ s.marks ∨
      .delete ∈ s.marks ∨ Settled ttlMs s.summary s.times :=
    hmark.elim .inl fun hdelete ↦ .inr (.inl hdelete)
  have hfalse {p : Prop} (hnot : false = true) : p := absurd hnot Bool.false_ne_true
  cases hstep with
  | arrive role =>
    refine h.frame (fun t ht ↦ ?_) ?_ ?_ h.marks hmarked rfl rfl rfl rfl rfl (List.Subset.refl _)
    · rcases List.mem_append.mp ht with hold | hnew
      · exact .inl hold
      · rw [List.mem_singleton.mp hnew]
        exact .inr (.plain hfalse rfl rfl (by rintro ⟨⟩))
    · have hnone : Task.owns ⟨role, .begun, []⟩ = false := Bool.and_false _
      rw [List.countP_append, List.countP_singleton, hnone, if_neg Bool.false_ne_true]
      exact h.owners
    · rw [List.countP_append]
      exact Nat.le_add_right _ _
  | move hat hmove =>
    obtain ⟨howns, hwrote, ht'⟩ := hmove.spec h (mem_focus hat)
    exact h.frame (mem_tasks_replace hat (ht'.mono ⟨List.prefix_rfl, id⟩))
      (h.owners_replace hat howns) (wrote_replace hat hwrote) h.marks hmarked rfl rfl rfl rfl rfl
      (List.Subset.refl _)
  | look hat nowMs hlook =>
    obtain ⟨howns, hwrote, ht'⟩ := hlook.spec h (mem_focus hat)
    exact h.frame (mem_tasks_replace hat ht') (h.owners_replace hat howns)
      (wrote_replace hat hwrote) h.marks hmarked rfl rfl rfl rfl rfl (List.subset_cons_self _ _)
  | complete hat =>
    have hrole := (h.tasks _ (mem_focus hat)).role rfl
    refine h.frame (mem_tasks_replace hat (.plain (fun _ ↦ hrole) rfl rfl (by rintro ⟨⟩)))
      (h.owners_replace hat rfl) (wrote_replace hat (wrote_of_phase rfl)) ?_ (fun hmark ↦ ?_) rfl
      rfl rfl rfl rfl (List.Subset.refl _)
    · rw [h.marks]
      rfl
    · simp only [List.mem_cons, reduceCtorEq, false_or] at hmark
      exact hmarked hmark
  | @close l r role seen mark hat hlive hmark =>
    have hold := h.tasks _ (mem_focus hat)
    have hrole : role.reclaims = false := by
      rcases hmark with ⟨rfl, -⟩ | ⟨rfl, -⟩ <;> rfl
    refine h.frame (mem_tasks_replace hat (.plain hfalse rfl rfl (by rintro ⟨⟩)))
      (h.owners_replace hat ?_) (wrote_replace hat (wrote_of_phase rfl)) ?_
      (fun _ ↦ .inr (.inr (hold.settled (.inr ⟨rfl, hrole⟩)))) rfl rfl rfl rfl rfl
      (List.Subset.refl _)
    · rw [Task.owns, Task.owns, hrole]
      rfl
    · rw [h.marks]
      rfl
  | claim hat hphase hfree => exact h.claim hat hphase hfree
  | @beginDelete l r role arc run seen hat hentry hlive =>
    have hold := h.tasks _ (mem_focus hat)
    have hnew {s' : Reclaim} :
        s'.TaskInv ttlMs start ⟨role, .sent "run_deleted" (some arc), seen⟩ :=
      .appending hfalse rfl rfl rfl (by rintro ⟨⟩) hfalse (hold.wants _ rfl)
    refine h.frame (mem_tasks_replace hat hnew) (h.owners_replace hat rfl)
      (wrote_replace hat (wrote_of_phase rfl)) h.marks hmarked rfl rfl rfl ?_ rfl
      (List.Subset.refl _)
    rw [summary, summary, hentry]
    exact RunState.snapshot_beginDeleteAppend run
  | @fail l r role kind guard seen hat =>
    have hnew {s' : Reclaim} : s'.TaskInv ttlMs start ⟨role, unappended role, seen⟩ := by
      cases role <;> exact .plain (fun hphase ↦ by cases hphase <;> rfl) rfl rfl (by rintro ⟨⟩)
    refine h.frame (mem_tasks_replace hat hnew) (h.owners_replace hat ?_)
      (wrote_replace hat (wrote_of_phase rfl)) h.marks hmarked rfl rfl rfl
      (summary_rolledBack guard) rfl (List.Subset.refl _)
    cases role <;> rfl
  | commit hat event hkind _ => exact h.commit hat hkind
  | apply hnext => exact h.apply hnext
  | forget hentry hdeleted => exact h.forget hentry hdeleted
  | release hat => exact h.release hat
  | remove hat _ => exact h.remove hat
  | record hat =>
    have hold := h.tasks _ (mem_focus hat)
    exact h.frame (mem_tasks_replace hat
        (.ended (fun _ ↦ hold.role rfl) rfl (hold.settled (.inl rfl)) hfalse))
      (h.owners_replace hat rfl) (wrote_replace hat (wrote_of_phase rfl)) h.marks hmarked rfl rfl
      rfl rfl rfl (List.Subset.refl _)
  | forgetReclaimed =>
    exact h.frame (fun t ht ↦ .inl ht) h.owners (Nat.le_refl _) h.marks hmarked rfl rfl rfl rfl rfl
      (List.Subset.refl _)

end Reclaim

end Vidarax.Whip
