import Vidarax.Admission.System
import Vidarax.Base.Run

/-!
# Wake-ups of admission

Package `vidarax-core`, `crates/vidarax-core/src/admission.rs:329–383,449–491,567–580`.
A release, a grant from the queue and a timeout notify the waiter that is selected at that
instant. As long as time does not move the selection to another waiter before a thread goes
back to sleep, the selected waiter is notified in every state.
-/

namespace Vidarax.Admission

open Vidarax.Base

/-! ### Selection -/

namespace AdmissionState

variable {limits : AdmissionLimits} {state : AdmissionState} {now : Nat}

/-- The selected waiter is queued and could start. -/
theorem eligible_of_select {ticket : UInt64}
    (h : state.selectWaiter limits now = some ticket) :
    ∃ w ∈ state.waiters, w.ticket = ticket ∧ state.eligible limits now w := by
  obtain ⟨w, hw, rfl⟩ := Option.map_eq_some_iff.mp h
  have hmem := List.mem_filter.mp (List.minOn?_mem hw)
  exact ⟨w, hmem.1, rfl, hmem.2⟩

/-- Some waiter is selected if one could start. -/
theorem select_isSome_iff :
    (state.selectWaiter limits now).isSome ↔
      ∃ w ∈ state.waiters, state.eligible limits now w := by
  rw [selectWaiter, Option.isSome_map, List.isSome_minOn?_iff]
  simp [List.filter_eq_nil_iff]

/-- A waiter that could start later could start now. -/
theorem eligible_of_le {later : Nat} {w : Waiter} (hle : now ≤ later)
    (h : state.eligible limits later w) : state.eligible limits now w := by
  simp only [eligible, decide_eq_true_eq] at h ⊢
  exact ⟨Nat.lt_of_le_of_lt hle h.1, h.2⟩

/-- Where a waiter is selected later, some waiter is selected now. -/
theorem select_isSome_of_le {later : Nat} (hle : now ≤ later)
    (h : (state.selectWaiter limits later).isSome) : (state.selectWaiter limits now).isSome := by
  obtain ⟨w, hw, he⟩ := select_isSome_iff.mp h
  exact select_isSome_iff.mpr ⟨w, hw, eligible_of_le hle he⟩

/-- A grant frees no capacity. -/
theorem hasCapacity_of_markAcquired {principal stream q : String} {tokens bytes t b : UInt64}
    (h : (state.markAcquired principal stream tokens bytes).hasCapacity limits q t b) :
    state.hasCapacity limits q t b := by
  rw [hasCapacity_iff] at h ⊢
  obtain ⟨hactive, htokens, hbytes, hprincipal⟩ := h
  have hmono (x y z : UInt64) : satAdd x z ≤ satAdd (satAdd x y) z := by
    rw [UInt64.le_iff_toNat_le, toNat_satAdd, toNat_satAdd, toNat_satAdd]
    omega
  have hactiveOf : state.activeOf q ≤
      (state.markAcquired principal stream tokens bytes).activeOf q := by
    by_cases hq : q = principal
    · subst hq
      simp only [activeOf, markAcquired, AList.lookup_insert, entry]
      cases state.principals.lookup q
      · exact Nat.zero_le _
      · exact Nat.le_succ _
    · simp only [activeOf, markAcquired, AList.lookup_insert_ne hq]
      exact Nat.le_refl _
  exact ⟨Nat.lt_of_succ_lt hactive, UInt64.le_trans (hmono _ _ _) htokens,
    UInt64.le_trans (hmono _ _ _) hbytes,
    Nat.lt_of_le_of_lt hactiveOf hprincipal⟩

/-- After a grant on arrival no waiter is selected. -/
theorem select_markAcquired {principal stream : String} {tokens bytes t b : UInt64}
    {started : Nat} (hle : started ≤ now)
    (h : state.canAcquire limits principal t b none started) :
    (state.markAcquired principal stream tokens bytes).selectWaiter limits now = none := by
  by_contra hne
  rw [← ne_eq, Option.ne_none_iff_isSome, select_isSome_iff] at hne
  obtain ⟨w, hw, he⟩ := hne
  have hbefore : state.eligible limits started w := by
    apply eligible_of_le hle
    simp only [eligible, decide_eq_true_eq] at he ⊢
    exact ⟨he.1, hasCapacity_of_markAcquired he.2⟩
  have hsome : (state.selectWaiter limits started).isSome :=
    select_isSome_iff.mpr ⟨w, hw, hbefore⟩
  unfold canAcquire at h
  split at h
  · cases h
  · split at h
    · next hnil => exact List.ne_nil_of_mem hw hnil
    · rw [of_decide_eq_true h] at hsome
      cases hsome

/-- A newcomer is selected itself or leaves the selection alone. -/
theorem select_enqueue {w : Waiter} {ticket : UInt64}
    (h : (state.enqueue w).selectWaiter limits now = some ticket) :
    ticket = w.ticket ∨ state.selectWaiter limits now = some ticket := by
  have heligible : (state.enqueue w).eligible limits now = state.eligible limits now := by
    funext v
    simp only [eligible, hasCapacity_enqueue]
  have hkey : (state.enqueue w).selectionKey now = state.selectionKey now := rfl
  have hwaiters : (state.enqueue w).waiters = state.waiters ++ [w] := rfl
  rw [selectWaiter, heligible, hkey, hwaiters, List.filter_append, List.minOn?_append] at h
  by_cases he : state.eligible limits now w
  · rw [List.filter_cons_of_pos he, List.filter_nil, List.minOn?_singleton] at h
    rw [selectWaiter]
    cases hmin : (state.waiters.filter (state.eligible limits now)).minOn?
        (state.selectionKey now) with
    | none =>
      rw [hmin] at h
      exact .inl (Option.some_inj.mp h).symm
    | some v =>
      rw [hmin, Option.merge_some_some, Option.map_some] at h
      rcases minOn_eq_or (f := state.selectionKey now) (x := v) (y := w) with hv | hv
      · exact .inr (by rw [← h, hv, Option.map_some])
      · exact .inl (by rw [← Option.some_inj.mp h, hv])
  · rw [List.filter_cons_of_neg he, List.filter_nil, List.minOn?_nil, Option.merge_none_right] at h
    exact .inr h

end AdmissionState

/-! ### Notified waiters -/

namespace System

/-- The selected waiter, if there is one, holds a notification. -/
def SelectedNotified (limits : AdmissionLimits) (state : AdmissionState) (calls : List Call)
    (now : Nat) : Prop :=
  ∀ ticket, state.selectWaiter limits now = some ticket →
    ∃ c ∈ calls, c.ticket = ticket ∧ c.notified

variable {limits : AdmissionLimits} {s : System}

/-- No selection needs no notification. -/
theorem selectedNotified_of_none {state : AdmissionState} {calls : List Call} {now : Nat}
    (h : state.selectWaiter limits now = none) : SelectedNotified limits state calls now := by
  intro ticket hticket
  rw [h] at hticket
  cases hticket

/-- `notify_selected` reaches the selected thread. -/
theorem selectedNotified_signal {state : AdmissionState} {calls : List Call}
    (h : state.waiters = calls.map Call.waiter) (now : Nat) :
    SelectedNotified limits state (signal calls (state.notifySelected limits now)) now := by
  intro ticket hticket
  obtain ⟨w, hw, hwt, -⟩ := AdmissionState.eligible_of_select hticket
  -- the thread of the first waiter with the selected ticket
  obtain ⟨v, hv⟩ : ∃ v, state.waiters.find? (·.ticket = ticket) = some v := by
    rw [← Option.isSome_iff_exists, List.find?_isSome]
    exact ⟨w, hw, by simpa using hwt⟩
  have hvt : v.ticket = ticket := by simpa using List.find?_some hv
  have hvmem := List.mem_of_find?_eq_some hv
  rw [h] at hvmem
  obtain ⟨c, hc, rfl⟩ := List.mem_map.mp hvmem
  have hwake : state.notifySelected limits now = some c.wake := by
    simp only [AdmissionState.notifySelected, hticket, hv, Option.map_some]
    rfl
  refine ⟨{ c with notified := true }, ?_, hvt, rfl⟩
  rw [signal, hwake]
  exact List.mem_map.mpr ⟨c, hc, if_pos rfl⟩

/-- A thread that goes to sleep is not the selected one. -/
theorem Linked.select_ne_of_asleep (h : Linked s) {c : Call} {now : Nat} (hc : c ∈ s.calls)
    (ho : s.state.outcome limits c now = .asleep) :
    s.state.selectWaiter limits now ≠ some c.ticket := by
  intro hsel
  obtain ⟨w, hw, hwt, he⟩ := AdmissionState.eligible_of_select hsel
  have hne := List.ne_nil_of_mem hw
  -- the selected entry is the one of this thread
  rw [h.waiters_eq] at hw
  obtain ⟨d, hd, rfl⟩ := List.mem_map.mp hw
  have hdc : d = c := List.inj_on_of_nodup_map h.nodup hd hc hwt
  subst hdc
  have hcap : s.state.hasCapacity limits d.request.principal d.request.tokens d.request.bytes := by
    simp only [AdmissionState.eligible, decide_eq_true_eq] at he
    exact he.2
  have hcan : s.state.canAcquire limits d.request.principal d.request.tokens d.request.bytes
      (some d.ticket) now := by
    rw [AdmissionState.canAcquire, if_neg (not_not.mpr hcap), if_neg hne, hsel]
    exact decide_eq_true rfl
  rw [AdmissionState.outcome, if_pos hcan] at ho
  cases ho

/-- No wake-up is lost: the selected waiter is notified, and at no later instant is a waiter
selected while all of them sleep. -/
structure NoLostWakeup (limits : AdmissionLimits) (s : System) : Prop where
  selected : SelectedNotified limits s.state s.calls s.clock
  awake : ∀ now, s.clock ≤ now → (s.state.selectWaiter limits now).isSome →
    ∃ c ∈ s.calls, c.notified

/-- A notified selection outlasts the passage of time. -/
theorem noLostWakeup_of_selected (h : SelectedNotified limits s.state s.calls s.clock) :
    NoLostWakeup limits s where
  selected := h
  awake now hle hsome := by
    obtain ⟨ticket, hticket⟩ :=
      Option.isSome_iff_exists.mp (AdmissionState.select_isSome_of_le hle hsome)
    obtain ⟨c, hc, -, hn⟩ := h ticket hticket
    exact ⟨c, hc, hn⟩

/-- Time has moved the selection to no other waiter. -/
def Unmoved (limits : AdmissionLimits) (state : AdmissionState) (before now : Nat) : Prop :=
  ∀ ticket, state.selectWaiter limits now = some ticket →
    state.selectWaiter limits before = some ticket

/-- Without a selection nothing has moved. -/
theorem unmoved_of_none {state : AdmissionState} {before now : Nat}
    (h : state.selectWaiter limits now = none) : Unmoved limits state before now := by
  intro ticket hticket
  rw [h] at hticket
  cases hticket

/-- A thread goes to sleep only while the selection is the one of the last decision. -/
def Steady (limits : AdmissionLimits) (s : System) : Op → Prop
  | .acquire request waitTimeout elapsed lag _ =>
    let started := s.clock + elapsed - lag
    ∀ latestStart waitDeadline,
      s.state.arrive limits request waitTimeout started = .queued latestStart waitDeadline →
        let c := s.newCall request started latestStart waitDeadline
        (s.join c).state.outcome limits c (s.clock + elapsed) = .asleep →
          Unmoved limits s.state s.clock (s.clock + elapsed)
  | .wake index elapsed _ =>
    ∀ c, s.calls[index]? = some c → s.state.outcome limits c (s.clock + elapsed) = .asleep →
      Unmoved limits s.state s.clock (s.clock + elapsed)
  | .drop .. => True

/-- A turn leaves the selected waiter notified, if it was before a turn that ends asleep. -/
theorem Linked.selectedNotified_turn (h : Linked s) {index : Nat} {c : Call} (now spent : Nat)
    (hc : s.calls[index]? = some c)
    (hasleep : s.state.outcome limits c now = .asleep →
      SelectedNotified limits s.state s.calls now) :
    SelectedNotified limits (s.turn limits index now spent).state
      (s.turn limits index now spent).calls now := by
  cases ho : s.state.outcome limits c now with
  | granted =>
    rw [turn_granted hc ho]
    apply selectedNotified_signal
    rw [← h.eraseP_ticket hc]
    exact AdmissionState.removeWaiter_waiters ..
  | failed error =>
    rw [turn_failed hc ho]
    apply selectedNotified_signal
    rw [← h.eraseP_ticket hc]
    exact AdmissionState.removeWaiter_waiters ..
  | asleep =>
    rw [turn_asleep hc ho]
    intro ticket hticket
    obtain ⟨d, hd, rfl, hn⟩ := hasleep ho ticket hticket
    have hne : d ≠ c := by
      rintro rfl
      exact h.select_ne_of_asleep hd ho hticket
    refine ⟨d, ?_, rfl, hn⟩
    obtain ⟨i, hi, rfl⟩ := List.mem_iff_getElem.mp hd
    have hii : index ≠ i := by
      rintro rfl
      rw [List.getElem?_eq_getElem hi, Option.some_inj] at hc
      exact hne hc
    exact List.mem_iff_getElem.mpr ⟨i, by simpa using hi, List.getElem_set_ne hii _⟩

/-- A turn moves the clock to its instant. -/
theorem turn_clock {index : Nat} {c : Call} (now spent : Nat) (hc : s.calls[index]? = some c) :
    (s.turn limits index now spent).clock = now := by
  cases ho : s.state.outcome limits c now with
  | granted => rw [turn_granted hc ho]
  | failed error => rw [turn_failed hc ho]
  | asleep => rw [turn_asleep hc ho]

/-- A step that issues a fresh ticket and puts nobody to sleep over a moved selection leaves
the selected waiter notified. -/
theorem selectedNotified_step (hlinked : Linked s)
    (h : SelectedNotified limits s.state s.calls s.clock) (op : Op)
    (hfresh : FreshTicket limits s op) (hsteady : Steady limits s op) :
    SelectedNotified limits (s.step limits op).state (s.step limits op).calls
      (s.step limits op).clock := by
  cases op with
  | acquire request waitTimeout elapsed lag spent =>
    simp only [System.step]
    split
    · exact h
    · next harrive =>
      apply selectedNotified_of_none
      exact AdmissionState.select_markAcquired (Nat.sub_le _ _) (canAcquire_of_arrive harrive)
    · next latestStart waitDeadline harrive =>
      have hjoin := hlinked.join (c := s.newCall request (s.clock + elapsed - lag) latestStart
        waitDeadline) (hfresh _ _ harrive)
      rw [turn_clock _ _ (join_getElem? _ _)]
      apply hjoin.selectedNotified_turn _ _ (join_getElem? _ _)
      intro ho ticket hticket
      have hne : ticket ≠ s.state.nextTicket := by
        rintro rfl
        exact hjoin.select_ne_of_asleep (List.mem_of_getElem? (join_getElem? _ _)) ho hticket
      have hbefore := (AdmissionState.select_enqueue hticket).resolve_left hne
      obtain ⟨c, hc, hct, hn⟩ := h ticket (hsteady _ _ harrive ho ticket hbefore)
      exact ⟨c, List.mem_append_left _ hc, hct, hn⟩
  | wake index elapsed spent =>
    simp only [System.step]
    cases hc : s.calls[index]? with
    | none =>
      rw [turn_none hc]
      exact h
    | some c =>
      rw [turn_clock _ _ hc]
      apply hlinked.selectedNotified_turn _ _ hc
      intro ho ticket hticket
      exact h ticket (hsteady c hc ho ticket hticket)
  | drop index elapsed =>
    simp only [System.step]
    split
    · exact h
    · apply selectedNotified_signal
      rw [AdmissionState.release_waiters]
      exact hlinked.waiters_eq

/-- No lost wake-up: in every state that a run reaches whose steps issue fresh tickets and put
a thread to sleep only over an unmoved selection. -/
theorem wakeup_not_lost (limits : AdmissionLimits) (ops : List Op)
    (h : Meets (step limits) (fun s op ↦ FreshTicket limits s op ∧ Steady limits s op) initial
      ops) :
    NoLostWakeup limits (run limits initial ops) := by
  apply noLostWakeup_of_selected
  have hinit : Linked initial ∧ SelectedNotified limits initial.state initial.calls initial.clock :=
    ⟨linked_initial, selectedNotified_of_none rfl⟩
  refine (h.foldl (fun s ↦ Linked s ∧ SelectedNotified limits s.state s.calls s.clock)
    hinit ?_).2
  rintro s op ⟨hlinked, hsel⟩ ⟨hfresh, hsteady⟩
  exact ⟨hlinked.step op hfresh, selectedNotified_step hlinked hsel op hfresh hsteady⟩

/-- A waiter that wakes too early sleeps again, and is notified by the drop of the permit. -/
theorem wakeup_not_lost_sample :
    let limits : AdmissionLimits := ⟨1, 1, 2, 30000000000, 1, 1⟩
    NoLostWakeup limits (run limits initial
      [.acquire ⟨"p", "s", .live, 10000000000, 0, 0, 0⟩ 30000000000 0 0 0,
        .acquire ⟨"a", "t", .urgentLive, 10000000000, 0, 0, 0⟩ 30000000000 0 0 0,
        .wake 0 50000000 0, .drop 0 50000000]) := by
  apply wakeup_not_lost
  refine ⟨⟨?_, ?_⟩, ⟨?_, ?_⟩, ⟨trivial, ?_⟩, ⟨trivial, trivial⟩, trivial⟩
  · exact fun _ _ _ ↦ by decide +kernel
  · exact fun _ _ _ _ ↦ unmoved_of_none (by decide +kernel)
  · exact fun _ _ _ ↦ by decide +kernel
  · exact fun _ _ _ _ ↦ unmoved_of_none (by decide +kernel)
  · exact fun _ _ _ ↦ unmoved_of_none (by decide +kernel)

/-- The urgent waiter is notified at 100 ms. When it wakes at 250 ms the other one is promoted
and selected, so it sleeps again, and so does the selected one. -/
theorem wakeup_lost :
    let limits : AdmissionLimits := ⟨1, 1, 2, 30000000000, 1, 1⟩
    let s := run limits initial
      [.acquire ⟨"p", "s", .live, 10000000000, 0, 0, 0⟩ 30000000000 0 0 0,
        .acquire ⟨"a", "t", .urgentLive, 10000000000, 0, 0, 0⟩ 30000000000 0 0 0,
        .acquire ⟨"b", "u", .live, 1000000000, 0, 0, 0⟩ 30000000000 0 0 0,
        .drop 0 100000000, .wake 0 150000000 0]
    limits.validate = .ok limits ∧ s.state.active = 0 ∧
      s.state.selectWaiter limits s.clock = some 1 ∧ ∀ c ∈ s.calls, ¬ c.notified := by
  decide +kernel

end System

end Vidarax.Admission
