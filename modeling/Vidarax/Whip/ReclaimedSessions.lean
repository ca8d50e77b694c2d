import Mathlib.Data.List.Dedup
import Mathlib.Data.List.Nodup
import Vidarax.Base.Retention
import Vidarax.Base.Table

/-!
# The registry of reclaimed sessions

Package `vidarax-api`, `crates/vidarax-api/src/state.rs:64–65,100–170`. Who owned a session that was
reclaimed is remembered for some time, and for a limited number of sessions. A map holds the records
and a queue their order. Together they are a list of entries that are kept for a time.
-/

namespace Vidarax.Whip

open Vidarax.Base

/-- `RECLAIMED_SESSION_TTL_MS`. -/
def RECLAIMED_SESSION_TTL_MS : Nat := 10 * 60 * 1000

/-- `RECLAIMED_SESSION_MAX_ENTRIES`. -/
def RECLAIMED_SESSION_MAX_ENTRIES : Nat := 1024

/-- `ReclaimedSessionRecord`; `state.rs:106`. -/
structure ReclaimedSessionRecord where
  principal : String
  runId : String
  reclaimedAtMs : Nat

/-- `ReclaimedSessions`; `state.rs:101`. -/
structure ReclaimedSessions where
  entries : Table String ReclaimedSessionRecord
  order : List String

namespace ReclaimedSessions

/-- A registry without sessions. -/
def empty : ReclaimedSessions := ⟨∅, []⟩

/-- The loop of `prune_expired`, on the queue; `state.rs:148`. -/
def pruneExpiredFrom (nowMs : Nat) (entries : Table String ReclaimedSessionRecord) :
    List String → ReclaimedSessions
  | [] => ⟨entries, []⟩
  | sessId :: order =>
    match entries[sessId]? with
    | none => pruneExpiredFrom nowMs entries order
    | some entry =>
      if nowMs - entry.reclaimedAtMs ≤ RECLAIMED_SESSION_TTL_MS then ⟨entries, sessId :: order⟩
      else pruneExpiredFrom nowMs (entries.erase sessId) order

/-- `prune_expired`. -/
def pruneExpired (sessions : ReclaimedSessions) (nowMs : Nat) : ReclaimedSessions :=
  pruneExpiredFrom nowMs sessions.entries sessions.order

/-- The loop of `enforce_cap`, on the queue; `state.rs:163`. -/
def enforceCapFrom (entries : Table String ReclaimedSessionRecord) : List String → ReclaimedSessions
  | [] => ⟨entries, []⟩
  | sessId :: order =>
    if RECLAIMED_SESSION_MAX_ENTRIES < entries.size then enforceCapFrom (entries.erase sessId) order
    else ⟨entries, sessId :: order⟩

/-- `enforce_cap`. -/
def enforceCap (sessions : ReclaimedSessions) : ReclaimedSessions :=
  enforceCapFrom sessions.entries sessions.order

/-- `insert`; `state.rs:113`. -/
def insert (sessions : ReclaimedSessions) (sessId principal runId : String) (nowMs : Nat) :
    ReclaimedSessions :=
  let sessions := sessions.pruneExpired nowMs
  let order := if sessions.entries.contains sessId then sessions.order.filter (· ≠ sessId)
    else sessions.order
  enforceCap ⟨sessions.entries.insert sessId ⟨principal, runId, nowMs⟩, order ++ [sessId]⟩

/-- `get`: the principal and the run, and the registry after it; `state.rs:131`. -/
def get (sessions : ReclaimedSessions) (sessId : String) (nowMs : Nat) :
    Option (String × String) × ReclaimedSessions :=
  let sessions := sessions.pruneExpired nowMs
  (sessions.entries[sessId]?.map fun entry ↦ (entry.principal, entry.runId), sessions)

/-- `remove`; `state.rs:138`. -/
def remove (sessions : ReclaimedSessions) (sessId : String) : ReclaimedSessions :=
  ⟨sessions.entries.erase sessId, sessions.order.filter (· ≠ sessId)⟩

/-- One call; an entry that is inserted holds the principal and the run. -/
def apply (sessions : ReclaimedSessions) : Use String (String × String) → ReclaimedSessions
  | .insert e => sessions.insert e.key e.value.1 e.value.2 e.stamp
  | .get sessId nowMs => (sessions.get sessId nowMs).2
  | .remove sessId => sessions.remove sessId

/-- The registry after some calls. -/
def after (calls : List (Use String (String × String))) : ReclaimedSessions :=
  calls.foldl apply empty

/-! ### The registry is a list of entries -/

/-- A record as it is held for an entry. -/
def record (e : Entry String (String × String)) : ReclaimedSessionRecord :=
  ⟨e.value.1, e.value.2, e.stamp⟩

/-- The map and the queue hold some entries, each under its own key. -/
structure Holds (sessions : ReclaimedSessions) (kept : List (Entry String (String × String))) :
    Prop where
  nodup : (kept.map Entry.key).Nodup
  order_eq : sessions.order = kept.map Entry.key
  entry : ∀ e ∈ kept, sessions.entries[e.key]? = some (record e)
  absent : ∀ key, key ∉ kept.map Entry.key → sessions.entries[key]? = none

variable {sessions : ReclaimedSessions} {kept : List (Entry String (String × String))}
  {entries : Table String ReclaimedSessionRecord} {order : List String}
  {e : Entry String (String × String)}

theorem Holds.key_ne (h : Holds sessions (e :: kept)) {x : Entry String (String × String)}
    (hx : x ∈ kept) : x.key ≠ e.key := by
  intro heq
  apply (List.nodup_cons.mp h.nodup).1
  rw [← heq]
  exact List.mem_map_of_mem hx

/-- Without its first entry. -/
theorem Holds.tail (h : Holds ⟨entries, e.key :: order⟩ (e :: kept)) :
    Holds ⟨entries.erase e.key, order⟩ kept where
  nodup := (List.nodup_cons.mp h.nodup).2
  order_eq := (List.cons_eq_cons.mp h.order_eq).2
  entry x hx := by
    rw [Table.get?_erase_ne _ (h.key_ne hx)]
    exact h.entry x (List.mem_cons_of_mem _ hx)
  absent key hkey := by
    by_cases heq : key = e.key
    · rw [heq, Std.ExtTreeMap.getElem?_erase_self]
    · rw [Table.get?_erase_ne _ heq]
      exact h.absent key fun hmem ↦ (List.mem_cons.mp hmem).elim heq hkey

/-- The queue holds the keys of the map. -/
theorem Holds.mem_order (h : Holds sessions kept) (key : String) :
    key ∈ sessions.order ↔ key ∈ sessions.entries := by
  rw [h.order_eq, Std.ExtTreeMap.mem_iff_isSome_getElem?]
  constructor
  · intro hkey
    obtain ⟨x, hx, rfl⟩ := List.mem_map.mp hkey
    rw [h.entry x hx]
    rfl
  · intro hsome
    by_contra hkey
    rw [h.absent key hkey] at hsome
    cases hsome

/-- The map has as many records as the queue has keys. -/
theorem Holds.size_eq (h : Holds sessions kept) : sessions.entries.size = kept.length := by
  have hperm : sessions.entries.keys.Perm sessions.order := by
    apply (List.perm_ext_iff_of_nodup Std.ExtTreeMap.nodup_keys (h.order_eq ▸ h.nodup)).mpr
    intro key
    rw [Std.ExtTreeMap.mem_keys, h.mem_order]
  rw [← Std.ExtTreeMap.length_keys, hperm.length_eq, h.order_eq, List.length_map]

theorem Holds.pruneExpired (h : Holds sessions kept) (nowMs : Nat) :
    Holds (sessions.pruneExpired nowMs) (fresh RECLAIMED_SESSION_TTL_MS nowMs kept) := by
  obtain ⟨entries, order⟩ := sessions
  change Holds (pruneExpiredFrom nowMs entries order) _
  induction kept generalizing entries order with
  | nil =>
    have horder : order = [] := h.order_eq
    subst horder
    exact h
  | cons e kept ih =>
    have horder : order = e.key :: kept.map Entry.key := h.order_eq
    subst horder
    have hprune : pruneExpiredFrom nowMs entries (e.key :: kept.map Entry.key) =
        if nowMs - e.stamp ≤ RECLAIMED_SESSION_TTL_MS then ⟨entries, e.key :: kept.map Entry.key⟩
        else pruneExpiredFrom nowMs (entries.erase e.key) (kept.map Entry.key) := by
      rw [pruneExpiredFrom, h.entry e List.mem_cons_self]
      rfl
    rw [hprune]
    split
    · next hle =>
      rw [fresh_cons_of_le hle]
      exact h
    · next hlt =>
      rw [fresh_cons_of_lt (Nat.not_le.mp hlt)]
      exact ih _ _ h.tail

theorem Holds.enforceCap (h : Holds sessions kept) :
    Holds sessions.enforceCap (latest RECLAIMED_SESSION_MAX_ENTRIES kept) := by
  obtain ⟨entries, order⟩ := sessions
  change Holds (enforceCapFrom entries order) _
  induction kept generalizing entries order with
  | nil =>
    have horder : order = [] := h.order_eq
    subst horder
    rw [latest, List.drop_nil]
    exact h
  | cons e kept ih =>
    have horder : order = e.key :: kept.map Entry.key := h.order_eq
    subst horder
    rw [enforceCapFrom, h.size_eq, latest, List.length_cons]
    split
    · next hfull =>
      rw [Nat.succ_sub (Nat.le_of_lt_succ hfull), List.drop_succ_cons]
      exact ih _ _ h.tail
    · next hroom =>
      rw [Nat.sub_eq_zero_of_le (Nat.not_lt.mp hroom)]
      exact h

theorem map_key_without (key : String) (kept : List (Entry String (String × String))) :
    (without key kept).map Entry.key = (kept.map Entry.key).filter (· ≠ key) := by
  rw [List.filter_map]
  rfl

theorem Holds.remove (h : Holds sessions kept) (sessId : String) :
    Holds (sessions.remove sessId) (without sessId kept) where
  nodup := h.nodup.sublist (List.filter_sublist.map _)
  order_eq := by rw [map_key_without, ← h.order_eq]; rfl
  entry x hx := by
    obtain ⟨hx, hne⟩ := mem_without.mp hx
    rw [← h.entry x hx]
    exact Table.get?_erase_ne _ hne
  absent key hkey := by
    by_cases heq : key = sessId
    · rw [heq]
      exact Std.ExtTreeMap.getElem?_erase_self
    · refine (Table.get?_erase_ne _ heq).trans (h.absent key fun hmem ↦ hkey ?_)
      rw [map_key_without, List.mem_filter]
      exact ⟨hmem, decide_eq_true heq⟩

theorem Holds.put (h : Holds sessions kept) (e : Entry String (String × String)) :
    Holds ⟨sessions.entries.insert e.key (record e),
      (if sessions.entries.contains e.key then sessions.order.filter (· ≠ e.key)
        else sessions.order) ++ [e.key]⟩ (put e kept) where
  nodup := by
    rw [Vidarax.Base.put, List.map_append, map_key_without]
    refine List.nodup_append.mpr ⟨h.nodup.sublist List.filter_sublist, List.pairwise_singleton _ _, ?_⟩
    intro a ha b hb
    rw [List.mem_singleton.mp hb]
    exact of_decide_eq_true (List.mem_filter.mp ha).2
  order_eq := by
    rw [Vidarax.Base.put, List.map_append, map_key_without, ← h.order_eq, List.map_singleton]
    split
    · rfl
    · next habsent =>
      have hall : ∀ key ∈ sessions.order, decide (key ≠ e.key) = true := by
        intro key hkey
        apply decide_eq_true
        rintro rfl
        exact habsent ((h.mem_order _).mp hkey)
      rw [List.filter_eq_self.mpr hall]
  entry x hx := by
    rcases List.mem_append.mp hx with hx | hx
    · obtain ⟨hx, hne⟩ := mem_without.mp hx
      exact (Table.get?_insert_ne _ _ hne).trans (h.entry x hx)
    · rw [List.mem_singleton.mp hx]
      exact Std.ExtTreeMap.getElem?_insert_self
  absent key hkey := by
    rw [Vidarax.Base.put, List.map_append, map_key_without, List.mem_append, not_or] at hkey
    have hne : key ≠ e.key := fun heq ↦ hkey.2 (List.mem_singleton.mpr heq)
    refine (Table.get?_insert_ne _ _ hne).trans (h.absent key fun hmem ↦ hkey.1 ?_)
    exact List.mem_filter.mpr ⟨hmem, decide_eq_true hne⟩

/-- Every call keeps the map and the queue together. -/
theorem Holds.apply (h : Holds sessions kept) (call : Use String (String × String)) :
    Holds (sessions.apply call)
      (retain RECLAIMED_SESSION_TTL_MS RECLAIMED_SESSION_MAX_ENTRIES kept call) := by
  cases call with
  | insert e => exact ((h.pruneExpired e.stamp).put e).enforceCap
  | get sessId nowMs => exact h.pruneExpired nowMs
  | remove sessId => exact h.remove sessId

/-- The registry holds what is kept of the calls. -/
theorem holds_after (calls : List (Use String (String × String))) :
    Holds (after calls)
      (retained RECLAIMED_SESSION_TTL_MS RECLAIMED_SESSION_MAX_ENTRIES calls) := by
  induction calls using List.reverseRecOn with
  | nil => exact ⟨List.nodup_nil, rfl, nofun, fun _ _ ↦ Std.ExtTreeMap.getElem?_empty⟩
  | append_singleton calls call ih =>
    rw [after, List.foldl_concat, retained_concat]
    exact ih.apply call

/-- What is found under a key is the record of its entry. -/
theorem Holds.get_iff (h : Holds sessions kept) {key principal runId : String} :
    (sessions.entries[key]?.map fun entry ↦ (entry.principal, entry.runId)) =
        some (principal, runId) ↔ ∃ t, (⟨key, (principal, runId), t⟩ : Entry _ _) ∈ kept := by
  constructor
  · intro hget
    obtain ⟨entry, hentry, hpair⟩ := Option.map_eq_some_iff.mp hget
    have hmem : key ∈ kept.map Entry.key := by
      by_contra hkey
      rw [h.absent key hkey] at hentry
      cases hentry
    obtain ⟨x, hx, rfl⟩ := List.mem_map.mp hmem
    obtain rfl := Option.some.inj ((h.entry x hx).symm.trans hentry)
    cases hpair
    exact ⟨x.stamp, hx⟩
  · rintro ⟨t, hmem⟩
    rw [h.entry _ hmem]
    rfl

end ReclaimedSessions

open ReclaimedSessions Use

/-- The queue holds the keys of the map, each once and in the order of last insertion, and not too
many. A session is found with the owner of its last insertion when it has not been removed since, is
not too old, and at no moment since were there too many other sessions inserted after it and not
removed. -/
theorem after_spec (calls : List (Use String (String × String))) :
    (after calls).order.Nodup ∧ (∀ key, key ∈ (after calls).order ↔ key ∈ (after calls).entries) ∧
      (after calls).order <:+ (standing calls).map Entry.key ∧
      (after calls).order.length ≤ RECLAIMED_SESSION_MAX_ENTRIES ∧
      ∀ (sessId : String) (nowMs : Nat), Timed (calls ++ [.get sessId nowMs]) →
        ∀ principal runId, ((after calls).get sessId nowMs).1 = some (principal, runId) ↔
          ∃ before later t, calls = before ++ .insert ⟨sessId, (principal, runId), t⟩ :: later ∧
            Untouched sessId later ∧ nowMs - t ≤ RECLAIMED_SESSION_TTL_MS ∧
            ∀ seen, seen <+: later → (standing seen).length < RECLAIMED_SESSION_MAX_ENTRIES := by
  have h := holds_after calls
  refine ⟨h.order_eq ▸ h.nodup, h.mem_order, ?_, ?_, ?_⟩
  · rw [h.order_eq]
    exact (retained_suffix _ _ _).map _
  · rw [h.order_eq, List.length_map]
    exact length_retained_le _ _ _
  · intro sessId nowMs htimed principal runId
    have hcap : 0 < RECLAIMED_SESSION_MAX_ENTRIES := by decide
    rw [ReclaimedSessions.get, (h.pruneExpired nowMs).get_iff]
    simp only [mem_fresh_retained_iff hcap htimed]
    constructor
    · rintro ⟨t, before, later, hcalls⟩
      exact ⟨before, later, t, hcalls⟩
    · rintro ⟨before, later, t, hcalls⟩
      exact ⟨t, before, later, hcalls⟩

/-- A session that was reclaimed a minute ago is found. -/
theorem after_spec_sample :
    ((after [.insert ⟨"sess", ("tenant", "run"), 5⟩]).get "sess" 60005).1 = some ("tenant", "run") :=
  ((after_spec _).2.2.2.2 "sess" 60005 (by simp [Timed, Use.time]) "tenant" "run").mpr
    ⟨[], [], 5, rfl, nofun, by decide, by
      intro seen hseen
      rw [List.prefix_nil.mp hseen]
      decide⟩

/-! ### Sessions that come and go -/

/-- Ids of the insertions among some calls. -/
def insertedIds (calls : List (Use String (String × String))) : List String :=
  calls.filterMap fun
    | .insert e => some e.key
    | _ => none

/-- A session that is reclaimed first. -/
def owned : Entry String (String × String) := ⟨"sess", ("tenant", "run"), 0⟩

/-- Another session. -/
def passing (i : Nat) : Entry String (String × String) :=
  ⟨String.ofList (List.replicate (i + 1) 'x'), ("tenant", "run"), 0⟩

/-- Some other sessions that are reclaimed, each removed before the next. -/
def churn (n : Nat) : List (Use String (String × String)) :=
  (List.range n).flatMap fun i ↦ [.insert (passing i), .remove (passing i).key]

theorem key_passing_ne (i : Nat) : (passing i).key ≠ owned.key := by
  intro h
  have howned : owned.key = String.ofList ['s', 'e', 's', 's'] := by decide
  cases String.ofList_injective (h.trans howned)

theorem key_passing_injective : Function.Injective fun i ↦ (passing i).key := by
  intro i j h
  have hlength := congrArg List.length (String.ofList_injective h)
  simpa using hlength

theorem insertedIds_churn (n : Nat) :
    insertedIds (churn n) = (List.range n).map fun i ↦ (passing i).key := by
  rw [insertedIds, churn, List.filterMap_flatMap, List.map_eq_flatMap]
  rfl

/-- A session that is removed again leaves the first one where it is. -/
theorem foldl_churn (indices : List Nat) :
    (indices.flatMap fun i ↦ [Use.insert (passing i), .remove (passing i).key]).foldl
      (retain RECLAIMED_SESSION_TTL_MS RECLAIMED_SESSION_MAX_ENTRIES) [owned] = [owned] := by
  induction indices with
  | nil => rfl
  | cons i indices ih =>
    have hne := key_passing_ne i
    have hinsert : retain RECLAIMED_SESSION_TTL_MS RECLAIMED_SESSION_MAX_ENTRIES [owned]
        (.insert (passing i)) = [owned, passing i] := by
      have hput : put (passing i) [owned] = [owned, passing i] := by simp [put, without, hne.symm]
      rw [retain, fresh_cons_of_le (Nat.zero_le _), hput,
        latest_of_le (show 2 ≤ RECLAIMED_SESSION_MAX_ENTRIES by decide)]
    have hremove : retain RECLAIMED_SESSION_TTL_MS RECLAIMED_SESSION_MAX_ENTRIES
        [owned, passing i] (.remove (passing i).key) = [owned] := by
      simp [retain, without, hne.symm]
    rw [List.flatMap_cons, List.foldl_append, List.foldl_cons, List.foldl_cons, List.foldl_nil,
      hinsert, hremove]
    exact ih

/-- A session is found although as many others as there is room for were inserted after it. -/
theorem found_after_churn :
    ¬(((after (.insert owned :: churn RECLAIMED_SESSION_MAX_ENTRIES)).get "sess" 0).1 =
        some ("tenant", "run") ↔
      ∃ before later t, (.insert owned :: churn RECLAIMED_SESSION_MAX_ENTRIES : List (Use _ _)) =
          before ++ .insert ⟨"sess", ("tenant", "run"), t⟩ :: later ∧
        Untouched "sess" later ∧ 0 - t ≤ RECLAIMED_SESSION_TTL_MS ∧
        (insertedIds later).dedup.length < RECLAIMED_SESSION_MAX_ENTRIES) := by
  have hkept : retained RECLAIMED_SESSION_TTL_MS RECLAIMED_SESSION_MAX_ENTRIES
      (.insert owned :: churn RECLAIMED_SESSION_MAX_ENTRIES) = [owned] := by
    have hfirst : retain RECLAIMED_SESSION_TTL_MS RECLAIMED_SESSION_MAX_ENTRIES []
        (.insert owned) = [owned] := latest_of_le (by decide)
    rw [retained, List.foldl_cons, hfirst]
    exact foldl_churn (List.range RECLAIMED_SESSION_MAX_ENTRIES)
  have hids := insertedIds_churn RECLAIMED_SESSION_MAX_ENTRIES
  have hcount : (insertedIds (churn RECLAIMED_SESSION_MAX_ENTRIES)).dedup.length =
      RECLAIMED_SESSION_MAX_ENTRIES := by
    have hnodup := List.Nodup.map key_passing_injective
      (List.nodup_range (n := RECLAIMED_SESSION_MAX_ENTRIES))
    rw [hids, hnodup.dedup, List.length_map, List.length_range]
  generalize churn RECLAIMED_SESSION_MAX_ENTRIES = rest at hkept hids hcount ⊢
  have hholds := (holds_after (.insert owned :: rest)).pruneExpired 0
  rw [hkept, fresh_cons_of_le (by decide)] at hholds
  intro hiff
  obtain ⟨before, later, t, hcalls, -, -, hfew⟩ :=
    hiff.mp (hholds.get_iff.mpr ⟨0, List.mem_singleton.mpr rfl⟩)
  cases before with
  | nil =>
    obtain ⟨-, rfl⟩ := List.cons_eq_cons.mp hcalls
    exact absurd hcount (Nat.ne_of_lt hfew)
  | cons call before =>
    obtain ⟨-, hrest⟩ := List.cons_eq_cons.mp hcalls
    have hmem : "sess" ∈ insertedIds rest := by
      refine List.mem_filterMap.mpr ⟨.insert ⟨"sess", ("tenant", "run"), t⟩, ?_, rfl⟩
      rw [hrest]
      exact List.mem_append_right before List.mem_cons_self
    rw [hids] at hmem
    obtain ⟨i, -, hi⟩ := List.mem_map.mp hmem
    exact key_passing_ne i hi

end Vidarax.Whip
