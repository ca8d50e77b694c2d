import Mathlib.Data.List.Infix
import Mathlib.Data.List.Pairwise

/-!
# Entries that are kept for a time

Library `Base`. A list of entries with keys, the last inserted one at its end. An entry goes when it
is removed, when it has become too old, and when too many entries stand behind it. Beside it the
list of what stands when nothing is too old and nothing is too much.
-/

namespace Vidarax.Base

/-- A value under a key, with the time it was inserted. -/
structure Entry (K V : Type) where
  key : K
  value : V
  stamp : Nat

/-- What is done with the entries. -/
inductive Use (K V : Type) where
  | insert (e : Entry K V)
  | get (key : K) (now : Nat)
  | remove (key : K)

namespace Use

variable {K V : Type}

/-- When it is done, if this is looked at. -/
def time : Use K V → Option Nat
  | insert e => some e.stamp
  | get _ now => some now
  | remove _ => none

/-- The key that is inserted or removed. -/
def touched : Use K V → Option K
  | insert e => some e.key
  | get _ _ => none
  | remove key => some key

/-- Times do not decrease. -/
def Timed (uses : List (Use K V)) : Prop := (uses.filterMap time).Pairwise (· ≤ ·)

/-- A key is not inserted or removed. -/
def Untouched (key : K) (uses : List (Use K V)) : Prop := ∀ u ∈ uses, u.touched ≠ some key

end Use

open Use

variable {K V : Type} [DecidableEq K] {ttl cap : Nat} {e : Entry K V} {entries : List (Entry K V)}
  {u : Use K V} {uses : List (Use K V)}

/-- Entries without those under a key. -/
def without (key : K) (entries : List (Entry K V)) : List (Entry K V) :=
  entries.filter fun e ↦ e.key ≠ key

/-- Entries with one more at the end, that replaces what is under its key. -/
def put (e : Entry K V) (entries : List (Entry K V)) : List (Entry K V) := without e.key entries ++ [e]

/-- Entries that are not too old. -/
def fresh (ttl now : Nat) (entries : List (Entry K V)) : List (Entry K V) :=
  entries.dropWhile fun e ↦ ttl < now - e.stamp

/-- As many entries as there is room for. -/
def latest (cap : Nat) (entries : List (Entry K V)) : List (Entry K V) :=
  entries.drop (entries.length - cap)

/-- One use of what stands. -/
def stand (entries : List (Entry K V)) : Use K V → List (Entry K V)
  | .insert e => put e entries
  | .get _ _ => entries
  | .remove key => without key entries

/-- One use of what is kept. -/
def retain (ttl cap : Nat) (entries : List (Entry K V)) : Use K V → List (Entry K V)
  | .insert e => latest cap (put e (fresh ttl e.stamp entries))
  | .get _ now => fresh ttl now entries
  | .remove key => without key entries

/-- What was inserted and not removed, in the order of last insertion. -/
def standing (uses : List (Use K V)) : List (Entry K V) := uses.foldl stand []

/-- What is kept of it. -/
def retained (ttl cap : Nat) (uses : List (Use K V)) : List (Entry K V) :=
  uses.foldl (retain ttl cap) []

@[simp] theorem standing_concat : standing (uses ++ [u]) = stand (standing uses) u :=
  List.foldl_concat _ _ _ _

@[simp] theorem retained_concat :
    retained ttl cap (uses ++ [u]) = retain ttl cap (retained ttl cap uses) u :=
  List.foldl_concat _ _ _ _

@[simp] theorem mem_without {key : K} : e ∈ without key entries ↔ e ∈ entries ∧ e.key ≠ key := by
  rw [without, List.mem_filter, decide_eq_true_iff]

/-- What stands after one more use. -/
theorem mem_stand : e ∈ stand entries u ↔
    u = .insert e ∨ (e ∈ entries ∧ u.touched ≠ some e.key) := by
  cases u with
  | insert x =>
    rw [stand, put, List.mem_append, mem_without, List.mem_singleton, Use.insert.injEq, or_comm,
      eq_comm (a := e)]
    simp only [touched, ne_eq, Option.some.injEq, eq_comm (a := e.key)]
  | get key now => simp [stand, touched]
  | remove key => simp [stand, touched, eq_comm]

omit [DecidableEq K] in
/-- An insertion that nothing has touched since, with one more use. -/
theorem exists_untouched_concat : (∃ before after, uses ++ [u] = before ++ .insert e :: after ∧
      Untouched e.key after) ↔ u = .insert e ∨ ((∃ before after,
        uses = before ++ .insert e :: after ∧ Untouched e.key after) ∧ u.touched ≠ some e.key) := by
  constructor
  · rintro ⟨before, after, huses, hafter⟩
    rcases List.eq_nil_or_concat after with rfl | ⟨front, last, rfl⟩
    · exact .inl (List.singleton_inj.mp (List.append_inj' huses rfl).2)
    · rw [List.concat_eq_append, ← List.cons_append, ← List.append_assoc] at huses
      obtain ⟨hfront, hlast⟩ := List.append_inj' huses rfl
      rw [List.concat_eq_append] at hafter
      refine .inr ⟨⟨before, front, hfront, fun x hx ↦ hafter x (List.mem_append_left _ hx)⟩, ?_⟩
      rw [List.singleton_inj.mp hlast]
      exact hafter last (List.mem_append_right _ List.mem_cons_self)
  · rintro (rfl | ⟨⟨before, after, rfl, hafter⟩, hu⟩)
    · exact ⟨uses, [], rfl, nofun⟩
    · refine ⟨before, after ++ [u], by rw [List.append_assoc]; rfl, fun x hx ↦ ?_⟩
      rcases List.mem_append.mp hx with hx | hx
      · exact hafter x hx
      · rwa [List.mem_singleton.mp hx]

/-! ### What stands -/

theorem retain_suffix {kept : List (Entry K V)} (h : kept <:+ entries) (u : Use K V) :
    retain ttl cap kept u <:+ stand entries u := by
  cases u with
  | insert e =>
    have hfresh : fresh ttl e.stamp kept <:+ entries := (List.dropWhile_suffix _).trans h
    obtain ⟨front, hfront⟩ := hfresh.filter fun x ↦ x.key ≠ e.key
    refine (List.drop_suffix _ _).trans ⟨front, ?_⟩
    rw [put, without, ← List.append_assoc, hfront]
    rfl
  | get key now => exact (List.dropWhile_suffix _).trans h
  | remove key => exact h.filter _

/-- What is kept is the last part of what stands. -/
theorem retained_suffix (ttl cap : Nat) (uses : List (Use K V)) :
    retained ttl cap uses <:+ standing uses := by
  induction uses using List.reverseRecOn with
  | nil => exact List.suffix_rfl
  | append_singleton uses u ih =>
    rw [retained_concat, standing_concat]
    exact retain_suffix ih u

/-- Keys stand once. -/
theorem nodup_standing (uses : List (Use K V)) : ((standing uses).map Entry.key).Nodup := by
  induction uses using List.reverseRecOn with
  | nil => exact List.nodup_nil
  | append_singleton uses u ih =>
    have hwithout (key : K) : ((without key (standing uses)).map Entry.key).Nodup :=
      ih.sublist (List.filter_sublist.map _)
    rw [standing_concat]
    cases u with
    | insert e =>
      rw [stand, put, List.map_append, List.map_singleton]
      refine List.nodup_append.mpr ⟨hwithout e.key, List.pairwise_singleton _ _, ?_⟩
      intro a ha b hb
      obtain ⟨x, hx, rfl⟩ := List.mem_map.mp ha
      rw [List.mem_singleton.mp hb]
      exact (mem_without.mp hx).2
    | get key now => exact ih
    | remove key => exact hwithout key

/-- There is no more than there is room for. -/
theorem length_retained_le (ttl cap : Nat) (uses : List (Use K V)) :
    (retained ttl cap uses).length ≤ cap := by
  induction uses using List.reverseRecOn with
  | nil => exact Nat.zero_le _
  | append_singleton uses u ih =>
    rw [retained_concat]
    cases u with
    | insert e =>
      rw [retain, latest, List.length_drop]
      omega
    | get key now => exact Nat.le_trans (List.dropWhile_suffix _).length_le ih
    | remove key => exact Nat.le_trans (List.length_filter_le _ _) ih

/-- What stands was inserted, and its key not touched since. -/
theorem mem_standing_iff : e ∈ standing uses ↔
    ∃ before after, uses = before ++ .insert e :: after ∧ Untouched e.key after := by
  induction uses using List.reverseRecOn with
  | nil =>
    refine ⟨nofun, ?_⟩
    rintro ⟨before, after, huses, -⟩
    cases before <;> cases huses
  | append_singleton uses u ih => rw [standing_concat, mem_stand, ih, exists_untouched_concat]

/-! ### What is kept -/

/-- Stamps are times of uses, in their order. -/
theorem stamps_sublist (uses : List (Use K V)) :
    ((standing uses).map Entry.stamp).Sublist (uses.filterMap time) := by
  induction uses using List.reverseRecOn with
  | nil => exact List.Sublist.slnil
  | append_singleton uses u ih =>
    have hwithout (key : K) :
        ((without key (standing uses)).map Entry.stamp).Sublist (uses.filterMap time) :=
      (List.filter_sublist.map _).trans ih
    rw [standing_concat, List.filterMap_append]
    cases u with
    | insert e =>
      rw [stand, put, List.map_append]
      exact (hwithout e.key).append (List.Sublist.refl _)
    | get key now => exact ih.trans (List.sublist_append_left _ _)
    | remove key => exact (hwithout key).trans (List.sublist_append_left _ _)

omit [DecidableEq K] in
theorem fresh_cons_of_le {now : Nat} (h : now - e.stamp ≤ ttl) :
    fresh ttl now (e :: entries) = e :: entries :=
  List.dropWhile_cons_of_neg fun hlt ↦ absurd (of_decide_eq_true hlt) (Nat.not_lt.mpr h)

omit [DecidableEq K] in
theorem fresh_cons_of_lt {now : Nat} (h : ttl < now - e.stamp) :
    fresh ttl now (e :: entries) = fresh ttl now entries :=
  List.dropWhile_cons_of_pos (decide_eq_true h)

omit [DecidableEq K] in
/-- Everything before a stale entry is stale. -/
theorem fresh_of_stale {now : Nat} {older post : List (Entry K V)}
    (holder : ∀ x ∈ older, x.stamp ≤ e.stamp) (hstale : ttl < now - e.stamp) :
    fresh ttl now (older ++ e :: post) = fresh ttl now post := by
  have hall : ∀ x ∈ older ++ [e], decide (ttl < now - x.stamp) = true := by
    intro x hx
    have hle : x.stamp ≤ e.stamp := by
      rcases List.mem_append.mp hx with hx | hx
      · exact holder x hx
      · rw [List.mem_singleton.mp hx]
    exact decide_eq_true (by omega)
  rw [List.append_cons]
  exact List.dropWhile_append_of_pos hall

omit [DecidableEq K] in
/-- An entry that is not stale stays with all that stands behind it. -/
theorem fresh_of_fresh {now : Nat} (older post : List (Entry K V)) (hfresh : now - e.stamp ≤ ttl) :
    ∃ rest, fresh ttl now (older ++ e :: post) = rest ++ e :: post := by
  induction older with
  | nil => exact ⟨[], fresh_cons_of_le hfresh⟩
  | cons x older ih =>
    rw [fresh, List.cons_append, List.dropWhile_cons]
    split
    · exact ih
    · exact ⟨x :: older, rfl⟩

omit [DecidableEq K] in
theorem latest_of_le (h : entries.length ≤ cap) : latest cap entries = entries := by
  rw [latest, Nat.sub_eq_zero_of_le h, List.drop_zero]

omit [DecidableEq K] in
/-- An entry stays when there is room for it with all that stands behind it. -/
theorem latest_of_room {older post : List (Entry K V)} (hroom : post.length < cap) :
    ∃ rest, latest cap (older ++ e :: post) = rest ++ e :: post := by
  refine ⟨older.drop ((older ++ e :: post).length - cap), ?_⟩
  apply List.drop_append_of_le_length
  simp only [List.length_append, List.length_cons]
  omega

omit [DecidableEq K] in
/-- An entry goes when there is no room for it with all that stands behind it. -/
theorem latest_of_full {older post : List (Entry K V)} (hfull : cap ≤ post.length) :
    latest cap (older ++ e :: post) <:+ post := by
  rw [latest, List.append_cons, List.drop_append, List.drop_eq_nil_of_le, List.nil_append]
  · exact List.drop_suffix _ _
  · simp only [List.length_append, List.length_cons, List.length_nil]
    omega

/-- An entry is not too old for any use, and at no moment do too many stand behind it. -/
def Lasting (ttl cap : Nat) (e : Entry K V) (after : List (Use K V)) : Prop :=
  (∀ u ∈ after, ∀ t ∈ u.time, t - e.stamp ≤ ttl) ∧
    ∀ seen, seen <+: after → (standing seen).length < cap

theorem lasting_concat : Lasting ttl cap e (uses ++ [u]) ↔
    Lasting ttl cap e uses ∧ (∀ t ∈ u.time, t - e.stamp ≤ ttl) ∧
      (standing (uses ++ [u])).length < cap := by
  simp only [Lasting, List.forall_mem_append, List.forall_mem_singleton, List.prefix_concat_iff,
    or_imp, forall_and, forall_eq]
  tauto

theorem without_cons {key : K} {older post : List (Entry K V)} (h : e.key ≠ key) :
    without key (older ++ e :: post) = without key older ++ e :: without key post := by
  rw [without, List.filter_append, List.filter_cons_of_pos (by simpa using h)]
  rfl

/-- A use of another key keeps an entry before what stands behind it, or drops it, as the conditions
say. -/
theorem retain_lasting (ttl : Nat) {older post : List (Entry K V)} (hu : u.touched ≠ some e.key)
    (holder : ∀ x ∈ older, x.stamp ≤ e.stamp) (hpost : ∀ x ∈ post, x.key ≠ e.key)
    (hlength : post.length < cap) :
    (((∀ t ∈ u.time, t - e.stamp ≤ ttl) ∧ (stand post u).length < cap) ∧
      ∃ rest, retain ttl cap (older ++ e :: post) u = rest ++ e :: stand post u) ∨
    (¬((∀ t ∈ u.time, t - e.stamp ≤ ttl) ∧ (stand post u).length < cap) ∧
      ∀ x ∈ retain ttl cap (older ++ e :: post) u, x.key ≠ e.key) := by
  have hstale {now : Nat} (h : ttl < now - e.stamp) :
      ∀ x ∈ fresh ttl now (older ++ e :: post), x.key ≠ e.key := by
    rw [fresh_of_stale holder h]
    exact fun x hx ↦ hpost x ((List.dropWhile_suffix _).subset hx)
  cases u with
  | insert y =>
    have hy : y.key ≠ e.key := fun h ↦ hu (congrArg some h)
    rcases Nat.lt_or_ge ttl (y.stamp - e.stamp) with hold | hfresh
    · refine .inr ⟨fun hall ↦ absurd (hall.1 y.stamp rfl) (Nat.not_le.mpr hold), fun x hx ↦ ?_⟩
      rcases List.mem_append.mp ((List.drop_suffix _ _).subset hx) with hx | hx
      · exact hstale hold x (mem_without.mp hx).1
      · rwa [List.mem_singleton.mp hx]
    · obtain ⟨rest, hrest⟩ := fresh_of_fresh older post hfresh
      have hput : put y (fresh ttl y.stamp (older ++ e :: post)) =
          without y.key rest ++ e :: stand post (.insert y) := by
        rw [hrest, put, without_cons hy.symm, List.append_assoc]
        rfl
      rw [retain, hput]
      rcases Nat.lt_or_ge (stand post (.insert y)).length cap with hroom | hfull
      · exact .inl ⟨⟨fun t ht ↦ Option.some.inj ht ▸ hfresh, hroom⟩, latest_of_room hroom⟩
      · refine .inr ⟨fun hall ↦ absurd hall.2 (Nat.not_lt.mpr hfull), fun x hx ↦ ?_⟩
        rcases List.mem_append.mp ((latest_of_full hfull).subset hx) with hx | hx
        · exact hpost x (mem_without.mp hx).1
        · rwa [List.mem_singleton.mp hx]
  | get key now =>
    rcases Nat.lt_or_ge ttl (now - e.stamp) with hold | hfresh
    · exact .inr ⟨fun hall ↦ absurd (hall.1 now rfl) (Nat.not_le.mpr hold), hstale hold⟩
    · exact .inl ⟨⟨fun t ht ↦ Option.some.inj ht ▸ hfresh, hlength⟩, fresh_of_fresh older post hfresh⟩
  | remove key =>
    have hkey : e.key ≠ key := fun h ↦ hu (congrArg some h.symm)
    refine .inl ⟨⟨nofun, Nat.lt_of_le_of_lt (List.length_filter_le _ _) hlength⟩, ?_⟩
    exact ⟨without key older, without_cons hkey⟩

/-- An entry that was inserted and not touched since stands before what has been inserted since, or
is gone, as the conditions say. -/
theorem retained_cases (ttl : Nat) (hcap : 0 < cap) {before after : List (Use K V)}
    (htimed : Timed (before ++ .insert e :: after)) (hafter : Untouched e.key after) :
    (Lasting ttl cap e after ∧ ∃ older,
      retained ttl cap (before ++ .insert e :: after) = older ++ e :: standing after) ∨
    (¬Lasting ttl cap e after ∧
      ∀ x ∈ retained ttl cap (before ++ .insert e :: after), x.key ≠ e.key) := by
  induction after using List.reverseRecOn with
  | nil =>
    refine .inl ⟨⟨nofun, fun seen hseen ↦ ?_⟩, ?_⟩
    · rwa [List.prefix_nil.mp hseen]
    · rw [retained_concat]
      exact latest_of_room hcap
  | append_singleton after u ih =>
    rw [← List.cons_append, ← List.append_assoc] at htimed ⊢
    rw [retained_concat, lasting_concat, standing_concat]
    have htimed' : Timed (before ++ .insert e :: after) :=
      List.Pairwise.sublist ((List.sublist_append_left _ [u]).filterMap time) htimed
    have hu : u.touched ≠ some e.key := hafter u (List.mem_append_right _ List.mem_cons_self)
    rcases ih htimed' fun x hx ↦ hafter x (List.mem_append_left _ hx) with
      ⟨hlasting, older, hkept⟩ | ⟨hnot, hgone⟩
    · have hsuffix := retained_suffix ttl cap (before ++ .insert e :: after)
      rw [hkept] at hsuffix ⊢
      have holder : ∀ x ∈ older, x.stamp ≤ e.stamp := by
        intro x hx
        have hsorted := htimed'.sublist ((hsuffix.sublist.map Entry.stamp).trans (stamps_sublist _))
        rw [List.map_append, List.map_cons] at hsorted
        exact (List.pairwise_append.mp hsorted).2.2 x.stamp (List.mem_map_of_mem hx) e.stamp
          List.mem_cons_self
      have hpost : ∀ x ∈ standing after, x.key ≠ e.key := by
        intro x hx heq
        have hnodup := (nodup_standing _).sublist (hsuffix.sublist.map Entry.key)
        rw [List.map_append, List.map_cons] at hnodup
        apply (List.nodup_cons.mp (List.nodup_append.mp hnodup).2.1).1
        rw [← heq]
        exact List.mem_map_of_mem hx
      rcases retain_lasting ttl hu holder hpost (hlasting.2 after List.prefix_rfl) with
        ⟨hok, hrest⟩ | ⟨hno, hgone⟩
      · exact .inl ⟨⟨hlasting, hok⟩, hrest⟩
      · exact .inr ⟨fun hall ↦ hno hall.2, hgone⟩
    · refine .inr ⟨fun hall ↦ hnot hall.1, fun x hx ↦ ?_⟩
      rcases mem_stand.mp ((retain_suffix List.suffix_rfl u).subset hx) with rfl | ⟨hx, -⟩
      · exact fun heq ↦ hu (congrArg some heq)
      · exact hgone x hx

/-- What is kept was inserted, has not been touched since, is not too old, and at no moment since have
too many entries stood behind it. -/
theorem mem_retained_iff (hcap : 0 < cap) (htimed : Timed uses) : e ∈ retained ttl cap uses ↔
    ∃ before after, uses = before ++ .insert e :: after ∧ Untouched e.key after ∧
      Lasting ttl cap e after := by
  constructor
  · intro he
    obtain ⟨before, after, rfl, hafter⟩ :=
      mem_standing_iff.mp ((retained_suffix ttl cap uses).subset he)
    refine ⟨before, after, rfl, hafter, ?_⟩
    rcases retained_cases ttl hcap htimed hafter with ⟨hlasting, -⟩ | ⟨-, hgone⟩
    · exact hlasting
    · exact absurd rfl (hgone e he)
  · rintro ⟨before, after, rfl, hafter, hlasting⟩
    rcases retained_cases ttl hcap htimed hafter with ⟨-, older, hkept⟩ | ⟨hnot, -⟩
    · rw [hkept]
      exact List.mem_append_right _ List.mem_cons_self
    · exact absurd hlasting hnot

/-- What is found at some time. -/
theorem mem_fresh_retained_iff (hcap : 0 < cap) {key : K} {now : Nat}
    (htimed : Timed (uses ++ [.get key now])) : e ∈ fresh ttl now (retained ttl cap uses) ↔
      ∃ before after, uses = before ++ .insert e :: after ∧ Untouched e.key after ∧
        now - e.stamp ≤ ttl ∧ ∀ seen, seen <+: after → (standing seen).length < cap := by
  have hget : e ∈ fresh ttl now (retained ttl cap uses) ↔
      e ∈ retained ttl cap (uses ++ [.get key now]) := by rw [retained_concat]; rfl
  rw [hget, mem_retained_iff hcap htimed]
  constructor
  · rintro ⟨before, after, huses, hafter, hlasting⟩
    rcases List.eq_nil_or_concat after with rfl | ⟨front, last, rfl⟩
    · cases List.singleton_inj.mp (List.append_inj' huses rfl).2
    · rw [List.concat_eq_append, ← List.cons_append, ← List.append_assoc] at huses
      obtain ⟨rfl, hlast⟩ := List.append_inj' huses rfl
      rw [List.concat_eq_append, ← List.singleton_inj.mp hlast] at hafter hlasting
      obtain ⟨⟨-, hroom⟩, hage, -⟩ := lasting_concat.mp hlasting
      exact ⟨before, front, rfl, fun x hx ↦ hafter x (List.mem_append_left _ hx), hage now rfl, hroom⟩
  · rintro ⟨before, after, rfl, hafter, hage, hroom⟩
    refine ⟨before, after ++ [.get key now], by simp, fun x hx ↦ ?_, ?_⟩
    · rcases List.mem_append.mp hx with hx | hx
      · exact hafter x hx
      · rw [List.mem_singleton.mp hx]
        exact nofun
    · refine lasting_concat.mpr ⟨⟨fun x hx t ht ↦ ?_, hroom⟩, fun t ht ↦ Option.some.inj ht ▸ hage, ?_⟩
      · have hle : t ≤ now := by
          rw [Timed, List.filterMap_append] at htimed
          refine (List.pairwise_append.mp htimed).2.2 t ?_ now List.mem_cons_self
          exact List.mem_filterMap.mpr ⟨x, List.mem_append_right _ (List.mem_cons_of_mem _ hx), ht⟩
        omega
      · rw [standing_concat]
        exact hroom after List.prefix_rfl

end Vidarax.Base
