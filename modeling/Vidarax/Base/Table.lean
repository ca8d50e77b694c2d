import Mathlib.Data.List.MinMax
import Std.Data.ExtTreeMap

/-!
# Tables

Library `Base`. Finite maps over keys with a linear order, compared by their entries, and the
key with the least value. Two tables with the same keys in the same order of values have the
same least key.
-/

namespace Vidarax.Base

/-- Finite maps. -/
abbrev Table (K V : Type) [Ord K] : Type := Std.ExtTreeMap K V

namespace Table

variable {K V : Type} [Ord K] [Std.TransOrd K] [Std.LawfulEqOrd K]

theorem get?_insert_ne (t : Table K V) {k a : K} (v : V) (h : a ≠ k) :
    (t.insert k v)[a]? = t[a]? := by
  rw [Std.ExtTreeMap.getElem?_insert, if_neg]
  rw [Std.compare_eq_iff_eq]
  exact h.symm

theorem get?_erase_ne (t : Table K V) {k a : K} (h : a ≠ k) : (t.erase k)[a]? = t[a]? := by
  rw [Std.ExtTreeMap.getElem?_erase, if_neg]
  rw [Std.compare_eq_iff_eq]
  exact h.symm

variable (f : V → Nat)

/-- The key of an entry with the least value. -/
def leastKey (t : Table K V) : Option K := (t.toList.argmin fun entry ↦ f entry.2).map Prod.fst

variable {f}

/-- A table with an entry has a least one. -/
theorem exists_leastKey {t : Table K V} {k : K} {v : V} (h : t[k]? = some v) :
    ∃ (a : K) (least : V), t.leastKey f = some a ∧ t[a]? = some least ∧
      ∀ (b : K) (w : V), t[b]? = some w → f least ≤ f w := by
  have hmem : (k, v) ∈ t.toList := Std.ExtTreeMap.mem_toList_iff_getElem?_eq_some.mpr h
  cases hfound : t.toList.argmin fun entry ↦ f entry.2 with
  | none =>
    rw [List.argmin_eq_none] at hfound
    rw [hfound] at hmem
    exact absurd hmem List.not_mem_nil
  | some entry =>
    refine ⟨entry.1, entry.2, by rw [leastKey, hfound]; rfl, ?_, ?_⟩
    · exact Std.ExtTreeMap.mem_toList_iff_getElem?_eq_some.mp (List.argmin_mem hfound)
    · intro b w hb
      exact List.le_of_mem_argmin (f := fun entry ↦ f entry.2)
        (Std.ExtTreeMap.mem_toList_iff_getElem?_eq_some.mpr hb) hfound

/-- The key of the only entry with the least value is found. -/
theorem leastKey_eq {t : Table K V} {k : K} {v : V} (h : t[k]? = some v)
    (hleast : ∀ (a : K) (w : V), t[a]? = some w → a ≠ k → f v < f w) :
    t.leastKey f = some k := by
  obtain ⟨a, least, hfound, ha, hle⟩ := exists_leastKey (f := f) h
  rw [hfound]
  by_cases hsame : a = k
  · rw [hsame]
  · exact absurd (hleast a least ha hsame) (Nat.not_lt.mpr (hle k v h))

/-- Nothing is found in a table without entries. -/
theorem leastKey_eq_none {t : Table K V} (h : ∀ k : K, t[k]? = none) : t.leastKey f = none := by
  have hempty : t = ∅ := Std.ExtTreeMap.ext_getElem? fun k ↦ by rw [h k]; simp
  rw [hempty]
  rfl

/-- Two tables with the same keys, whose values are different and in the same order. -/
structure Aligned (f : V → Nat) (s t : Table K V) : Prop where
  keys : ∀ k : K, s[k]?.isSome = t[k]?.isSome
  order : ∀ (k a : K) (v w v' w' : V), s[k]? = some v → s[a]? = some w → t[k]? = some v' →
    t[a]? = some w' → (f v < f w ↔ f v' < f w')
  distinct : ∀ (k a : K) (v w : V), t[k]? = some v → t[a]? = some w → f v = f w → k = a

namespace Aligned

variable {s t : Table K V}

omit [Std.LawfulEqOrd K] in
/-- A table with different values is aligned with itself. -/
theorem refl (h : ∀ (k a : K) (v w : V), t[k]? = some v → t[a]? = some w → f v = f w → k = a) :
    Aligned f t t where
  keys _ := rfl
  order k a v w v' w' hv hw hv' hw' := by
    rw [Option.some.inj (hv.symm.trans hv'), Option.some.inj (hw.symm.trans hw')]
  distinct := h

theorem leastKey_eq (h : Aligned f s t) : s.leastKey f = t.leastKey f := by
  by_cases hnone : ∀ k : K, t[k]? = none
  · rw [Table.leastKey_eq_none hnone, Table.leastKey_eq_none fun k ↦ ?_]
    have hkeys := h.keys k
    rw [hnone k, Option.isSome_none, Option.isSome_eq_false_iff] at hkeys
    exact Option.isNone_iff_eq_none.mp hkeys
  · rw [not_forall] at hnone
    obtain ⟨k, hk⟩ := hnone
    obtain ⟨v, hv⟩ := Option.ne_none_iff_exists'.mp hk
    obtain ⟨a, least, hfound, ha, hle⟩ := exists_leastKey (f := f) hv
    obtain ⟨first, hfirst⟩ : ∃ first, s[a]? = some first := by
      rw [← Option.isSome_iff_exists, h.keys a, ha]
      rfl
    rw [hfound]
    apply Table.leastKey_eq hfirst
    intro b w hb hne
    obtain ⟨w', hb'⟩ : ∃ w', t[b]? = some w' := by
      rw [← Option.isSome_iff_exists, ← h.keys b, hb]
      rfl
    apply (h.order a b first w least w' hfirst hb ha hb').mpr
    exact Nat.lt_of_le_of_ne (hle b w' hb')
      fun hsame ↦ hne (h.distinct b a w' least hb' ha hsame.symm)

theorem erase (h : Aligned f s t) (k : K) : Aligned f (s.erase k) (t.erase k) := by
  have hget {u : Table K V} {a : K} {v : V} (ha : (u.erase k)[a]? = some v) : u[a]? = some v := by
    by_cases hak : a = k
    · rw [hak, Std.ExtTreeMap.getElem?_erase_self] at ha
      contradiction
    · rwa [get?_erase_ne u hak] at ha
  refine ⟨fun a ↦ ?_, ?_, ?_⟩
  · by_cases hak : a = k
    · rw [hak, Std.ExtTreeMap.getElem?_erase_self, Std.ExtTreeMap.getElem?_erase_self]
    · rw [get?_erase_ne s hak, get?_erase_ne t hak]
      exact h.keys a
  · exact fun a b v w v' w' hv hw hv' hw' ↦
      h.order a b v w v' w' (hget hv) (hget hw) (hget hv') (hget hw')
  · exact fun a b v w hv hw ↦ h.distinct a b v w (hget hv) (hget hw)

/-- Values above all others may be inserted. -/
theorem insert (h : Aligned f s t) (k : K) {v v' : V}
    (hs : ∀ (a : K) (w : V), s[a]? = some w → f w < f v)
    (ht : ∀ (a : K) (w : V), t[a]? = some w → f w < f v') :
    Aligned f (s.insert k v) (t.insert k v') := by
  have hget {u : Table K V} {new : V} {a : K} {w : V} (ha : (u.insert k new)[a]? = some w) :
      a = k ∧ w = new ∨ a ≠ k ∧ u[a]? = some w := by
    by_cases hak : a = k
    · rw [hak, Std.ExtTreeMap.getElem?_insert_self] at ha
      exact .inl ⟨hak, (Option.some.inj ha).symm⟩
    · rw [get?_insert_ne u new hak] at ha
      exact .inr ⟨hak, ha⟩
  refine ⟨fun a ↦ ?_, ?_, ?_⟩
  · by_cases hak : a = k
    · rw [hak, Std.ExtTreeMap.getElem?_insert_self, Std.ExtTreeMap.getElem?_insert_self]
      rfl
    · rw [get?_insert_ne s v hak, get?_insert_ne t v' hak]
      exact h.keys a
  · intro a b x y x' y' hx hy hx' hy'
    rcases hget hx with ⟨ha, hnew⟩ | ⟨ha, hold⟩ <;> rcases hget hy with ⟨hb, hlast⟩ | ⟨hb, hother⟩ <;>
      rcases hget hx' with ⟨ha', hnew'⟩ | ⟨ha', hold'⟩ <;>
      rcases hget hy' with ⟨hb', hlast'⟩ | ⟨hb', hother'⟩ <;> try contradiction
    · rw [hnew, hlast, hnew', hlast']
      exact iff_of_false (Nat.lt_irrefl _) (Nat.lt_irrefl _)
    · rw [hnew, hnew']
      exact iff_of_false (Nat.lt_asymm (hs b y hother)) (Nat.lt_asymm (ht b y' hother'))
    · rw [hlast, hlast']
      exact iff_of_true (hs a x hold) (ht a x' hold')
    · exact h.order a b x y x' y' hold hother hold' hother'
  · intro a b x y hx hy hsame
    rcases hget hx with ⟨ha, hnew⟩ | ⟨-, hold⟩ <;> rcases hget hy with ⟨hb, hlast⟩ | ⟨-, hother⟩
    · rw [ha, hb]
    · rw [hnew] at hsame
      exact absurd (ht b y hother) (Nat.not_lt.mpr (Nat.le_of_eq hsame))
    · rw [hlast] at hsame
      exact absurd (ht a x hold) (Nat.not_lt.mpr (Nat.le_of_eq hsame.symm))
    · exact h.distinct a b x y hold hother hsame

end Aligned

end Table

end Vidarax.Base
