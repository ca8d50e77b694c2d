import Mathlib.Data.List.Basic

/-!
# Worklist labelling

A graph is labelled along its edges: the label of a node determines one label for all its
successors. Nodes are visited once, from a stack of pending nodes; a node that two edges
label differently is a conflict.
-/

namespace Vidarax.Base

/-- What a labelling does at a node, and its errors. `fault` stands for an access outside the
graph. -/
structure Flow (L ε : Type) where
  visit : Nat → L → Except ε (L × List Nat)
  conflict : Nat → L → L → ε
  fault : ε

namespace Flow

variable {L ε : Type} {flow : Flow L ε}

/-- Label the successors of a node and push the new ones. -/
def mark [DecidableEq L] (flow : Flow L ε) (label : L) :
    List Nat → List (Option L) → List Nat → Except ε (List (Option L) × List Nat)
  | [], labels, pending => .ok (labels, pending)
  | j :: js, labels, pending =>
    match labels[j]? with
    | none => .error flow.fault
    | some none => mark flow label js (labels.set j (some label)) (j :: pending)
    | some (some existing) =>
      if existing ≠ label then .error (flow.conflict j existing label)
      else mark flow label js labels pending

/-- Visit the pending nodes, at most `fuel` of them. -/
def label [DecidableEq L] (flow : Flow L ε) : Nat → List (Option L) → List Nat → Except ε (List (Option L))
  | _, labels, [] => .ok labels
  | 0, _, _ :: _ => .error flow.fault
  | fuel + 1, labels, i :: pending =>
    match labels[i]? with
    | some (some l) =>
      match flow.visit i l with
      | .error e => .error e
      | .ok (out, successors) =>
        match mark flow out successors labels pending with
        | .error e => .error e
        | .ok (labels, pending) => label flow fuel labels pending
    | _ => .error flow.fault

/-- A node has a label. -/
def At (labels : List (Option L)) (i : Nat) (l : L) : Prop := labels[i]? = some (some l)

/-- The node was visited and its successors have the label it gives them. -/
def Settled (flow : Flow L ε) (labels : List (Option L)) (i : Nat) (l : L) : Prop :=
  ∃ out successors, flow.visit i l = .ok (out, successors) ∧ ∀ j ∈ successors, At labels j out

/-- More nodes labelled, none relabelled. -/
def Extends (labels labels' : List (Option L)) : Prop := ∀ i l, At labels i l → At labels' i l

theorem Extends.refl (labels : List (Option L)) : Extends labels labels := fun _ _ h ↦ h

theorem Extends.trans {x y z : List (Option L)} (hxy : Extends x y) (hyz : Extends y z) :
    Extends x z := fun i l h ↦ hyz i l (hxy i l h)

theorem Settled.mono {labels labels' : List (Option L)} {i : Nat} {l : L}
    (h : Settled flow labels i l) (he : Extends labels labels') : Settled flow labels' i l := by
  obtain ⟨out, successors, hvisit, hout⟩ := h
  exact ⟨out, successors, hvisit, fun j hj ↦ he j out (hout j hj)⟩

/-- Setting an unlabelled node extends the labels. -/
theorem extends_set {labels : List (Option L)} {j : Nat} (hj : labels[j]? = some none)
    (label : L) : Extends labels (labels.set j (some label)) := by
  intro i l hi
  have hne : j ≠ i := by
    rintro rfl
    rw [At, hj] at hi
    cases hi
  rwa [At, List.getElem?_set_ne hne]

/-- What marking achieves: all successors are labelled, and new labels are pending. -/
structure Marked (label : L) (successors : List Nat) (labels : List (Option L))
    (pending : List Nat) (labels' : List (Option L)) (pending' : List Nat) : Prop where
  grows : Extends labels labels'
  marked : ∀ j ∈ successors, At labels' j label
  new : ∀ i l, At labels' i l → At labels i l ∨ i ∈ pending'
  keeps : ∀ i ∈ pending, i ∈ pending'

/-- The graph has `n` nodes, and its own errors are not faults. -/
structure Closed (flow : Flow L ε) (n : Nat) : Prop where
  visit_ne : ∀ i l, i < n → flow.visit i l ≠ .error flow.fault
  successors_lt : ∀ i l out successors, flow.visit i l = .ok (out, successors) →
    ∀ j ∈ successors, j < n
  conflict_ne : ∀ j existing incoming, flow.conflict j existing incoming ≠ flow.fault

/-- Nodes without a label. -/
def unlabelled (labels : List (Option L)) : Nat := labels.countP Option.isNone

theorem unlabelled_set {labels : List (Option L)} {j : Nat} (hj : labels[j]? = some none)
    (label : L) : unlabelled (labels.set j (some label)) + 1 = unlabelled labels := by
  obtain ⟨hlt, hj⟩ := List.getElem?_eq_some_iff.mp hj
  have hpos : 0 < unlabelled labels :=
    List.countP_pos_iff.mpr ⟨none, hj ▸ List.getElem_mem hlt, rfl⟩
  rw [unlabelled, List.countP_set hlt, hj]
  simp only [Option.isNone_none, Option.isNone_some, if_true, Bool.false_eq_true, if_false]
  rw [← unlabelled]
  omega

variable [DecidableEq L]

theorem marked_of_mark {label : L} {successors pending pending' : List Nat}
    {labels labels' : List (Option L)}
    (h : mark flow label successors labels pending = .ok (labels', pending')) :
    Marked label successors labels pending labels' pending' := by
  induction successors generalizing labels pending with
  | nil =>
    simp only [mark, Except.ok.injEq, Prod.mk.injEq] at h
    obtain ⟨rfl, rfl⟩ := h
    exact ⟨.refl _, by simp, fun _ _ hi ↦ .inl hi, fun _ hi ↦ hi⟩
  | cons j js ih =>
    rw [mark] at h
    split at h
    · cases h
    · next hj =>
      have hmark := ih h
      have hlt : j < labels.length := (List.getElem?_eq_some_iff.mp hj).1
      have hset : At (labels.set j (some label)) j label := List.getElem?_set_self hlt
      refine ⟨(extends_set hj label).trans hmark.grows, ?_, ?_, ?_⟩
      · intro i hi
        rcases List.mem_cons.mp hi with rfl | hi
        · exact hmark.grows _ _ hset
        · exact hmark.marked i hi
      · intro i l hi
        rcases hmark.new i l hi with hi | hi
        · by_cases hji : j = i
          · subst hji
            exact .inr (hmark.keeps _ (List.mem_cons_self ..))
          · rw [At, List.getElem?_set_ne hji] at hi
            exact .inl hi
        · exact .inr hi
      · exact fun i hi ↦ hmark.keeps i (List.mem_cons_of_mem _ hi)
    · next existing hj =>
      split at h
      · cases h
      · next heq =>
        have hmark := ih h
        refine ⟨hmark.grows, ?_, hmark.new, hmark.keeps⟩
        intro i hi
        rcases List.mem_cons.mp hi with rfl | hi
        · apply hmark.grows
          rw [At, hj, not_not.mp heq]
        · exact hmark.marked i hi

/-- Every labelled node is pending or settled. -/
def Inv (flow : Flow L ε) (labels : List (Option L)) (pending : List Nat) : Prop :=
  ∀ i l, At labels i l → i ∈ pending ∨ Settled flow labels i l

/-- An accepted labelling keeps the labels it started from and settles every node it labels. -/
theorem settled_of_label {fuel : Nat} {labels final : List (Option L)} {pending : List Nat}
    (h : label flow fuel labels pending = .ok final) (hinv : Inv flow labels pending) :
    Extends labels final ∧ ∀ i l, At final i l → Settled flow final i l := by
  induction fuel generalizing labels pending with
  | zero =>
    cases pending with
    | nil =>
      obtain rfl := Except.ok.inj h
      exact ⟨.refl _, fun i l hi ↦ (hinv i l hi).resolve_left List.not_mem_nil⟩
    | cons i pending => cases h
  | succ fuel ih =>
    cases pending with
    | nil =>
      obtain rfl := Except.ok.inj h
      exact ⟨.refl _, fun i l hi ↦ (hinv i l hi).resolve_left List.not_mem_nil⟩
    | cons i pending =>
      rw [label] at h
      split at h
      · next l hl =>
        split at h
        · cases h
        · next out successors hvisit =>
          split at h
          · cases h
          · next labels' pending' hmark =>
            have hm := marked_of_mark hmark
            have hsettled : Settled flow labels' i l := ⟨out, successors, hvisit, hm.marked⟩
            have hnext : Inv flow labels' pending' := by
              intro j k hj
              rcases hm.new j k hj with hold | hnew
              · rcases hinv j k hold with hmem | hs
                · rcases List.mem_cons.mp hmem with rfl | hmem
                  · have hkl : k = l := by
                      rw [At, hl] at hold
                      exact (Option.some_inj.mp (Option.some_inj.mp hold)).symm
                    subst hkl
                    exact .inr hsettled
                  · exact .inl (hm.keeps j hmem)
                · exact .inr (hs.mono hm.grows)
              · exact .inl hnew
            obtain ⟨hgrow, hall⟩ := ih h hnext
            exact ⟨hm.grows.trans hgrow, hall⟩
      · cases h

/-! ### No access outside the graph -/

/-- Marking inside the graph does not fault, and a node is pushed for each label it gives. -/
theorem mark_cases {n : Nat} (hclosed : Closed flow n) (label : L) {successors : List Nat}
    {labels : List (Option L)} {pending : List Nat} (hlen : labels.length = n)
    (hlt : ∀ j ∈ successors, j < n) (hpending : ∀ i ∈ pending, ∃ l, At labels i l) :
    mark flow label successors labels pending ≠ .error flow.fault ∧
      ∀ labels' pending', mark flow label successors labels pending = .ok (labels', pending') →
        labels'.length = n ∧
          pending'.length + unlabelled labels' = pending.length + unlabelled labels ∧
          ∀ i ∈ pending', ∃ l, At labels' i l := by
  induction successors generalizing labels pending with
  | nil =>
    refine ⟨by simp [mark], ?_⟩
    intro labels' pending' h
    simp only [mark, Except.ok.injEq, Prod.mk.injEq] at h
    obtain ⟨rfl, rfl⟩ := h
    exact ⟨hlen, rfl, hpending⟩
  | cons j js ih =>
    have hjlt : j < labels.length := hlen ▸ hlt j (List.mem_cons_self ..)
    have hjs : ∀ i ∈ js, i < n := fun i hi ↦ hlt i (List.mem_cons_of_mem _ hi)
    rw [mark]
    split
    · next hj => exact absurd (List.getElem?_eq_none_iff.mp hj) (Nat.not_le.mpr hjlt)
    · next hj =>
      have hset : ∀ i ∈ j :: pending, ∃ l, At (labels.set j (some label)) i l := by
        intro i hi
        rcases List.mem_cons.mp hi with rfl | hi
        · exact ⟨label, List.getElem?_set_self hjlt⟩
        · obtain ⟨l, hl⟩ := hpending i hi
          exact ⟨l, extends_set hj label i l hl⟩
      obtain ⟨hne, hok⟩ := ih (by simpa using hlen) hjs hset
      refine ⟨hne, fun labels' pending' h ↦ ?_⟩
      obtain ⟨hlen', hcount, hall⟩ := hok labels' pending' h
      have := unlabelled_set hj label
      rw [List.length_cons] at hcount
      exact ⟨hlen', by omega, hall⟩
    · next existing hj =>
      split
      · refine ⟨fun h ↦ hclosed.conflict_ne _ _ _ (Except.error.inj h), fun _ _ h ↦ ?_⟩
        cases h
      · exact ih hlen hjs hpending

/-- With fuel for every unlabelled node a labelling does not fault. -/
theorem label_ne_fault {n fuel : Nat} (hclosed : Closed flow n) {labels : List (Option L)}
    {pending : List Nat} (hlen : labels.length = n) (hpending : ∀ i ∈ pending, ∃ l, At labels i l)
    (hfuel : pending.length + unlabelled labels ≤ fuel) :
    label flow fuel labels pending ≠ .error flow.fault := by
  induction fuel generalizing labels pending with
  | zero =>
    cases pending with
    | nil => exact fun h ↦ by cases h
    | cons i pending => simp at hfuel
  | succ fuel ih =>
    cases pending with
    | nil => exact fun h ↦ by cases h
    | cons i pending =>
      obtain ⟨l, hl⟩ := hpending i (List.mem_cons_self ..)
      rw [At] at hl
      cases hvisit : flow.visit i l with
      | error e =>
        simp only [label, hl, hvisit]
        have hlt : i < n := hlen ▸ (List.getElem?_eq_some_iff.mp hl).1
        exact fun h ↦ hclosed.visit_ne i l hlt (hvisit.trans (congrArg _ (Except.error.inj h)))
      | ok r =>
        obtain ⟨out, successors⟩ := r
        obtain ⟨hne, hok⟩ := mark_cases hclosed out hlen
          (hclosed.successors_lt i l out successors hvisit)
          fun j hj ↦ hpending j (List.mem_cons_of_mem _ hj)
        cases hmark : mark flow out successors labels pending with
        | error e =>
          simp only [label, hl, hvisit, hmark]
          exact fun h ↦ hne (hmark.trans (congrArg _ (Except.error.inj h)))
        | ok r =>
          obtain ⟨labels', pending'⟩ := r
          obtain ⟨hlen', hcount, hall⟩ := hok labels' pending' hmark
          simp only [label, hl, hvisit, hmark]
          rw [List.length_cons] at hfuel
          exact ih hlen' hall (by omega)

end Flow

end Vidarax.Base
