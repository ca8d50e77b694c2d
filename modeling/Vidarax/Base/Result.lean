import Mathlib.Data.List.Basic

/-!
# Results of fallible code

Library `Base`. What an `Except` computation that succeeded went through.
-/

namespace Vidarax.Base

variable {ε α β : Type}

/-- A sequence after a success. -/
theorem ok_bind (a : α) (f : α → Except ε β) : (Except.ok a >>= f) = f a := rfl

/-- A sequence that succeeds has two parts that succeed. -/
theorem bind_eq_ok {x : Except ε α} {f : α → Except ε β} {b : β} (h : (x >>= f) = .ok b) :
    ∃ a, x = .ok a ∧ f a = .ok b := by
  cases x with
  | error e => cases h
  | ok a => exact ⟨a, rfl, h⟩

/-- A guarded success passed its guard. -/
theorem guard_eq_ok {c : Prop} [Decidable c] {e : ε} {x : Except ε α} {a : α}
    (h : (if c then .error e else x) = .ok a) : ¬ c ∧ x = .ok a := by
  split at h
  · cases h
  · next hc => exact ⟨hc, h⟩

/-- A sequence fails as its first part fails, or its second part does. -/
theorem bind_eq_error {x : Except ε α} {f : α → Except ε β} {e : ε} (h : (x >>= f) = .error e) :
    x = .error e ∨ ∃ a, x = .ok a ∧ f a = .error e := by
  cases x with
  | error e' => exact .inl (congrArg Except.error (Except.error.inj h))
  | ok a => exact .inr ⟨a, rfl, h⟩

/-- The values of a loop that succeeds are those of its turns. -/
theorem mapM_eq_ok {f : α → Except ε β} {xs : List α} {ys : List β} (h : xs.mapM f = .ok ys) :
    ∀ y ∈ ys, ∃ x ∈ xs, f x = .ok y := by
  induction xs generalizing ys with
  | nil =>
    cases h
    exact fun _ hy ↦ nomatch hy
  | cons x xs ih =>
    rw [List.mapM_cons] at h
    obtain ⟨y, hy, h⟩ := bind_eq_ok h
    obtain ⟨ys, hys, h⟩ := bind_eq_ok h
    cases h
    rw [List.forall_mem_cons]
    refine ⟨⟨x, List.mem_cons_self, hy⟩, fun z hz ↦ ?_⟩
    obtain ⟨x', hx', hz'⟩ := ih hys z hz
    exact ⟨x', List.mem_cons_of_mem _ hx', hz'⟩

/-- What each turn of a loop keeps of its element, a loop that succeeds keeps of its list. -/
theorem map_eq_of_mapM {γ : Type} {f : α → Except ε β} {g : α → γ} {k : β → γ}
    (hstep : ∀ x y, f x = .ok y → k y = g x) {xs : List α} {ys : List β} (h : xs.mapM f = .ok ys) :
    ys.map k = xs.map g := by
  induction xs generalizing ys with
  | nil =>
    cases h
    rfl
  | cons x xs ih =>
    rw [List.mapM_cons] at h
    obtain ⟨y, hy, h⟩ := bind_eq_ok h
    obtain ⟨ys, hys, h⟩ := bind_eq_ok h
    cases h
    rw [List.map_cons, List.map_cons, hstep x y hy, ih hys]

/-- A loop whose turns succeed has their values. -/
theorem exists_mapM {f : α → Except ε β} {xs : List α} (h : ∀ x ∈ xs, ∃ y, f x = .ok y) :
    ∃ ys, xs.mapM f = .ok ys ∧ ∀ x ∈ xs, ∀ y, f x = .ok y → y ∈ ys := by
  induction xs with
  | nil => exact ⟨[], rfl, fun _ hx ↦ nomatch hx⟩
  | cons x xs ih =>
    rw [List.forall_mem_cons] at h
    obtain ⟨⟨y, hy⟩, hxs⟩ := h
    obtain ⟨ys, hys, hmem⟩ := ih hxs
    refine ⟨y :: ys, by rw [List.mapM_cons, hy, ok_bind, hys, ok_bind]; rfl, ?_⟩
    rw [List.forall_mem_cons]
    refine ⟨fun z hz ↦ ?_, fun x' hx' z hz ↦ List.mem_cons_of_mem _ (hmem x' hx' z hz)⟩
    rw [hy] at hz
    cases hz
    exact List.mem_cons_self

/-- Every turn of a loop that succeeds succeeds. -/
theorem forM_eq_ok {f : α → Except ε Unit} {xs : List α} (h : xs.forM f = .ok ()) :
    ∀ x ∈ xs, f x = .ok () := by
  induction xs with
  | nil => exact fun _ hx ↦ nomatch hx
  | cons x xs ih =>
    obtain ⟨u, hx, h⟩ := bind_eq_ok h
    rw [List.forall_mem_cons]
    exact ⟨hx, ih h⟩

/-- What one step of a loop keeps, a loop that succeeds keeps. -/
theorem foldlM_invariant {σ : Type} {f : σ → α → Except ε σ} {I : List α → σ → Prop}
    (hstep : ∀ done s a s', I done s → f s a = .ok s' → I (done ++ [a]) s') {done xs : List α}
    {s s' : σ} (hs : I done s) (h : xs.foldlM f s = .ok s') : I (done ++ xs) s' := by
  induction xs generalizing done s with
  | nil =>
    cases h
    rwa [List.append_nil]
  | cons x xs ih =>
    rw [List.foldlM_cons] at h
    obtain ⟨t, ht, h⟩ := bind_eq_ok h
    rw [List.append_cons]
    exact ih (hstep _ _ _ _ hs ht) h

/-- Where each step of a loop is simulated, a loop that succeeds is. -/
theorem foldlM_simulates {σ τ : Type} {f : σ → α → Except ε σ} {g : τ → α → Except ε τ}
    {R : σ → τ → Prop}
    (hstep : ∀ s t a s', R s t → f s a = .ok s' → ∃ t', g t a = .ok t' ∧ R s' t') {xs : List α}
    {s s' : σ} {t : τ} (hR : R s t) (h : xs.foldlM f s = .ok s') :
    ∃ t', xs.foldlM g t = .ok t' ∧ R s' t' := by
  induction xs generalizing s t with
  | nil =>
    cases h
    exact ⟨t, rfl, hR⟩
  | cons x xs ih =>
    rw [List.foldlM_cons] at h
    obtain ⟨s₁, hs₁, h⟩ := bind_eq_ok h
    obtain ⟨t₁, ht₁, hR₁⟩ := hstep _ _ _ _ hR hs₁
    rw [List.foldlM_cons, ht₁]
    exact ih hR₁ h

end Vidarax.Base
