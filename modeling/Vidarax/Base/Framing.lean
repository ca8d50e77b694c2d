import Mathlib.Data.List.Infix

/-!
# Separators and separator-terminated frames

Library `Base`. A list is cut at its first separator. A log of frames is the concatenation of lists that each end in
their only separator. A cut of such a log at any place is a whole number of
frames followed by a separator-free rest, and both parts are determined by it.
-/

namespace Vidarax.Base

variable {α : Type}

/-! ### The first separator -/

section Cut

variable [DecidableEq α]

/-- The part before the first separator, and the part after it when there is one. -/
def cut (sep : α) : List α → List α × Option (List α)
  | [] => ([], none)
  | x :: xs => if x = sep then ([], some xs) else (x :: (cut sep xs).1, (cut sep xs).2)

/-- The first separator ends the first part. -/
theorem cut_append {sep : α} {xs ys : List α} (h : sep ∉ xs) :
    cut sep (xs ++ sep :: ys) = (xs, some ys) := by
  induction xs with
  | nil => simp [cut]
  | cons x xs ih =>
    simp only [List.mem_cons, not_or] at h
    simp [cut, Ne.symm h.1, ih h.2]

/-- Without a separator the whole list is the first part. -/
theorem cut_of_not_mem {sep : α} {xs : List α} (h : sep ∉ xs) : cut sep xs = (xs, none) := by
  induction xs with
  | nil => rfl
  | cons x xs ih =>
    simp only [List.mem_cons, not_or] at h
    simp [cut, Ne.symm h.1, ih h.2]

/-- A separator-free front only extends the first part. -/
theorem cut_append_of_not_mem {sep : α} {xs : List α} (ys : List α) (h : sep ∉ xs) :
    cut sep (xs ++ ys) = (xs ++ (cut sep ys).1, (cut sep ys).2) := by
  induction xs with
  | nil => rfl
  | cons x xs ih =>
    simp only [List.mem_cons, not_or] at h
    simp [cut, Ne.symm h.1, ih h.2]

/-- A cut either finds the first separator or keeps the whole list. -/
theorem cut_cases (sep : α) (xs : List α) :
    (∃ ys zs, xs = ys ++ sep :: zs ∧ sep ∉ ys ∧ cut sep xs = (ys, some zs)) ∨
      (sep ∉ xs ∧ cut sep xs = (xs, none)) := by
  by_cases h : sep ∈ xs
  · obtain ⟨ys, zs, rfl, hy⟩ := List.eq_append_cons_of_mem h
    exact Or.inl ⟨ys, zs, rfl, hy, cut_append hy⟩
  · exact Or.inr ⟨h, cut_of_not_mem h⟩

/-- Cut at most `n - 1` times, so that there are at most `n` parts. -/
def cutN (sep : α) : Nat → List α → List (List α)
  | 0, _ => []
  | 1, xs => [xs]
  | n + 2, xs =>
    match cut sep xs with
    | (ys, none) => [ys]
    | (ys, some zs) => ys :: cutN sep (n + 1) zs

/-- A separator-free part in front of a separator is the first part. -/
theorem cutN_append {sep : α} {xs ys : List α} (n : Nat) (h : sep ∉ xs) :
    cutN sep (n + 2) (xs ++ sep :: ys) = xs :: cutN sep (n + 1) ys := by
  rw [cutN, cut_append h]

end Cut

/-! ### Frames -/

/-- A frame ends in the separator and holds no other one. -/
def IsFrame (sep : α) (f : List α) : Prop := ∃ body, f = body ++ [sep] ∧ sep ∉ body

/-- A frame is not empty. -/
theorem IsFrame.ne_nil {sep : α} {f : List α} (h : IsFrame sep f) : f ≠ [] := by
  obtain ⟨body, rfl, -⟩ := h
  simp

/-- A frame is its front followed by the separator. -/
theorem IsFrame.dropLast_append {sep : α} {f : List α} (h : IsFrame sep f) :
    f.dropLast ++ [sep] = f := by
  obtain ⟨body, rfl, -⟩ := h
  simp

/-- The front of a frame holds no separator. -/
theorem IsFrame.not_mem_dropLast {sep : α} {f : List α} (h : IsFrame sep f) :
    sep ∉ f.dropLast := by
  obtain ⟨body, rfl, hn⟩ := h
  simpa using hn

/-- A proper prefix of a frame holds no separator. -/
theorem IsFrame.not_mem_prefix {sep : α} {f p : List α} (h : IsFrame sep f) (hp : p <+: f)
    (hne : p ≠ f) : sep ∉ p := by
  obtain ⟨body, rfl, hn⟩ := h
  obtain ⟨rest, hr⟩ := hp
  rcases List.eq_nil_or_concat rest with rfl | ⟨init, last, rfl⟩
  · exact absurd (by simpa using hr) hne
  · have hb : p ++ init = body := by
      have := congrArg List.dropLast hr
      simpa [← List.append_assoc] using this
    intro hm
    exact hn (hb ▸ List.mem_append_left _ hm)

/-- Every cut of a log of frames with a separator-free tail is a number of whole
frames followed by a separator-free rest that starts the next frame or the tail. -/
theorem exists_take_of_prefix {sep : α} {fs : List (List α)} {t p : List α}
    (hf : ∀ f ∈ fs, IsFrame sep f) (ht : sep ∉ t) (hp : p <+: fs.flatten ++ t) :
    ∃ k r, k ≤ fs.length ∧ p = (fs.take k).flatten ++ r ∧ sep ∉ r ∧
      ((∃ f ∈ fs, r <+: f) ∨ r <+: t) := by
  induction fs generalizing p with
  | nil =>
    have hp' : p <+: t := by simpa using hp
    exact ⟨0, p, Nat.le_refl _, by simp, fun hm ↦ ht (hp'.mem hm), Or.inr hp'⟩
  | cons f fs ih =>
    have hframe := hf f (by simp)
    obtain ⟨rest, hr⟩ := hp
    rw [List.flatten_cons, List.append_assoc] at hr
    rcases List.append_eq_append_iff.mp hr with ⟨as, hpf, -⟩ | ⟨q, rfl, hq⟩
    · have hpf : p <+: f := ⟨as, hpf.symm⟩
      by_cases he : p = f
      · exact ⟨1, [], by simp, by simp [he], by simp, Or.inl ⟨f, by simp, List.nil_prefix⟩⟩
      · exact ⟨0, p, Nat.zero_le _, by simp, hframe.not_mem_prefix hpf he,
          Or.inl ⟨f, by simp, hpf⟩⟩
    · obtain ⟨k, r, hk, rfl, hr, hs⟩ := ih (fun g hg ↦ hf g (by simp [hg])) ⟨rest, hq.symm⟩
      refine ⟨k + 1, r, by simpa using hk, by simp, hr, ?_⟩
      rcases hs with ⟨g, hg, hgr⟩ | hs
      · exact Or.inl ⟨g, by simp [hg], hgr⟩
      · exact Or.inr hs

/-- The first frame of a log is determined by the log. -/
theorem frame_append_inj {sep : α} {f g : List α} {xs ys : List α} (hf : IsFrame sep f)
    (hg : IsFrame sep g) (h : f ++ xs = g ++ ys) : f = g ∧ xs = ys := by
  rcases List.append_eq_append_iff.mp h with ⟨as, hgf, hx⟩ | ⟨as, hfg, hy⟩
  · by_cases he : f = g
    · exact ⟨he, List.append_cancel_left (he ▸ h)⟩
    · have hm : sep ∈ f := by rw [← hf.dropLast_append]; simp
      exact absurd hm (hg.not_mem_prefix ⟨as, hgf.symm⟩ he)
  · by_cases he : g = f
    · exact ⟨he.symm, List.append_cancel_left (he ▸ h)⟩
    · have hm : sep ∈ g := by rw [← hg.dropLast_append]; simp
      exact absurd hm (hf.not_mem_prefix ⟨as, hfg.symm⟩ he)

/-- Frames and separator-free tail of a log are determined by the log: when one log
starts another, its frames start the other's. -/
theorem frames_prefix_of_flatten {sep : α} {fs gs : List (List α)} {t u : List α}
    (hf : ∀ f ∈ fs, IsFrame sep f) (hg : ∀ g ∈ gs, IsFrame sep g) (hu : sep ∉ u)
    (h : fs.flatten ++ t <+: gs.flatten ++ u) : fs <+: gs := by
  induction fs generalizing gs with
  | nil => exact List.nil_prefix
  | cons f fs ih =>
    have hframe := hf f (by simp)
    cases gs with
    | nil =>
      have hm : sep ∈ (f :: fs).flatten ++ t := by
        rw [← hframe.dropLast_append]
        simp
      exact absurd (h.mem hm) (by simpa using hu)
    | cons g gs =>
      obtain ⟨rest, hr⟩ := h
      simp only [List.flatten_cons, List.append_assoc] at hr
      obtain ⟨rfl, hrest⟩ := frame_append_inj hframe (hg g (by simp)) hr
      refine List.cons_prefix_cons.mpr ⟨rfl, ih (fun x hx ↦ hf x (by simp [hx])) ?_ ?_⟩
      · exact fun x hx ↦ hg x (by simp [hx])
      · exact ⟨rest, by simpa using hrest⟩

end Vidarax.Base
