import Mathlib.Data.List.Chain
import Vidarax.Base.Blocks

/-!
# Paragraphs

Library `Base`. The blocks of a text are its lines between empty lines: what is read of blocks may be
read of these. Lines that are changed fall into the paragraphs of what the old ones become.
-/

namespace Vidarax.Base

variable {α β : Type}

/-- Two concatenations are the same if parts that are not longer are. -/
theorem flatMap_eq_iff {ι : Type} {f g : ι → List β} {xs : List ι} (ys : List β)
    (h : ∀ x ∈ xs, (f x).length ≤ (g x).length) :
    xs.flatMap f = xs.flatMap g ++ ys ↔ (∀ x ∈ xs, f x = g x) ∧ ys = [] := by
  constructor
  · intro heq
    have hlengths : ∀ zs : List ι, (∀ x ∈ zs, (f x).length ≤ (g x).length) →
        (zs.flatMap f).length ≤ (zs.flatMap g).length := by
      intro zs hzs
      induction zs with
      | nil => exact Nat.le_refl _
      | cons z zs ih =>
        rw [List.flatMap_cons, List.flatMap_cons, List.length_append, List.length_append]
        exact Nat.add_le_add (hzs z List.mem_cons_self) (ih fun x hx ↦ hzs x (List.mem_cons_of_mem _ hx))
    induction xs with
    | nil => exact ⟨nofun, heq.symm⟩
    | cons x xs ih =>
      have hrest := fun z hz ↦ h z (List.mem_cons_of_mem x hz)
      have hlength := congrArg List.length heq
      have hx := h x List.mem_cons_self
      have hxs := hlengths xs hrest
      rw [List.flatMap_cons, List.flatMap_cons, List.append_assoc] at heq
      rw [List.flatMap_cons, List.flatMap_cons] at hlength
      simp only [List.length_append] at hlength
      obtain ⟨hfirst, hlast⟩ := List.append_inj heq (by omega)
      obtain ⟨hall, hys⟩ := ih hrest hlast
      refine ⟨fun z hz ↦ ?_, hys⟩
      rcases List.mem_cons.mp hz with rfl | hz
      · exact hfirst
      · exact hall z hz
  · rintro ⟨hall, rfl⟩
    rw [List.append_nil]
    exact List.flatMap_congr hall

/-! ### Splitting -/

section Splitting

variable [BEq α] [LawfulBEq α] {sep : α}

/-- Elements that are no separators may go before or after splitting. -/
theorem splitOn_filter {p : α → Bool} (h : p sep = true) (xs : List α) :
    (xs.filter p).splitOn sep = (xs.splitOn sep).map (List.filter p) := by
  induction xs with
  | nil => rfl
  | cons x xs ih =>
    obtain ⟨head, tail, hsplit⟩ := List.exists_cons_of_ne_nil (List.splitOn_ne_nil sep xs)
    by_cases hx : x = sep
    · subst hx
      rw [List.filter_cons_of_pos h, List.splitOn_cons_eq_if_modifyHead, if_pos BEq.rfl, ih,
        List.splitOn_cons_eq_if_modifyHead, if_pos BEq.rfl]
      rfl
    · have hne : ¬(x == sep) = true := by simpa using hx
      rw [List.splitOn_cons_eq_if_modifyHead, if_neg hne, hsplit]
      rw [hsplit] at ih
      by_cases hp : p x = true
      · rw [List.filter_cons_of_pos hp, List.splitOn_cons_eq_if_modifyHead, if_neg hne, ih]
        simp [hp]
      · rw [List.filter_cons_of_neg hp, ih]
        simp [hp]

/-- Elements that are changed: new separators split the old parts. -/
theorem splitOn_map {f : α → α} (h : f sep = sep) (xs : List α) :
    (xs.map f).splitOn sep = (xs.splitOn sep).flatMap fun part ↦ (part.map f).splitOn sep := by
  induction xs with
  | nil => rfl
  | cons x xs ih =>
    obtain ⟨head, tail, hsplit⟩ := List.exists_cons_of_ne_nil (List.splitOn_ne_nil sep xs)
    by_cases hx : x = sep
    · subst hx
      rw [List.map_cons, h, List.splitOn_cons_eq_if_modifyHead, if_pos BEq.rfl, ih,
        List.splitOn_cons_eq_if_modifyHead, if_pos BEq.rfl]
      rfl
    · have hne : ¬(x == sep) = true := by simpa using hx
      rw [hsplit, List.flatMap_cons] at ih
      rw [List.map_cons, List.splitOn_cons_eq_if_modifyHead, ih,
        List.splitOn_cons_eq_if_modifyHead (x := x), if_neg hne, hsplit, List.modifyHead_cons,
        List.flatMap_cons, List.map_cons, List.splitOn_cons_eq_if_modifyHead (f x)]
      obtain ⟨first, more, hfirst⟩ :=
        List.exists_cons_of_ne_nil (List.splitOn_ne_nil sep (head.map f))
      rw [hfirst]
      split <;> rfl

/-- All parts but the last one, when elements are changed. -/
theorem dropLast_splitOn_map {f : α → α} (h : f sep = sep) (xs : List α) :
    ((xs.map f).splitOn sep).dropLast =
      ((xs.splitOn sep).dropLast.flatMap fun part ↦ (part.map f).splitOn sep) ++
        ((((xs.splitOn sep).getLast (List.splitOn_ne_nil sep xs)).map f).splitOn sep).dropLast := by
  rw [splitOn_map h]
  conv_lhs => rw [← List.dropLast_append_getLast (List.splitOn_ne_nil sep xs)]
  rw [List.flatMap_append, List.flatMap_singleton,
    List.dropLast_append_of_ne_nil (List.splitOn_ne_nil sep _)]

omit [LawfulBEq α] in
theorem mem_of_mem_splitOn {x : α} {xs part : List α} (hpart : part ∈ xs.splitOn sep) (h : x ∈ part) :
    x ∈ xs := by
  induction xs generalizing part with
  | nil =>
    rw [List.splitOn_nil, List.mem_singleton] at hpart
    exact hpart ▸ h
  | cons y xs ih =>
    obtain ⟨head, tail, hsplit⟩ := List.exists_cons_of_ne_nil (List.splitOn_ne_nil sep xs)
    rw [List.splitOn_cons_eq_if_modifyHead, hsplit] at hpart
    rw [hsplit] at ih
    split at hpart
    · rcases List.mem_cons.mp hpart with rfl | hpart
      · cases h
      · exact List.mem_cons_of_mem y (ih hpart h)
    · rcases List.mem_cons.mp hpart with rfl | hpart
      · exact (List.mem_cons.mp h).elim (fun hx ↦ hx ▸ List.mem_cons_self)
          fun hmem ↦ List.mem_cons_of_mem y (ih List.mem_cons_self hmem)
      · exact List.mem_cons_of_mem y (ih (List.mem_cons_of_mem _ hpart) h)

theorem not_mem_of_mem_splitOn {xs part : List α} (hpart : part ∈ xs.splitOn sep) : sep ∉ part := by
  induction xs generalizing part with
  | nil =>
    rw [List.splitOn_nil, List.mem_singleton] at hpart
    rw [hpart]
    exact List.not_mem_nil
  | cons y xs ih =>
    obtain ⟨head, tail, hsplit⟩ := List.exists_cons_of_ne_nil (List.splitOn_ne_nil sep xs)
    rw [List.splitOn_cons_eq_if_modifyHead, hsplit] at hpart
    rw [hsplit] at ih
    split at hpart
    · rcases List.mem_cons.mp hpart with rfl | hpart
      · exact List.not_mem_nil
      · exact ih hpart
    · next hy =>
      rcases List.mem_cons.mp hpart with rfl | hpart
      · rw [List.mem_cons, not_or]
        exact ⟨fun he ↦ hy (he ▸ BEq.rfl), ih List.mem_cons_self⟩
      · exact ih (List.mem_cons_of_mem _ hpart)

/-- What comes only before separators comes only at the ends of parts. -/
theorem not_mem_dropLast_of_mem_splitOn {x : α} {xs : List α}
    (h : xs.IsChain fun a b ↦ a = x → b = sep) {part : List α} (hpart : part ∈ xs.splitOn sep) :
    x ∉ part.dropLast := by
  induction xs generalizing part with
  | nil =>
    rw [List.splitOn_nil, List.mem_singleton] at hpart
    rw [hpart]
    exact List.not_mem_nil
  | cons y xs ih =>
    obtain ⟨head, tail, hsplit⟩ := List.exists_cons_of_ne_nil (List.splitOn_ne_nil sep xs)
    have hxs : ∀ part ∈ xs.splitOn sep, x ∉ part.dropLast := fun _ hmem ↦ ih (List.IsChain.tail h) hmem
    rw [List.splitOn_cons_eq_if_modifyHead, hsplit] at hpart
    rw [hsplit] at hxs
    split at hpart
    · rcases List.mem_cons.mp hpart with rfl | hpart
      · exact List.not_mem_nil
      · exact hxs part hpart
    · rcases List.mem_cons.mp hpart with rfl | hpart
      · cases head with
        | nil => exact List.not_mem_nil
        | cons z head =>
          -- the part goes on, and not with a separator
          rw [List.dropLast_cons_cons, List.mem_cons, not_or]
          refine ⟨?_, hxs _ List.mem_cons_self⟩
          rintro rfl
          have hz : z ∈ xs.head? := by
            cases xs with
            | nil => cases hsplit
            | cons w xs =>
              rw [List.splitOn_cons_eq_if_modifyHead] at hsplit
              split at hsplit
              · cases hsplit
              · obtain ⟨first, more, hfirst⟩ := List.exists_cons_of_ne_nil (List.splitOn_ne_nil sep xs)
                rw [hfirst, List.modifyHead_cons] at hsplit
                cases hsplit
                rfl
          have hsep := (List.isChain_cons.mp h).1 z hz rfl
          have hmem : z ∈ z :: head := List.mem_cons_self
          exact not_mem_of_mem_splitOn (hsplit ▸ List.mem_cons_self) (hsep ▸ hmem)
      · exact hxs part (List.mem_cons_of_mem _ hpart)

end Splitting

/-! ### Lines and blocks -/

section Blocks

variable [DecidableEq α] {sep : α}

/-- Separators do not follow each other. -/
def Apart (sep : α) (xs : List α) : Prop := xs.IsChain fun a b ↦ ¬(a = sep ∧ b = sep)

/-- Lines between separators that do not follow each other are not empty. -/
theorem Apart.tail_ne_nil {xs : List α} (h : Apart sep xs) (hlast : xs.getLast? ≠ some sep) :
    ∀ line ∈ (xs.splitOn sep).tail, line ≠ [] := by
  induction xs with
  | nil => exact nofun
  | cons x xs ih =>
    rw [List.splitOn_cons_eq_if_modifyHead]
    obtain ⟨head, tail, hsplit⟩ := List.exists_cons_of_ne_nil (List.splitOn_ne_nil sep xs)
    have hxs : Apart sep xs := List.IsChain.tail h
    have hlast' : xs.getLast? ≠ some sep := by
      cases xs with
      | nil => exact nofun
      | cons y ys => rwa [List.getLast?_cons_cons] at hlast
    have htail := ih hxs hlast'
    rw [hsplit] at htail
    split
    · next hx =>
      have hx : x = sep := eq_of_beq hx
      rw [List.tail_cons, hsplit]
      intro line hline
      rcases List.mem_cons.mp hline with rfl | hline
      · -- the rest does not begin with a separator
        rintro rfl
        cases xs with
        | nil => exact hlast (by rw [hx]; rfl)
        | cons y ys =>
          rw [List.splitOn_cons_eq_if_modifyHead] at hsplit
          split at hsplit
          · next hy => exact (List.isChain_cons_cons.mp h).1 ⟨hx, eq_of_beq hy⟩
          · obtain ⟨first, more, hfirst⟩ := List.exists_cons_of_ne_nil (List.splitOn_ne_nil sep ys)
            rw [hfirst, List.modifyHead_cons] at hsplit
            cases hsplit
      · exact htail line hline
    · rw [hsplit, List.modifyHead_cons]
      exact htail

variable {e : List (List α) → Option β}

/-- Lines of which only the first one may be empty are one paragraph. -/
theorem filterMap_splitOn_lines (hnil : e [] = none) (hcons : ∀ lines, e ([] :: lines) = e lines)
    {lines : List (List α)} (h : ∀ line ∈ lines.tail, line ≠ []) :
    (lines.splitOn []).filterMap e = (e lines).toList ∧
      (lines.splitOn []).dropLast.filterMap e = [] := by
  cases lines with
  | nil => exact ⟨by rw [List.splitOn_nil, hnil]; simp [hnil], rfl⟩
  | cons line lines =>
    have hlines : [] ∉ lines := fun hmem ↦ h [] hmem rfl
    by_cases hline : line = []
    · subst hline
      rw [List.splitOn_cons_eq_if_modifyHead, if_pos BEq.rfl, List.splitOn_eq_singleton hlines, hcons]
      refine ⟨?_, ?_⟩
      · rw [List.filterMap_cons_none hnil]
        cases he : e lines <;> simp [he]
      · change List.filterMap e [[]] = []
        rw [List.filterMap_cons_none hnil]
        rfl
    · have hnone : [] ∉ line :: lines := by
        rw [List.mem_cons, not_or]
        exact ⟨Ne.symm hline, hlines⟩
      rw [List.splitOn_eq_singleton hnone]
      exact ⟨by cases he : e (line :: lines) <;> simp [he], rfl⟩

/-- What is found in the complete paragraphs of a text. -/
def paragraphs (sep : α) (e : List (List α) → Option β) (text : List α) : List β :=
  ((text.splitOn sep).dropLast.splitOn []).dropLast.filterMap e

private theorem paragraphs_of_apart (hnil : e [] = none) (hcons : ∀ lines, e ([] :: lines) = e lines)
    {text : List α} (h : Apart sep text) : paragraphs sep e text = [] := by
  refine (filterMap_splitOn_lines hnil hcons ?_).2
  by_cases hlast : text.getLast? = some sep
  · obtain ⟨front, rfl⟩ : ∃ front, text = front ++ [sep] := List.getLast?_eq_some_iff.mp hlast
    have hfront : front.getLast? ≠ some sep := by
      intro hsep
      obtain ⟨start, rfl⟩ : ∃ start, front = start ++ [sep] := List.getLast?_eq_some_iff.mp hsep
      rw [List.append_assoc] at h
      exact (List.isChain_cons_cons.mp (List.IsChain.right_of_append h)).1 ⟨rfl, rfl⟩
    rw [List.splitOn_append_cons_self, List.splitOn_nil, List.dropLast_concat]
    exact Apart.tail_ne_nil (List.IsChain.left_of_append h) hfront
  · intro line hline
    refine h.tail_ne_nil hlast line ?_
    rw [List.tail_dropLast] at hline
    exact (List.dropLast_sublist _).subset hline

private theorem blocksFrom_filterMap (hnil : e [] = none) (hcons : ∀ lines, e ([] :: lines) = e lines)
    (block text : List α) (h : Apart sep (block ++ text.take 1)) :
    (blocksFrom sep block text).1.filterMap (fun b ↦ e (b.splitOn sep)) =
      paragraphs sep e (block ++ text) := by
  fun_induction blocksFrom sep block text with
  | case1 block => exact (paragraphs_of_apart hnil hcons h).symm
  | case2 block x => exact (paragraphs_of_apart hnil hcons h).symm
  | case3 block x y rest hsep ih =>
    obtain ⟨rfl, rfl⟩ := hsep
    have hlast : block.getLast? ≠ some y := by
      intro hsep
      obtain ⟨start, rfl⟩ : ∃ start, block = start ++ [y] := List.getLast?_eq_some_iff.mp hsep
      rw [List.append_assoc] at h
      exact (List.isChain_cons_cons.mp (List.IsChain.right_of_append h)).1 ⟨rfl, rfl⟩
    have hblock := (filterMap_splitOn_lines hnil hcons
      (Apart.tail_ne_nil (List.IsChain.left_of_append h) hlast)).1
    have hlines : ((block ++ y :: y :: rest).splitOn y).dropLast =
        block.splitOn y ++ [] :: (rest.splitOn y).dropLast := by
      rw [List.splitOn_append_cons_self, List.splitOn_cons_eq_if_modifyHead, if_pos BEq.rfl,
        List.dropLast_append_of_ne_nil (List.cons_ne_nil _ _),
        List.dropLast_cons_of_ne_nil (List.splitOn_ne_nil y rest)]
    have hrest := ih (by
      rw [List.nil_append]
      cases rest with
      | nil => exact List.IsChain.nil
      | cons z rest => exact List.IsChain.singleton z)
    rw [List.nil_append] at hrest
    rw [paragraphs, hlines, List.splitOn_append_cons_self,
      List.dropLast_append_of_ne_nil (List.splitOn_ne_nil [] _), List.filterMap_append, hblock,
      ← paragraphs, ← hrest]
    cases he : e (block.splitOn y) <;> simp [he]
  | case4 block x y rest hsep ih =>
    have hnext : Apart sep (block ++ [x] ++ (y :: rest).take 1) := by
      have htwo : [x, y].IsChain fun a b ↦ ¬(a = sep ∧ b = sep) :=
        List.isChain_cons_cons.mpr ⟨hsep, List.IsChain.singleton y⟩
      exact List.IsChain.append_overlap h htwo (List.cons_ne_nil _ _)
    rw [ih hnext, List.append_assoc]
    rfl

/-- Reading blocks is reading paragraphs. -/
theorem blocks_filterMap (hnil : e [] = none) (hcons : ∀ lines, e ([] :: lines) = e lines)
    (text : List α) : (blocks sep text).1.filterMap (fun b ↦ e (b.splitOn sep)) =
      paragraphs sep e text := by
  refine blocksFrom_filterMap hnil hcons [] text ?_
  cases text with
  | nil => exact List.IsChain.nil
  | cons x text => exact List.IsChain.singleton x

end Blocks

end Vidarax.Base
