import Mathlib.Data.List.Basic

/-!
# Blocks of lines

Library `Base`. A text falls into blocks that end in a doubled separator, and a rest without one.
When the text arrives in pieces, only the rest has to be kept to find the same blocks. A block of
lines, none of them empty, is the lines joined by separators.
-/

namespace Vidarax.Base

variable {α : Type} [DecidableEq α] (sep : α)

/-- Blocks of a text that goes on with the block `block`, and what follows the last of them. -/
def blocksFrom (block : List α) : List α → List (List α) × List α
  | [] => ([], block)
  | [x] => ([], block ++ [x])
  | x :: y :: rest =>
    if x = sep ∧ y = sep then
      (block :: (blocksFrom [] rest).1, (blocksFrom [] rest).2)
    else blocksFrom (block ++ [x]) (y :: rest)

/-- Blocks of a text, and what follows the last of them. -/
def blocks (text : List α) : List (List α) × List α := blocksFrom sep [] text

variable {sep} {block text : List α}

/-- A text is its blocks, each with its doubled separator, and the rest. -/
theorem blocksFrom_text :
    (blocksFrom sep block text).1.flatMap (· ++ [sep, sep]) ++ (blocksFrom sep block text).2 =
      block ++ text := by
  fun_induction blocksFrom sep block text with
  | case1 block => simp
  | case2 block x => simp
  | case3 block x y rest h ih =>
    obtain ⟨rfl, rfl⟩ := h
    simp only [List.flatMap_cons, List.append_assoc, ih]
    simp
  | case4 block x y rest h ih => simpa using ih

theorem blocks_text :
    (blocks sep text).1.flatMap (· ++ [sep, sep]) ++ (blocks sep text).2 = text :=
  blocksFrom_text

/-- What has been read of a block without coming to its end may be read again. -/
private theorem blocksFrom_append {more : List α}
    (h : ∀ more, blocksFrom sep [] (block ++ (text ++ more)) = blocksFrom sep block (text ++ more)) :
    blocksFrom sep block (text ++ more) =
      ((blocksFrom sep block text).1 ++
          (blocks sep ((blocksFrom sep block text).2 ++ more)).1,
        (blocks sep ((blocksFrom sep block text).2 ++ more)).2) := by
  fun_induction blocksFrom sep block text with
  | case1 block => exact (h more).symm
  | case2 block x =>
    have hmore := h more
    rw [← List.append_assoc] at hmore
    exact hmore.symm
  | case3 block x y rest hsep ih =>
    simp only [List.cons_append]
    rw [blocksFrom, if_pos hsep, ih fun _ ↦ rfl]
  | case4 block x y rest hsep ih =>
    have hstep (more : List α) : blocksFrom sep block (x :: y :: (rest ++ more)) =
        blocksFrom sep (block ++ [x]) (y :: (rest ++ more)) := by rw [blocksFrom, if_neg hsep]
    simp only [List.cons_append] at h ih ⊢
    rw [hstep, ih]
    intro more
    rw [← hstep, ← h, List.append_assoc, List.singleton_append]

/-- Only the rest of a text has to be kept for the blocks of a longer one. -/
theorem blocks_append (text more : List α) :
    blocks sep (text ++ more) =
      ((blocks sep text).1 ++ (blocks sep ((blocks sep text).2 ++ more)).1,
        (blocks sep ((blocks sep text).2 ++ more)).2) :=
  blocksFrom_append fun _ ↦ rfl

/-- What is kept of a text has no block. -/
theorem blocks_rest (text : List α) : blocks sep (blocks sep text).2 = ([], (blocks sep text).2) := by
  have h : blocks sep (text ++ []) = _ := blocks_append text []
  rw [List.append_nil, List.append_nil, Prod.ext_iff] at h
  exact Prod.ext (List.append_cancel_left (h.1.symm.trans (List.append_nil _).symm)) h.2.symm

private theorem blocksFrom_concat {x : α} (hx : x ≠ sep)
    (h : (blocksFrom sep block text).1 = []) : (blocksFrom sep block (text ++ [x])).1 = [] := by
  fun_induction blocksFrom sep block text with
  | case1 block => rfl
  | case2 block y =>
    rw [List.singleton_append, blocksFrom, if_neg fun he ↦ hx he.2]
    rfl
  | case3 block y z rest hsep ih => cases h
  | case4 block y z rest hsep ih =>
    rw [List.cons_append, List.cons_append, blocksFrom, if_neg hsep]
    exact ih h

/-- An element that is no separator does not end a block. -/
theorem blocks_concat {x : α} (hx : x ≠ sep) (h : (blocks sep text).1 = []) :
    (blocks sep (text ++ [x])).1 = [] :=
  blocksFrom_concat hx h

/-! ### Blocks of lines -/

/-- The block is found before the first doubled separator. -/
def IsBlock (sep : α) (block : List α) : Prop := blocks sep (block ++ [sep, sep]) = ([block], [])

/-- A block at the start of a text. -/
theorem IsBlock.blocks_append (h : IsBlock sep block) (more : List α) :
    blocks sep (block ++ [sep, sep] ++ more) =
      (block :: (blocks sep more).1, (blocks sep more).2) := by
  rw [Base.blocks_append, h]
  rfl

/-- Before its end a block is not found. -/
theorem IsBlock.blocks_prefix (h : IsBlock sep block) {part : List α}
    (hpart : part <+: block ++ [sep, sep]) (hne : part ≠ block ++ [sep, sep]) :
    blocks sep part = ([], part) := by
  obtain ⟨more, hmore⟩ := hpart
  have hall : blocks sep (part ++ more) = _ := Base.blocks_append part more
  rw [hmore, h, Prod.mk.injEq] at hall
  cases hfound : (blocks sep part).1 with
  | nil =>
    have htext : (blocks sep part).1.flatMap (· ++ [sep, sep]) ++ (blocks sep part).2 = part :=
      blocks_text
    rw [hfound] at htext
    exact Prod.ext hfound htext
  | cons b bs =>
    -- then there is nothing after the block, and nothing is missing
    rw [hfound] at hall
    have hrest := List.append_eq_nil_iff.mp (List.cons.inj hall.1).2.symm
    have htext : (blocks sep ((blocks sep part).2 ++ more)).1.flatMap (· ++ [sep, sep]) ++
        (blocks sep ((blocks sep part).2 ++ more)).2 = (blocks sep part).2 ++ more := blocks_text
    rw [hrest.2, ← hall.2] at htext
    have hnil := (List.append_eq_nil_iff.mp htext.symm).2
    rw [hnil, List.append_nil] at hmore
    exact absurd hmore hne

/-- A first part of the text of some blocks holds the first of them, and a part of the next. -/
theorem exists_take_of_prefix_blocks {found : List (List α)} (h : ∀ block ∈ found, IsBlock sep block)
    (htext : text <+: found.flatMap (· ++ [sep, sep])) :
    ∃ n part, blocks sep text = (found.take n, part) ∧
      (part = [] ∨ ∃ block, found[n]? = some block ∧ part.length < block.length + 2) := by
  induction found generalizing text with
  | nil =>
    rw [List.flatMap_nil, List.prefix_nil] at htext
    exact ⟨0, [], by rw [htext]; rfl, .inl rfl⟩
  | cons block found ih =>
    have hblock := h block List.mem_cons_self
    obtain ⟨missing, hmissing⟩ := htext
    rw [List.flatMap_cons, List.append_eq_append_iff] at hmissing
    rcases hmissing with ⟨more, hpart, -⟩ | ⟨rest, rfl, hrest⟩
    · have hfirst : text <+: block ++ [sep, sep] := ⟨more, hpart.symm⟩
      by_cases hwhole : text = block ++ [sep, sep]
      · refine ⟨1, [], ?_, .inl rfl⟩
        rw [hwhole]
        exact hblock
      · have hlength : text.length < (block ++ [sep, sep]).length :=
          Nat.lt_of_le_of_ne hfirst.length_le fun he ↦ hwhole (hfirst.eq_of_length he)
        rw [List.length_append] at hlength
        exact ⟨0, text, hblock.blocks_prefix hfirst hwhole, .inr ⟨block, rfl, hlength⟩⟩
    · obtain ⟨n, part, hblocks, hnext⟩ :=
        ih (fun b hb ↦ h b (List.mem_cons_of_mem _ hb)) ⟨missing, hrest.symm⟩
      refine ⟨n + 1, part, ?_, by simpa using hnext⟩
      rw [hblock.blocks_append, hblocks]
      rfl

private theorem blocksFrom_line {line : List α} (h : sep ∉ line) (more : List α) :
    blocksFrom sep block (line ++ more) = blocksFrom sep (block ++ line) more := by
  induction line generalizing block with
  | nil => simp
  | cons x line ih =>
    rw [List.mem_cons, not_or] at h
    have hstep : blocksFrom sep block (x :: (line ++ more)) =
        blocksFrom sep (block ++ [x]) (line ++ more) := by
      cases line ++ more with
      | nil => rfl
      | cons y rest => rw [blocksFrom, if_neg fun he ↦ h.1 he.1.symm]
    rw [List.cons_append, hstep, ih h.2, List.append_assoc, List.singleton_append]

private theorem blocksFrom_lines {lines : List (List α)} (hlines : lines ≠ [])
    (h : ∀ line ∈ lines, line ≠ [] ∧ sep ∉ line) :
    blocksFrom sep block ([sep].intercalate lines ++ [sep, sep]) =
      ([block ++ [sep].intercalate lines], []) := by
  induction lines generalizing block with
  | nil => exact absurd rfl hlines
  | cons line lines ih =>
    have hline := h line List.mem_cons_self
    cases lines with
    | nil =>
      rw [List.intercalate_singleton, blocksFrom_line hline.2, blocksFrom, if_pos ⟨rfl, rfl⟩]
      rfl
    | cons next lines =>
      have hnext := h next (List.mem_cons_of_mem _ List.mem_cons_self)
      obtain ⟨y, rest, hy⟩ := List.exists_cons_of_ne_nil hnext.1
      have hsep : y ≠ sep := fun he ↦ hnext.2 (by rw [hy, he]; exact List.mem_cons_self)
      have hstart : ∃ rest, [sep].intercalate (next :: lines) ++ [sep, sep] = y :: rest := by
        cases lines with
        | nil => exact ⟨rest ++ [sep, sep], by rw [List.intercalate_singleton, hy]; rfl⟩
        | cons line' lines =>
          exact ⟨_, by rw [List.intercalate_cons_cons, hy]; rfl⟩
      have ih : blocksFrom sep (block ++ line ++ [sep])
          ([sep].intercalate (next :: lines) ++ [sep, sep]) = _ :=
        ih (List.cons_ne_nil _ _) fun l hl ↦ h l (List.mem_cons_of_mem _ hl)
      obtain ⟨rest', hrest⟩ := hstart
      rw [List.intercalate_cons_cons, List.append_assoc, List.append_assoc, hrest,
        blocksFrom_line hline.2, List.singleton_append, blocksFrom,
        if_neg fun he ↦ hsep he.2, ← hrest, ih]
      simp

/-- Lines that are not empty are a block. -/
theorem isBlock_lines {lines : List (List α)} (hlines : lines ≠ [])
    (h : ∀ line ∈ lines, line ≠ [] ∧ sep ∉ line) : IsBlock sep ([sep].intercalate lines) :=
  blocksFrom_lines hlines h

end Vidarax.Base
