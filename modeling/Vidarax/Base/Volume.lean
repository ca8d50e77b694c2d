import Mathlib.Logic.Function.Basic
import Vidarax.Base.Utf8

/-!
# File systems that lose what is not synced

Library `Base`. Directories and files under paths, where every path has the directory it lies in.
A crash keeps the contents of a synced file, and of every directory the entries that are as they
were when the directory was synced; each entry that changed since may or may not be lost.
-/

namespace Vidarax.Base

/-- What a path names. -/
inductive Inode where
  | directory
  | file (inode : Nat)
  deriving DecidableEq

/-- A file system. The entries in `lost` are those that a path had since its directory was synced,
and that a crash may bring back. -/
structure Volume (Path : Type) where
  entry : Path → Option Inode
  lost : Path → List (Option Inode)
  data : Nat → Bytes
  synced : Nat → Bool
  next : Nat

namespace Volume

variable {Path : Type} {v v' : Volume Path}

/-- The contents of a file. -/
def read (v : Volume Path) (p : Path) : Option Bytes :=
  match v.entry p with
  | some (.file i) => some (v.data i)
  | _ => none

/-- The entries that a path may have after a crash. -/
def recent (v : Volume Path) (p : Path) : List (Option Inode) := v.entry p :: v.lost p

theorem entry_mem_recent {p : Path} : v.entry p ∈ v.recent p := List.mem_cons_self

theorem read_eq {p : Path} {i : Nat} (h : v.entry p = some (.file i)) :
    v.read p = some (v.data i) := by
  rw [read, h]

theorem read_eq_some {p : Path} {bytes : Bytes} (h : v.read p = some bytes) :
    ∃ i, v.entry p = some (.file i) ∧ v.data i = bytes := by
  unfold read at h
  split at h
  · next i hentry => exact ⟨i, hentry, Option.some.inj h⟩
  · cases h

/-! ### Operations -/

section Operations

variable [DecidableEq Path] (v)

/-- Change an entry of a directory. -/
def set (p : Path) (e : Option Inode) : Volume Path :=
  { v with
    entry := Function.update v.entry p e
    lost := Function.update v.lost p (v.entry p :: v.lost p) }

/-- A new file without contents. -/
def createFile (p : Path) : Volume Path :=
  { v.set p (some (.file v.next)) with
    data := Function.update v.data v.next []
    synced := Function.update v.synced v.next false
    next := v.next + 1 }

end Operations

variable (v)

/-- Write the contents of a file. -/
def writeFile (i : Nat) (bytes : Bytes) : Volume Path :=
  { v with
    data := Function.update v.data i bytes
    synced := Function.update v.synced i false }

/-- `fsync` of a file. -/
def syncFile (i : Nat) : Volume Path := { v with synced := Function.update v.synced i true }

variable (parent : Path → Option Path)

/-- `fsync` of a directory, which is the root where no path is given. -/
def syncDirectory [DecidableEq Path] (d : Option Path) : Volume Path :=
  { v with lost := fun p ↦ if parent p = d then [] else v.lost p }

variable {v}

section Set

variable [DecidableEq Path] {p q : Path} {e : Option Inode}

@[simp] theorem entry_set_self : (v.set p e).entry p = e := Function.update_self ..

theorem entry_set_ne (h : q ≠ p) : (v.set p e).entry q = v.entry q := Function.update_of_ne h ..

@[simp] theorem lost_set_self : (v.set p e).lost p = v.entry p :: v.lost p :=
  Function.update_self ..

theorem lost_set_ne (h : q ≠ p) : (v.set p e).lost q = v.lost q := Function.update_of_ne h ..

@[simp] theorem entry_createFile_self : (v.createFile p).entry p = some (.file v.next) :=
  entry_set_self

theorem entry_createFile_ne (h : q ≠ p) : (v.createFile p).entry q = v.entry q := entry_set_ne h

theorem lost_createFile_ne (h : q ≠ p) : (v.createFile p).lost q = v.lost q :=
  Function.update_of_ne h ..

theorem data_createFile {i : Nat} (h : i < v.next) : (v.createFile p).data i = v.data i :=
  Function.update_of_ne (Nat.ne_of_lt h) ..

theorem synced_createFile {i : Nat} (h : i < v.next) : (v.createFile p).synced i = v.synced i :=
  Function.update_of_ne (Nat.ne_of_lt h) ..

end Set

section Contents

variable {i j : Nat} {bytes : Bytes}

@[simp] theorem data_writeFile_self : (v.writeFile i bytes).data i = bytes :=
  Function.update_self ..

theorem data_writeFile_ne (h : j ≠ i) : (v.writeFile i bytes).data j = v.data j :=
  Function.update_of_ne h ..

theorem synced_writeFile_ne (h : j ≠ i) : (v.writeFile i bytes).synced j = v.synced j :=
  Function.update_of_ne h ..

@[simp] theorem synced_syncFile_self : (v.syncFile i).synced i = true := Function.update_self ..

theorem synced_syncFile (h : v.synced j = true) : (v.syncFile i).synced j = true := by
  by_cases hj : j = i
  · rw [hj, synced_syncFile_self]
  · exact (Function.update_of_ne hj ..).trans h

end Contents

section Sync

variable [DecidableEq Path]

theorem lost_syncDirectory {p : Path} {d : Option Path} :
    (v.syncDirectory parent d).lost p = [] ∨ (v.syncDirectory parent d).lost p = v.lost p := by
  unfold syncDirectory
  dsimp only
  split
  · exact .inl rfl
  · exact .inr rfl

theorem lost_syncDirectory_of_parent {p : Path} :
    (v.syncDirectory parent (parent p)).lost p = [] :=
  if_pos rfl

end Sync

/-! ### Crashes -/

/-- What a crash may leave. An entry is the last one or one that came back, and nothing is left of
what lay in a directory that is lost. -/
structure Crash (v v' : Volume Path) : Prop where
  entry : ∀ p, v'.entry p ∈ v.recent p ∨
    v'.entry p = none ∧ ∃ d, parent p = some d ∧ v'.entry d ≠ some .directory
  orphan : ∀ p d, parent p = some d → v'.entry d ≠ some .directory → v'.entry p = none
  lost : ∀ p, v'.lost p = []
  data : ∀ i, v.synced i = true → v'.data i = v.data i
  synced : ∀ i, v.synced i = true → v'.synced i = true
  next : v'.next = v.next

/-- An entry that every crash keeps. -/
inductive Durable (v : Volume Path) : Path → Inode → Prop where
  | root {p : Path} {e : Inode} (hparent : parent p = none) (hentry : v.entry p = some e)
      (hlost : v.lost p = []) : Durable v p e
  | child {p d : Path} {e : Inode} (hparent : parent p = some d) (hdir : Durable v d .directory)
      (hentry : v.entry p = some e) (hlost : v.lost p = []) : Durable v p e

variable {parent} {p : Path} {e : Inode}

namespace Durable

theorem entry (h : Durable parent v p e) : v.entry p = some e := by
  cases h with
  | root _ hentry _ | child _ _ hentry _ => exact hentry

theorem lost (h : Durable parent v p e) : v.lost p = [] := by
  cases h with
  | root _ _ hlost | child _ _ _ hlost => exact hlost

/-- What a crash leaves of a durable entry is durable. -/
theorem crash (h : Durable parent v p e) (hcrash : Crash parent v v') :
    Durable parent v' p e := by
  induction h with
  | @root p e hparent hentry hlost =>
    have hkept : v'.entry p = some e := by
      rcases hcrash.entry p with hmem | ⟨-, d, hd, -⟩
      · rwa [recent, hlost, List.mem_singleton, hentry] at hmem
      · rw [hparent] at hd
        cases hd
    exact .root hparent hkept (hcrash.lost p)
  | @child p d e hparent _ hentry hlost ih =>
    have hkept : v'.entry p = some e := by
      rcases hcrash.entry p with hmem | ⟨-, d', hd', hgone⟩
      · rwa [recent, hlost, List.mem_singleton, hentry] at hmem
      · rw [Option.some.inj (hparent.symm.trans hd')] at ih
        exact absurd ih.entry hgone
    exact .child hparent ih hkept (hcrash.lost p)

/-- A durable entry stays durable when its own entry and the directories stay. -/
theorem keep (h : Durable parent v p e)
    (hdir : ∀ d, v.entry d = some .directory → v.lost d = [] →
      v'.entry d = some .directory ∧ v'.lost d = [])
    (hself : v'.entry p = some e ∧ v'.lost p = []) : Durable parent v' p e := by
  cases h with
  | root hparent => exact .root hparent hself.1 hself.2
  | @child _ d _ hparent hup =>
    refine .child hparent ?_ hself.1 hself.2
    clear hself hparent
    generalize he : Inode.directory = e' at hup
    induction hup with
    | root hparent hentry hlost =>
      subst he
      exact .root hparent (hdir _ hentry hlost).1 (hdir _ hentry hlost).2
    | child hparent _ hentry hlost ih =>
      subst he
      exact .child hparent (ih rfl) (hdir _ hentry hlost).1 (hdir _ hentry hlost).2

end Durable

end Volume

end Vidarax.Base
