import Mathlib.Data.Set.Finite.Lattice
import Vidarax.Evidence.Durable

/-!
# A file that is left behind does not block its evidence

Package `vidarax-api`, `wal_sink.rs` 168–266. A temporary file that a crash left may have the name
that an attempt needs. The attempt then fails and removes it, and the next one has another number;
there are only so many files, so that attempts without errors succeed in the end.
-/

namespace Vidarax.Evidence

open Base Volume

variable {sha256 : Bytes → Bytes} {v w : Volume BlobPath} {b : Blob} {process next : Nat}

variable (sha256) in
/-- The next operation of a call, which does not fail. -/
def Blob.proceed (b : Blob) (process : Nat) (x : Volume BlobPath × Nat × Stage) :
    Volume BlobPath × Nat × Stage :=
  (⟨b, x.2.2⟩ : Call).advance sha256 process x.1 x.2.1 .ok

/-- What is left of a volume when only directories are made and synced. -/
def Quiet (v w : Volume BlobPath) : Prop :=
  (∀ p, p.isDirectory = false → w.entry p = v.entry p) ∧ w.data = v.data

theorem Quiet.trans {u : Volume BlobPath} (h : Quiet u v) (h' : Quiet v w) : Quiet u w :=
  ⟨fun p hp ↦ (h'.1 p hp).trans (h.1 p hp), h'.2.trans h.2⟩

theorem iterate_succ_of_eq {α : Type*} {f : α → α} {x y z : α} {n : Nat} (h : f x = y)
    (h' : f^[n] y = z) : f^[n + 1] x = z := by
  rw [Function.iterate_succ_apply, h, h']

/-! ### The directories -/

theorem proceed_createDirectories (next : Nat) {level : BlobPath} {rest : List BlobPath}
    (hs : Sane sha256 v) (hgood : Good sha256 v b process (.createDirectories (level :: rest))) :
    ∃ w, b.proceed sha256 process (v, next, .createDirectories (level :: rest)) =
        (w, next, .createDirectories rest) ∧
      Sane sha256 w ∧ Good sha256 w b process (.createDirectories rest) ∧ Quiet v w := by
  have hdirectory := isDirectory_of_mem_levels (hgood.1 List.mem_cons_self)
  have hmoves := Moves.createDirectories_cons next .ok hs hgood
  have hfits := hs.fits level _ entry_mem_recent
  cases hentry : v.entry level with
  | none =>
    have heq : b.proceed sha256 process (v, next, .createDirectories (level :: rest)) =
        (v.set level (some .directory), next, .createDirectories rest) := by
      unfold Blob.proceed
      dsimp only [Call.advance]
      rw [hentry]
      rfl
    rw [show Call.advance .. = _ from heq] at hmoves
    refine ⟨_, heq, hmoves.sane, hmoves.good, fun p hp ↦ ?_, rfl⟩
    rw [entry_set_ne]
    rintro rfl
    rw [hdirectory] at hp
    cases hp
  | some e =>
    cases e with
    | directory =>
      have heq : b.proceed sha256 process (v, next, .createDirectories (level :: rest)) =
          (v, next, .createDirectories rest) := by
        unfold Blob.proceed
        dsimp only [Call.advance]
        rw [hentry]
        rfl
      rw [show Call.advance .. = _ from heq] at hmoves
      exact ⟨_, heq, hmoves.sane, hmoves.good, fun _ _ ↦ rfl, rfl⟩
    | file i =>
      rw [hentry] at hfits
      have hnot : level.isDirectory = false := hfits.1
      rw [hdirectory] at hnot
      cases hnot

/-- The directories of a file are made and synced, and the call looks for the file. -/
theorem proceed_directories (b : Blob) (process next : Nat) (hs : Sane sha256 v) :
    ∃ w, (b.proceed sha256 process)^[9] (v, next, .createDirectories (b.levels sha256)) =
        (w, next, if (v.entry (b.path sha256)).isSome then .inspect else .takeSequence) ∧
      Sane sha256 w ∧ Firm sha256 w b ∧ Quiet v w := by
  have hstart : Good sha256 v b process (.createDirectories (b.levels sha256)) :=
    ⟨List.Subset.refl _, fun d hd ↦ .inl hd⟩
  obtain ⟨v₁, h₁, hs₁, hgood₁, hquiet₁⟩ := proceed_createDirectories next hs hstart
  obtain ⟨v₂, h₂, hs₂, hgood₂, hquiet₂⟩ := proceed_createDirectories next hs₁ hgood₁
  obtain ⟨v₃, h₃, hs₃, hgood₃, hquiet₃⟩ := proceed_createDirectories next hs₂ hgood₂
  have hparents := (Moves.createDirectories_nil next .ok hs₃ hgood₃).good
  have hsynced₁ := Moves.syncParents_cons next .ok hs₃ hparents
  have hsynced₂ := Moves.syncParents_cons next .ok hsynced₁.sane hsynced₁.good
  have hsynced₃ := Moves.syncParents_cons next .ok hsynced₂.sane hsynced₂.good
  have hquiet := hquiet₁.trans (hquiet₂.trans hquiet₃)
  refine ⟨_, ?_, hsynced₃.sane, fun d hd ↦ ?_, hquiet⟩
  · rw [← hquiet.1 _ rfl]
    apply iterate_succ_of_eq h₁
    apply iterate_succ_of_eq h₂
    apply iterate_succ_of_eq h₃
    rfl
  · obtain ⟨hentry, hlost⟩ := hsynced₃.good d hd
    exact ⟨hentry, hlost.resolve_left List.not_mem_nil⟩

/-! ### The file -/

/-- A file that is there is checked and used. -/
theorem proceed_existing {i : Nat} (hi : v.entry (b.path sha256) = some (.file i))
    (hdata : v.data i = b.data) :
    (b.proceed sha256 process)^[6] (v, next, .inspect) =
      ((v.syncFile i).syncDirectory BlobPath.parent (some (b.shard sha256)), next, .appended) := by
  have hinspect : b.proceed sha256 process (v, next, .inspect) = (v, next, .openExisting) := by
    simp only [Blob.proceed, Call.advance, hi, hdata, if_true, Outcome.stage]
  have hopen : b.proceed sha256 process (v, next, .openExisting) = (v, next, .compare i) := by
    simp only [Blob.proceed, Call.advance, hi, Outcome.stage]
  have hcompare : b.proceed sha256 process (v, next, .compare i) = (v, next, .syncExisting i) := by
    simp only [Blob.proceed, Call.advance, hdata, if_true, Outcome.stage]
  apply iterate_succ_of_eq hinspect
  apply iterate_succ_of_eq hopen
  apply iterate_succ_of_eq hcompare
  rfl

/-- The first number of a call that finds no file. -/
theorem proceed_takeSequence : b.proceed sha256 process (v, next, .takeSequence) =
    (v, next + 1, .createTemp next) :=
  rfl

/-- A file that is not there is written under a temporary name that is free. -/
theorem proceed_new (hpath : v.entry (b.path sha256) = none)
    (htemp : v.entry (b.temp sha256 process next) = none) :
    ∃ w, (b.proceed sha256 process)^[8] (v, next, .takeSequence) = (w, next + 1, .appended) := by
  let t := b.temp sha256 process next
  let created := v.createFile t
  let written := (created.writeFile v.next b.data).syncFile v.next
  let linked := written.set (b.path sha256) (some (.file v.next))
  have hne : t ≠ b.path sha256 := fun h ↦ BlobPath.noConfusion h
  have hcreate : b.proceed sha256 process (v, next + 1, .createTemp next) =
      (created, next + 1, .writeTemp next v.next) := by
    simp only [Blob.proceed, Call.advance, htemp, Outcome.choose, Outcome.stage, created, t]
  have hwrite : (b.proceed sha256 process)^[2] (created, next + 1, .writeTemp next v.next) =
      (written, next + 1, .hardLink next) := rfl
  have htempEntry : written.entry t = some (.file v.next) := entry_createFile_self
  have hpathEntry : written.entry (b.path sha256) = none :=
    (entry_createFile_ne hne.symm).trans hpath
  have hlink : b.proceed sha256 process (written, next + 1, .hardLink next) =
      (linked, next + 1, .removeTemp next true) := by
    have htempEntry : written.entry (b.temp sha256 process next) = _ := htempEntry
    simp only [Blob.proceed, Call.advance, htempEntry, hpathEntry, Outcome.choose, Outcome.stage,
      linked]
  have hremove : b.proceed sha256 process (linked, next + 1, .removeTemp next true) =
      (unlink linked t, next + 1, .syncLinked next) := by
    have hlinked : linked.entry (b.temp sha256 process next) = some (.file v.next) :=
      (entry_set_ne hne).trans htempEntry
    simp only [Blob.proceed, Call.advance, hlinked, Outcome.choose, Outcome.stage, if_true, t]
  refine ⟨(unlink linked t).syncDirectory BlobPath.parent (some (b.shard sha256)), ?_⟩
  apply iterate_succ_of_eq proceed_takeSequence
  apply iterate_succ_of_eq hcreate
  rw [Function.iterate_add_apply _ 4 2, hwrite]
  apply iterate_succ_of_eq hlink
  apply iterate_succ_of_eq hremove
  rfl

/-- A temporary name that is taken ends the attempt, and is free afterwards. -/
theorem proceed_taken {e : Inode} (htemp : v.entry (b.temp sha256 process next) = some e) :
    (b.proceed sha256 process)^[8] (v, next, .takeSequence) =
      (v.set (b.temp sha256 process next) none, next + 1, .failed) := by
  have hcreate : b.proceed sha256 process (v, next + 1, .createTemp next) =
      (v, next + 1, .cleanUp next) := by
    simp only [Blob.proceed, Call.advance, htemp]
  have hclean : b.proceed sha256 process (v, next + 1, .cleanUp next) =
      (v.set (b.temp sha256 process next) none, next + 1, .failed) := by
    simp only [Blob.proceed, Call.advance, Outcome.choose, unlink, htemp, reduceCtorEq, if_false]
  apply iterate_succ_of_eq proceed_takeSequence
  apply iterate_succ_of_eq hcreate
  apply iterate_succ_of_eq hclean
  rfl

/-! ### Attempts -/

variable {s : System}

/-- A call that runs alone proceeds from operation to operation. -/
theorem run_alone (sha256 : Bytes → Bytes) {t : System} {id : Nat} {stage : Stage}
    (h : t.calls[id]? = some ⟨b, stage⟩) (n : Nat) :
    let x := (b.proceed sha256 t.process)^[n] (t.volume, t.nextTemp, stage)
    let u := (fun t ↦ t.run sha256 id .ok)^[n] t
    u.volume = x.1 ∧ u.nextTemp = x.2.1 ∧ u.process = t.process ∧
      u.calls.length = t.calls.length ∧ u.calls[id]? = some ⟨b, x.2.2⟩ := by
  induction n with
  | zero => exact ⟨rfl, rfl, rfl, rfl, h⟩
  | succ n ih =>
    obtain ⟨hvolume, hnext, hprocess, hlength, hcall⟩ := ih
    rw [Function.iterate_succ_apply', Function.iterate_succ_apply']
    generalize (b.proceed sha256 t.process)^[n] (t.volume, t.nextTemp, stage) = x at *
    generalize (fun t ↦ System.run sha256 t id .ok)^[n] t = u at *
    have hrun : u.run sha256 id .ok =
        { u with
          volume := (b.proceed sha256 t.process x).1
          nextTemp := (b.proceed sha256 t.process x).2.1
          calls := u.calls.set id ⟨b, (b.proceed sha256 t.process x).2.2⟩
          staged := u.staged ++ (⟨b, x.2.2⟩ : Call).appends sha256 .ok } := by
      rw [System.run, hcall, hvolume, hnext, hprocess]
      rfl
    have hid : id < u.calls.length := (List.getElem?_eq_some_iff.mp hcall).1
    dsimp only
    rw [hrun]
    exact ⟨rfl, rfl, hprocess, (List.length_set ..).trans hlength, List.getElem?_set_self hid⟩

/-- The attempt that ends in this state appended its event. -/
def Succeeded (s : System) : Prop := s.calls.getLast?.map Call.stage = some .appended

/-- An attempt succeeds, or takes away the file whose name it needed. -/
theorem attempt_cases (h : Inv sha256 s)
    (hfree : ∀ bytes, s.volume.read (b.path sha256) = some bytes → bytes = b.data) :
    Succeeded (s.attempt sha256 b) ∨
      s.volume.entry (b.temp sha256 s.process s.nextTemp) ≠ none ∧
      (s.attempt sha256 b).nextTemp = s.nextTemp + 1 ∧
      (s.attempt sha256 b).process = s.process ∧
      (s.attempt sha256 b).volume.entry (b.path sha256) = none ∧
      ∀ q, s.volume.entry (b.temp sha256 s.process q) = none →
        (s.attempt sha256 b).volume.entry (b.temp sha256 s.process q) = none := by
  have hstart : (s.start sha256 b).calls[s.calls.length]? =
      some ⟨b, .createDirectories (b.levels sha256)⟩ := List.getElem?_concat_length
  obtain ⟨hvolume, hnext, hprocess, hlength, hcall⟩ := run_alone sha256 hstart 17
  have hlast : (s.attempt sha256 b).calls.getLast? =
      (s.attempt sha256 b).calls[s.calls.length]? := by
    have hlength : (s.attempt sha256 b).calls.length = s.calls.length + 1 :=
      hlength.trans (List.length_append ..)
    rw [List.getLast?_eq_getElem?, hlength, Nat.add_sub_cancel]
  change (s.attempt sha256 b).volume = _ at hvolume
  change (s.attempt sha256 b).nextTemp = _ at hnext
  change (s.attempt sha256 b).process = _ at hprocess
  change (s.attempt sha256 b).calls[s.calls.length]? = _ at hcall
  obtain ⟨w, hw, hsane, -, hentry, hdata⟩ :=
    proceed_directories b s.process s.nextTemp h.sane
  have hsplit : (b.proceed sha256 s.process)^[17]
      (s.volume, s.nextTemp, .createDirectories (b.levels sha256)) =
      (b.proceed sha256 s.process)^[8] (w, s.nextTemp,
        if (s.volume.entry (b.path sha256)).isSome then .inspect else .takeSequence) := by
    rw [← hw, ← Function.iterate_add_apply]
  change (s.attempt sha256 b).volume = ((b.proceed sha256 s.process)^[17]
    (s.volume, s.nextTemp, .createDirectories (b.levels sha256))).1 at hvolume
  change (s.attempt sha256 b).nextTemp = ((b.proceed sha256 s.process)^[17]
    (s.volume, s.nextTemp, .createDirectories (b.levels sha256))).2.1 at hnext
  change (s.attempt sha256 b).calls[s.calls.length]? = some ⟨b, ((b.proceed sha256 s.process)^[17]
    (s.volume, s.nextTemp, .createDirectories (b.levels sha256))).2.2⟩ at hcall
  rw [hsplit] at hvolume hnext hcall
  cases hpath : s.volume.entry (b.path sha256) with
  | some e =>
    left
    have hfits := h.sane.fits (b.path sha256) _ entry_mem_recent
    rw [hpath] at hfits
    cases e with
    | directory => cases hfits
    | file i =>
      have hbytes : w.data i = b.data := by
        rw [hdata]
        exact hfree _ (read_eq hpath)
      rw [hpath, Option.isSome_some, if_pos rfl, Function.iterate_add_apply _ 2 6,
        proceed_existing ((hentry _ rfl).trans hpath) hbytes] at hcall
      rw [Succeeded, hlast, hcall]
      rfl
  | none =>
    rw [hpath, Option.isSome_none, if_neg Bool.false_ne_true] at hvolume hnext hcall
    cases htemp : s.volume.entry (b.temp sha256 s.process s.nextTemp) with
    | none =>
      left
      obtain ⟨w', hw'⟩ := proceed_new ((hentry _ rfl).trans hpath)
        ((hentry _ rfl).trans htemp)
      rw [hw'] at hcall
      rw [Succeeded, hlast, hcall]
      rfl
    | some e =>
      right
      rw [proceed_taken ((hentry _ rfl).trans htemp)] at hvolume hnext
      refine ⟨Option.some_ne_none e, hnext, hprocess, ?_, fun q hq ↦ ?_⟩
      · rw [hvolume, entry_set_ne fun hsame ↦ BlobPath.noConfusion hsame, hentry _ rfl, hpath]
      · rw [hvolume]
        by_cases hsame : b.temp sha256 s.process q = b.temp sha256 s.process s.nextTemp
        · rw [hsame]
          exact entry_set_self
        · rw [entry_set_ne hsame, hentry _ rfl, hq]

/-- From some number on, all temporary names of a file are free. -/
theorem exists_free (b : Blob) (process : Nat) (hs : Sane sha256 v) :
    ∃ N, ∀ q, N ≤ q → v.entry (b.temp sha256 process q) = none := by
  let taken : Set Nat := {q | v.entry (b.temp sha256 process q) ≠ none}
  have hfile (q : Nat) (hq : q ∈ taken) :
      ∃ i < v.next, v.entry (b.temp sha256 process q) = some (.file i) := by
    obtain ⟨e, he⟩ := Option.ne_none_iff_exists'.mp hq
    have hfits := hs.fits _ _ (entry_mem_recent (v := v) (p := b.temp sha256 process q))
    rw [he] at hfits
    cases e with
    | directory => cases hfits
    | file i => exact ⟨i, hfits.2, he⟩
  choose! inode hlt hinode using hfile
  have hfinite : taken.Finite := by
    apply Set.Finite.of_injOn (f := inode) (t := {i | i < v.next}) hlt ?_ (Set.finite_lt_nat _)
    intro q hq q' hq' hsame
    have horigin := hs.origin _ _ (inode q) (isTemp_temp q) (isTemp_temp q')
      (hinode q hq ▸ entry_mem_recent) (hsame ▸ hinode q' hq' ▸ entry_mem_recent)
    injection horigin
  obtain ⟨N, hN⟩ := hfinite.bddAbove
  refine ⟨N + 1, fun q hq ↦ ?_⟩
  by_contra htaken
  exact Nat.not_succ_le_self N (Nat.le_trans hq (hN htaken))

/-- Whatever crashes and errors have left, attempts to store bytes succeed after finitely many
that failed, unless other bytes with their hash have been stored. -/
theorem attempts_succeed (h : System.Reachable sha256 s) (b : Blob)
    (hfree : ∀ bytes, s.volume.read (b.path sha256) = some bytes → bytes = b.data) :
    ∃ n, Succeeded ((System.attempt sha256 b)^[n + 1] s) := by
  obtain ⟨N, hN⟩ := exists_free b s.process (Inv.of_reachable h).sane
  have hinv := Inv.of_reachable h
  clear h
  have hfirst {s : System} (hdone : Succeeded (s.attempt sha256 b)) :
      ∃ n, Succeeded ((System.attempt sha256 b)^[n + 1] s) := by
    refine ⟨0, ?_⟩
    rw [Function.iterate_succ_apply, Function.iterate_zero_apply]
    exact hdone
  -- Each attempt that fails takes one number below the bound.
  induction hleft : N - s.nextTemp generalizing s with
  | zero =>
    rcases attempt_cases hinv hfree with hdone | ⟨htaken, -⟩
    · exact hfirst hdone
    · exact absurd (hN _ (by omega)) htaken
  | succ left ih =>
    rcases attempt_cases hinv hfree with hdone | ⟨-, hnext, hprocess, hpath, hkept⟩
    · exact hfirst hdone
    · obtain ⟨n, hn⟩ := ih (s := s.attempt sha256 b)
        (fun bytes hread ↦ by
          obtain ⟨i, hi, -⟩ := read_eq_some hread
          rw [hpath] at hi
          cases hi)
        (fun q hq ↦ by rw [hprocess]; exact hkept q (hN q hq)) (hinv.attempt b)
        (by rw [hnext]; omega)
      refine ⟨n + 1, ?_⟩
      rw [Function.iterate_succ_apply]
      exact hn

/-- A process with the number 7 ended before it had linked its file, and another got its number. -/
def sampleLeft : System :=
  let s := (fun t ↦ t.run sampleHash 0 .ok)^[12]
    ((System.initial 7).start sampleHash ⟨.keyframes, .jpg, [97, 98, 99]⟩)
  s.restart s.volume 7

theorem reachable_sampleLeft : System.Reachable sampleHash sampleLeft :=
  (((System.Reachable.initial 7).step (.start (.keyframe [97, 98, 99]) _ rfl)).runs 0 12).step
    (.exit 7)

example : sampleLeft.volume.entry
    ((⟨.keyframes, .jpg, [97, 98, 99]⟩ : Blob).temp sampleHash 7 0) = some (.file 0) := rfl

/-- A file that an earlier process left is in the way once. -/
theorem attempts_succeed_sample :
    ∃ n, Succeeded ((System.attempt sampleHash ⟨.keyframes, .jpg, [97, 98, 99]⟩)^[n + 1]
      sampleLeft) :=
  attempts_succeed reachable_sampleLeft _ fun bytes hread ↦ by
    obtain ⟨i, hi, -⟩ := read_eq_some hread
    have hnone : sampleLeft.volume.entry
      ((⟨.keyframes, .jpg, [97, 98, 99]⟩ : Blob).path sampleHash) = none := rfl
    rw [hnone] at hi
    cases hi

end Vidarax.Evidence
