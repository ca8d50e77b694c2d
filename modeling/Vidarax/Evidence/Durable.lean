import Vidarax.Evidence.Sane

/-!
# Evidence is durable before it is referenced

Package `vidarax-api`, `wal_sink.rs` 49–266, 343–515. In every run of any number of calls, with any
failures and crashes, what an appended event refers to is there after every crash; a stored name
never shows anything but a whole file with its hash, and is never given another file.
-/

namespace Vidarax.Evidence

open Base Volume

variable {sha256 : Bytes → Bytes} {v v' : Volume BlobPath} {b : Blob} {process next : Nat}

/-! ### What a step leaves to other calls -/

/-- What changes of a volume where only one temporary name, and a file that only it has, may be
taken away or written. -/
structure Frame (v v' : Volume BlobPath) (t : Option BlobPath) : Prop where
  temp : ∀ t', t = some t' → t'.isTemp = true
  entry : ∀ p e, some p ≠ t → v.entry p = some e → v'.entry p = some e
  lost : ∀ p, some p ≠ t → v.entry p ≠ none → v.lost p = [] → v'.lost p = []
  file : ∀ i < v.next, v'.data i = v.data i ∧ (v.synced i = true → v'.synced i = true) ∨
    (∃ t', t = some t' ∧ v.entry t' = some (.file i)) ∧
      ∀ p, p.isTemp = false → v.entry p ≠ some (.file i)
  linked : ∀ p i, p.isTemp = false → v'.entry p = some (.file i) → i < v.next →
    v.entry p = some (.file i) ∨ ∃ t', t = some t' ∧ v.entry t' = some (.file i)

namespace Frame

theorem refl (v : Volume BlobPath) : Frame v v none where
  temp _ h := by cases h
  entry _ _ _ h := h
  lost _ _ _ h := h
  file _ _ := .inl ⟨rfl, id⟩
  linked _ _ _ h _ := .inl h

theorem weaken (h : Frame v v' none) {t : BlobPath} (ht : t.isTemp = true) :
    Frame v v' (some t) where
  temp t' ht' := by rwa [← Option.some.inj ht']
  entry p e _ := h.entry p e (Option.some_ne_none p)
  lost p _ := h.lost p (Option.some_ne_none p)
  file i hi := by
    rcases h.file i hi with hsame | ⟨⟨_, hnone, _⟩, _⟩
    · exact .inl hsame
    · cases hnone
  linked p i hp hi hlt := by
    rcases h.linked p i hp hi hlt with hold | ⟨_, hnone, _⟩
    · exact .inl hold
    · cases hnone

/-- A directory is made. -/
theorem mkdir {p : BlobPath} (hnone : v.entry p = none) :
    Frame v (v.set p (some .directory)) none where
  temp _ h := by cases h
  entry q e _ hq := by
    have hne : q ≠ p := by
      rintro rfl
      rw [hnone] at hq
      cases hq
    rw [entry_set_ne hne, hq]
  lost q _ hq hlost := by
    have hne : q ≠ p := by
      rintro rfl
      exact hq hnone
    rw [lost_set_ne hne, hlost]
  file _ _ := .inl ⟨rfl, id⟩
  linked q i _ hi _ := by
    by_cases hq : q = p
    · rw [hq, entry_set_self] at hi
      cases hi
    · rw [entry_set_ne hq] at hi
      exact .inl hi

theorem syncDirectory (v : Volume BlobPath) (d : Option BlobPath) :
    Frame v (v.syncDirectory BlobPath.parent d) none where
  temp _ h := by cases h
  entry _ _ _ h := h
  lost p _ _ hlost := by
    rcases lost_syncDirectory BlobPath.parent (v := v) (p := p) (d := d) with hnil | hsame
    · exact hnil
    · rw [hsame, hlost]
  file _ _ := .inl ⟨rfl, id⟩
  linked _ _ _ h _ := .inl h

/-- A file is created. -/
theorem createFile {t : BlobPath} (ht : t.isTemp = true) (hnone : v.entry t = none) :
    Frame v (v.createFile t) none where
  temp _ h := by cases h
  entry q e _ hq := by
    have hne : q ≠ t := by
      rintro rfl
      rw [hnone] at hq
      cases hq
    rw [entry_createFile_ne hne, hq]
  lost q _ hq hlost := by
    have hne : q ≠ t := by
      rintro rfl
      exact hq hnone
    rw [lost_createFile_ne hne, hlost]
  file i hi := by
    refine .inl ⟨data_createFile hi, fun hsynced ↦ ?_⟩
    rw [synced_createFile hi, hsynced]
  linked q i hq hi _ := by
    have hne : q ≠ t := by
      rintro rfl
      rw [ht] at hq
      cases hq
    rw [entry_createFile_ne hne] at hi
    exact .inl hi

/-- A file is written that only a temporary name has. -/
theorem writeFile {t : BlobPath} (ht : t.isTemp = true) {i : Nat} (bytes : Bytes)
    (hi : v.entry t = some (.file i)) (hfree : ∀ p, p.isTemp = false → v.entry p ≠ some (.file i)) :
    Frame v (v.writeFile i bytes) (some t) where
  temp t' ht' := by rwa [← Option.some.inj ht']
  entry _ _ _ h := h
  lost _ _ _ h := h
  file j _ := by
    by_cases hj : j = i
    · rw [hj]
      exact .inr ⟨⟨t, rfl, hi⟩, hfree⟩
    · exact .inl ⟨data_writeFile_ne hj, fun hsynced ↦ (synced_writeFile_ne hj).trans hsynced⟩
  linked _ _ _ h _ := .inl h

theorem syncFile (v : Volume BlobPath) (i : Nat) : Frame v (v.syncFile i) none where
  temp _ h := by cases h
  entry _ _ _ h := h
  lost _ _ _ h := h
  file _ _ := .inl ⟨rfl, synced_syncFile⟩
  linked _ _ _ h _ := .inl h

/-- The file of a temporary name gets a name that nothing had. -/
theorem link {t p : BlobPath} (ht : t.isTemp = true) {e : Inode} (he : v.entry t = some e)
    (hnone : v.entry p = none) : Frame v (v.set p (some e)) (some t) where
  temp t' ht' := by rwa [← Option.some.inj ht']
  entry q e' _ hq := by
    have hne : q ≠ p := by
      rintro rfl
      rw [hnone] at hq
      cases hq
    rw [entry_set_ne hne, hq]
  lost q _ hq hlost := by
    have hne : q ≠ p := by
      rintro rfl
      exact hq hnone
    rw [lost_set_ne hne, hlost]
  file _ _ := .inl ⟨rfl, id⟩
  linked q i _ hi _ := by
    by_cases hq : q = p
    · rw [hq, entry_set_self] at hi
      exact .inr ⟨t, rfl, he.trans hi⟩
    · rw [entry_set_ne hq] at hi
      exact .inl hi

/-- A temporary name is removed. -/
theorem unlink {t : BlobPath} (ht : t.isTemp = true) : Frame v (unlink v t) (some t) := by
  unfold Evidence.unlink
  split
  · exact (refl v).weaken ht
  · refine ⟨?_, ?_, ?_, ?_, ?_⟩
    · intro t' ht'
      rwa [← Option.some.inj ht']
    · intro p e hp he
      rw [entry_set_ne fun hsame ↦ hp (congrArg some hsame), he]
    · intro p hp _ hlost
      rw [lost_set_ne fun hsame ↦ hp (congrArg some hsame), hlost]
    · exact fun _ _ ↦ .inl ⟨rfl, id⟩
    · intro p i hp hi _
      have hne : p ≠ t := by
        rintro rfl
        rw [ht] at hp
        cases hp
      rw [entry_set_ne hne] at hi
      exact .inl hi

variable {t : Option BlobPath}

/-- A stored name keeps its file. -/
theorem stored (h : Frame v v' t) (hs : Sane sha256 v) {p : BlobPath} (hp : p.isTemp = false)
    {i : Nat} (hi : v.entry p = some (.file i)) :
    v'.entry p = some (.file i) ∧ v'.data i = v.data i ∧ (v.lost p = [] → v'.lost p = []) := by
  have hne : some p ≠ t := by
    intro hsame
    have htemp := h.temp p hsame.symm
    rw [hp] at htemp
    cases htemp
  refine ⟨h.entry p _ hne hi, ?_, h.lost p hne (by rw [hi]; exact Option.some_ne_none _)⟩
  rcases h.file i (hs.lt_next hi) with hsame | ⟨-, hfree⟩
  · exact hsame.1
  · exact absurd hi (hfree p hp)

/-- Another temporary name keeps its file. -/
theorem owned (h : Frame v v' t) (hs : Sane sha256 v) {own : BlobPath} (hown : own.isTemp = true)
    (hne : some own ≠ t) {i : Nat} (hi : v.entry own = some (.file i)) :
    v'.entry own = some (.file i) ∧ v'.data i = v.data i ∧
      (v.synced i = true → v'.synced i = true) := by
  refine ⟨h.entry own _ hne hi, ?_⟩
  rcases h.file i (hs.lt_next hi) with hsame | ⟨⟨t', rfl, ht'⟩, -⟩
  · exact hsame
  · have horigin := hs.origin own t' i hown (h.temp t' rfl) (hi ▸ entry_mem_recent)
      (ht' ▸ entry_mem_recent)
    exact absurd (congrArg some horigin) hne

/-- A file that only a temporary name has is not stored by others. -/
theorem free (h : Frame v v' t) (hs : Sane sha256 v) {own : BlobPath} (hown : own.isTemp = true)
    (hne : some own ≠ t) {i : Nat} (hi : v.entry own = some (.file i))
    (hfree : ∀ p, p.isTemp = false → v.entry p ≠ some (.file i)) :
    ∀ p, p.isTemp = false → v'.entry p ≠ some (.file i) := by
  intro p hp hlinked
  rcases h.linked p i hp hlinked (hs.lt_next hi) with hold | ⟨t', rfl, ht'⟩
  · exact hfree p hp hold
  · have horigin := hs.origin own t' i hown (h.temp t' rfl) (hi ▸ entry_mem_recent)
      (ht' ▸ entry_mem_recent)
    exact hne (congrArg some horigin)

end Frame

/-! ### Where calls are -/

/-- The sequence number that a call uses. -/
def Stage.sequence : Stage → Option Nat
  | createTemp q | writeTemp q _ | syncTemp q _ | hardLink q | removeTemp q _ | syncLinked q
  | cleanUp q => some q
  | _ => none

variable (sha256 v b)

/-- The directories above a file are durable. -/
def Firm : Prop := ∀ d ∈ b.levels sha256, v.entry d = some .directory ∧ v.lost d = []

/-- The bytes have their name. -/
def Stored : Prop := ∃ i, v.entry (b.path sha256) = some (.file i) ∧ v.data i = b.data

/-- The bytes keep their name. -/
def Secure : Prop := Firm sha256 v b ∧ Stored sha256 v b ∧ v.lost (b.path sha256) = []

/-- A new file that no stored name has. -/
def Own (t : BlobPath) (i : Nat) : Prop :=
  v.entry t = some (.file i) ∧ ∀ p, p.isTemp = false → v.entry p ≠ some (.file i)

variable (process)

/-- What holds at a stage of a call. -/
def Good : Stage → Prop
  | .createDirectories rest =>
    rest ⊆ b.levels sha256 ∧ ∀ d ∈ b.levels sha256, d ∈ rest ∨ v.entry d = some .directory
  | .syncParents rest =>
    ∀ d ∈ b.levels sha256, v.entry d = some .directory ∧ (d.parent ∈ rest ∨ v.lost d = [])
  | .checkFinal | .takeSequence | .createTemp _ | .removeTemp _ false | .inspect | .openExisting =>
    Firm sha256 v b
  | .writeTemp q i => Firm sha256 v b ∧ Own v (b.temp sha256 process q) i
  | .syncTemp q i =>
    Firm sha256 v b ∧ Own v (b.temp sha256 process q) i ∧ v.data i = b.data
  | .hardLink q =>
    Firm sha256 v b ∧ ∃ i, v.entry (b.temp sha256 process q) = some (.file i) ∧
      v.synced i = true ∧ v.data i = b.data
  | .removeTemp _ true | .syncLinked _ | .syncShard => Firm sha256 v b ∧ Stored sha256 v b
  | .compare i => Firm sha256 v b ∧ v.entry (b.path sha256) = some (.file i)
  | .syncExisting i =>
    Firm sha256 v b ∧ v.entry (b.path sha256) = some (.file i) ∧ v.data i = b.data
  | .persisted _ => Secure sha256 v b
  | .cleanUp _ | .appended | .failed => True

variable {sha256 v b process} {t : Option BlobPath} {stage : Stage}

theorem isDirectory_of_mem_levels {d : BlobPath} (h : d ∈ b.levels sha256) :
    d.isDirectory = true := by
  rcases List.mem_cons.mp h with rfl | h
  · rfl
  · rcases List.mem_cons.mp h with rfl | h
    · rfl
    · rw [List.mem_singleton.mp h]
      rfl

theorem isTemp_temp (q : Nat) : (b.temp sha256 process q).isTemp = true := rfl

theorem isTemp_path : (b.path sha256).isTemp = false := rfl

/-! ### Steps of other calls -/

theorem Frame.directory (h : Frame v v' t) {d : BlobPath} (hd : d ∈ b.levels sha256)
    (hentry : v.entry d = some .directory) :
    v'.entry d = some .directory ∧ (v.lost d = [] → v'.lost d = []) := by
  have hne : some d ≠ t := by
    intro hsame
    have htemp := h.temp d hsame.symm
    have hdirectory := isDirectory_of_mem_levels hd
    cases d with
    | temp => cases hdirectory
    | _ => cases htemp
  exact ⟨h.entry d _ hne hentry, h.lost d hne (by rw [hentry]; exact Option.some_ne_none _)⟩

theorem Firm.frame (hfirm : Firm sha256 v b) (h : Frame v v' t) : Firm sha256 v' b := by
  intro d hd
  obtain ⟨hentry, hlost⟩ := hfirm d hd
  exact ⟨(h.directory hd hentry).1, (h.directory hd hentry).2 hlost⟩

theorem Stored.frame (hstored : Stored sha256 v b) (hs : Sane sha256 v) (h : Frame v v' t) :
    Stored sha256 v' b := by
  obtain ⟨i, hi, hdata⟩ := hstored
  obtain ⟨hentry, hsame, -⟩ := h.stored hs isTemp_path hi
  exact ⟨i, hentry, hsame.trans hdata⟩

theorem Secure.frame (hsecure : Secure sha256 v b) (hs : Sane sha256 v) (h : Frame v v' t) :
    Secure sha256 v' b := by
  obtain ⟨hfirm, ⟨i, hi, hdata⟩, hlost⟩ := hsecure
  exact ⟨hfirm.frame h, Stored.frame ⟨i, hi, hdata⟩ hs h, (h.stored hs isTemp_path hi).2.2 hlost⟩

/-- A call is where it was after a step of a call with another temporary name. -/
theorem Good.frame (hgood : Good sha256 v b process stage) (hs : Sane sha256 v) (h : Frame v v' t)
    (hne : ∀ q, stage.sequence = some q → some (b.temp sha256 process q) ≠ t) :
    Good sha256 v' b process stage := by
  cases stage with
  | createDirectories rest =>
    refine ⟨hgood.1, fun d hd ↦ ?_⟩
    rcases hgood.2 d hd with hrest | hentry
    · exact .inl hrest
    · exact .inr (h.directory hd hentry).1
  | syncParents rest =>
    intro d hd
    obtain ⟨hentry, hlost⟩ := hgood d hd
    exact ⟨(h.directory hd hentry).1, hlost.imp id (h.directory hd hentry).2⟩
  | checkFinal | takeSequence | createTemp | inspect | openExisting => exact Firm.frame hgood h
  | writeTemp q i =>
    obtain ⟨hfirm, hi, hfree⟩ := hgood
    have ht := hne q rfl
    exact ⟨hfirm.frame h, (h.owned hs (isTemp_temp q) ht hi).1,
      h.free hs (isTemp_temp q) ht hi hfree⟩
  | syncTemp q i =>
    obtain ⟨hfirm, ⟨hi, hfree⟩, hdata⟩ := hgood
    have ht := hne q rfl
    obtain ⟨hentry, hsame, -⟩ := h.owned hs (isTemp_temp q) ht hi
    exact ⟨hfirm.frame h, ⟨hentry, h.free hs (isTemp_temp q) ht hi hfree⟩, hsame.trans hdata⟩
  | hardLink q =>
    obtain ⟨hfirm, i, hi, hsynced, hdata⟩ := hgood
    obtain ⟨hentry, hsame, hkept⟩ := h.owned hs (isTemp_temp q) (hne q rfl) hi
    exact ⟨hfirm.frame h, i, hentry, hkept hsynced, hsame.trans hdata⟩
  | removeTemp q created =>
    cases created with
    | false => exact Firm.frame hgood h
    | true => exact ⟨hgood.1.frame h, hgood.2.frame hs h⟩
  | syncLinked | syncShard => exact ⟨hgood.1.frame h, hgood.2.frame hs h⟩
  | compare i => exact ⟨hgood.1.frame h, (h.stored hs isTemp_path hgood.2).1⟩
  | syncExisting i =>
    obtain ⟨hfirm, hi, hdata⟩ := hgood
    obtain ⟨hentry, hsame, -⟩ := h.stored hs isTemp_path hi
    exact ⟨hfirm.frame h, hentry, hsame.trans hdata⟩
  | persisted created => exact Secure.frame hgood hs h
  | cleanUp | appended | failed => trivial

/-! ### Steps of a call -/

variable (sha256 v b process next stage) in
/-- What an operation at a stage does. -/
structure Moves (r : Volume BlobPath × Nat × Stage) : Prop where
  sane : Sane sha256 r.1
  good : Good sha256 r.1 b process r.2.2
  frame : Frame v r.1 (stage.sequence.map (b.temp sha256 process))
  le : next ≤ r.2.1
  sequence : ∀ q, r.2.2.sequence = some q →
    stage.sequence = some q ∨ q = next ∧ r.2.1 = next + 1

namespace Moves

variable {w : Volume BlobPath} {after failure : Stage} {o : Outcome}

/-- What leaves all temporary names alone may be done at every stage. -/
theorem frame_of_none (h : Frame v w none) (stage : Stage) :
    Frame v w (stage.sequence.map (b.temp sha256 process)) := by
  cases stage.sequence with
  | none => exact h
  | some q => exact h.weaken (isTemp_temp q)

/-- Nothing changes but the stage. -/
theorem stay (hs : Sane sha256 v) (hgood : Good sha256 v b process after)
    (hsequence : ∀ q, after.sequence = some q → stage.sequence = some q) :
    Moves sha256 v b process next stage (v, next, after) where
  sane := hs
  good := hgood
  frame := frame_of_none (Frame.refl v) stage
  le := Nat.le_refl next
  sequence q hq := .inl (hsequence q hq)

/-- A failure leaves nothing to keep. -/
def Ends (stage failure : Stage) : Prop :=
  failure = .failed ∨ ∃ q, failure = .cleanUp q ∧ stage.sequence = some q

theorem Ends.good (h : Ends stage failure) : Good sha256 w b process failure := by
  rcases h with rfl | ⟨q, rfl, -⟩ <;> trivial

theorem Ends.sequence (h : Ends stage failure) (q : Nat) (hq : failure.sequence = some q) :
    stage.sequence = some q := by
  rcases h with rfl | ⟨q', rfl, hstage⟩
  · cases hq
  · cases hq
    exact hstage

/-- An operation has its effect, or fails with or without it. -/
theorem choose (hs : Sane sha256 v) (hw : Sane sha256 w)
    (hframe : Frame v w (stage.sequence.map (b.temp sha256 process)))
    (hgood : Good sha256 w b process after)
    (hsequence : ∀ q, after.sequence = some q → stage.sequence = some q)
    (hfailure : Ends stage failure) :
    Moves sha256 v b process next stage (o.choose v w, next, o.stage after failure) := by
  cases o with
  | ok => exact ⟨hw, hgood, hframe, Nat.le_refl next, fun q hq ↦ .inl (hsequence q hq)⟩
  | error done left =>
    cases done with
    | true =>
      exact ⟨hw, hfailure.good, hframe, Nat.le_refl next, fun q hq ↦ .inl (hfailure.sequence q hq)⟩
    | false => exact stay hs hfailure.good hfailure.sequence

/-- An operation without an effect. -/
theorem look (hs : Sane sha256 v) (hgood : Good sha256 v b process after)
    (hsequence : ∀ q, after.sequence = some q → stage.sequence = some q)
    (hfailure : Ends stage failure) :
    Moves sha256 v b process next stage (v, next, o.stage after failure) := by
  cases o with
  | ok => exact stay hs hgood hsequence
  | error done left => exact stay hs hfailure.good hfailure.sequence

/-- The call is over. -/
theorem fail (hs : Sane sha256 v) : Moves sha256 v b process next stage (v, next, .failed) :=
  stay hs trivial fun _ hq ↦ by cases hq

/-- The call goes on to remove its temporary file. -/
theorem clean {q : Nat} (hs : Sane sha256 v) (hq : stage.sequence = some q) :
    Moves sha256 v b process next stage (v, next, .cleanUp q) :=
  stay hs trivial fun _ hq' ↦ hq.trans hq'

variable {rest : List BlobPath} {level : BlobPath} {dirs : List (Option BlobPath)}
  {d : Option BlobPath} {q i : Nat} {created : Bool}

theorem createDirectories_nil (next : Nat) (o : Outcome) (hs : Sane sha256 v)
    (hgood : Good sha256 v b process (.createDirectories [])) :
    Moves sha256 v b process next (.createDirectories [])
      ((⟨b, .createDirectories []⟩ : Call).advance sha256 process v next o) := by
  refine stay hs (fun d hd ↦ ?_) fun _ hq ↦ by cases hq
  refine ⟨(hgood.2 d hd).resolve_left List.not_mem_nil, .inl ?_⟩
  rcases List.mem_cons.mp hd with rfl | hd
  · exact List.mem_cons_self
  · rcases List.mem_cons.mp hd with rfl | hd
    · exact List.mem_cons_of_mem _ List.mem_cons_self
    · rw [List.mem_singleton.mp hd]
      exact List.mem_cons_of_mem _ (List.mem_cons_of_mem _ List.mem_cons_self)

theorem createDirectories_cons (next : Nat) (o : Outcome) (hs : Sane sha256 v)
    (hgood : Good sha256 v b process (.createDirectories (level :: rest))) :
    Moves sha256 v b process next (.createDirectories (level :: rest))
      ((⟨b, .createDirectories (level :: rest)⟩ : Call).advance sha256 process v next o) := by
  obtain ⟨hsub, hlevels⟩ := hgood
  have hdirectory : level.isDirectory = true :=
    isDirectory_of_mem_levels (hsub List.mem_cons_self)
  have hafter {w : Volume BlobPath} (hframe : Frame v w none)
      (hmade : w.entry level = some .directory) :
      Good sha256 w b process (.createDirectories rest) := by
    refine ⟨fun d hd ↦ hsub (List.mem_cons_of_mem _ hd), fun d hd ↦ ?_⟩
    rcases hlevels d hd with hrest | hentry
    · rcases List.mem_cons.mp hrest with rfl | hrest
      · exact .inr hmade
      · exact .inl hrest
    · exact .inr (hframe.directory hd hentry).1
  dsimp only [Call.advance]
  split
  · next hentry => exact look hs (hafter (Frame.refl v) hentry) (fun _ hq ↦ by cases hq) (.inl rfl)
  · exact fail hs
  · next hnone =>
    exact choose hs (hs.mkdir hdirectory hnone) (frame_of_none (Frame.mkdir hnone) _)
      (hafter (Frame.mkdir hnone) entry_set_self) (fun _ hq ↦ by cases hq) (.inl rfl)

theorem syncParents_cons (next : Nat) (o : Outcome) (hs : Sane sha256 v)
    (hgood : Good sha256 v b process (.syncParents (d :: dirs))) :
    Moves sha256 v b process next (.syncParents (d :: dirs))
      ((⟨b, .syncParents (d :: dirs)⟩ : Call).advance sha256 process v next o) := by
  refine choose hs (hs.syncDirectory d) (frame_of_none (Frame.syncDirectory v d) _)
    (fun e he ↦ ?_) (fun _ hq ↦ by cases hq) (.inl rfl)
  obtain ⟨hentry, hlost⟩ := hgood e he
  refine ⟨hentry, ?_⟩
  rcases hlost with hmem | hlost
  · rcases List.mem_cons.mp hmem with rfl | hmem
    · exact .inr (lost_syncDirectory_of_parent BlobPath.parent)
    · exact .inl hmem
  · exact .inr (((Frame.syncDirectory v d).directory he hentry).2 hlost)

theorem createTemp (hs : Sane sha256 v) (hgood : Good sha256 v b process (.createTemp q)) :
    Moves sha256 v b process next (.createTemp q)
      ((⟨b, .createTemp q⟩ : Call).advance sha256 process v next o) := by
  dsimp only [Call.advance]
  split
  · exact clean hs rfl
  · next hnone =>
    have hframe := Frame.createFile (isTemp_temp q) hnone
    refine choose hs (hs.createFile (isTemp_temp q)) (frame_of_none hframe _)
      ⟨Firm.frame hgood hframe, entry_createFile_self, fun p hp hi ↦ ?_⟩ (fun _ hq ↦ hq)
      (.inr ⟨q, rfl, rfl⟩)
    have hne : p ≠ b.temp sha256 process q := by
      rintro rfl
      cases hp
    rw [entry_createFile_ne hne] at hi
    exact Nat.lt_irrefl _ (hs.lt_next hi)

theorem writeTemp (hs : Sane sha256 v) (hgood : Good sha256 v b process (.writeTemp q i)) :
    Moves sha256 v b process next (.writeTemp q i)
      ((⟨b, .writeTemp q i⟩ : Call).advance sha256 process v next o) := by
  obtain ⟨hfirm, hi, hfree⟩ := hgood
  have hframe (bytes : Bytes) := Frame.writeFile (isTemp_temp q) bytes hi hfree
  cases o with
  | ok =>
    exact ⟨hs.writeFile _ hfree, ⟨hfirm.frame (hframe _), ⟨hi, hfree⟩, data_writeFile_self⟩,
      hframe _, Nat.le_refl next, fun _ hq ↦ .inl hq⟩
  | error done left =>
    exact ⟨hs.writeFile _ hfree, trivial, hframe _, Nat.le_refl next, fun _ hq ↦ .inl hq⟩

theorem hardLink (hs : Sane sha256 v) (hgood : Good sha256 v b process (.hardLink q)) :
    Moves sha256 v b process next (.hardLink q)
      ((⟨b, .hardLink q⟩ : Call).advance sha256 process v next o) := by
  obtain ⟨hfirm, i, hi, hsynced, hdata⟩ := hgood
  have hpath : b.path sha256 = .blob b.root (sha256Hex sha256 (v.data i)) b.extension := by
    rw [hdata]
    rfl
  dsimp only [Call.advance]
  rw [hi]
  cases hentry : v.entry (b.path sha256) with
  | some e => exact look hs hfirm (fun _ hq ↦ hq) (.inr ⟨q, rfl, rfl⟩)
  | none =>
    have hframe := Frame.link (isTemp_temp q) hi hentry
    have hsane : Sane sha256 (v.set (b.path sha256) (some (.file i))) := by
      rw [hpath] at hentry ⊢
      exact hs.link hi hsynced hentry
    exact choose hs hsane hframe ⟨hfirm.frame hframe, i, entry_set_self, hdata⟩ (fun _ hq ↦ hq)
      (.inr ⟨q, rfl, rfl⟩)

theorem removeTemp (hs : Sane sha256 v) (hgood : Good sha256 v b process (.removeTemp q created)) :
    Moves sha256 v b process next (.removeTemp q created)
      ((⟨b, .removeTemp q created⟩ : Call).advance sha256 process v next o) := by
  dsimp only [Call.advance]
  have hframe : Frame v (unlink v (b.temp sha256 process q)) _ := Frame.unlink (isTemp_temp q)
  split
  · exact clean hs rfl
  · refine choose hs (hs.unlink (isTemp_temp q)) hframe ?_ (fun q' hq ↦ ?_) (.inr ⟨q, rfl, rfl⟩)
    · cases created with
      | true => exact ⟨Firm.frame hgood.1 hframe, Stored.frame hgood.2 hs hframe⟩
      | false => exact Firm.frame hgood hframe
    · cases created with
      | true => exact hq
      | false => cases hq

/-- The name is durable once its directory is synced. -/
theorem secure_syncDirectory (hs : Sane sha256 v) (hfirm : Firm sha256 v b)
    (hstored : Stored sha256 v b) :
    Secure sha256 (v.syncDirectory BlobPath.parent (some (b.shard sha256))) b :=
  have hframe := Frame.syncDirectory v (some (b.shard sha256))
  ⟨hfirm.frame hframe, hstored.frame hs hframe, lost_syncDirectory_of_parent BlobPath.parent⟩

theorem inspect (hs : Sane sha256 v) (hgood : Good sha256 v b process .inspect) :
    Moves sha256 v b process next .inspect
      ((⟨b, .inspect⟩ : Call).advance sha256 process v next o) := by
  dsimp only [Call.advance]
  split
  · split
    · exact look hs hgood (fun _ hq ↦ by cases hq) (.inl rfl)
    · exact look hs trivial (fun _ hq ↦ by cases hq) (.inl rfl)
  · exact fail hs

theorem openExisting (hs : Sane sha256 v) (hgood : Good sha256 v b process .openExisting) :
    Moves sha256 v b process next .openExisting
      ((⟨b, .openExisting⟩ : Call).advance sha256 process v next o) := by
  dsimp only [Call.advance]
  split
  · next hi => exact look hs ⟨hgood, hi⟩ (fun _ hq ↦ by cases hq) (.inl rfl)
  · exact fail hs

theorem compare (hs : Sane sha256 v) (hgood : Good sha256 v b process (.compare i)) :
    Moves sha256 v b process next (.compare i)
      ((⟨b, .compare i⟩ : Call).advance sha256 process v next o) := by
  show Moves _ _ _ _ _ _
    (v, next, o.stage (if v.data i = b.data then .syncExisting i else .failed) .failed)
  split
  · next hdata => exact look hs ⟨hgood.1, hgood.2, hdata⟩ (fun _ hq ↦ by cases hq) (.inl rfl)
  · exact look hs trivial (fun _ hq ↦ by cases hq) (.inl rfl)

end Moves

/-- Every operation of a call keeps what holds of the volume and the call. -/
theorem Call.moves {call : Call} (next : Nat) (hs : Sane sha256 v)
    (hgood : Good sha256 v call.blob process call.stage) (o : Outcome) :
    Moves sha256 v call.blob process next call.stage (call.advance sha256 process v next o) := by
  obtain ⟨b, stage⟩ := call
  cases stage with
  | createDirectories rest =>
    cases rest with
    | nil => exact Moves.createDirectories_nil next o hs hgood
    | cons level rest => exact Moves.createDirectories_cons next o hs hgood
  | syncParents dirs =>
    cases dirs with
    | nil =>
      refine Moves.stay hs (fun d hd ↦ ?_) fun _ hq ↦ by cases hq
      obtain ⟨hentry, hlost⟩ := hgood d hd
      exact ⟨hentry, hlost.resolve_left List.not_mem_nil⟩
    | cons d dirs => exact Moves.syncParents_cons next o hs hgood
  | checkFinal =>
    cases o with
    | ok =>
      refine Moves.stay hs ?_ fun q hq ↦ ?_
      · show Good _ _ _ _ (if (v.entry (b.path sha256)).isSome then .inspect else .takeSequence)
        split <;> exact hgood
      · change (if (v.entry (b.path sha256)).isSome then Stage.inspect
          else .takeSequence).sequence = some q at hq
        split at hq <;> cases hq
    | error done left => exact Moves.stay hs hgood fun _ hq ↦ by cases hq
  | takeSequence =>
    exact ⟨hs, hgood, Moves.frame_of_none (Frame.refl v) _, Nat.le_succ next,
      fun _ hq ↦ .inr ⟨(Option.some.inj hq).symm, rfl⟩⟩
  | createTemp q => exact Moves.createTemp hs hgood
  | writeTemp q i => exact Moves.writeTemp hs hgood
  | syncTemp q i =>
    obtain ⟨hfirm, ⟨hi, -⟩, hdata⟩ := hgood
    have hframe := Frame.syncFile v i
    exact Moves.choose hs (hs.syncFile i) (Moves.frame_of_none hframe _)
      ⟨hfirm.frame hframe, i, hi, synced_syncFile_self, hdata⟩ (fun _ hq ↦ hq) (.inr ⟨q, rfl, rfl⟩)
  | hardLink q => exact Moves.hardLink hs hgood
  | removeTemp q created => exact Moves.removeTemp hs hgood
  | syncLinked q =>
    exact Moves.choose hs (hs.syncDirectory _) (Moves.frame_of_none (Frame.syncDirectory v _) _)
      (Moves.secure_syncDirectory hs hgood.1 hgood.2) (fun _ hq ↦ by cases hq) (.inr ⟨q, rfl, rfl⟩)
  | inspect => exact Moves.inspect hs hgood
  | openExisting => exact Moves.openExisting hs hgood
  | compare i => exact Moves.compare hs hgood
  | syncExisting i =>
    obtain ⟨hfirm, hi, hdata⟩ := hgood
    have hframe := Frame.syncFile v i
    exact Moves.choose hs (hs.syncFile i) (Moves.frame_of_none hframe _)
      ⟨hfirm.frame hframe, i, hi, hdata⟩ (fun _ hq ↦ by cases hq) (.inl rfl)
  | syncShard =>
    exact Moves.choose hs (hs.syncDirectory _) (Moves.frame_of_none (Frame.syncDirectory v _) _)
      (Moves.secure_syncDirectory hs hgood.1 hgood.2) (fun _ hq ↦ by cases hq) (.inl rfl)
  | cleanUp q =>
    have hstage : o.stage .failed .failed = Stage.failed := by cases o <;> rfl
    show Moves _ _ _ _ _ _ (o.choose v (unlink v (b.temp sha256 process q)), next, Stage.failed)
    rw [← hstage]
    exact Moves.choose hs (hs.unlink (isTemp_temp q)) (Frame.unlink (isTemp_temp q)) trivial
      (fun _ hq ↦ by cases hq) (.inl rfl)
  | persisted created => exact Moves.look hs trivial (fun _ hq ↦ by cases hq) (.inl rfl)
  | appended | failed => exact Moves.stay hs trivial fun _ hq ↦ by cases hq

/-! ### Crashes -/

theorem Firm.durable (h : Firm sha256 v b) :
    Durable BlobPath.parent v (b.shard sha256) .directory := by
  obtain ⟨hhome, hhomeLost⟩ := h _ List.mem_cons_self
  obtain ⟨hblobs, hblobsLost⟩ := h (.blobs b.root) (List.mem_cons_of_mem _ List.mem_cons_self)
  obtain ⟨hshard, hshardLost⟩ := h (b.shard sha256)
    (List.mem_cons_of_mem _ (List.mem_cons_of_mem _ List.mem_cons_self))
  have hroot : Durable BlobPath.parent v (.home b.root) .directory := .root rfl hhome hhomeLost
  exact .child rfl (.child rfl hroot hblobs hblobsLost) hshard hshardLost

theorem firm_of_durable (h : Durable BlobPath.parent v (b.shard sha256) .directory) :
    Firm sha256 v b := by
  cases h with
  | root hparent => cases hparent
  | child hparent hblobs hshard hshardLost =>
    cases hparent
    cases hblobs with
    | root hparent => cases hparent
    | child hparent hhome hblobs hblobsLost =>
      cases hparent
      intro d hd
      rcases List.mem_cons.mp hd with rfl | hd
      · exact ⟨hhome.entry, hhome.lost⟩
      · rcases List.mem_cons.mp hd with rfl | hd
        · exact ⟨hblobs, hblobsLost⟩
        · rw [List.mem_singleton.mp hd]
          exact ⟨hshard, hshardLost⟩

/-- What a crash leaves of a secure file is secure. -/
theorem Secure.crash (h : Secure sha256 v b) (hs : Sane sha256 v)
    (hcrash : v.Crash BlobPath.parent v') : Secure sha256 v' b := by
  obtain ⟨hfirm, ⟨i, hi, hdata⟩, hlost⟩ := h
  have hdurable : Durable BlobPath.parent v (b.path sha256) (.file i) :=
    .child rfl hfirm.durable hi hlost
  refine ⟨firm_of_durable (hfirm.durable.crash hcrash), ⟨i, (hdurable.crash hcrash).entry, ?_⟩,
    hcrash.lost _⟩
  rw [hcrash.data i (hs.whole _ _ _ i hi).1, hdata]

/-! ### Runs -/

variable {s s' : System}

variable (sha256) in
/-- What holds in every state of a run. -/
structure Inv (s : System) : Prop where
  sane : Sane sha256 s.volume
  good : ∀ (id : Nat) call, s.calls[id]? = some call →
    Good sha256 s.volume call.blob s.process call.stage
  below : ∀ (id : Nat) call q, s.calls[id]? = some call → call.stage.sequence = some q →
    q < s.nextTemp
  distinct : ∀ (id id' : Nat) call call' q, s.calls[id]? = some call → s.calls[id']? = some call' →
    call.stage.sequence = some q → call'.stage.sequence = some q → id = id'
  staged : ∀ r ∈ s.staged, ∃ b, r = b.reference sha256 ∧ Secure sha256 s.volume b

namespace Inv

theorem initial (process : Nat) : Inv sha256 (.initial process) where
  sane := {
    fits := fun p e he ↦ by
      rw [List.mem_singleton.mp he]
      trivial
    once := fun p _ e he ↦ by cases he
    whole := fun root hash extension i hi ↦ by cases hi
    origin := fun t t' i _ _ hi _ ↦ by cases List.mem_singleton.mp hi }
  good id call h := by cases h
  below id call q h := by cases h
  distinct id id' call call' q h := by cases h
  staged r hr := by cases hr

theorem start (h : Inv sha256 s) (b : Blob) : Inv sha256 (s.start sha256 b) := by
  have hcases {id : Nat} {call : Call} (hcall : (s.start sha256 b).calls[id]? = some call) :
      s.calls[id]? = some call ∨ call = ⟨b, .createDirectories (b.levels sha256)⟩ := by
    have hcall : (s.calls ++ [⟨b, .createDirectories (b.levels sha256)⟩])[id]? = some call := hcall
    rw [List.getElem?_append] at hcall
    split at hcall
    · exact .inl hcall
    · rw [List.getElem?_singleton] at hcall
      split at hcall
      · exact .inr (Option.some.inj hcall).symm
      · cases hcall
  refine ⟨h.sane, fun id call hcall ↦ ?_, fun id call q hcall hq ↦ ?_,
    fun id id' call call' q hcall hcall' hq hq' ↦ ?_, h.staged⟩
  · rcases hcases hcall with hold | rfl
    · exact h.good id call hold
    · exact ⟨List.Subset.refl _, fun d hd ↦ .inl hd⟩
  · rcases hcases hcall with hold | rfl
    · exact h.below id call q hold hq
    · cases hq
  · rcases hcases hcall with hold | rfl
    · rcases hcases hcall' with hold' | rfl
      · exact h.distinct id id' call call' q hold hold' hq hq'
      · cases hq'
    · cases hq

/-- What is appended refers to a secure file. -/
theorem appends {call : Call} (hgood : Good sha256 v call.blob process call.stage) {o : Outcome}
    {r : Reference} (hr : r ∈ call.appends sha256 o) :
    r = call.blob.reference sha256 ∧ Secure sha256 v call.blob := by
  obtain ⟨b, stage⟩ := call
  unfold Call.appends at hr
  split at hr
  · next hstage =>
    cases hstage
    exact ⟨List.mem_singleton.mp hr, hgood⟩
  · next hstage =>
    cases hstage
    exact ⟨List.mem_singleton.mp hr, hgood⟩
  · cases hr

theorem run (h : Inv sha256 s) (id : Nat) (o : Outcome) : Inv sha256 (s.run sha256 id o) := by
  unfold System.run
  split
  · exact h
  · next call hcall =>
    have hgood := h.good id call hcall
    have hmoves := Call.moves s.nextTemp h.sane hgood o
    generalize hr : call.advance sha256 s.process s.volume s.nextTemp o = r at hmoves ⊢
    obtain ⟨volume, nextTemp, stage⟩ := r
    -- The other calls use other temporary names.
    have hother {id' : Nat} {call' : Call} {q : Nat} (hne : id' ≠ id)
        (hcall' : s.calls[id']? = some call') (hq : call'.stage.sequence = some q) :
        stage.sequence ≠ some q := by
      intro hsame
      rcases hmoves.sequence q hsame with hold | ⟨rfl, -⟩
      · exact hne (h.distinct id' id call' call q hcall' hcall hq hold)
      · exact Nat.lt_irrefl _ (h.below id' call' _ hcall' hq)
    have hset {id' : Nat} {call' : Call}
        (hcall' : (s.calls.set id ⟨call.blob, stage⟩)[id']? = some call') :
        id' = id ∧ call' = ⟨call.blob, stage⟩ ∨ id' ≠ id ∧ s.calls[id']? = some call' := by
      rw [List.getElem?_set] at hcall'
      split at hcall'
      · next hid =>
        split at hcall'
        · exact .inl ⟨hid.symm, (Option.some.inj hcall').symm⟩
        · cases hcall'
      · next hid => exact .inr ⟨fun hsame ↦ hid hsame.symm, hcall'⟩
    refine ⟨hmoves.sane, fun id' call' hcall' ↦ ?_, fun id' call' q hcall' hq ↦ ?_,
      fun id₁ id₂ call₁ call₂ q hcall₁ hcall₂ hq₁ hq₂ ↦ ?_, fun r hr ↦ ?_⟩
    · rcases hset hcall' with ⟨-, rfl⟩ | ⟨hne, hold⟩
      · exact hmoves.good
      · refine (h.good id' call' hold).frame h.sane hmoves.frame fun q hq hsame ↦ ?_
        obtain ⟨q', hq', htemp⟩ := Option.map_eq_some_iff.mp hsame.symm
        have hsequence : q' = q := by injection htemp
        rw [hsequence] at hq'
        exact hne (h.distinct id' id call' call q hold hcall hq hq')
    · rcases hset hcall' with ⟨-, rfl⟩ | ⟨-, hold⟩
      · rcases hmoves.sequence q hq with hold | ⟨rfl, hnext⟩
        · exact Nat.lt_of_lt_of_le (h.below id call q hcall hold) hmoves.le
        · exact Nat.lt_of_lt_of_eq (Nat.lt_succ_self _) hnext.symm
      · exact Nat.lt_of_lt_of_le (h.below id' call' q hold hq) hmoves.le
    · rcases hset hcall₁ with ⟨rfl, rfl⟩ | ⟨hne₁, hold₁⟩
      · rcases hset hcall₂ with ⟨rfl, -⟩ | ⟨hne₂, hold₂⟩
        · rfl
        · exact absurd hq₁ (hother hne₂ hold₂ hq₂)
      · rcases hset hcall₂ with ⟨rfl, rfl⟩ | ⟨hne₂, hold₂⟩
        · exact absurd hq₂ (hother hne₁ hold₁ hq₁)
        · exact h.distinct id₁ id₂ call₁ call₂ q hold₁ hold₂ hq₁ hq₂
    · rcases List.mem_append.mp hr with hold | hnew
      · obtain ⟨b, hb, hsecure⟩ := h.staged r hold
        exact ⟨b, hb, hsecure.frame h.sane hmoves.frame⟩
      · obtain ⟨hb, hsecure⟩ := appends hgood hnew
        exact ⟨call.blob, hb, hsecure.frame h.sane hmoves.frame⟩

theorem restart (h : Inv sha256 s) (hs : Sane sha256 v)
    (hsecure : ∀ b, Secure sha256 s.volume b → Secure sha256 v b) (process : Nat) :
    Inv sha256 (s.restart v process) where
  sane := hs
  good id call hcall := by cases hcall
  below id call q hcall := by cases hcall
  distinct id id' call call' q hcall := by cases hcall
  staged r hr := by
    obtain ⟨b, hb, hold⟩ := h.staged r hr
    exact ⟨b, hb, hsecure b hold⟩

theorem step (h : Inv sha256 s) (hstep : s.Step sha256 s') : Inv sha256 s' := by
  cases hstep with
  | start request b _ => exact h.start b
  | run id o => exact h.run id o
  | exit process => exact h.restart h.sane (fun _ hsecure ↦ hsecure) process
  | crash v process hcrash =>
    exact h.restart (h.sane.crash hcrash) (fun _ hsecure ↦ hsecure.crash h.sane hcrash) process

theorem of_reachable (h : System.Reachable sha256 s) : Inv sha256 s := by
  induction h with
  | initial process => exact initial process
  | step _ hstep ih => exact ih.step hstep

end Inv

theorem Inv.attempt (h : Inv sha256 s) (b : Blob) : Inv sha256 (s.attempt sha256 b) := by
  have hruns (n : Nat) :
      Inv sha256 ((fun t ↦ t.run sha256 s.calls.length .ok)^[n] (s.start sha256 b)) := by
    induction n with
    | zero => exact h.start b
    | succ n ih =>
      rw [Function.iterate_succ_apply']
      exact ih.run s.calls.length .ok
  exact hruns 17

theorem Secure.read (h : Secure sha256 v b) : v.read (b.path sha256) = some b.data := by
  obtain ⟨-, ⟨i, hi, hdata⟩, -⟩ := h
  rw [read_eq hi, hdata]

/-- A stored name shows the same after a step, unless a crash took it. -/
theorem read_step (h : Inv sha256 s) (hstep : s.Step sha256 s') {p : BlobPath}
    (hp : p.isTemp = false) {bytes : Bytes} (hread : s.volume.read p = some bytes)
    (hwhole : ∀ i, s.volume.entry p = some (.file i) → s.volume.synced i = true) :
    s'.volume.read p = some bytes ∨ ∃ v process, s.volume.Crash BlobPath.parent v ∧
      s' = s.restart v process ∧ v.read p = none := by
  obtain ⟨i, hi, hdata⟩ := read_eq_some hread
  cases hstep with
  | start | exit => exact .inl hread
  | run id o =>
    left
    unfold System.run
    split
    · exact hread
    · next call hcall =>
      have hframe := (Call.moves s.nextTemp h.sane (h.good id call hcall) o).frame
      obtain ⟨hentry, hsame, -⟩ := hframe.stored h.sane hp hi
      rw [← hdata, ← hsame]
      exact read_eq hentry
  | crash v process hcrash =>
    cases hentry : v.entry p with
    | none =>
      refine .inr ⟨v, process, hcrash, rfl, ?_⟩
      rw [Volume.read, hentry]
    | some e =>
      left
      have hsame := h.sane.entry_crash hcrash hp hentry
      rw [hi] at hsame
      rw [← Option.some.inj hsame] at hentry
      rw [← hdata, ← hcrash.data i (hwhole i hi)]
      exact read_eq hentry

theorem System.Reachable.runs (h : System.Reachable sha256 s) (id n : Nat) :
    System.Reachable sha256 ((fun t ↦ t.run sha256 id .ok)^[n] s) := by
  induction n with
  | zero => exact h
  | succ n ih =>
    rw [Function.iterate_succ_apply']
    exact ih.step (.run id .ok)

/-- In every state of a run, what an appended event refers to is there with the recorded hash and
length, now and after every crash. A stored name only ever shows bytes with the hash in its name,
and goes on showing them unless a crash takes it away. -/
theorem evidence_durable (h : System.Reachable sha256 s) :
    (∀ r ∈ s.staged, r.sha256 = sha256Hex sha256 r.data ∧ r.bytes = r.data.length ∧
      s.volume.read r.image_ref = some r.data ∧
        ∀ v, s.volume.Crash BlobPath.parent v → v.read r.image_ref = some r.data) ∧
    ∀ root hash extension bytes, s.volume.read (.blob root hash extension) = some bytes →
      sha256Hex sha256 bytes = hash ∧
      ∀ s', s.Step sha256 s' → s'.volume.read (.blob root hash extension) = some bytes ∨
        ∃ v process, s.volume.Crash BlobPath.parent v ∧ s' = s.restart v process ∧
          v.read (.blob root hash extension) = none := by
  have hinv := Inv.of_reachable h
  constructor
  · intro r hr
    obtain ⟨b, rfl, hsecure⟩ := hinv.staged r hr
    exact ⟨rfl, rfl, hsecure.read, fun v hcrash ↦ (hsecure.crash hinv.sane hcrash).read⟩
  · intro root hash extension bytes hread
    obtain ⟨i, hi, hdata⟩ := read_eq_some hread
    obtain ⟨-, hhash⟩ := hinv.sane.whole root hash extension i hi
    refine ⟨by rw [← hdata, hhash], fun s' hstep ↦ read_step hinv hstep rfl hread fun j hj ↦ ?_⟩
    exact (hinv.sane.whole root hash extension j hj).1

/-- SHA-256 of the bytes of `abc`. -/
def sampleHash (_ : Bytes) : Bytes :=
  [0xba, 0x78, 0x16, 0xbf, 0x8f, 0x01, 0xcf, 0xea, 0x41, 0x41, 0x40, 0xde, 0x5d, 0xae, 0x22, 0x23,
    0xb0, 0x03, 0x61, 0xa3, 0x96, 0x17, 0x7a, 0x9c, 0xb4, 0x10, 0xff, 0x61, 0xf2, 0x00, 0x15, 0xad]

/-- The image of an appended event survives crashes. -/
theorem evidence_durable_sample :
    let b : Blob := ⟨.keyframes, .jpg, [97, 98, 99]⟩
    let s := (System.initial 7).attempt sampleHash b
    s.staged = [b.reference sampleHash] ∧ ∀ v, s.volume.Crash BlobPath.parent v →
      v.read (b.path sampleHash) = some [97, 98, 99] := by
  intro b s
  have hreachable : System.Reachable sampleHash s :=
    ((System.Reachable.initial 7).step (.start (.keyframe [97, 98, 99]) b rfl)).runs 0 17
  have hstaged : s.staged = [b.reference sampleHash] := by decide +kernel
  have hmem : b.reference sampleHash ∈ s.staged := by
    rw [hstaged]
    exact List.mem_cons_self
  exact ⟨hstaged, ((evidence_durable hreachable).1 _ hmem).2.2.2⟩

end Vidarax.Evidence
