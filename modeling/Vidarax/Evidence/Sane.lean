import Vidarax.Evidence.Store

/-!
# Volumes of the evidence store

Package `vidarax-api`, `wal_sink.rs` 49–266. What every operation of the calls keeps of a volume:
each path names what its name says, a stored file has the hash in its name and is never taken away,
and no two temporary names share a file.
-/

namespace Vidarax.Evidence

open Base Volume

variable {sha256 : Bytes → Bytes} {v v' : Volume BlobPath}

/-- Names of directories. -/
def BlobPath.isDirectory : BlobPath → Bool
  | home _ | blobs _ | shard .. => true
  | blob .. | temp .. => false

/-- Names of temporary files. -/
def BlobPath.isTemp : BlobPath → Bool
  | temp .. => true
  | _ => false

/-- What a path may name. -/
def Fits (v : Volume BlobPath) (p : BlobPath) : Option Inode → Prop
  | none => True
  | some .directory => p.isDirectory = true
  | some (.file i) => p.isDirectory = false ∧ i < v.next

variable (sha256) in
/-- Volumes that the calls leave. -/
structure Sane (v : Volume BlobPath) : Prop where
  fits : ∀ p, ∀ e ∈ v.recent p, Fits v p e
  once : ∀ p, p.isTemp = false → ∀ e ∈ v.lost p, e = none
  whole : ∀ root hash extension i, v.entry (.blob root hash extension) = some (.file i) →
    v.synced i = true ∧ sha256Hex sha256 (v.data i) = hash
  origin : ∀ t t' i, t.isTemp = true → t'.isTemp = true → some (.file i) ∈ v.recent t →
    some (.file i) ∈ v.recent t' → t = t'

namespace Sane

theorem lt_next (h : Sane sha256 v) {p : BlobPath} {i : Nat} (hi : v.entry p = some (.file i)) :
    i < v.next := by
  have hfits := h.fits p _ entry_mem_recent
  rw [hi] at hfits
  exact hfits.2

/-- An entry that a path had before a volume changed at another path. -/
theorem mem_recent_set {p q : BlobPath} {e e' : Option Inode} (h : e' ∈ (v.set p e).recent q) :
    q = p ∧ e' = e ∨ e' ∈ v.recent q := by
  by_cases hq : q = p
  · rw [hq, recent, entry_set_self, lost_set_self] at h
    rcases List.mem_cons.mp h with he | hold
    · exact .inl ⟨hq, he⟩
    · rw [hq]
      exact .inr hold
  · rw [recent, entry_set_ne hq, lost_set_ne hq] at h
    exact .inr h

/-- A directory is made. -/
theorem mkdir (h : Sane sha256 v) {p : BlobPath} (hp : p.isDirectory = true)
    (hnone : v.entry p = none) : Sane sha256 (v.set p (some .directory)) where
  fits q e he := by
    rcases mem_recent_set he with ⟨rfl, rfl⟩ | hold
    · exact hp
    · exact h.fits q e hold
  once q hq e he := by
    by_cases hqp : q = p
    · rw [hqp, lost_set_self, hnone] at he
      rcases List.mem_cons.mp he with he | hold
      · exact he
      · exact h.once p (hqp ▸ hq) e hold
    · rw [lost_set_ne hqp] at he
      exact h.once q hq e he
  whole root hash extension i hi := by
    have hne : BlobPath.blob root hash extension ≠ p := by
      rintro rfl
      cases hp
    rw [entry_set_ne hne] at hi
    exact h.whole root hash extension i hi
  origin t t' i ht ht' hi hi' := by
    rcases mem_recent_set hi with ⟨-, hdir⟩ | hold
    · cases hdir
    · rcases mem_recent_set hi' with ⟨-, hdir⟩ | hold'
      · cases hdir
      · exact h.origin t t' i ht ht' hold hold'

theorem recent_syncDirectory {d : Option BlobPath} {p : BlobPath} {e : Option Inode}
    (he : e ∈ (v.syncDirectory BlobPath.parent d).recent p) : e ∈ v.recent p := by
  rcases List.mem_cons.mp he with he | hold
  · exact List.mem_cons.mpr (.inl he)
  · rcases lost_syncDirectory BlobPath.parent (v := v) (p := p) (d := d) with hnil | hsame
    · rw [hnil] at hold
      cases hold
    · rw [hsame] at hold
      exact List.mem_cons_of_mem _ hold

theorem syncDirectory (h : Sane sha256 v) (d : Option BlobPath) :
    Sane sha256 (v.syncDirectory BlobPath.parent d) where
  fits p e he := h.fits p e (recent_syncDirectory he)
  once p hp e he := by
    rcases lost_syncDirectory BlobPath.parent (v := v) (p := p) (d := d) with hnil | hsame
    · rw [hnil] at he
      cases he
    · rw [hsame] at he
      exact h.once p hp e he
  whole := h.whole
  origin t t' i ht ht' hi hi' :=
    h.origin t t' i ht ht' (recent_syncDirectory hi) (recent_syncDirectory hi')

/-- A temporary file is created. -/
theorem createFile (h : Sane sha256 v) {t : BlobPath} (ht : t.isTemp = true) :
    Sane sha256 (v.createFile t) := by
  have hrecent {q : BlobPath} {e : Option Inode} (he : e ∈ (v.createFile t).recent q) :
      q = t ∧ e = some (.file v.next) ∨ e ∈ v.recent q := mem_recent_set he
  have hdirectory : t.isDirectory = false := by
    cases t with
    | temp => rfl
    | _ => cases ht
  refine ⟨?_, ?_, ?_, ?_⟩
  · intro q e he
    rcases hrecent he with ⟨rfl, rfl⟩ | hold
    · exact ⟨hdirectory, Nat.lt_succ_self _⟩
    · have hfits := h.fits q e hold
      cases e with
      | none => trivial
      | some e =>
        cases e with
        | directory => exact hfits
        | file i => exact ⟨hfits.1, Nat.lt_succ_of_lt hfits.2⟩
  · intro q hq e he
    have hne : q ≠ t := by
      rintro rfl
      rw [ht] at hq
      cases hq
    rw [lost_createFile_ne hne] at he
    exact h.once q hq e he
  · intro root hash extension i hi
    have hne : BlobPath.blob root hash extension ≠ t := by
      rintro rfl
      cases ht
    rw [entry_createFile_ne hne] at hi
    rw [synced_createFile (h.lt_next hi), data_createFile (h.lt_next hi)]
    exact h.whole root hash extension i hi
  · intro t₁ t₂ i h₁ h₂ hi₁ hi₂
    have hnew {q : BlobPath} (hq : some (.file v.next) ∈ v.recent q) : False := by
      have hfits : Fits v q (some (.file v.next)) := h.fits q _ hq
      exact Nat.lt_irrefl _ hfits.2
    rcases hrecent hi₁ with ⟨rfl, he⟩ | hold
    · rcases hrecent hi₂ with ⟨rfl, -⟩ | hold'
      · rfl
      · rw [he] at hold'
        exact (hnew hold').elim
    · rcases hrecent hi₂ with ⟨rfl, he⟩ | hold'
      · rw [he] at hold
        exact (hnew hold).elim
      · exact h.origin t₁ t₂ i h₁ h₂ hold hold'

/-- A file is written that no stored name has. -/
theorem writeFile (h : Sane sha256 v) {i : Nat} (bytes : Bytes)
    (hi : ∀ p, p.isTemp = false → v.entry p ≠ some (.file i)) :
    Sane sha256 (v.writeFile i bytes) where
  fits p e he := by
    have hfits := h.fits p e he
    cases e with
    | none => trivial
    | some e => exact hfits
  once := h.once
  whole root hash extension j hj := by
    have hne : j ≠ i := by
      rintro rfl
      exact hi _ rfl hj
    rw [synced_writeFile_ne hne, data_writeFile_ne hne]
    exact h.whole root hash extension j hj
  origin := h.origin

theorem syncFile (h : Sane sha256 v) (i : Nat) : Sane sha256 (v.syncFile i) where
  fits p e he := by
    have hfits := h.fits p e he
    cases e with
    | none => trivial
    | some e => exact hfits
  once := h.once
  whole root hash extension j hj := by
    obtain ⟨hsynced, hhash⟩ := h.whole root hash extension j hj
    exact ⟨synced_syncFile hsynced, hhash⟩
  origin := h.origin

/-- A synced temporary file gets its name. -/
theorem link (h : Sane sha256 v) {t : BlobPath} {root : BlobRoot} {extension : Extension} {i : Nat}
    (hi : v.entry t = some (.file i)) (hsynced : v.synced i = true)
    (hnone : v.entry (.blob root (sha256Hex sha256 (v.data i)) extension) = none) :
    Sane sha256
      (v.set (.blob root (sha256Hex sha256 (v.data i)) extension) (some (.file i))) where
  fits q e he := by
    rcases mem_recent_set he with ⟨rfl, rfl⟩ | hold
    · exact ⟨rfl, h.lt_next hi⟩
    · exact h.fits q e hold
  once q hq e he := by
    by_cases hqp : q = .blob root (sha256Hex sha256 (v.data i)) extension
    · rw [hqp, lost_set_self, hnone] at he
      rcases List.mem_cons.mp he with he | hold
      · exact he
      · exact h.once _ rfl e hold
    · rw [lost_set_ne hqp] at he
      exact h.once q hq e he
  whole root' hash extension' j hj := by
    by_cases hsame : BlobPath.blob root' hash extension' =
        .blob root (sha256Hex sha256 (v.data i)) extension
    · rw [hsame, entry_set_self] at hj
      cases hj
      injection hsame with _ hhash _
      exact ⟨hsynced, hhash.symm⟩
    · rw [entry_set_ne hsame] at hj
      exact h.whole root' hash extension' j hj
  origin t₁ t₂ j h₁ h₂ hj₁ hj₂ := by
    have hold {q : BlobPath} (hq : q.isTemp = true) {e : Option Inode}
        (he : e ∈ (v.set (.blob root (sha256Hex sha256 (v.data i)) extension)
          (some (.file i))).recent q) : e ∈ v.recent q := by
      rcases mem_recent_set he with ⟨rfl, -⟩ | hold
      · cases hq
      · exact hold
    exact h.origin t₁ t₂ j h₁ h₂ (hold h₁ hj₁) (hold h₂ hj₂)

/-- A temporary file is removed. -/
theorem unlink (h : Sane sha256 v) {t : BlobPath} (ht : t.isTemp = true) :
    Sane sha256 (unlink v t) := by
  unfold Evidence.unlink
  split
  · exact h
  · have hne {q : BlobPath} (hq : q.isTemp = false) : q ≠ t := by
      rintro rfl
      rw [ht] at hq
      cases hq
    refine ⟨?_, ?_, ?_, ?_⟩
    · intro q e he
      rcases mem_recent_set he with ⟨-, rfl⟩ | hold
      · trivial
      · exact h.fits q e hold
    · intro q hq e he
      rw [lost_set_ne (hne hq)] at he
      exact h.once q hq e he
    · intro root hash extension i hi
      rw [entry_set_ne (hne rfl)] at hi
      exact h.whole root hash extension i hi
    · intro t₁ t₂ i h₁ h₂ hi₁ hi₂
      rcases mem_recent_set hi₁ with ⟨-, hnone⟩ | hold₁
      · cases hnone
      · rcases mem_recent_set hi₂ with ⟨-, hnone⟩ | hold₂
        · cases hnone
        · exact h.origin t₁ t₂ i h₁ h₂ hold₁ hold₂

/-- What a crash leaves of an entry. -/
theorem recent_crash (hcrash : v.Crash BlobPath.parent v') {p : BlobPath} {e : Option Inode}
    (he : e ∈ v'.recent p) : e = none ∨ e ∈ v.recent p := by
  rw [recent, hcrash.lost p, List.mem_singleton] at he
  rcases hcrash.entry p with hmem | ⟨hnone, -⟩
  · exact .inr (he ▸ hmem)
  · exact .inl (he.trans hnone)

/-- A stored name has its file or none after a crash. -/
theorem entry_crash (h : Sane sha256 v) (hcrash : v.Crash BlobPath.parent v') {p : BlobPath}
    (hp : p.isTemp = false) {e : Inode} (he : v'.entry p = some e) : v.entry p = some e := by
  rcases recent_crash hcrash (entry_mem_recent (v := v') (p := p)) with hnone | hmem
  · rw [he] at hnone
    cases hnone
  · rcases List.mem_cons.mp hmem with hsame | hlost
    · exact hsame.symm.trans he
    · rw [he] at hlost
      cases h.once p hp _ hlost

theorem crash (h : Sane sha256 v) (hcrash : v.Crash BlobPath.parent v') : Sane sha256 v' where
  fits p e he := by
    rcases recent_crash hcrash he with rfl | hmem
    · trivial
    · have hfits := h.fits p e hmem
      cases e with
      | none => trivial
      | some e =>
        cases e with
        | directory => exact hfits
        | file i =>
          refine ⟨hfits.1, ?_⟩
          rw [hcrash.next]
          exact hfits.2
  once p _ e he := by
    rw [hcrash.lost p] at he
    cases he
  whole root hash extension i hi := by
    obtain ⟨hsynced, hhash⟩ :=
      h.whole root hash extension i (h.entry_crash hcrash rfl hi)
    refine ⟨hcrash.synced i hsynced, ?_⟩
    rw [hcrash.data i hsynced, hhash]
  origin t t' i ht ht' hi hi' := by
    rcases recent_crash hcrash hi with hnone | hold
    · cases hnone
    · rcases recent_crash hcrash hi' with hnone | hold'
      · cases hnone
      · exact h.origin t t' i ht ht' hold hold'

end Sane

end Vidarax.Evidence
