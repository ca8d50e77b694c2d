import Vidarax.Archive.Restored
import Vidarax.Timeline.Recovery

/-!
# Every published archive is restored

Package `vidarax-archive`, `lib.rs` 81–201. Any number of attempts to archive any directories use
one store at the same time, and each may stop at any of its operations. Wherever a manifest is in
the store, all that it names is there too.
-/

namespace Vidarax.Archive

open Base Timeline Evidence

variable {p : Packages} {store : Store} {pathPrefix : List Char} {next : Nat}
  {keyframes : List StoredObject}

/-! ### Attempts -/

/-- The object of an upload has its length and its hash. -/
def Stored (p : Packages) (store : Store) (upload : Upload) : Prop :=
  ∃ actual, Holds p store upload.key actual ∧ actual.length = upload.bytes.length ∧
    sha256Hex p.sha256 actual = sha256Hex p.sha256 upload.bytes

/-- Objects stay as they are. -/
def Store.Grows (store store' : Store) : Prop :=
  ∀ path bytes, store path = some bytes → store' path = some bytes

theorem Store.grows_create (store : Store) (path : List Char) (bytes : Bytes) :
    store.Grows (store.create path bytes) := by
  intro other old hold
  unfold Store.create
  split
  · next hsame =>
    rw [← hsame, hold]
    rfl
  · exact hold

variable {store' : Store} {upload : Upload} {made : Plan} {rest : List (Except String Upload)}

theorem Stored.mono (h : Stored p store upload) (hgrows : store.Grows store') :
    Stored p store' upload := by
  obtain ⟨actual, ⟨path, hpath, hpresent⟩, hmatch⟩ := h
  exact ⟨actual, ⟨path, hpath, hgrows path actual hpresent⟩, hmatch⟩

/-- All uploads before these are stored. -/
def Plan.Reached (p : Packages) (store : Store) (made : Plan) (rest : List (Except String Upload)) :
    Prop :=
  ∃ before : List Upload, made.uploads = before.map .ok ++ rest ∧
    ∀ upload ∈ before, Stored p store upload

theorem Plan.Reached.mono (h : made.Reached p store rest) (hgrows : store.Grows store') :
    made.Reached p store' rest := by
  obtain ⟨before, huploads, hstored⟩ := h
  exact ⟨before, huploads, fun upload hupload ↦ (hstored upload hupload).mono hgrows⟩

/-- What holds of an attempt at a stage. -/
def Stage.Good (p : Packages) (store : Store) (made : Plan) : Stage → Prop
  | .uploading rest => made.Reached p store rest
  | .verifying upload path rest =>
    made.Reached p store (.ok upload :: rest) ∧ p.parsePath upload.key = .ok path
  | .published => made.Reached p store []
  | .failed => True

theorem Stage.Good.mono {stage : Stage} (h : stage.Good p store made)
    (hgrows : store.Grows store') : stage.Good p store' made := by
  cases stage with
  | uploading rest => exact Plan.Reached.mono h hgrows
  | verifying upload path rest => exact ⟨Plan.Reached.mono h.1 hgrows, h.2⟩
  | published => exact Plan.Reached.mono h hgrows
  | failed => trivial

/-- An object that an attempt put when it had come to it. -/
def Plan.Put (p : Packages) (store : Store) (made : Plan) (path : List Char) (bytes : Bytes) :
    Prop :=
  ∃ upload rest, made.Reached p store (.ok upload :: rest) ∧ p.parsePath upload.key = .ok path ∧
    upload.bytes = bytes

theorem put_of_create {path other : List Char} {bytes : Bytes}
    (hreached : made.Reached p store (.ok upload :: rest))
    (hpath : p.parsePath upload.key = .ok path)
    (h : store.create path upload.bytes other = some bytes) :
    store other = some bytes ∨ made.Put p store other bytes := by
  unfold Store.create at h
  split at h
  · next hsame =>
    subst hsame
    cases hold : store other with
    | some old =>
      rw [hold, Option.getD_some] at h
      exact .inl h
    | none =>
      rw [hold, Option.getD_none, Option.some.injEq] at h
      exact .inr ⟨upload, rest, hreached, hpath, h⟩
  · exact .inl h

/-- What the next operation of an attempt does: objects stay, new ones are put by the attempt, and
what holds of its stage goes on to hold. -/
theorem Stage.Good.advance {stage : Stage} (h : stage.Good p store made) (o : Outcome) :
    store.Grows (stage.advance p store o).1 ∧
      (stage.advance p store o).2.Good p (stage.advance p store o).1 made ∧
      ∀ path bytes, (stage.advance p store o).1 path = some bytes →
        store path = some bytes ∨ made.Put p store path bytes := by
  have hstay {stage' : Stage} (hgood : stage'.Good p store made) :
      store.Grows (store, stage').1 ∧ (store, stage').2.Good p (store, stage').1 made ∧
        ∀ path bytes, (store, stage').1 path = some bytes →
          store path = some bytes ∨ made.Put p store path bytes :=
    ⟨fun _ _ hold ↦ hold, hgood, fun _ _ hold ↦ .inl hold⟩
  cases stage with
  | uploading rest =>
    cases rest with
    | nil => exact hstay h
    | cons first rest =>
      cases first with
      | error error => exact hstay trivial
      | ok upload =>
        dsimp only [Stage.advance]
        split
        · exact hstay trivial
        · cases hpath : p.parsePath upload.key with
          | error error => exact hstay trivial
          | ok path =>
            have hgrows := store.grows_create path upload.bytes
            cases o with
            | ok =>
              exact ⟨hgrows, ⟨Plan.Reached.mono h hgrows, hpath⟩, fun _ _ ↦ put_of_create h hpath⟩
            | refused => exact hstay trivial
            | lost => exact ⟨hgrows, trivial, fun _ _ ↦ put_of_create h hpath⟩
  | verifying upload path rest =>
    obtain ⟨⟨before, huploads, hstored⟩, hpath⟩ := h
    cases o with
    | ok =>
      dsimp only [Stage.advance]
      cases hget : getLimited store path upload.limit with
      | error error => exact hstay trivial
      | ok actual =>
        dsimp only
        split
        · exact hstay trivial
        · next hmatch =>
          rw [not_or] at hmatch
          refine hstay ⟨before ++ [upload], ?_, fun u hu ↦ ?_⟩
          · rw [huploads, List.map_append, List.append_assoc]
            rfl
          · rcases List.mem_append.mp hu with hu | hu
            · exact hstored u hu
            · rw [List.mem_singleton.mp hu]
              exact ⟨actual, ⟨path, hpath, (getLimited_ok hget).1⟩, not_not.mp hmatch.1,
                not_not.mp hmatch.2⟩
    | refused => exact hstay trivial
    | lost => exact hstay trivial
  | published => exact hstay h
  | failed => exact hstay trivial

/-- What holds of a store and the attempts that use it. -/
structure Inv (p : Packages) (s : System) : Prop where
  made : ∀ a ∈ s.attempts, ∃ env options, plan p env a.dir options = .ok a.plan
  good : ∀ a ∈ s.attempts, a.stage.Good p s.store a.plan
  put : ∀ path bytes, s.store path = some bytes →
    ∃ a ∈ s.attempts, a.plan.Put p s.store path bytes

theorem Plan.Put.mono {path : List Char} {bytes : Bytes} (h : made.Put p store path bytes)
    (hgrows : store.Grows store') : made.Put p store' path bytes := by
  obtain ⟨upload, rest, hreached, hmatch⟩ := h
  exact ⟨upload, rest, hreached.mono hgrows, hmatch⟩

theorem System.run_of_getElem? {s : System} {id : Nat} {attempt : Attempt}
    (h : s.attempts[id]? = some attempt) (o : Outcome) :
    s.run p id o = ⟨(attempt.stage.advance p s.store o).1,
      s.attempts.set id { attempt with stage := (attempt.stage.advance p s.store o).2 }⟩ := by
  unfold System.run
  rw [h]

theorem Inv.run {s : System} (h : Inv p s) (id : Nat) (o : Outcome) : Inv p (s.run p id o) := by
  cases hid : s.attempts[id]? with
  | none =>
    unfold System.run
    rw [hid]
    exact h
  | some attempt =>
    have hmem := List.mem_of_getElem? hid
    obtain ⟨hgrows, hgood, hnew⟩ := (h.good attempt hmem).advance o
    rw [System.run_of_getElem? hid]
    generalize attempt.stage.advance p s.store o = outcome at hgrows hgood hnew ⊢
    obtain ⟨store, stage⟩ := outcome
    have hset : ∀ a ∈ s.attempts.set id { attempt with stage },
        a = { attempt with stage } ∨ a ∈ s.attempts := fun a ha ↦
      (List.mem_or_eq_of_mem_set ha).symm
    have hlength : id < s.attempts.length := (List.getElem?_eq_some_iff.mp hid).1
    have hself : { attempt with stage } ∈ s.attempts.set id { attempt with stage } :=
      List.mem_set hlength _
    refine ⟨fun a ha ↦ ?_, fun a ha ↦ ?_, fun path bytes hpresent ↦ ?_⟩
    · rcases hset a ha with rfl | ha
      · exact h.made attempt hmem
      · exact h.made a ha
    · rcases hset a ha with rfl | ha
      · exact hgood
      · exact (h.good a ha).mono hgrows
    · have hkept : ∀ a ∈ s.attempts,
          ∃ a' ∈ s.attempts.set id { attempt with stage }, a'.plan = a.plan := by
        intro a ha
        obtain ⟨j, hj⟩ := List.mem_iff_getElem?.mp ha
        by_cases hsame : id = j
        · subst hsame
          rw [hid] at hj
          cases hj
          exact ⟨_, hself, rfl⟩
        · exact ⟨a, List.mem_of_getElem? ((List.getElem?_set_ne hsame).trans hj), rfl⟩
      rcases hnew path bytes hpresent with hold | hput
      · obtain ⟨a, ha, hput⟩ := h.put path bytes hold
        obtain ⟨a', ha', hplan⟩ := hkept a ha
        rw [← hplan] at hput
        exact ⟨a', ha', hput.mono hgrows⟩
      · exact ⟨_, hself, hput.mono hgrows⟩

theorem Inv.of_reachable {s : System} (h : Reachable p s) : Inv p s := by
  induction h with
  | initial => exact ⟨by simp [System.initial], by simp [System.initial], by simp [System.initial]⟩
  | start env dir options hplan _ ih =>
    refine ⟨fun a ha ↦ ?_, fun a ha ↦ ?_, fun path bytes hpresent ↦ ?_⟩
    · rcases List.mem_append.mp ha with ha | ha
      · exact ih.made a ha
      · rw [List.mem_singleton.mp ha]
        exact ⟨env, options, hplan⟩
    · rcases List.mem_append.mp ha with ha | ha
      · exact ih.good a ha
      · rw [List.mem_singleton.mp ha]
        exact ⟨[], rfl, by simp⟩
    · obtain ⟨a, ha, hput⟩ := ih.put path bytes hpresent
      exact ⟨a, List.mem_append_left _ ha, hput⟩
  | run id o _ ih => exact ih.run id o

/-! ### Plans -/

/-- What a plan is made of. -/
structure Plan.Of (p : Packages) (pathPrefix : List Char) (dir : DataDir) (made : Plan) : Prop where
  segments : ∀ segment ∈ pathPrefix.splitOn '/', isPrefixSegment segment = true
  head : pathPrefix ≠ [] ∧ pathPrefix.head? ≠ some '/'
  prepared : ∃ contents next, Prepared p pathPrefix made.manifest.wal_chunks contents next
    made.manifest.keyframes ∧ contents.flatten = made.log ∧
      made.manifest.event_coverage_seq = next - 1
  valid : validateManifest made.manifest = .ok ()
  length_le : (p.toVec made.manifest).length ≤ MAX_MANIFEST_BYTES
  key : made.manifest_key = manifestKey pathPrefix (sha256Hex p.sha256 (p.toVec made.manifest))
  uploads : made.uploads =
    (chunkUploads p made.log.length (dir.again.take made.log.length) made.manifest.wal_chunks ++
      made.manifest.keyframes.map (imageUpload p dir)) ++
    [.ok ⟨made.manifest_key, p.toVec made.manifest, MAX_MANIFEST_BYTES⟩]

theorem plan_ok {env : OpenEnv} {dir : DataDir} {options : ArchiveOptions}
    (h : plan p env dir options = .ok made) : made.Of p options.pathPrefix dir := by
  unfold plan at h
  obtain ⟨pathPrefix, hsafe, h⟩ := bind_eq_ok h
  have hsegments := segments_of_validatePrefix hsafe
  obtain ⟨rfl, hne, hhead⟩ := head?_of_validatePrefix hsafe
  obtain ⟨-, h⟩ := guard_eq_ok h
  obtain ⟨log, -, h⟩ := bind_eq_ok h
  obtain ⟨manifest, hpreflight, h⟩ := bind_eq_ok h
  obtain ⟨hprepared, hvalid, hlength⟩ := preflight_ok hpreflight
  cases h
  exact ⟨hsegments, ⟨hne, hhead⟩, hprepared, hvalid, hlength, rfl, rfl⟩

/-- An upload of a chunk. -/
structure UploadOf (p : Packages) (limit : Nat) (object : StoredObject) (upload : Upload) :
    Prop where
  limit : upload.limit = limit
  key : upload.key = object.key
  length : upload.bytes.length = object.bytes
  sha256 : sha256Hex p.sha256 upload.bytes = object.sha256

theorem uploadOf_chunk {limit : Nat} {source : Bytes} {chunks : List WalChunk}
    (h : .ok upload ∈ chunkUploads p limit source chunks) :
    ∃ chunk ∈ chunks, UploadOf p MAX_RECORD_LINE_BYTES chunk.object upload := by
  induction chunks generalizing limit source with
  | nil =>
    unfold chunkUploads at h
    split at h
    · cases List.mem_singleton.mp h
    · cases h
  | cons chunk chunks ih =>
    unfold chunkUploads at h
    split at h
    · cases List.mem_singleton.mp h
    · dsimp only at h
      cases hverify : verifyObject p chunk.object (source.take chunk.object.bytes) with
      | error error =>
        rw [hverify] at h
        cases List.mem_singleton.mp h
      | ok _ =>
        rw [hverify] at h
        rcases List.mem_cons.mp h with heq | h
        · cases heq
          obtain ⟨-, hlength, hsha⟩ := verifyObject_ok hverify
          exact ⟨chunk, List.mem_cons_self, rfl, rfl, hlength, hsha⟩
        · obtain ⟨c, hc, hof⟩ := ih h
          exact ⟨c, List.mem_cons_of_mem _ hc, hof⟩

/-- Where no upload of the second pass is an error, every chunk has one. -/
theorem exists_uploadOf_chunk {limit : Nat} {source : Bytes} {chunks : List WalChunk}
    {uploads : List Upload} (h : chunkUploads p limit source chunks = uploads.map .ok) :
    ∀ chunk ∈ chunks, ∃ upload ∈ uploads, UploadOf p MAX_RECORD_LINE_BYTES chunk.object upload := by
  induction chunks generalizing limit source uploads with
  | nil => exact fun _ hc ↦ nomatch hc
  | cons chunk chunks ih =>
    unfold chunkUploads at h
    split at h
    · obtain ⟨u, us, -, hu, -⟩ := List.map_eq_cons_iff.mp h.symm
      cases hu
    · dsimp only at h
      cases hverify : verifyObject p chunk.object (source.take chunk.object.bytes) with
      | error error =>
        rw [hverify] at h
        obtain ⟨u, us, -, hu, -⟩ := List.map_eq_cons_iff.mp h.symm
        cases hu
      | ok _ =>
        rw [hverify] at h
        obtain ⟨u, us, rfl, hu, hus⟩ := List.map_eq_cons_iff.mp h.symm
        cases hu
        obtain ⟨-, hlength, hsha⟩ := verifyObject_ok hverify
        rw [List.forall_mem_cons]
        refine ⟨⟨_, List.mem_cons_self, rfl, rfl, hlength, hsha⟩, fun c hc ↦ ?_⟩
        obtain ⟨v, hv, hof⟩ := ih hus.symm c hc
        exact ⟨v, List.mem_cons_of_mem _ hv, hof⟩

theorem imageUpload_ok {dir : DataDir} {blob : StoredObject}
    (h : imageUpload p dir blob = .ok upload) :
    readKeyframe p dir blob.sha256 blob.bytes = .ok upload.bytes ∧
      UploadOf p MAX_BLOB_BYTES blob upload := by
  unfold imageUpload at h
  obtain ⟨bytes, hread, h⟩ := bind_eq_ok h
  cases h
  refine ⟨hread, ?_⟩
  unfold readKeyframe at hread
  split at hread
  · cases hread
  · obtain ⟨hlength, hread⟩ := guard_eq_ok hread
    obtain ⟨hsha, hread⟩ := guard_eq_ok hread
    cases hread
    exact ⟨rfl, rfl, not_not.mp hlength, not_not.mp hsha⟩

/-- Images that are kept under the keys of their hashes. -/
def Keyed (pathPrefix : List Char) (keyframes : List StoredObject) : Prop :=
  ∀ blob ∈ keyframes, blob.key = blobKey pathPrefix blob.sha256

theorem Keyed.prepareEvent {state state' : Nat × List StoredObject} {event : TimelineEvent}
    (h : Keyed pathPrefix state.2) (hstep : prepareEvent p pathPrefix state event = .ok state') :
    Keyed pathPrefix state'.2 := by
  obtain ⟨next, keyframes⟩ := state
  unfold Archive.prepareEvent at hstep
  obtain ⟨-, hstep⟩ := guard_eq_ok hstep
  obtain ⟨-, hstep⟩ := guard_eq_ok hstep
  obtain ⟨keyframes', hprepare, hstep⟩ := bind_eq_ok hstep
  cases hstep
  unfold prepareKeyframe at hprepare
  obtain ⟨reference, -, hprepare⟩ := bind_eq_ok hprepare
  split at hprepare
  · cases hprepare
    exact h
  · split at hprepare
    · obtain ⟨-, hprepare⟩ := guard_eq_ok hprepare
      cases hprepare
      exact h
    · obtain ⟨-, hprepare⟩ := guard_eq_ok hprepare
      cases hprepare
      intro blob hblob
      rcases mem_insertImage.mp hblob with rfl | hblob
      · rfl
      · exact h blob hblob

theorem Prepared.keyed {chunks : List WalChunk} {contents : List Bytes}
    (h : Prepared p pathPrefix chunks contents next keyframes) : Keyed pathPrefix keyframes := by
  induction h with
  | nil => exact fun _ hblob ↦ nomatch hblob
  | concat h hchunk ih =>
    obtain ⟨-, -, -, events, -, -, hloop⟩ := prepareChunk_ok hchunk
    exact @foldlM_invariant _ _ _ _ (fun _ state ↦ Keyed pathPrefix state.2)
      (fun _ _ _ _ hI hs ↦ hI.prepareEvent hs) [] events _ _ ih hloop

theorem Prepared.exists_chunkOf {chunks : List WalChunk} {contents : List Bytes}
    (h : Prepared p pathPrefix chunks contents next keyframes) :
    ∀ chunk ∈ chunks, ∃ bytes, ChunkOf p pathPrefix chunk bytes := by
  induction h with
  | nil => exact fun _ hchunk ↦ nomatch hchunk
  | concat h hchunk ih =>
    intro c hc
    rcases List.mem_append.mp hc with hc | hc
    · exact ih c hc
    · rw [List.mem_singleton.mp hc]
      exact ⟨_, (prepareChunk_ok hchunk).1⟩

/-- A key in an archive: it starts like the prefix, and its last letter tells what it is of. -/
theorem Plan.Of.key_of_mem {dir : DataDir} (h : made.Of p pathPrefix dir)
    (hmem : .ok upload ∈ chunkUploads p made.log.length (dir.again.take made.log.length)
      made.manifest.wal_chunks ++ made.manifest.keyframes.map (imageUpload p dir)) :
    upload.key.head? = pathPrefix.head? ∧
      (upload.key.getLast? = some 'l' ∨ upload.key.getLast? = some 'g') := by
  obtain ⟨contents, next, hprepared, -, -⟩ := h.prepared
  obtain ⟨first, rest, rfl⟩ := List.exists_cons_of_ne_nil h.head.1
  rcases List.mem_append.mp hmem with hmem | hmem
  · obtain ⟨chunk, hchunk, hof⟩ := uploadOf_chunk hmem
    obtain ⟨bytes, hchunkOf⟩ := hprepared.exists_chunkOf chunk hchunk
    rw [hof.key, hchunkOf.key_eq]
    refine ⟨rfl, .inl ?_⟩
    rw [walKey, List.getLast?_append_of_ne_nil _ (by decide)]
    rfl
  · obtain ⟨blob, hblob, himage⟩ := List.mem_map.mp hmem
    rw [(imageUpload_ok himage).2.key, hprepared.keyed blob hblob]
    refine ⟨rfl, .inr ?_⟩
    rw [blobKey, List.getLast?_append_of_ne_nil _ (by decide)]
    rfl

theorem Plan.Of.manifest_key {dir : DataDir} (h : made.Of p pathPrefix dir) :
    made.manifest_key.head? = pathPrefix.head? ∧ made.manifest_key.getLast? = some 'n' := by
  obtain ⟨first, rest, rfl⟩ := List.exists_cons_of_ne_nil h.head.1
  rw [h.key]
  refine ⟨rfl, ?_⟩
  rw [manifestKey, List.getLast?_append_of_ne_nil _ (by decide)]
  rfl

/-- An upload under a path that is free, or that already has these bytes, is put and found again. -/
theorem System.run_run {s : System} {id : Nat} {a : Attempt} {upload : Upload}
    {rest : List (Except String Upload)} {path : List Char} (hid : s.attempts[id]? = some a)
    (hstage : a.stage = .uploading (.ok upload :: rest))
    (hlimit : upload.bytes.length ≤ upload.limit) (hpath : p.parsePath upload.key = .ok path)
    (hsame : (s.store path).getD upload.bytes = upload.bytes) :
    (s.run p id .ok).run p id .ok = ⟨s.store.create path upload.bytes,
      s.attempts.set id { a with stage := .uploading rest }⟩ := by
  have hput : a.stage.advance p s.store .ok =
      (s.store.create path upload.bytes, .verifying upload path rest) := by
    rw [hstage, Stage.advance, if_neg (Nat.not_lt.mpr hlimit), hpath]
  have hget : getLimited (s.store.create path upload.bytes) path upload.limit =
      .ok upload.bytes := by
    unfold getLimited Store.create
    rw [if_pos rfl, hsame]
    exact if_neg (Nat.not_lt.mpr hlimit)
  have hlength : id < s.attempts.length := (List.getElem?_eq_some_iff.mp hid).1
  rw [System.run_of_getElem? hid, hput]
  rw [System.run_of_getElem? (List.getElem?_set_self hlength), Stage.advance, hget]
  dsimp only
  rw [if_neg (by simp), List.set_set]

theorem System.run_end {s : System} {id : Nat} {a : Attempt} (hid : s.attempts[id]? = some a)
    (hstage : a.stage = .uploading []) (o : Outcome) :
    s.run p id o = ⟨s.store, s.attempts.set id { a with stage := .published }⟩ := by
  rw [System.run_of_getElem? hid, hstage, Stage.advance]

/-- A path is free, or already has these bytes. -/
def Store.Accepts (store : Store) (upload : Upload) : Prop :=
  (store upload.key).getD upload.bytes = upload.bytes

theorem Store.Accepts.create {store : Store} {upload other : Upload} (h : store.Accepts upload)
    (hsame : upload.key = other.key → upload.bytes = other.bytes) (hother : store.Accepts other) :
    (store.create other.key other.bytes).Accepts upload := by
  unfold Store.Accepts Store.create
  split
  · next heq =>
    rw [Option.getD_some, hother, hsame heq]
  · exact h

/-- An attempt whose operations succeed from some point on is published. -/
theorem System.iterate_run {id : Nat} {rest : List Upload} :
    ∀ {s : System} {a : Attempt}, s.attempts[id]? = some a → a.stage = .uploading (rest.map .ok) →
      (∀ u ∈ rest, u.bytes.length ≤ u.limit ∧ p.parsePath u.key = .ok u.key ∧ s.store.Accepts u) →
      (∀ u ∈ rest, ∀ v ∈ rest, u.key = v.key → u.bytes = v.bytes) →
      (fun s : System ↦ s.run p id .ok)^[2 * rest.length + 1] s =
        ⟨rest.foldl (fun store u ↦ store.create u.key u.bytes) s.store,
          s.attempts.set id { a with stage := .published }⟩ := by
  induction rest with
  | nil => exact fun hid hstage _ _ ↦ System.run_end hid hstage .ok
  | cons u rest ih =>
    intro s a hid hstage hfits hsame
    obtain ⟨⟨hlimit, hpath, haccepts⟩, hrest⟩ := List.forall_mem_cons.mp hfits
    have hlength : id < s.attempts.length := (List.getElem?_eq_some_iff.mp hid).1
    have hstep := System.run_run (p := p) hid hstage hlimit hpath haccepts
    rw [List.length_cons, Nat.mul_add, Nat.add_right_comm, Function.iterate_add_apply]
    change (fun s : System ↦ s.run p id .ok)^[2 * rest.length + 1]
      ((s.run p id .ok).run p id .ok) = _
    rw [hstep, ih (List.getElem?_set_self hlength) rfl (fun v hv ↦ ?_) fun v hv w hw ↦ ?_]
    · rw [List.set_set]
      rfl
    · obtain ⟨hlimit', hpath', haccepts'⟩ := hrest v hv
      exact ⟨hlimit', hpath', haccepts'.create
        (hsame v (List.mem_cons_of_mem _ hv) u List.mem_cons_self) haccepts⟩
    · exact hsame v (List.mem_cons_of_mem _ hv) w (List.mem_cons_of_mem _ hw)

theorem Reachable.iterate {s : System} (h : Reachable p s) (id : Nat) (n : Nat) :
    Reachable p ((fun s : System ↦ s.run p id .ok)^[n] s) := by
  induction n with
  | zero => exact h
  | succ n ih =>
    rw [Function.iterate_succ_apply']
    exact ih.run id .ok

/-! ### Restoring what attempts have put -/

/-- The parts of a log that chunks are to be of. -/
def slices : Bytes → List WalChunk → List Bytes
  | _, [] => []
  | log, chunk :: chunks =>
    log.take chunk.object.bytes :: slices (log.drop chunk.object.bytes) chunks

theorem slices_flatten {chunks : List WalChunk} {contents : List Bytes}
    (h : List.Forall₂ (ChunkOf p pathPrefix) chunks contents) :
    slices contents.flatten chunks = contents := by
  induction h with
  | nil => rfl
  | cons hof _ ih =>
    rw [List.flatten_cons, slices, hof.length_eq, List.take_left, List.drop_left, ih]

/-- The bytes that an attempt hashes. -/
def Attempt.hashed (a : Attempt) : List Bytes :=
  slices a.plan.log a.plan.manifest.wal_chunks ++
    a.plan.uploads.filterMap fun upload ↦ upload.toOption.map Upload.bytes

/-- No two different byte strings that attempts have hashed have the same hash. -/
def NoCollision (p : Packages) (s : System) : Prop :=
  ∀ a ∈ s.attempts, ∀ b ∈ s.attempts, ∀ x ∈ a.hashed, ∀ y ∈ b.hashed,
    sha256Hex p.sha256 x = sha256Hex p.sha256 y → x = y

/-- A path that neither starts nor ends with a slash is not changed when it is parsed. -/
def Packages.KeepsPaths (p : Packages) : Prop :=
  ∀ key path, key.head? ≠ some '/' → key.getLast? ≠ some '/' → p.parsePath key = .ok path →
    path = key

theorem mem_hashed {a : Attempt} (h : .ok upload ∈ a.plan.uploads) : upload.bytes ∈ a.hashed :=
  List.mem_append_right _ (List.mem_filterMap.mpr ⟨.ok upload, h, rfl⟩)

variable {s : System} {a : Attempt}

/-- What a store holds under a hash that an attempt knows are the bytes of the attempt. -/
theorem Inv.holds_eq (h : Inv p s) (hcollision : NoCollision p s) (ha : a ∈ s.attempts)
    {key : List Char} {actual data : Bytes} (hheld : Holds p s.store key actual)
    (hdata : data ∈ a.hashed) (hsha : sha256Hex p.sha256 actual = sha256Hex p.sha256 data) :
    actual = data := by
  obtain ⟨path, -, hpresent⟩ := hheld
  obtain ⟨b, hb, upload, rest, ⟨before, huploads, -⟩, -, rfl⟩ := h.put path actual hpresent
  have hmem : .ok upload ∈ b.plan.uploads := by
    rw [huploads]
    exact List.mem_append_right _ List.mem_cons_self
  exact hcollision b hb a ha _ (mem_hashed hmem) _ hdata hsha

/-- A list that is cut before its last element is cut there if what follows is not before it. -/
theorem front_eq_of_not_mem {α : Type} {xs rest front : List α} {x last : α}
    (h : xs ++ x :: rest = front ++ [last]) (hx : x ∉ front) : xs = front := by
  rcases List.append_eq_append_iff.mp h with ⟨middle, hfront, hrest⟩ | ⟨middle, hxs, hlast⟩
  · cases middle with
    | nil => rw [hfront, List.append_nil]
    | cons y middle =>
      rw [List.cons_append, List.cons.injEq] at hrest
      rw [hfront, hrest.1] at hx
      exact absurd (List.mem_append_right _ List.mem_cons_self) hx
  · cases middle with
    | nil => rw [hxs, List.append_nil]
    | cons y middle =>
      rw [List.cons_append, List.cons.injEq] at hlast
      exact absurd hlast.2.symm (by simp)

/-- Under the key of a manifest there is only a manifest, put by an attempt that had stored all that
it names. -/
theorem Inv.manifest_put (h : Inv p s) (hpaths : p.KeepsPaths) {pathPrefix : List Char}
    (hof : a.plan.Of p pathPrefix a.dir) {bytes : Bytes}
    (hpresent : s.store a.plan.manifest_key = some bytes) :
    p.parsePath a.plan.manifest_key = .ok a.plan.manifest_key ∧
      ∃ b ∈ s.attempts, ∃ pathPrefix', b.plan.Of p pathPrefix' b.dir ∧
        b.plan.manifest_key = a.plan.manifest_key ∧ p.toVec b.plan.manifest = bytes ∧
        ∃ before : List Upload, before.map .ok = chunkUploads p b.plan.log.length
            (b.dir.again.take b.plan.log.length) b.plan.manifest.wal_chunks ++
          b.plan.manifest.keyframes.map (imageUpload p b.dir) ∧
        ∀ upload ∈ before, Stored p s.store upload := by
  obtain ⟨b, hb, upload, rest, ⟨before, huploads, hstored⟩, hparse, rfl⟩ := h.put _ _ hpresent
  obtain ⟨env, options, hplan⟩ := h.made b hb
  have hofb := plan_ok hplan
  have hlast := hof.manifest_key.2
  have hfront : .ok upload ∉ chunkUploads p b.plan.log.length
      (b.dir.again.take b.plan.log.length) b.plan.manifest.wal_chunks ++
        b.plan.manifest.keyframes.map (imageUpload p b.dir) := by
    intro hmem
    obtain ⟨hhead, hend⟩ := hofb.key_of_mem hmem
    have hsame := hpaths _ _ (hhead ▸ hofb.head.2)
      (by rcases hend with hend | hend <;> rw [hend] <;> decide) hparse
    rw [hsame] at hlast
    rcases hend with hend | hend <;> rw [hend] at hlast <;> cases hlast
  have hall := huploads.symm.trans hofb.uploads
  have hmem : .ok upload ∈ b.plan.uploads := by
    rw [huploads]
    exact List.mem_append_right _ List.mem_cons_self
  rw [hofb.uploads] at hmem
  rcases List.mem_append.mp hmem with hmem | hmem
  · exact absurd hmem hfront
  · cases List.mem_singleton.mp hmem
    dsimp only at hparse
    have hsame : a.plan.manifest_key = b.plan.manifest_key :=
      hpaths _ _ (hofb.manifest_key.1 ▸ hofb.head.2) (by rw [hofb.manifest_key.2]; decide) hparse
    rw [← hsame] at hparse
    exact ⟨hparse, b, hb, options.pathPrefix, hofb, hsame.symm, rfl, before,
      front_eq_of_not_mem hall hfront, hstored⟩

theorem Plan.Of.manifest_mem {dir : DataDir} (h : made.Of p pathPrefix dir) :
    .ok ⟨made.manifest_key, p.toVec made.manifest, MAX_MANIFEST_BYTES⟩ ∈ made.uploads := by
  rw [h.uploads]
  exact List.mem_append_right _ (List.mem_singleton_self _)

/-- A published manifest is in the store. -/
theorem Inv.manifest_present (h : Inv p s) (hpaths : p.KeepsPaths) (ha : a ∈ s.attempts)
    (hof : a.plan.Of p pathPrefix a.dir) (hpublished : a.stage = .published) :
    s.store a.plan.manifest_key ≠ none := by
  have hgood := h.good a ha
  rw [hpublished] at hgood
  obtain ⟨before, huploads, hstored⟩ := hgood
  have hmanifest := hof.manifest_mem
  rw [List.append_nil] at huploads
  rw [huploads] at hmanifest
  obtain ⟨upload, hupload, heq⟩ := List.mem_map.mp hmanifest
  cases heq
  obtain ⟨actual, ⟨path, hparse, hpresent⟩, -⟩ := hstored _ hupload
  have hsame := hpaths _ _ (hof.manifest_key.1 ▸ hof.head.2)
    (by rw [hof.manifest_key.2]; decide) hparse
  dsimp only at hsame
  rw [← hsame, hpresent]
  exact Option.some_ne_none actual

/-- Manifests under one key are the same. -/
theorem manifest_eq_of_key {b : Attempt} {pathPrefix' : List Char}
    (hcodec : ∀ b ∈ s.attempts, p.fromSlice (p.toVec b.plan.manifest) = .ok b.plan.manifest)
    (hcollision : NoCollision p s) (ha : a ∈ s.attempts) (hb : b ∈ s.attempts)
    (hofa : a.plan.Of p pathPrefix a.dir) (hofb : b.plan.Of p pathPrefix' b.dir)
    (hkey : b.plan.manifest_key = a.plan.manifest_key) : b.plan.manifest = a.plan.manifest := by
  have hsha := congrArg manifestSha hkey
  rw [hofa.key, hofb.key, manifestSha_manifestKey, manifestSha_manifestKey,
    Option.some.injEq] at hsha
  have hvec := hcollision b hb a ha _ (mem_hashed hofb.manifest_mem) _
    (mem_hashed hofa.manifest_mem) hsha
  have hread := congrArg p.fromSlice hvec
  dsimp only at hread
  rw [hcodec b hb, hcodec a ha] at hread
  exact Except.ok.inj hread

/-- An archive is restored if its manifest and its chunks are in the store, and its images are
restored. -/
theorem Plan.Of.restore_ok {dir : DataDir} {images : List (List Char × Bytes)}
    (h : made.Of p pathPrefix dir) (hdigests : p.Digests)
    (hcodec : p.fromSlice (p.toVec made.manifest) = .ok made.manifest)
    (hparse : p.parsePath made.manifest_key = .ok made.manifest_key)
    (hpresent : store made.manifest_key = some (p.toVec made.manifest))
    (hchunks : ∀ chunk ∈ made.manifest.wal_chunks,
      ∀ content ∈ slices made.log made.manifest.wal_chunks, ChunkOf p pathPrefix chunk content →
        Holds p store chunk.object.key content)
    (himages : made.manifest.keyframes.mapM (restoreImage p store) = .ok images) :
    restore p store made.manifest_key = .ok (made.manifest, ⟨made.log, images⟩) := by
  obtain ⟨-, hshas, -⟩ := validateManifest_ok h.valid
  obtain ⟨contents, next, hprepared, hlog, hcoverage⟩ := h.prepared
  rw [← hlog, slices_flatten hprepared.chunksOf] at hchunks
  obtain ⟨referenced, hloop, hagree⟩ := hprepared.restoreChunks hshas hchunks
  have hget : getLimited store made.manifest_key MAX_MANIFEST_BYTES =
      .ok (p.toVec made.manifest) := by
    unfold getLimited
    rw [hpresent]
    exact if_neg (Nat.not_lt.mpr h.length_le)
  have hsha : required (manifestSha made.manifest_key)
      "manifest key must end in <sha256>.json" =
      .ok (sha256Hex p.sha256 (p.toVec made.manifest)) := by
    rw [h.key, manifestSha_manifestKey]
    rfl
  have hcomplete : ¬ (referenced.length ≠ made.manifest.keyframes.length ∨
      made.manifest.keyframes.any (fun blob ↦
        referenced.lookup blob.sha256 ≠ some blob.bytes)) := by
    rw [not_or, not_not, List.any_eq_true]
    refine ⟨hagree.length, ?_⟩
    rintro ⟨blob, hblob, hwrong⟩
    exact of_decide_eq_true hwrong ((hagree.lookup _ _).mpr ⟨blob, hblob, rfl, rfl⟩)
  unfold restore
  rw [hparse, ok_bind, hsha, ok_bind, validateSha_sha256Hex hdigests, ok_bind, hget, ok_bind,
    if_neg (not_not.mpr rfl), hcodec, ok_bind, h.valid, ok_bind, hloop, ok_bind,
    if_neg (not_not.mpr hcoverage.symm), if_neg hcomplete, himages, hlog]
  rfl

/-- Whatever other attempts did and wherever they stopped, an attempt that has published its
archive has its manifest in the store; and wherever the manifest of an attempt is in the store,
a restore brings back the log that it was made of, and the images of the directory. -/
theorem restore_archive (h : Reachable p s) (hdigests : p.Digests) (hpaths : p.KeepsPaths)
    (hcodec : ∀ b ∈ s.attempts, p.fromSlice (p.toVec b.plan.manifest) = .ok b.plan.manifest)
    (hcollision : NoCollision p s) (ha : a ∈ s.attempts) :
    (a.stage = .published → s.store a.plan.manifest_key ≠ none) ∧
      (s.store a.plan.manifest_key ≠ none → ∃ keyframes,
        restore p s.store a.plan.manifest_key =
          .ok (a.plan.manifest, ⟨a.plan.log, keyframes⟩) ∧
        ∀ blob ∈ a.plan.manifest.keyframes, ∀ data,
          readKeyframe p a.dir blob.sha256 blob.bytes = .ok data →
            (blob.sha256, data) ∈ keyframes) := by
  have hinv := Inv.of_reachable h
  obtain ⟨env, options, hplan⟩ := hinv.made a ha
  have hof := plan_ok hplan
  refine ⟨hinv.manifest_present hpaths ha hof, fun hne ↦ ?_⟩
  obtain ⟨bytes, hpresent⟩ := Option.ne_none_iff_exists'.mp hne
  obtain ⟨hparse, b, hb, pathPrefix', hofb, hkey, hbytes, before, hfront, hstored⟩ :=
    hinv.manifest_put hpaths hof hpresent
  have hsame := manifest_eq_of_key hcodec hcollision ha hb hof hofb hkey
  rw [← hbytes, hsame] at hpresent
  obtain ⟨chunkPart, imagePart, rfl, hchunkPart, himagePart⟩ := List.map_eq_append_iff.mp hfront
  -- The chunks in the store are those of the first pass.
  have hchunks : ∀ chunk ∈ a.plan.manifest.wal_chunks,
      ∀ content ∈ slices a.plan.log a.plan.manifest.wal_chunks,
        ChunkOf p options.pathPrefix chunk content →
          Holds p s.store chunk.object.key content := by
    intro chunk hchunk content hcontent hchunkOf
    rw [← hsame] at hchunk
    obtain ⟨upload, hupload, huploadOf⟩ := exists_uploadOf_chunk hchunkPart.symm chunk hchunk
    obtain ⟨actual, hheld, -, hsha⟩ := hstored upload (List.mem_append_left _ hupload)
    have heq := hinv.holds_eq hcollision ha hheld (List.mem_append_left _ hcontent)
      (hsha.trans (huploadOf.sha256.trans hchunkOf.sha256_eq))
    rw [heq, huploadOf.key] at hheld
    exact hheld
  obtain ⟨-, -, previous, hordered⟩ := validateManifest_ok hof.valid
  have himage (blob : StoredObject) (hblob : blob ∈ a.plan.manifest.keyframes) :
      ∃ data, restoreImage p s.store blob = .ok (blob.sha256, data) ∧
        ∀ own, readKeyframe p a.dir blob.sha256 blob.bytes = .ok own → data = own := by
    have hmem : imageUpload p b.dir blob ∈ imagePart.map .ok := by
      rw [himagePart, hsame]
      exact List.mem_map_of_mem hblob
    obtain ⟨upload, hupload, heq⟩ := List.mem_map.mp hmem
    obtain ⟨-, huploadOf⟩ := imageUpload_ok heq.symm
    obtain ⟨actual, hheld, hlength, hsha⟩ := hstored upload (List.mem_append_right _ hupload)
    rw [huploadOf.key] at hheld
    have hhash := hsha.trans huploadOf.sha256
    refine ⟨actual, restoreImage_of_holds (hordered.valid blob hblob)
      ⟨hlength.trans huploadOf.length, hhash⟩ hheld, fun own hown ↦ ?_⟩
    have himageUpload : imageUpload p a.dir blob = .ok ⟨blob.key, own, MAX_BLOB_BYTES⟩ := by
      unfold imageUpload
      rw [hown]
      rfl
    have hownMem : .ok ⟨blob.key, own, MAX_BLOB_BYTES⟩ ∈ a.plan.uploads := by
      rw [hof.uploads, ← himageUpload]
      exact List.mem_append_left _ (List.mem_append_right _ (List.mem_map_of_mem hblob))
    exact hinv.holds_eq hcollision ha hheld (mem_hashed hownMem)
      (hhash.trans (imageUpload_ok himageUpload).2.sha256.symm)
  obtain ⟨keyframes, himages, hmem⟩ := exists_mapM fun blob hblob ↦
    ⟨_, (himage blob hblob).choose_spec.1⟩
  refine ⟨keyframes, hof.restore_ok hdigests (hcodec a ha) hparse hpresent hchunks himages,
    fun blob hblob data hdata ↦ ?_⟩
  obtain ⟨hrestored, hown⟩ := (himage blob hblob).choose_spec
  rw [hown data hdata] at hrestored
  exact hmem blob hblob _ hrestored

/-- The directory of the sample. -/
def sampleDir : DataDir where
  wal := some sampleLog
  again := sampleLog
  keyframe sha := if sha = sampleSha then some sampleImage else none

def sampleOptions : ArchiveOptions := ⟨"test".toList, 8 * 1024 * 1024⟩

def samplePlan : Plan where
  log := sampleLog
  manifest := sampleManifest
  manifest_key := sampleManifestKey
  uploads :=
    [.ok ⟨sampleChunk.object.key, sampleLog, MAX_RECORD_LINE_BYTES⟩,
      .ok ⟨sampleBlob.key, sampleImage, MAX_BLOB_BYTES⟩,
      .ok ⟨sampleManifestKey, sampleManifestBytes, MAX_MANIFEST_BYTES⟩]

theorem prepareChunk_sampleLog :
    prepareChunk samplePackages "test".toList sampleLog 1 1 [] =
      .ok (sampleChunk, 2,
        sampleManifest.keyframes) := by
  have hevent : prepareEvent samplePackages "test".toList (1, []) sampleEvent =
      .ok (2, sampleManifest.keyframes) := by
    unfold prepareEvent prepareKeyframe
    dsimp only
    rw [keyframeReference_sampleEvent]
    rfl
  have hsha : sha256Hex samplePackages.sha256 sampleLog = sampleLogSha := sha256Hex_sampleLog
  unfold prepareChunk
  rw [if_neg (by rw [length_sampleLog]; decide), validateChunk_sampleLog, ok_bind,
    if_neg (by decide), List.foldlM_cons, hevent, ok_bind, List.foldlM_nil, hsha]
  rfl

theorem openWal_sampleLog : WalWriter.openWal crc32 Fills.whole .working (some sampleLog) =
    (.ok ⟨sampleLog.length, sampleLog.length, false⟩, some sampleLog) := by
  have hfile : (some sampleLog).getD [] = LogRecord.content sampleRecords ++ [] := by
    rw [content_sampleRecords, List.append_nil, Option.getD_some]
  have hopen := openWal_content Fills.whole List.not_mem_nil (Nat.zero_le _) hfile
    (by rw [Option.getD_some, length_sampleLog]; decide)
  rwa [content_sampleRecords] at hopen

theorem committedLog_sample : committedLog samplePackages .working sampleDir = .ok sampleLog := by
  have hwal : sampleDir.wal = some sampleLog := rfl
  have hlog := committedLog_of_openWal (p := samplePackages) hwal openWal_sampleLog
  dsimp only at hlog
  rwa [List.take_length] at hlog

theorem imageUpload_sample :
    imageUpload samplePackages sampleDir sampleBlob =
      .ok ⟨sampleBlob.key, sampleImage, MAX_BLOB_BYTES⟩ := by
  have hread : readKeyframe samplePackages sampleDir sampleBlob.sha256 sampleBlob.bytes =
      .ok sampleImage := by
    decide +kernel
  unfold imageUpload
  rw [hread]
  rfl

theorem toVec_sampleManifest : samplePackages.toVec sampleManifest = sampleManifestBytes := by
  dsimp only [samplePackages]
  rw [if_pos rfl]

theorem plan_sample : plan samplePackages .working sampleDir sampleOptions = .ok samplePlan := by
  have hvec := toVec_sampleManifest
  have hframe : IsFrame newline sampleLog := isFrame_recordLine crc32 _ sampleEvent
  have hpreflight : preflight samplePackages sampleOptions sampleLog = .ok sampleManifest :=
    preflight_line hframe (by rw [length_sampleLog]; decide) rfl prepareChunk_sampleLog rfl
      (by decide +kernel) (by rw [hvec]; decide +kernel)
  have hchunks : chunkUploads samplePackages sampleLog.length
      (sampleDir.again.take sampleLog.length) sampleManifest.wal_chunks =
      [.ok ⟨sampleChunk.object.key, sampleLog, MAX_RECORD_LINE_BYTES⟩] :=
    chunkUploads_single bytes_sampleChunk verifyObject_sampleLog
  have himages : sampleManifest.keyframes.map (imageUpload samplePackages sampleDir) =
      [.ok ⟨sampleBlob.key, sampleImage, MAX_BLOB_BYTES⟩] :=
    congrArg (· :: []) imageUpload_sample
  have hplan : plan samplePackages .working sampleDir sampleOptions =
      .ok ⟨sampleLog, sampleManifest, _, _⟩ :=
    plan_of_preflight (by decide +kernel) (by decide) committedLog_sample hpreflight hchunks himages
  rw [hvec] at hplan
  exact hplan

theorem sha256Hex_sampleManifestBytes : sha256Hex sampleSha256 sampleManifestBytes =
    "0c3d089fd3553e66c22817340033ef27a3a6e84a2d78dbd29c92eafdfa2d365a".toList := by
  rw [sha256Hex, sampleSha256, if_neg (by decide +kernel), if_neg (by decide +kernel), if_pos rfl]
  decide +kernel

/-- No two of the byte strings of the sample have the same hash. -/
theorem nodup_sampleHashes :
    ([sampleLog, sampleImage, sampleManifestBytes].map (sha256Hex sampleSha256)).Nodup := by
  rw [List.map_cons, List.map_cons, List.map_cons, List.map_nil, sha256Hex_sampleLog,
    sha256Hex_sampleImage, sha256Hex_sampleManifestBytes]
  decide +kernel

/-- The uploads of the sample. -/
def sampleUploads : List Upload :=
  [⟨sampleChunk.object.key, sampleLog, MAX_RECORD_LINE_BYTES⟩,
    ⟨sampleBlob.key, sampleImage, MAX_BLOB_BYTES⟩,
    ⟨sampleManifestKey, sampleManifestBytes, MAX_MANIFEST_BYTES⟩]

theorem length_le_of_mem_sampleUploads :
    ∀ upload ∈ sampleUploads, upload.bytes.length ≤ upload.limit := by
  simp only [sampleUploads, List.forall_mem_cons, length_sampleLog]
  exact ⟨by decide, by decide, by decide +kernel, nofun⟩

theorem nodup_sampleKeys : (sampleUploads.map Upload.key).Nodup := by decide +kernel

/-- The sample when it has been published. -/
theorem exists_published_sample : ∃ store, Reachable samplePackages
    ⟨store, [⟨sampleDir, samplePlan, .published⟩]⟩ := by
  have hstart := Reachable.initial.start .working sampleDir _ plan_sample
  have hid : (System.initial.start sampleDir samplePlan).attempts[0]? =
      some ⟨sampleDir, samplePlan, .uploading (sampleUploads.map .ok)⟩ := rfl
  have hfits : ∀ u ∈ sampleUploads, u.bytes.length ≤ u.limit ∧
      samplePackages.parsePath u.key = .ok u.key ∧
      (System.initial.start sampleDir samplePlan).store.Accepts u :=
    fun u hu ↦ ⟨length_le_of_mem_sampleUploads u hu, rfl, rfl⟩
  have hrun := System.iterate_run hid rfl hfits fun u hu v hv hkey ↦
    congrArg Upload.bytes (List.inj_on_of_nodup_map nodup_sampleKeys hu hv hkey)
  have hpublished := hstart.iterate 0 (2 * sampleUploads.length + 1)
  rw [hrun] at hpublished
  exact ⟨_, hpublished⟩

theorem hashed_sample (stage : Stage) :
    ∀ x ∈ Attempt.hashed ⟨sampleDir, samplePlan, stage⟩,
      x ∈ [sampleLog, sampleImage, sampleManifestBytes] := by
  have hslices : slices sampleLog [sampleChunk] = [sampleLog] := by
    rw [slices, slices, bytes_sampleChunk, List.take_length]
  intro x hx
  change x ∈ slices sampleLog [sampleChunk] ++ [sampleLog, sampleImage, sampleManifestBytes] at hx
  rw [hslices] at hx
  rcases List.mem_append.mp hx with hx | hx
  · rw [List.mem_singleton.mp hx]
    exact List.mem_cons_self
  · exact hx

theorem digests_samplePackages : samplePackages.Digests := fun data ↦ by
  simp [samplePackages, sampleSha256, digest]

theorem restore_archive_sample : ∃ store keyframes,
    restore samplePackages store sampleManifestKey =
      .ok (sampleManifest, ⟨sampleLog, keyframes⟩) ∧ (sampleSha, sampleImage) ∈ keyframes := by
  obtain ⟨store, hreachable⟩ := exists_published_sample
  have hpaths : samplePackages.KeepsPaths := fun key path _ _ hparse ↦ by
    cases hparse
    rfl
  have hcodec : ∀ b ∈ [(⟨sampleDir, samplePlan, .published⟩ : Attempt)],
      samplePackages.fromSlice (samplePackages.toVec b.plan.manifest) = .ok b.plan.manifest := by
    intro b hb
    rw [List.mem_singleton.mp hb]
    change samplePackages.fromSlice (samplePackages.toVec sampleManifest) = .ok sampleManifest
    rw [toVec_sampleManifest, fromSlice_sampleManifestBytes]
  have hcollision : NoCollision samplePackages
      ⟨store, [⟨sampleDir, samplePlan, .published⟩]⟩ := by
    intro a ha b hb x hx y hy hsha
    rw [List.mem_singleton.mp ha] at hx
    rw [List.mem_singleton.mp hb] at hy
    exact List.inj_on_of_nodup_map nodup_sampleHashes (hashed_sample _ x hx)
      (hashed_sample _ y hy) hsha
  obtain ⟨hpublished, hrestore⟩ := restore_archive hreachable digests_samplePackages hpaths
    hcodec hcollision (List.mem_singleton_self _)
  obtain ⟨keyframes, hrestored, himages⟩ := hrestore (hpublished rfl)
  have hread : readKeyframe samplePackages sampleDir sampleBlob.sha256 sampleBlob.bytes =
      .ok sampleImage := by
    decide +kernel
  exact ⟨store, keyframes, hrestored, himages sampleBlob (List.mem_singleton_self _) _ hread⟩

/-! ### Attempts that end -/

/-- A path of safe segments is parsed, and not changed. -/
def Packages.ParsesKeys (p : Packages) : Prop :=
  ∀ key, (∀ segment ∈ key.splitOn '/', isPrefixSegment segment = true) → p.parsePath key = .ok key

theorem isPrefixChar_digitChar : ∀ d < 16, isPrefixChar d.digitChar = true := by decide

theorem isPrefixChar_of_mem_sha256Hex {data : Bytes} {c : Char} (h : c ∈ sha256Hex p.sha256 data) :
    isPrefixChar c = true := by
  obtain ⟨d, hd, rfl⟩ := exists_digitChar_of_mem h
  exact isPrefixChar_digitChar d hd

theorem isPrefixChar_of_mem_paddedSeq {n : Nat} {c : Char} (h : c ∈ paddedSeq n) :
    isPrefixChar c = true := by
  rcases List.mem_append.mp h with h | h
  · rw [List.eq_of_mem_replicate h]
    rfl
  · have hdigit : c.isDigit = true := Nat.isDigit_of_mem_toDigits (by decide) (by decide) h
    simp [isPrefixChar, Char.isAlphanum, hdigit]

/-- A name of safe characters that does not end with a dot is a safe segment. -/
theorem isPrefixSegment_of_forall {segment : List Char}
    (hall : ∀ c ∈ segment, isPrefixChar c = true) (hne : segment ≠ [])
    (hlast : segment.getLast? ≠ some '.') : isPrefixSegment segment = true := by
  have hone : segment ≠ ['.'] := by
    rintro rfl
    exact hlast rfl
  have htwo : segment ≠ ['.', '.'] := by
    rintro rfl
    exact hlast rfl
  simp only [isPrefixSegment, Bool.and_eq_true, decide_eq_true_eq, List.all_eq_true]
  exact ⟨⟨⟨hne, hone⟩, htwo⟩, hall⟩

/-- The segments of a key. -/
theorem isPrefixSegment_of_mem_splitOn {dir name : List Char}
    (hsafe : ∀ segment ∈ pathPrefix.splitOn '/', isPrefixSegment segment = true)
    (hdir : isPrefixSegment dir = true) (hname : isPrefixSegment name = true) :
    ∀ segment ∈ (pathPrefix ++ '/' :: (dir ++ '/' :: name)).splitOn '/',
      isPrefixSegment segment = true := by
  have hslash {part : List Char} (h : isPrefixSegment part = true) : '/' ∉ part := by
    simp only [isPrefixSegment, Bool.and_eq_true, List.all_eq_true] at h
    exact fun hmem ↦ absurd (h.2 '/' hmem) (by decide)
  rw [List.splitOn_append_cons_self, List.splitOn_append_cons_self,
    List.splitOn_eq_singleton (hslash hdir), List.splitOn_eq_singleton (hslash hname)]
  intro segment hsegment
  rcases List.mem_append.mp hsegment with hsegment | hsegment
  · exact hsafe segment hsegment
  · rcases List.mem_pair.mp hsegment with rfl | rfl
    · exact hdir
    · exact hname

/-- What keys end with. -/
def suffixes : List (List Char) := [".wal".toList, ".jpg".toList, ".json".toList]

theorem safe_of_mem_suffixes {suffix : List Char} (h : suffix ∈ suffixes) :
    (∀ c ∈ suffix, isPrefixChar c = true) ∧ suffix ≠ [] ∧ suffix.getLast? ≠ some '.' := by
  rw [← List.all_eq_true]
  simp only [suffixes, List.mem_cons, List.not_mem_nil, or_false] at h
  rcases h with rfl | rfl | rfl
  · exact ⟨rfl, by decide, by decide⟩
  · exact ⟨rfl, by decide, by decide⟩
  · exact ⟨rfl, by decide, by decide⟩

/-- What an upload of a plan has: it is not too long, its key tells its hash, and its key is
parsed. -/
structure Upload.Fits (p : Packages) (upload : Upload) : Prop where
  length_le : upload.bytes.length ≤ upload.limit
  key : ∃ front suffix, upload.key = front ++ sha256Hex p.sha256 upload.bytes ++ suffix ∧
    suffix ∈ suffixes
  segments : ∀ segment ∈ upload.key.splitOn '/', isPrefixSegment segment = true

/-- Keys that are the same tell the same hash. -/
theorem Upload.Fits.sha256Hex_eq {u v : Upload} (hu : u.Fits p) (hv : v.Fits p)
    (hdigests : p.Digests) (h : u.key = v.key) :
    sha256Hex p.sha256 u.bytes = sha256Hex p.sha256 v.bytes := by
  obtain ⟨front, suffix, hkey, hsuffix⟩ := hu.key
  obtain ⟨front', suffix', hkey', hsuffix'⟩ := hv.key
  rw [hkey, hkey'] at h
  have hsame : suffix = suffix' := by
    have hlast := congrArg List.getLast? h
    simp only [suffixes, List.mem_cons, List.not_mem_nil, or_false] at hsuffix hsuffix'
    rcases hsuffix with rfl | rfl | rfl <;> rcases hsuffix' with rfl | rfl | rfl <;>
      rw [List.getLast?_append_of_ne_nil _ (by decide),
        List.getLast?_append_of_ne_nil _ (by decide)] at hlast <;>
      first
      | rfl
      | exact absurd hlast (by decide)
  subst hsame
  exact List.append_inj_right' (List.append_cancel_right h)
    ((length_sha256Hex hdigests _).trans (length_sha256Hex hdigests _).symm)

theorem Upload.Fits.of_key {dir front suffix : List Char}
    (hsafe : ∀ segment ∈ pathPrefix.splitOn '/', isPrefixSegment segment = true)
    (hdir : isPrefixSegment dir = true) (hfront : ∀ c ∈ front, isPrefixChar c = true)
    (hsuffix : suffix ∈ suffixes)
    (hkey : upload.key = pathPrefix ++
      '/' :: (dir ++ '/' :: (front ++ sha256Hex p.sha256 upload.bytes ++ suffix)))
    (hlength : upload.bytes.length ≤ upload.limit) : upload.Fits p := by
  obtain ⟨hchars, hne, hlast⟩ := safe_of_mem_suffixes hsuffix
  refine ⟨hlength, ⟨pathPrefix ++ '/' :: (dir ++ '/' :: front), suffix, ?_, hsuffix⟩, ?_⟩
  · rw [hkey]
    simp
  · rw [hkey]
    refine isPrefixSegment_of_mem_splitOn hsafe hdir (isPrefixSegment_of_forall ?_ ?_ ?_)
    · intro c hc
      rcases List.mem_append.mp hc with hc | hc
      · rcases List.mem_append.mp hc with hc | hc
        · exact hfront c hc
        · exact isPrefixChar_of_mem_sha256Hex hc
      · exact hchars c hc
    · exact List.append_ne_nil_of_right_ne_nil _ hne
    · rw [List.getLast?_append_of_ne_nil _ hne]
      exact hlast

theorem Plan.Of.fits {dir : DataDir} (h : made.Of p pathPrefix dir)
    (hmem : .ok upload ∈ made.uploads) : upload.Fits p := by
  obtain ⟨contents, next, hprepared, -, -⟩ := h.prepared
  obtain ⟨-, -, previous, hordered⟩ := validateManifest_ok h.valid
  rw [h.uploads] at hmem
  rcases List.mem_append.mp hmem with hmem | hmem
  · rcases List.mem_append.mp hmem with hmem | hmem
    · obtain ⟨chunk, hchunk, hof⟩ := uploadOf_chunk hmem
      obtain ⟨bytes, hchunkOf⟩ := hprepared.exists_chunkOf chunk hchunk
      have hfront : ∀ c ∈ paddedSeq chunk.first_seq ++ '-' :: paddedSeq chunk.last_seq ++ ['-'],
          isPrefixChar c = true := by
        simp only [List.mem_append, List.mem_cons, List.not_mem_nil, or_false]
        rintro c ((hc | rfl | hc) | rfl)
        · exact isPrefixChar_of_mem_paddedSeq hc
        · rfl
        · exact isPrefixChar_of_mem_paddedSeq hc
        · rfl
      have hdir : isPrefixSegment "wal".toList = true := by decide
      have hsuffix : ".wal".toList ∈ suffixes := List.mem_cons_self
      refine .of_key h.segments hdir hfront hsuffix ?_ ?_
      · rw [hof.key, hchunkOf.key_eq, hof.sha256]
        simp [walKey]
      · rw [hof.length, hof.limit, hchunkOf.length_eq]
        exact hchunkOf.length_le
    · obtain ⟨blob, hblob, himage⟩ := List.mem_map.mp hmem
      have hof := (imageUpload_ok himage).2
      have hdir : isPrefixSegment "blobs".toList = true := by decide
      have hsuffix : ".jpg".toList ∈ suffixes := List.mem_cons_of_mem _ List.mem_cons_self
      refine .of_key h.segments hdir (List.forall_mem_nil _) hsuffix ?_ ?_
      · rw [hof.key, hprepared.keyed blob hblob, hof.sha256]
        simp [blobKey]
      · rw [hof.length, hof.limit]
        exact (hordered.valid blob hblob).2
  · cases List.mem_singleton.mp hmem
    have hdir : isPrefixSegment "manifests".toList = true := by decide
    have hsuffix : ".json".toList ∈ suffixes :=
      List.mem_cons_of_mem _ (List.mem_cons_of_mem _ List.mem_cons_self)
    refine .of_key h.segments hdir (List.forall_mem_nil _) hsuffix ?_ h.length_le
    rw [h.key]
    simp [manifestKey]

/-- Uploads that are not errors. -/
theorem exists_map_ok {rest : List (Except String Upload)} (h : ∀ error, .error error ∉ rest) :
    ∃ uploads : List Upload, rest = uploads.map .ok := by
  induction rest with
  | nil => exact ⟨[], rfl⟩
  | cons first rest ih =>
    obtain ⟨uploads, rfl⟩ := ih fun error herror ↦ h error (List.mem_cons_of_mem _ herror)
    cases first with
    | error error => exact absurd List.mem_cons_self (h error)
    | ok upload => exact ⟨upload :: uploads, rfl⟩

end Vidarax.Archive
