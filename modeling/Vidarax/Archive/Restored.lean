import Vidarax.Archive.Backup

/-!
# What a restore brings back

Package `vidarax-archive`, `lib.rs` 81–638. Whatever a store holds, a tree that is restored has a
log without gaps and every image that the log refers to. Chunks and images that an archive was
prepared from are restored when they are in the store.
-/

namespace Vidarax.Archive

open Base Timeline Evidence

variable {p : Packages} {store : Store}

/-! ### Events -/

/-- The references to images in a list of events. -/
def References (p : Packages) (events : List TimelineEvent) (sha : List Char) (bytes : Nat) :
    Prop :=
  ∃ event ∈ events, keyframeReference p event = .ok (some (sha, bytes))

/-- What the loop over events has: the events are numbered from one on, the reference of every event
is read, and the map holds the references. -/
structure Followed (p : Packages) (events : List TimelineEvent)
    (state : Nat × List (List Char × Nat)) : Prop where
  numbered : events.map (·.seq.toNat) = List.range' 1 events.length
  next : state.1 = events.length + 1
  readable : ∀ event ∈ events, ∃ reference, keyframeReference p event = .ok reference
  referenced : ∀ sha bytes, state.2.lookup sha = some bytes ↔ References p events sha bytes

theorem followed_nil (p : Packages) : Followed p [] (1, []) where
  numbered := rfl
  next := rfl
  readable := by simp
  referenced := by simp [References]

variable {events : List TimelineEvent} {event : TimelineEvent}
  {state state' : Nat × List (List Char × Nat)}

theorem references_concat {sha : List Char} {bytes : Nat} :
    References p (events ++ [event]) sha bytes ↔ References p events sha bytes ∨
      keyframeReference p event = .ok (some (sha, bytes)) := by
  simp [References, or_and_right, exists_or]

/-- The loop follows the events. -/
theorem Followed.restoreEvent (h : Followed p events state)
    (hstep : restoreEvent p state event = .ok state') : Followed p (events ++ [event]) state' := by
  obtain ⟨next_seq, referenced⟩ := state
  unfold Archive.restoreEvent at hstep
  obtain ⟨hseq, hstep⟩ := guard_eq_ok hstep
  obtain ⟨reference, hreference, hstep⟩ := bind_eq_ok hstep
  have hnext : next_seq = events.length + 1 := h.next
  have hnumbered : (events ++ [event]).map (·.seq.toNat) =
      List.range' 1 (events ++ [event]).length := by
    rw [List.map_append, h.numbered, List.length_append, List.map_singleton, not_not.mp hseq, hnext,
      List.length_singleton, List.range'_concat, Nat.one_mul, Nat.add_comm]
  have hreadable : ∀ e ∈ events ++ [event], ∃ reference, keyframeReference p e = .ok reference := by
    intro e he
    rcases List.mem_append.mp he with he | he
    · exact h.readable e he
    · rw [List.mem_singleton.mp he]
      exact ⟨reference, hreference⟩
  have hlength : next_seq + 1 = (events ++ [event]).length + 1 := by
    rw [hnext, List.length_append, List.length_singleton]
  split at hstep
  next =>
    cases hstep
    refine ⟨hnumbered, hlength, hreadable, fun sha bytes ↦ ?_⟩
    rw [references_concat, hreference, h.referenced]
    simp
  next sha bytes =>
    split at hstep
    next previous hlookup =>
      obtain ⟨hsame, hstep⟩ := guard_eq_ok hstep
      cases hstep
      refine ⟨hnumbered, hlength, hreadable, fun sha' bytes' ↦ ?_⟩
      rw [references_concat, hreference, ← h.referenced]
      refine ⟨.inl, fun hor ↦ hor.elim id fun heq ↦ ?_⟩
      cases heq
      rw [hlookup, not_not.mp hsame]
    next hlookup =>
      cases hstep
      refine ⟨hnumbered, hlength, hreadable, fun sha' bytes' ↦ ?_⟩
      rw [references_concat, hreference, ← h.referenced, List.lookup_cons]
      by_cases hsha : sha' = sha
      · subst hsha
        simp [hlookup]
      · simp [beq_eq_false_iff_ne.mpr hsha, Ne.symm hsha]

/-! ### Chunks -/

/-- A chunk that passes its check is a sequence of records. -/
theorem records_of_validateChunk {bytes : Bytes} (h : validateChunk p bytes = .ok events)
    (hlength : bytes.length ≤ u64Max) :
    ∃ records : List (LogRecord p.crc), bytes = LogRecord.content records ∧
      LogRecord.events records = events := by
  unfold validateChunk at h
  obtain ⟨hlast, h⟩ := guard_eq_ok h
  cases hread : readAllEventsUpTo p.crc p.os (.opened bytes) none with
  | error error =>
    rw [hread] at h
    cases h
  | ok read =>
    rw [hread] at h
    cases h
    cases hscan : scanEvents p.crc p.os bytes none true with
    | error error =>
      rw [readAllEventsUpTo, hscan] at hread
      cases hread
    | ok scan =>
      obtain ⟨records, tail, hnewline, hsize, hbytes⟩ := exists_records_of_scanEvents hlength hscan
      have htail : tail = [] := by
        by_contra hne
        rw [hbytes, List.getLast?_append_of_ne_nil _ hne] at hlast
        exact hnewline (List.mem_of_getLast? (not_not.mp hlast))
      subst htail
      rw [readAllEventsUpTo, scanEvents_none p.os true hnewline hsize hbytes hlength] at hread
      cases hread
      exact ⟨records, by rw [hbytes, List.append_nil], (List.nil_append _).symm⟩

theorem getLimited_ok {path : List Char} {limit : Nat} {bytes : Bytes}
    (h : getLimited store path limit = .ok bytes) :
    store path = some bytes ∧ bytes.length ≤ limit := by
  unfold getLimited at h
  split at h
  · cases h
  · next hstore =>
    obtain ⟨hlimit, h⟩ := guard_eq_ok h
    cases h
    exact ⟨hstore, Nat.not_lt.mp hlimit⟩

theorem verifyObject_ok {reference : StoredObject} {bytes : Bytes}
    (h : verifyObject p reference bytes = .ok ()) :
    validateSha reference.sha256 = .ok () ∧ bytes.length = reference.bytes ∧
      sha256Hex p.sha256 bytes = reference.sha256 := by
  unfold verifyObject at h
  obtain ⟨_, hsha, h⟩ := bind_eq_ok h
  obtain ⟨hmatch, -⟩ := guard_eq_ok h
  exact ⟨hsha, by tauto⟩

/-- A tree's log, while it is restored from so many chunks. -/
structure RestoredLog (p : Packages) (chunks : List WalChunk) (r : Restoring) : Prop where
  records : ∃ records : List (LogRecord p.crc), r.wal = LogRecord.content records ∧
    Followed p (LogRecord.events records) (r.next_seq, r.referenced_keyframes)
  length_le : r.wal.length ≤ chunks.length * MAX_RECORD_LINE_BYTES

theorem RestoredLog.restoreChunk {chunks : List WalChunk} {chunk : WalChunk} {r r' : Restoring}
    (h : RestoredLog p chunks r) (hstep : restoreChunk p store r chunk = .ok r') :
    RestoredLog p (chunks ++ [chunk]) r' := by
  obtain ⟨⟨records, hwal, hfollowed⟩, hlength⟩ := h
  unfold Archive.restoreChunk at hstep
  obtain ⟨path, -, hstep⟩ := bind_eq_ok hstep
  obtain ⟨bytes, hget, hstep⟩ := bind_eq_ok hstep
  obtain ⟨-, -, hstep⟩ := bind_eq_ok hstep
  obtain ⟨events, hevents, hstep⟩ := bind_eq_ok hstep
  obtain ⟨-, hstep⟩ := guard_eq_ok hstep
  obtain ⟨⟨next, referenced⟩, hloop, hstep⟩ := bind_eq_ok hstep
  cases hstep
  have hbytes : bytes.length ≤ MAX_RECORD_LINE_BYTES := (getLimited_ok hget).2
  obtain ⟨more, rfl, rfl⟩ := records_of_validateChunk hevents (hbytes.trans (by decide))
  refine ⟨⟨records ++ more, ?_, ?_⟩, ?_⟩
  · rw [hwal, LogRecord.content_append]
  · rw [LogRecord.events_append]
    exact foldlM_invariant (fun _ _ _ _ hI hs ↦ hI.restoreEvent hs) hfollowed hloop
  · rw [List.length_append, List.length_append, List.length_singleton, Nat.succ_mul]
    exact Nat.add_le_add hlength hbytes

/-! ### Manifests -/

/-- The images of a manifest that passes its checks: in the order of their valid hashes, and not too
long. -/
structure OrderedImages (keyframes : List StoredObject) (previous : Option (List Char)) : Prop where
  previous_eq : previous = keyframes.getLast?.map StoredObject.sha256
  sorted : keyframes.Pairwise (·.sha256 < ·.sha256)
  valid : ∀ blob ∈ keyframes, validateSha blob.sha256 = .ok () ∧ blob.bytes ≤ MAX_BLOB_BYTES

theorem OrderedImages.validateImage {keyframes : List StoredObject} {blob : StoredObject}
    {previous previous' : Option (List Char)} (h : OrderedImages keyframes previous)
    (hstep : validateImage previous blob = .ok previous') :
    OrderedImages (keyframes ++ [blob]) previous' := by
  unfold Archive.validateImage at hstep
  obtain ⟨_, hsha, hstep⟩ := bind_eq_ok hstep
  obtain ⟨hbounds, hstep⟩ := guard_eq_ok hstep
  cases hstep
  rw [not_or] at hbounds
  refine ⟨by simp, ?_, fun b hb ↦ ?_⟩
  · rw [List.pairwise_append]
    refine ⟨h.sorted, List.pairwise_singleton .., fun a ha b hb ↦ ?_⟩
    rw [List.mem_singleton.mp hb]
    rcases keyframes.eq_nil_or_concat' with rfl | ⟨front, last, rfl⟩
    · cases ha
    · have hlast : last.sha256 < blob.sha256 := by
        have hbound := hbounds.2
        rw [h.previous_eq, List.getLast?_concat] at hbound
        simpa using hbound
      rcases List.mem_append.mp ha with ha | ha
      · exact List.lt_trans ((List.pairwise_append.mp h.sorted).2.2 a ha _
          (List.mem_singleton_self last)) hlast
      · rwa [List.mem_singleton.mp ha]
  · rcases List.mem_append.mp hb with hb | hb
    · exact h.valid b hb
    · rw [List.mem_singleton.mp hb]
      exact ⟨hsha, Nat.not_lt.mp hbounds.1⟩

/-- What a manifest that passes its checks has. -/
theorem validateManifest_ok {manifest : Manifest} (h : validateManifest manifest = .ok ()) :
    manifest.wal_chunks.length ≤ MAX_MANIFEST_ITEMS ∧
      (∀ chunk ∈ manifest.wal_chunks, validateSha chunk.object.sha256 = .ok ()) ∧
      ∃ previous, OrderedImages manifest.keyframes previous := by
  unfold validateManifest at h
  obtain ⟨-, h⟩ := guard_eq_ok h
  obtain ⟨hcount, h⟩ := guard_eq_ok h
  obtain ⟨next, hranges, h⟩ := bind_eq_ok h
  obtain ⟨-, h⟩ := guard_eq_ok h
  obtain ⟨previous, himages, -⟩ := bind_eq_ok h
  refine ⟨Nat.not_lt.mp (not_or.mp hcount).1, ?_, previous, ?_⟩
  · let I (done : List WalChunk) (_ : Nat) : Prop :=
      ∀ chunk ∈ done, validateSha chunk.object.sha256 = .ok ()
    have hnil : I [] 1 := fun chunk hchunk ↦ nomatch hchunk
    refine foldlM_invariant (fun done s chunk s' (hI : I done s) hs c hc ↦ ?_) hnil hranges
    unfold validateRange at hs
    obtain ⟨_, hsha, -⟩ := bind_eq_ok hs
    rcases List.mem_append.mp hc with hc | hc
    · exact hI c hc
    · rw [List.mem_singleton.mp hc]
      exact hsha
  · have hnil : OrderedImages [] none := ⟨rfl, List.Pairwise.nil, by simp⟩
    exact foldlM_invariant (fun _ _ _ _ hI hs ↦ hI.validateImage hs) hnil himages

/-- The hashes of a manifest are different. -/
theorem OrderedImages.nodup {keyframes : List StoredObject} {previous : Option (List Char)}
    (h : OrderedImages keyframes previous) : (keyframes.map StoredObject.sha256).Nodup := by
  rw [List.nodup_iff_pairwise_ne, List.pairwise_map]
  exact h.sorted.imp fun {a b} (hlt : a.sha256 < b.sha256) (heq : a.sha256 = b.sha256) ↦
    List.lt_irrefl b.sha256 (heq ▸ hlt)

/-! ### The restored tree -/

theorem restoreImage_ok {blob : StoredObject} {image : List Char × Bytes}
    (h : restoreImage p store blob = .ok image) :
    image.1 = blob.sha256 ∧ image.2.length = blob.bytes ∧
      sha256Hex p.sha256 image.2 = blob.sha256 := by
  unfold restoreImage at h
  obtain ⟨_, -, h⟩ := bind_eq_ok h
  obtain ⟨path, -, h⟩ := bind_eq_ok h
  obtain ⟨bytes, -, h⟩ := bind_eq_ok h
  obtain ⟨_, hverify, h⟩ := bind_eq_ok h
  cases h
  obtain ⟨-, hlength, hsha⟩ := verifyObject_ok hverify
  exact ⟨rfl, hlength, hsha⟩

/-- A manifest that has as many images as are referenced, and only such, has all of them. -/
theorem mem_of_references {keyframes : List StoredObject} {referenced : List (List Char × Nat)}
    {sha : List Char} {bytes : Nat} (hnodup : (keyframes.map StoredObject.sha256).Nodup)
    (hlookup : ∀ blob ∈ keyframes, referenced.lookup blob.sha256 = some blob.bytes)
    (hlength : referenced.length = keyframes.length) (h : referenced.lookup sha = some bytes) :
    sha ∈ keyframes.map StoredObject.sha256 := by
  have hkey {sha : List Char} {bytes : Nat} (h : referenced.lookup sha = some bytes) :
      sha ∈ referenced.map Prod.fst := by
    obtain ⟨front, rest, rfl, -⟩ := List.lookup_eq_some_iff.mp h
    simp
  have hsub : keyframes.map StoredObject.sha256 ⊆ referenced.map Prod.fst := by
    intro sha hsha
    obtain ⟨blob, hblob, rfl⟩ := List.mem_map.mp hsha
    exact hkey (hlookup blob hblob)
  have hperm : (keyframes.map StoredObject.sha256).Perm (referenced.map Prod.fst) :=
    (List.subperm_of_subset hnodup hsub).perm_of_length_le (by simp [hlength])
  exact hperm.mem_iff.mpr (hkey h)

/-- A restored log reads back as the events one to its coverage, and the restored images are those
that the events refer to, of the length and with the hash that they name. -/
theorem restore_sound {manifest_key : List Char} {manifest : Manifest} {tree : Tree}
    (h : restore p store manifest_key = .ok (manifest, tree)) :
    ∃ events, readAllEventsUpTo p.crc p.os (.opened tree.wal) none = .ok events ∧
      events.map (·.seq.toNat) = List.range' 1 manifest.event_coverage_seq ∧
      (∀ event ∈ events, ∃ reference, keyframeReference p event = .ok reference) ∧
      (tree.keyframes.map Prod.fst).Nodup ∧
      ∀ sha bytes, (∃ event ∈ events, keyframeReference p event = .ok (some (sha, bytes))) ↔
        ∃ data, (sha, data) ∈ tree.keyframes ∧ data.length = bytes ∧
          sha256Hex p.sha256 data = sha := by
  unfold restore at h
  obtain ⟨path, -, h⟩ := bind_eq_ok h
  obtain ⟨manifest_sha, -, h⟩ := bind_eq_ok h
  obtain ⟨_, -, h⟩ := bind_eq_ok h
  obtain ⟨manifest_bytes, -, h⟩ := bind_eq_ok h
  obtain ⟨-, h⟩ := guard_eq_ok h
  obtain ⟨manifest', -, h⟩ := bind_eq_ok h
  obtain ⟨_, hvalid, h⟩ := bind_eq_ok h
  obtain ⟨r, hchunks, h⟩ := bind_eq_ok h
  obtain ⟨hcoverage, h⟩ := guard_eq_ok h
  obtain ⟨hcomplete, h⟩ := guard_eq_ok h
  obtain ⟨keyframes, himages, h⟩ := bind_eq_ok h
  cases h
  obtain ⟨hcount, -, previous, hordered⟩ := validateManifest_ok hvalid
  have hstart : RestoredLog p [] ⟨1, [], []⟩ := ⟨⟨[], rfl, followed_nil p⟩, Nat.zero_le _⟩
  obtain ⟨⟨records, hwal, hfollowed⟩, hlength⟩ :=
    foldlM_invariant (fun _ _ _ _ hI hs ↦ hI.restoreChunk hs) hstart hchunks
  have hsize : r.wal.length ≤ u64Max := by
    rw [List.nil_append] at hlength
    calc r.wal.length ≤ manifest.wal_chunks.length * MAX_RECORD_LINE_BYTES := hlength
      _ ≤ MAX_MANIFEST_ITEMS * MAX_RECORD_LINE_BYTES := Nat.mul_le_mul_right _ hcount
      _ ≤ u64Max := by decide
  have hcovered : manifest.event_coverage_seq = (LogRecord.events records).length := by
    rw [← not_not.mp hcoverage, show r.next_seq = _ from hfollowed.next, Nat.add_sub_cancel]
  have hfst : keyframes.map Prod.fst = manifest.keyframes.map StoredObject.sha256 :=
    map_eq_of_mapM (fun _ _ himage ↦ (restoreImage_ok himage).1) himages
  have hlookup : ∀ blob ∈ manifest.keyframes,
      r.referenced_keyframes.lookup blob.sha256 = some blob.bytes := by
    intro blob hblob
    by_contra hne
    exact hcomplete (.inr (List.any_eq_true.mpr ⟨blob, hblob, decide_eq_true hne⟩))
  refine ⟨LogRecord.events records, ?_, ?_, hfollowed.readable, ?_, fun sha bytes ↦ ?_⟩
  · rw [readAllEventsUpTo, scanEvents_none p.os true List.not_mem_nil (Nat.zero_le _)
      (hwal.trans (List.append_nil _).symm) hsize]
    exact congrArg Except.ok (List.nil_append _)
  · rw [hcovered, hfollowed.numbered]
  · rw [hfst]
    exact hordered.nodup
  · change References p _ sha bytes ↔ _
    rw [← hfollowed.referenced]
    constructor
    · intro hsome
      have hmem : sha ∈ keyframes.map Prod.fst := by
        rw [hfst]
        exact mem_of_references hordered.nodup hlookup (not_not.mp (not_or.mp hcomplete).1) hsome
      obtain ⟨⟨_, data⟩, hdata, rfl⟩ := List.mem_map.mp hmem
      obtain ⟨blob, hblob, himage⟩ := mapM_eq_ok himages _ hdata
      obtain ⟨hsha, hlength, hhash⟩ := restoreImage_ok himage
      dsimp only at hsha hlength hhash hsome
      rw [hsha, hlookup blob hblob, Option.some.injEq] at hsome
      exact ⟨data, hdata, hlength.trans hsome, hhash.trans hsha.symm⟩
    · rintro ⟨data, hdata, rfl, -⟩
      obtain ⟨blob, hblob, himage⟩ := mapM_eq_ok himages _ hdata
      obtain ⟨hsha, hlength, -⟩ := restoreImage_ok himage
      dsimp only at hsha hlength
      rw [hsha, hlength]
      exact hlookup blob hblob

/-! ### A sample -/

/-- The bytes of a hash that is given as a number. -/
def digest (n : Nat) : Bytes := (List.range 32).map fun i ↦ (n >>> (8 * (31 - i))).toUInt8

def sampleImage : Bytes := [0xFF, 0xD8, 0xFF, 0xD9]

def sampleSha : List Char :=
  "32461d5bd1773012acef0ba15636752949bd7c2ce50f9172159d9f56cf0dd9af".toList

/-- The members of the payload of the sample event. -/
def samplePayload : String :=
  "\x7b\"image_ref\":\"" ++ String.ofList (imageRef sampleSha) ++ "\",\"image_sha256\":\"" ++
    String.ofList sampleSha ++ "\",\"image_bytes\":4\x7d"

def sampleJson : Json :=
  .object [("image_ref", .string (String.ofList (imageRef sampleSha))),
    ("image_sha256", .string (String.ofList sampleSha)), ("image_bytes", .number (.posInt 4))]

def sampleEvent : TimelineEvent := ⟨1, "run", "cam", 40, "keyframe_stored", samplePayload⟩

def sampleLog : Bytes := stagedLine crc32 sampleEvent

def sampleLogSha : List Char :=
  "b8007a3671286726ac0ed1bd065d3bd6f90d77e5469b03a457bd63ee0c94a4b3".toList

def sampleChunk : WalChunk :=
  ⟨⟨walKey "test".toList 1 1 sampleLogSha, sampleLogSha, sampleLog.length⟩, 1, 1⟩

def sampleBlob : StoredObject := ⟨blobKey "test".toList sampleSha, sampleSha, 4⟩

def sampleManifest : Manifest where
  format_version := 1
  wal_chunks := [sampleChunk]
  keyframes := [sampleBlob]
  event_count := 1
  event_coverage_seq := 1
  evidence_coverage_seq := 1

/-- An object as a manifest is written. -/
def objectJson (object : StoredObject) : String :=
  "\x7b\"key\":\"" ++ String.ofList object.key ++ "\",\"sha256\":\"" ++
    String.ofList object.sha256 ++ "\",\"bytes\":" ++ toString object.bytes ++ "\x7d"

/-- The sample manifest as it is written. -/
def sampleManifestJson : String :=
  "\x7b\"format_version\":1,\"wal_chunks\":[" ++
    String.join (sampleManifest.wal_chunks.map fun chunk ↦
      "\x7b\"object\":" ++ objectJson chunk.object ++ ",\"first_seq\":1,\"last_seq\":1\x7d") ++
    "],\"keyframes\":[" ++ String.join (sampleManifest.keyframes.map objectJson) ++
    "],\"event_count\":1,\"event_coverage_seq\":1,\"evidence_coverage_seq\":1\x7d"

def sampleManifestBytes : Bytes := sampleManifestJson.toUTF8.data.toList

def sampleSha256 (data : Bytes) : Bytes :=
  digest (if data = sampleImage then
      0x32461d5bd1773012acef0ba15636752949bd7c2ce50f9172159d9f56cf0dd9af
    else if data = sampleLog then
      0xb8007a3671286726ac0ed1bd065d3bd6f90d77e5469b03a457bd63ee0c94a4b3
    else if data = sampleManifestBytes then
      0x0c3d089fd3553e66c22817340033ef27a3a6e84a2d78dbd29c92eafdfa2d365a
    else 0)

/-- Packages that do what the real ones do on the sample data. -/
def samplePackages : Packages where
  crc := crc32
  os := Fills.whole
  sha256 := sampleSha256
  toVec manifest := if manifest = sampleManifest then sampleManifestBytes else []
  fromSlice data :=
    if data = sampleManifestBytes then .ok sampleManifest
    else .error "expected value at line 1 column 1"
  fromStr text :=
    if text = samplePayload then .ok sampleJson else .error "expected value at line 1 column 1"
  parsePath := .ok

def sampleManifestKey : List Char :=
  manifestKey "test".toList (sha256Hex sampleSha256 sampleManifestBytes)

def sampleStore : Store := fun path ↦
  if path = sampleChunk.object.key then some sampleLog
  else if path = sampleBlob.key then some sampleImage
  else if path = sampleManifestKey then some sampleManifestBytes
  else none

/-- Records that are a chunk pass its check. -/
theorem validateChunk_content {records : List (LogRecord p.crc)}
    (hne : LogRecord.content records ≠ []) (hlength : (LogRecord.content records).length ≤ u64Max) :
    validateChunk p (LogRecord.content records) = .ok (LogRecord.events records) := by
  have hscan := scanEvents_none p.os true List.not_mem_nil (Nat.zero_le _)
    (List.append_nil (LogRecord.content records)).symm hlength
  rw [validateChunk, if_neg (not_not.mpr (LogRecord.getLast?_content hne)), readAllEventsUpTo,
    hscan]
  exact congrArg Except.ok (List.nil_append _)

theorem length_body_sampleEvent : sampleEvent.body.length ≤ MAX_RECORD_BYTES := by decide +kernel

/-- The records of the sample log. -/
def sampleRecords : List (LogRecord crc32) :=
  [LogRecord.staged crc32 sampleEvent length_body_sampleEvent]

theorem content_sampleRecords : LogRecord.content sampleRecords = sampleLog := List.append_nil _

theorem length_sampleLog : sampleLog.length = 247 := by decide +kernel

theorem validateChunk_sampleLog : validateChunk samplePackages sampleLog = .ok [sampleEvent] := by
  have hlength : (LogRecord.content sampleRecords).length = 247 := by
    rw [content_sampleRecords, length_sampleLog]
  have hne : LogRecord.content sampleRecords ≠ [] := by
    rw [← List.length_pos_iff, hlength]
    decide
  have hchunk : validateChunk samplePackages (LogRecord.content sampleRecords) =
      .ok (LogRecord.events sampleRecords) :=
    validateChunk_content (p := samplePackages) hne (hlength.trans_le (by decide))
  rw [content_sampleRecords] at hchunk
  exact hchunk

theorem sha256Hex_sampleImage : sha256Hex sampleSha256 sampleImage = sampleSha := by decide +kernel

theorem sha256Hex_sampleLog : sha256Hex sampleSha256 sampleLog = sampleLogSha := by
  rw [sha256Hex, sampleSha256, if_neg (by decide +kernel), if_pos rfl]
  decide +kernel

theorem keyframeReference_sampleEvent :
    keyframeReference samplePackages sampleEvent = .ok (some (sampleSha, 4)) := by
  decide +kernel

theorem bytes_sampleChunk : sampleChunk.object.bytes = sampleLog.length := by
  dsimp only [sampleChunk]

theorem verifyObject_sampleLog :
    verifyObject samplePackages sampleChunk.object sampleLog = .ok () := by
  have hvalid : validateSha sampleChunk.object.sha256 = .ok () := by decide +kernel
  have hsha : sha256Hex samplePackages.sha256 sampleLog = sampleChunk.object.sha256 :=
    sha256Hex_sampleLog
  unfold verifyObject
  rw [hvalid, ok_bind]
  exact if_neg (not_or.mpr ⟨not_not.mpr bytes_sampleChunk.symm, not_not.mpr hsha⟩)

theorem fromSlice_sampleManifestBytes :
    samplePackages.fromSlice sampleManifestBytes = .ok sampleManifest := by
  dsimp only [samplePackages]
  rw [if_pos rfl]

theorem restore_sampleStore : restore samplePackages sampleStore sampleManifestKey =
    .ok (sampleManifest, ⟨sampleLog, [(sampleSha, sampleImage)]⟩) := by
  have hchunk : restoreChunk samplePackages sampleStore ⟨1, [], []⟩
      sampleChunk =
      .ok ⟨2, [(sampleSha, 4)], sampleLog⟩ := by
    have hget : getLimited sampleStore (sampleChunk.object.key) MAX_RECORD_LINE_BYTES =
        .ok sampleLog := by
      unfold getLimited sampleStore
      rw [if_pos rfl]
      exact if_neg (by rw [length_sampleLog]; decide)
    have hevent : restoreEvent samplePackages (1, []) sampleEvent = .ok (2, [(sampleSha, 4)]) := by
      unfold restoreEvent
      dsimp only
      rw [keyframeReference_sampleEvent]
      rfl
    unfold restoreChunk
    rw [show samplePackages.parsePath (sampleChunk.object.key) = .ok _ from rfl, ok_bind,
      hget, ok_bind, verifyObject_sampleLog, ok_bind, validateChunk_sampleLog, ok_bind,
      if_neg (by decide), List.foldlM_cons, hevent, ok_bind, List.foldlM_nil, List.nil_append]
    rfl
  have himage : restoreImage samplePackages sampleStore
      sampleBlob = .ok (sampleSha, sampleImage) := by
    decide +kernel
  have hmanifest : getLimited sampleStore sampleManifestKey MAX_MANIFEST_BYTES =
      .ok sampleManifestBytes := by
    unfold getLimited sampleStore
    rw [if_neg (by decide +kernel), if_neg (by decide +kernel), if_pos rfl]
    exact if_neg (by decide +kernel)
  have hsha : required (manifestSha sampleManifestKey) "manifest key must end in <sha256>.json" =
      .ok (sha256Hex samplePackages.sha256 sampleManifestBytes) := by
    decide +kernel
  have hvalid : validateSha (sha256Hex samplePackages.sha256 sampleManifestBytes) = .ok () := by
    decide +kernel
  unfold restore
  rw [show samplePackages.parsePath sampleManifestKey = .ok _ from rfl, ok_bind, hsha, ok_bind,
    hvalid, ok_bind, hmanifest, ok_bind, if_neg (not_not.mpr rfl),
    fromSlice_sampleManifestBytes, ok_bind,
    show validateManifest sampleManifest = .ok () by decide +kernel, ok_bind]
  dsimp only [sampleManifest]
  rw [List.foldlM_cons, hchunk, ok_bind, List.foldlM_nil, pure_bind]
  refine (if_neg (by decide)).trans ((if_neg (by decide +kernel)).trans ?_)
  rw [List.mapM_cons, himage]
  rfl

theorem restore_sound_sample :
    ∃ events, readAllEventsUpTo crc32 Fills.whole (.opened sampleLog) none = .ok events ∧
      events.map (·.seq.toNat) = [1] ∧
      ∃ event ∈ events, keyframeReference samplePackages event = .ok (some (sampleSha, 4)) := by
  obtain ⟨events, hread, hnumbered, -, -, himages⟩ := restore_sound restore_sampleStore
  exact ⟨events, hread, hnumbered, (himages _ _).mpr
    ⟨sampleImage, List.mem_singleton_self _, rfl, sha256Hex_sampleImage⟩⟩

/-! ### Restoring what was prepared -/

variable {pathPrefix : List Char}

/-- The map of a restore has the images of the manifest. -/
structure Agree (keyframes : List StoredObject) (referenced : List (List Char × Nat)) : Prop where
  length : referenced.length = keyframes.length
  lookup : ∀ sha bytes, referenced.lookup sha = some bytes ↔
    ∃ blob ∈ keyframes, blob.sha256 = sha ∧ blob.bytes = bytes

theorem mem_insertImage {blob other : StoredObject} {keyframes : List StoredObject} :
    other ∈ insertImage blob keyframes ↔ other = blob ∨ other ∈ keyframes := by
  induction keyframes with
  | nil => simp [insertImage]
  | cons first rest ih =>
    unfold insertImage
    split
    · simp
    · rw [List.mem_cons, ih, List.mem_cons]
      tauto

theorem length_insertImage (blob : StoredObject) (keyframes : List StoredObject) :
    (insertImage blob keyframes).length = keyframes.length + 1 := by
  induction keyframes with
  | nil => rfl
  | cons first rest ih =>
    unfold insertImage
    split
    · rfl
    · rw [List.length_cons, ih, List.length_cons]

/-- An event that an archive accepts is accepted by a restore. -/
theorem Agree.restoreEvent {state state' : Nat × List StoredObject}
    {r : Nat × List (List Char × Nat)} {event : TimelineEvent}
    (h : state.1 = r.1 ∧ Agree state.2 r.2)
    (hstep : prepareEvent p pathPrefix state event = .ok state') :
    ∃ r', restoreEvent p r event = .ok r' ∧ state'.1 = r'.1 ∧ Agree state'.2 r'.2 := by
  obtain ⟨next, keyframes⟩ := state
  obtain ⟨next', referenced⟩ := r
  obtain ⟨hnext, hlength, hlookup⟩ := h
  dsimp only at hnext hlength hlookup
  subst hnext
  unfold prepareEvent at hstep
  obtain ⟨hseq, hstep⟩ := guard_eq_ok hstep
  obtain ⟨-, hstep⟩ := guard_eq_ok hstep
  obtain ⟨keyframes', hprepare, hstep⟩ := bind_eq_ok hstep
  cases hstep
  unfold prepareKeyframe at hprepare
  obtain ⟨reference, hreference, hprepare⟩ := bind_eq_ok hprepare
  unfold Archive.restoreEvent
  dsimp only
  rw [if_neg hseq, hreference, ok_bind]
  split at hprepare
  next =>
    cases hprepare
    exact ⟨_, rfl, rfl, hlength, hlookup⟩
  next sha bytes =>
    split at hprepare
    next previous hfind =>
      obtain ⟨hbytes, hprepare⟩ := guard_eq_ok hprepare
      cases hprepare
      have hsome : referenced.lookup sha = some previous.bytes :=
        (hlookup sha _).mpr ⟨previous, List.mem_of_find?_eq_some hfind,
          by simpa using List.find?_some hfind, rfl⟩
      refine ⟨(next + 1, referenced), ?_, rfl, hlength, hlookup⟩
      rw [hsome]
      exact if_neg hbytes
    next hfind =>
      obtain ⟨-, hprepare⟩ := guard_eq_ok hprepare
      cases hprepare
      have hnew : ∀ blob ∈ keyframes, blob.sha256 ≠ sha := fun blob hblob heq ↦
        List.find?_eq_none.mp hfind blob hblob (decide_eq_true heq)
      have hnone : referenced.lookup sha = none := by
        cases hsome : referenced.lookup sha with
        | none => rfl
        | some bytes =>
          obtain ⟨blob, hblob, heq, -⟩ := (hlookup sha bytes).mp hsome
          exact absurd heq (hnew blob hblob)
      refine ⟨(next + 1, (sha, bytes) :: referenced), by rw [hnone]; rfl, rfl, ?_,
        fun sha' bytes' ↦ ?_⟩
      · rw [length_insertImage, List.length_cons, hlength]
      · simp only [mem_insertImage, or_and_right, exists_or, exists_eq_left, ← hlookup]
        rw [List.lookup_cons]
        by_cases hsha : sha' = sha
        · subst hsha
          simp [hnone]
        · simp [beq_eq_false_iff_ne.mpr hsha, Ne.symm hsha]

variable {next next' count : Nat} {keyframes keyframes' : List StoredObject} {bytes : Bytes}
  {chunk : WalChunk}

/-- What a chunk is that was prepared. -/
structure ChunkOf (p : Packages) (pathPrefix : List Char) (chunk : WalChunk) (bytes : Bytes) :
    Prop where
  sha256_eq : chunk.object.sha256 = sha256Hex p.sha256 bytes
  length_eq : chunk.object.bytes = bytes.length
  length_le : bytes.length ≤ MAX_RECORD_LINE_BYTES
  key_eq : chunk.object.key = walKey pathPrefix chunk.first_seq chunk.last_seq chunk.object.sha256

theorem prepareChunk_ok
    (h : prepareChunk p pathPrefix bytes count next keyframes = .ok (chunk, next', keyframes')) :
    ChunkOf p pathPrefix chunk bytes ∧ chunk.first_seq = next ∧ chunk.last_seq = next' - 1 ∧
      ∃ events, validateChunk p bytes = .ok events ∧ events ≠ [] ∧
        events.foldlM (prepareEvent p pathPrefix) (next, keyframes) = .ok (next', keyframes') := by
  unfold prepareChunk at h
  obtain ⟨hlimit, h⟩ := guard_eq_ok h
  obtain ⟨events, hevents, h⟩ := bind_eq_ok h
  obtain ⟨hcount, h⟩ := guard_eq_ok h
  obtain ⟨⟨next₁, keyframes₁⟩, hloop, h⟩ := bind_eq_ok h
  cases h
  exact ⟨⟨rfl, rfl, Nat.not_lt.mp hlimit, rfl⟩, rfl, rfl, events, hevents,
    fun hnil ↦ hcount (.inr hnil), hloop⟩

/-- The loop over the events numbers them from the first number on. -/
theorem numbered_of_prepareEvents {events : List TimelineEvent} {first : Nat}
    (h : events.foldlM (prepareEvent p pathPrefix) (first, keyframes) = .ok (next', keyframes')) :
    events.map (·.seq.toNat) = List.range' first events.length ∧ next' = first + events.length := by
  let I (done : List TimelineEvent) (state : Nat × List StoredObject) : Prop :=
    done.map (·.seq.toNat) = List.range' first done.length ∧ state.1 = first + done.length
  have hnil : I [] (first, keyframes) := ⟨rfl, rfl⟩
  refine foldlM_invariant (I := I) (fun done state event state' hI hs ↦ ?_) hnil h
  obtain ⟨next, keyframes⟩ := state
  obtain ⟨hmap, hnext⟩ := hI
  unfold prepareEvent at hs
  obtain ⟨hseq, hs⟩ := guard_eq_ok hs
  obtain ⟨-, hs⟩ := guard_eq_ok hs
  obtain ⟨keyframes', -, hs⟩ := bind_eq_ok hs
  cases hs
  dsimp only at hnext
  refine ⟨?_, by rw [List.length_append, List.length_singleton, hnext]; rfl⟩
  rw [List.map_append, hmap, List.length_append, List.map_singleton, not_not.mp hseq, hnext,
    List.length_singleton, List.range'_concat, Nat.one_mul]

/-- A prepared chunk that is in the store is restored. -/
theorem restoreChunk_of_prepareChunk
    (hchunk : prepareChunk p pathPrefix bytes count next keyframes = .ok (chunk, next', keyframes'))
    (hvalid : validateSha chunk.object.sha256 = .ok ()) {path : List Char}
    (hpath : p.parsePath chunk.object.key = .ok path) (hstored : store path = some bytes)
    {referenced : List (List Char × Nat)} (hagree : Agree keyframes referenced) (wal : Bytes) :
    ∃ referenced', restoreChunk p store ⟨next, referenced, wal⟩ chunk =
      .ok ⟨next', referenced', wal ++ bytes⟩ ∧ Agree keyframes' referenced' := by
  obtain ⟨hof, hfirst, hlast, events, hevents, hne, hloop⟩ := prepareChunk_ok hchunk
  obtain ⟨hmap, hnext⟩ := numbered_of_prepareEvents hloop
  let R (state : Nat × List StoredObject) (r : Nat × List (List Char × Nat)) : Prop :=
    state.1 = r.1 ∧ Agree state.2 r.2
  have hstart : R (next, keyframes) (next, referenced) := ⟨rfl, hagree⟩
  obtain ⟨⟨next₁, referenced'⟩, hrestore, hsame, hagree'⟩ :=
    foldlM_simulates (f := prepareEvent p pathPrefix) (g := restoreEvent p) (R := R)
      (fun _ _ _ _ hR hs ↦ Agree.restoreEvent hR hs) hstart hloop
  dsimp only at hsame hagree'
  subst hsame
  refine ⟨referenced', ?_, hagree'⟩
  have hget : getLimited store path MAX_RECORD_LINE_BYTES = .ok bytes := by
    unfold getLimited
    rw [hstored]
    exact if_neg (Nat.not_lt.mpr hof.length_le)
  have hverify : verifyObject p chunk.object bytes = .ok () := by
    unfold verifyObject
    rw [hvalid, ok_bind]
    exact if_neg (by rw [hof.length_eq, hof.sha256_eq]; simp)
  have hrange : ¬ (events.head?.map (·.seq.toNat) ≠ some chunk.first_seq ∨
      events.getLast?.map (·.seq.toNat) ≠ some chunk.last_seq) := by
    obtain ⟨m, hm⟩ := Nat.exists_eq_succ_of_ne_zero (List.length_pos_iff.mpr hne).ne'
    rw [hm] at hmap hnext
    refine not_or.mpr ⟨not_not.mpr ?_, not_not.mpr ?_⟩
    · rw [← List.head?_map, hmap, hfirst, List.range'_succ, List.head?_cons]
    · rw [← List.getLast?_map, hmap, hlast, hnext, List.range'_concat, List.getLast?_concat,
        Nat.one_mul]
      rfl
  unfold restoreChunk
  rw [hpath, ok_bind, hget, ok_bind, hverify, ok_bind, hevents, ok_bind, if_neg hrange, hrestore]
  rfl

/-- The bytes of prepared chunks. -/
theorem Prepared.chunksOf {chunks : List WalChunk} {contents : List Bytes}
    (h : Prepared p pathPrefix chunks contents next keyframes) :
    List.Forall₂ (ChunkOf p pathPrefix) chunks contents := by
  induction h with
  | nil => exact .nil
  | concat h hchunk ih => exact List.rel_append ih (.cons (prepareChunk_ok hchunk).1 .nil)

/-- The object of a key is these bytes. -/
def Holds (p : Packages) (store : Store) (key : List Char) (bytes : Bytes) : Prop :=
  ∃ path, p.parsePath key = .ok path ∧ store path = some bytes

/-- Prepared chunks that are in the store are restored to the log. -/
theorem Prepared.restoreChunks {chunks : List WalChunk} {contents : List Bytes}
    (h : Prepared p pathPrefix chunks contents next keyframes)
    (hvalid : ∀ chunk ∈ chunks, validateSha chunk.object.sha256 = .ok ())
    (hstored : ∀ chunk ∈ chunks, ∀ bytes ∈ contents, ChunkOf p pathPrefix chunk bytes →
      Holds p store chunk.object.key bytes) :
    ∃ referenced, chunks.foldlM (restoreChunk p store) ⟨1, [], []⟩ =
      .ok ⟨next, referenced, contents.flatten⟩ ∧ Agree keyframes referenced := by
  induction h with
  | nil => exact ⟨[], rfl, rfl, by simp⟩
  | @concat chunks contents next next' keyframes keyframes' bytes count chunk h hchunk ih =>
    obtain ⟨referenced, hloop, hagree⟩ := ih
      (fun c hc ↦ hvalid c (List.mem_append_left _ hc))
      (fun c hc b hb ↦ hstored c (List.mem_append_left _ hc) b (List.mem_append_left _ hb))
    have hlast := List.mem_append_right chunks (List.mem_singleton_self chunk)
    obtain ⟨path, hpath, hpresent⟩ := hstored chunk hlast bytes
      (List.mem_append_right _ (List.mem_singleton_self bytes)) (prepareChunk_ok hchunk).1
    obtain ⟨referenced', hstep, hagree'⟩ := restoreChunk_of_prepareChunk hchunk
      (hvalid chunk hlast) hpath hpresent hagree contents.flatten
    refine ⟨referenced', ?_, hagree'⟩
    rw [List.foldlM_append, hloop, ok_bind, List.foldlM_cons, hstep, List.flatten_concat]
    rfl

/-- An image of a valid manifest that is in the store is restored. -/
theorem restoreImage_of_holds {blob : StoredObject} {data : Bytes}
    (hvalid : validateSha blob.sha256 = .ok () ∧ blob.bytes ≤ MAX_BLOB_BYTES)
    (hdata : data.length = blob.bytes ∧ sha256Hex p.sha256 data = blob.sha256)
    (hstored : Holds p store blob.key data) :
    restoreImage p store blob = .ok (blob.sha256, data) := by
  obtain ⟨path, hpath, hpresent⟩ := hstored
  have hget : getLimited store path MAX_BLOB_BYTES = .ok data := by
    unfold getLimited
    rw [hpresent]
    exact if_neg (Nat.not_lt.mpr (hdata.1 ▸ hvalid.2))
  have hverify : verifyObject p blob data = .ok () := by
    unfold verifyObject
    rw [hvalid.1, ok_bind]
    exact if_neg (by rw [hdata.1, hdata.2]; simp)
  unfold restoreImage
  rw [hvalid.1, ok_bind, hpath, ok_bind, hget, ok_bind, hverify, ok_bind]
  rfl

end Vidarax.Archive
