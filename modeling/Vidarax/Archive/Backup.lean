import Vidarax.Base.FloatCast
import Vidarax.Base.Result
import Vidarax.Base.Text
import Vidarax.Evidence.Store
import Vidarax.Timeline.Writer

/-!
# Backups of a log and its images

Package `vidarax-archive`, `lib.rs` 20–638. An archive is a set of objects in a store, named by a
manifest: the chunks of a log, cut between records, and the images that its events refer to. The
manifest is put last. Objects are never overwritten. The functions of other packages (the hash, the
JSON codecs and the parser of object paths) are parameters.
-/

namespace Vidarax.Archive

open Base Timeline Evidence

def FORMAT_VERSION : Nat := 1

def MAX_RECORD_LINE_BYTES : Nat := 64 * 1024 * 1024 + 64

def MAX_BLOB_BYTES : Nat := 16 * 1024 * 1024

def MAX_MANIFEST_BYTES : Nat := 16 * 1024 * 1024

def MAX_MANIFEST_ITEMS : Nat := 100000

/-- `ArchiveOptions`. -/
structure ArchiveOptions where
  pathPrefix : List Char
  chunk_bytes : Nat

/-- `StoredObject`. -/
structure StoredObject where
  key : List Char
  sha256 : List Char
  bytes : Nat
  deriving DecidableEq

/-- `WalChunk`. -/
structure WalChunk where
  object : StoredObject
  first_seq : Nat
  last_seq : Nat
  deriving DecidableEq

/-- `Manifest`. -/
structure Manifest where
  format_version : Nat
  wal_chunks : List WalChunk
  keyframes : List StoredObject
  event_count : Nat
  event_coverage_seq : Nat
  evidence_coverage_seq : Nat
  deriving DecidableEq

/-- What is used of other packages: the checksum and the buffers of the log, SHA-256, `serde_json`
and `ObjectPath::parse`. -/
structure Packages where
  crc : Bytes → UInt32
  os : Fills
  sha256 : Bytes → Bytes
  toVec : Manifest → Bytes
  fromSlice : Bytes → Except String Manifest
  fromStr : String → Except String Json
  parsePath : List Char → Except String (List Char)

/-- Objects by their paths. -/
abbrev Store : Type := List Char → Option Bytes

/-! ### Checks -/

/-- Digits of a hash. -/
def isHashDigit (c : Char) : Bool := c.isDigit || ('a' ≤ c && c ≤ 'f')

/-- `validate_sha`. -/
def validateSha (sha : List Char) : Except String Unit :=
  if sha.length ≠ 64 ∨ ¬ sha.all isHashDigit then
    .error "expected lowercase 64-character SHA-256"
  else .ok ()

/-- Characters of a segment of a prefix. -/
def isPrefixChar (c : Char) : Bool := c.isAlphanum || c == '-' || c == '_' || c == '.'

/-- A segment that a prefix may have. -/
def isPrefixSegment (segment : List Char) : Bool :=
  segment ≠ [] && segment ≠ ['.'] && segment ≠ ['.', '.'] && segment.all isPrefixChar

/-- `validate_prefix`. -/
def validatePrefix (pathPrefix : List Char) : Except String (List Char) :=
  if pathPrefix = [] ∨ pathPrefix.length > 128 ∨
      (pathPrefix.splitOn '/').any fun segment ↦ !isPrefixSegment segment then
    .error "archive prefix must be 1-128 safe path characters"
  else .ok pathPrefix

/-- One turn of the loop over the chunks in `validate_manifest`. -/
def validateRange (next : Nat) (chunk : WalChunk) : Except String Nat := do
  validateSha chunk.object.sha256
  if chunk.object.bytes = 0 ∨ chunk.object.bytes > MAX_RECORD_LINE_BYTES ∨
      chunk.first_seq ≠ next ∨ chunk.last_seq < chunk.first_seq then
    throw "manifest WAL chunk range or size is invalid"
  else if chunk.last_seq + 1 > u64Max then throw "manifest sequence overflow"
  else return chunk.last_seq + 1

/-- One turn of the loop over the images in `validate_manifest`. -/
def validateImage (previous : Option (List Char)) (blob : StoredObject) :
    Except String (Option (List Char)) := do
  validateSha blob.sha256
  if blob.bytes > MAX_BLOB_BYTES ∨ previous.any (fun sha ↦ ¬ sha < blob.sha256) then
    throw "manifest keyframes are invalid or unsorted"
  else return some blob.sha256

/-- `validate_manifest`. -/
def validateManifest (manifest : Manifest) : Except String Unit :=
  if manifest.format_version ≠ FORMAT_VERSION then throw "unsupported manifest format"
  else if manifest.wal_chunks.length > MAX_MANIFEST_ITEMS ∨
      manifest.keyframes.length > MAX_MANIFEST_ITEMS then
    throw "manifest has too many objects"
  else do
    let next ← manifest.wal_chunks.foldlM validateRange 1
    if manifest.event_count ≠ next - 1 ∨ manifest.event_coverage_seq ≠ next - 1 ∨
        manifest.evidence_coverage_seq ≠ next - 1 then
      throw "manifest coverage is inconsistent"
    else do
      let _ ← manifest.keyframes.foldlM validateImage none
      return ()

variable (p : Packages)

/-- `verify_object`. -/
def verifyObject (reference : StoredObject) (bytes : Bytes) : Except String Unit := do
  validateSha reference.sha256
  if bytes.length ≠ reference.bytes ∨ sha256Hex p.sha256 bytes ≠ reference.sha256 then
    throw "object hash or length mismatch"
  else return ()

/-- `validate_chunk`. -/
def validateChunk (bytes : Bytes) : Except String (List TimelineEvent) :=
  if bytes.getLast? ≠ some newline then
    .error "WAL chunk is empty or has an unterminated record"
  else (readAllEventsUpTo p.crc p.os (.opened bytes) none).mapError TimelineError.display

/-! ### References to images -/

/-- Where an event has its reference: nowhere, in itself, or in its evidence. -/
def nested (kind : String) : Option Bool :=
  if kind = "keyframe_stored" then some false
  else if kind = "restricted_zone_activity_entered" then some true
  else if "trigger.".toList.isPrefixOf kind.toList then some true
  else none

/-- The `image_ref` of a hash. -/
def imageRef (sha : List Char) : List Char :=
  "keyframes/blobs/".toList ++ sha.take 2 ++ '/' :: sha ++ ".jpg".toList

/-- A member that has to be there. -/
def required {α : Type} (value : Option α) (message : String) : Except String α :=
  match value with
  | some value => .ok value
  | none => .error message

/-- `keyframe_reference`: the hash and the length of the image of an event. -/
def keyframeReference (event : TimelineEvent) : Except String (Option (List Char × Nat)) :=
  match nested event.kind with
  | none => .ok none
  | some nested => do
    let payload ← p.fromStr event.payload
    let reference ← if nested then
        required (payload.get "evidence") "keyframe event has no evidence object"
      else .ok payload
    let sha ← required ((reference.get "image_sha256").bind Json.asStr)
      "keyframe event has no image_sha256"
    validateSha sha.toList
    if (reference.get "image_ref").bind Json.asStr ≠ some (String.ofList (imageRef sha.toList)) then
      throw "keyframe image_ref does not match its SHA-256"
    else
      let bytes ← required ((reference.get "image_bytes").bind Json.asU64)
        "keyframe event has no image_bytes"
      if bytes > MAX_BLOB_BYTES then throw "keyframe exceeds 16 MiB archive limit"
      else return some (sha.toList, bytes)

/-! ### Planning an archive -/

/-- The loop of `read_bounded_line` with the part of the line read so far. -/
def readBoundedLineLoop (line : Bytes) (reader : BufReader) :
    Except String (Option (Bytes × BufReader)) :=
  if _hc : reader.fillBuf = [] then
    if line = [] then .ok none else .error "WAL has an unterminated record"
  else
    let length := lineLen reader.fillBuf
    if length > MAX_RECORD_LINE_BYTES - line.length then
      .error "WAL record exceeds 64 MiB limit"
    else if reader.fillBuf[length - 1]? = some newline then
      .ok (some (line ++ reader.fillBuf.take length, reader.consume length))
    else readBoundedLineLoop (line ++ reader.fillBuf.take length) (reader.consume length)
termination_by reader.rest.length
decreasing_by
  have hlen := (BufReader.fillBuf_prefix reader).length_le
  have hpos := lineLen_pos _hc
  have hle := lineLen_le reader.fillBuf
  rw [BufReader.rest_consume _ hle, List.length_drop]
  omega

/-- `read_bounded_line`. -/
def readBoundedLine (reader : BufReader) : Except String (Option (Bytes × BufReader)) :=
  readBoundedLineLoop [] reader

/-- `{seq:020}`. -/
def paddedSeq (seq : Nat) : List Char := (Nat.toDigits 10 seq).leftpad 20 '0'

variable (pathPrefix : List Char)

/-- The key of a chunk. -/
def walKey (first last : Nat) (sha : List Char) : List Char :=
  pathPrefix ++ "/wal/".toList ++ paddedSeq first ++ '-' :: paddedSeq last ++ '-' :: sha ++
    ".wal".toList

/-- The key of an image. -/
def blobKey (sha : List Char) : List Char :=
  pathPrefix ++ "/blobs/".toList ++ sha ++ ".jpg".toList

/-- The key of a manifest. -/
def manifestKey (sha : List Char) : List Char :=
  pathPrefix ++ "/manifests/".toList ++ sha ++ ".json".toList

/-- Put an object into a map that is ordered by hash. -/
def insertImage (blob : StoredObject) : List StoredObject → List StoredObject
  | [] => [blob]
  | other :: others =>
    if blob.sha256 < other.sha256 then blob :: other :: others
    else other :: insertImage blob others

/-- `prepare_keyframe`. -/
def prepareKeyframe (event : TimelineEvent) (keyframes : List StoredObject) :
    Except String (List StoredObject) := do
  match ← keyframeReference p event with
  | none => return keyframes
  | some (sha, expected_bytes) =>
    match keyframes.find? (·.sha256 = sha) with
    | some previous =>
      if previous.bytes ≠ expected_bytes then
        throw "duplicate keyframe hash has conflicting byte count"
      else return keyframes
    | none =>
      if keyframes.length ≥ MAX_MANIFEST_ITEMS then throw "archive has too many distinct keyframes"
      else return insertImage ⟨blobKey pathPrefix sha, sha, expected_bytes⟩ keyframes

/-- Rejection of an event out of sequence. -/
def sequenceGap (expected found : Nat) : String :=
  s!"WAL sequence gap: expected {expected}, found {found}"

/-- One turn of the loop in `prepare_chunk`. -/
def prepareEvent (state : Nat × List StoredObject) (event : TimelineEvent) :
    Except String (Nat × List StoredObject) :=
  let (next_seq, keyframes) := state
  if event.seq.toNat ≠ next_seq then throw (sequenceGap next_seq event.seq.toNat)
  else if next_seq + 1 > u64Max then throw "sequence overflow"
  else do
    let keyframes ← prepareKeyframe p pathPrefix event keyframes
    return (next_seq + 1, keyframes)

/-- `prepare_chunk`. -/
def prepareChunk (bytes : Bytes) (line_count next_seq : Nat) (keyframes : List StoredObject) :
    Except String (WalChunk × Nat × List StoredObject) :=
  if bytes.length > MAX_RECORD_LINE_BYTES then throw "WAL chunk exceeds 64 MiB record limit"
  else do
    let events ← validateChunk p bytes
    if events.length ≠ line_count ∨ events = [] then throw "WAL chunk did not decode every record"
    else do
      let (next, keyframes) ← events.foldlM (prepareEvent p pathPrefix) (next_seq, keyframes)
      let sha := sha256Hex p.sha256 bytes
      let object := ⟨walKey pathPrefix next_seq (next - 1) sha, sha, bytes.length⟩
      return (⟨object, next_seq, next - 1⟩, next, keyframes)

/-- The variables of the first pass over the log. -/
structure Scan where
  bytes_read : Nat
  chunk : Bytes
  chunk_line_count : Nat
  next_seq : Nat
  wal_chunks : List WalChunk
  keyframes : List StoredObject

namespace Scan

/-- End the chunk that is being filled. -/
def closeChunk (s : Scan) : Except String Scan := do
  let (stored, next_seq, keyframes) ←
    prepareChunk p pathPrefix s.chunk s.chunk_line_count s.next_seq s.keyframes
  return ⟨s.bytes_read, [], 0, next_seq, s.wal_chunks ++ [stored], keyframes⟩

/-- End the chunk that is being filled if it has no room for a line. -/
def makeRoom (chunk_bytes length : Nat) (s : Scan) : Except String Scan :=
  if s.chunk ≠ [] ∧ s.chunk.length + length > chunk_bytes then do
    let s ← s.closeChunk p pathPrefix
    if s.wal_chunks.length > MAX_MANIFEST_ITEMS then throw "archive has too many WAL chunks"
    else return s
  else return s

/-- One line of the log. -/
def addLine (chunk_bytes : Nat) (s : Scan) (line : Bytes) : Except String Scan :=
  if s.bytes_read + line.length > u64Max then throw "WAL byte count overflow"
  else do
    let s ← { s with bytes_read := s.bytes_read + line.length }.makeRoom p pathPrefix chunk_bytes
      line.length
    return { s with chunk := s.chunk ++ line, chunk_line_count := s.chunk_line_count + 1 }

/-- The chunk that is left at the end. -/
def finish (s : Scan) : Except String Scan :=
  if s.chunk = [] then return s
  else if s.wal_chunks.length ≥ MAX_MANIFEST_ITEMS then throw "archive has too many WAL chunks"
  else s.closeChunk p pathPrefix

end Scan

/-- Buffered bytes and what is left without them. -/
theorem take_append_rest_consume (reader : BufReader) {n : Nat} (h : n ≤ reader.fillBuf.length) :
    reader.fillBuf.take n ++ (reader.consume n).rest = reader.rest := by
  rw [BufReader.rest_consume reader h]
  obtain ⟨rest, hrest⟩ := reader.fillBuf_prefix
  rw [← hrest, List.drop_append_of_le_length h, ← List.append_assoc, List.take_append_drop]

/-- A line that is read is the front of what was to be read. -/
theorem rest_of_readBoundedLineLoop {line line' : Bytes} {reader reader' : BufReader}
    (h : readBoundedLineLoop line reader = .ok (some (line', reader'))) :
    line ++ reader.rest = line' ++ reader'.rest ∧ line.length < line'.length := by
  fun_induction readBoundedLineLoop line reader with
  | case1 => cases h
  | case2 => cases h
  | case3 => cases h
  | case4 line reader hne length _ _ =>
    cases h
    have hle : length ≤ reader.fillBuf.length := lineLen_le reader.fillBuf
    have hpos : 0 < length := lineLen_pos hne
    rw [List.append_assoc, take_append_rest_consume reader hle, List.length_append,
      List.length_take]
    exact ⟨rfl, by omega⟩
  | case5 line reader hne length _ _ ih =>
    have hle : length ≤ reader.fillBuf.length := lineLen_le reader.fillBuf
    obtain ⟨hrest, hlength⟩ := ih h
    rw [List.append_assoc, take_append_rest_consume reader hle] at hrest
    rw [List.length_append] at hlength
    exact ⟨hrest, by omega⟩

/-- A line that is read is not empty, and the front of what was to be read. -/
theorem rest_of_readBoundedLine {line : Bytes} {reader reader' : BufReader}
    (h : readBoundedLine reader = .ok (some (line, reader'))) :
    reader.rest = line ++ reader'.rest ∧ line ≠ [] := by
  obtain ⟨hrest, hlength⟩ := rest_of_readBoundedLineLoop h
  exact ⟨hrest, List.ne_nil_of_length_pos hlength⟩

/-- The loop of the first pass. -/
def scanLines (chunk_bytes : Nat) (reader : BufReader) (s : Scan) : Except String Scan :=
  match _h : readBoundedLine reader with
  | .error error => .error error
  | .ok none => .ok s
  | .ok (some (line, reader')) =>
    match s.addLine p pathPrefix chunk_bytes line with
    | .error error => .error error
    | .ok s => scanLines chunk_bytes reader' s
termination_by reader.rest.length
decreasing_by
  obtain ⟨hrest, hne⟩ := rest_of_readBoundedLine _h
  rw [hrest, List.length_append]
  exact Nat.lt_add_of_pos_left (List.length_pos_iff.mpr hne)

/-! ### Making an archive -/

/-- A data directory: its log, what the log holds when it is read again, and the images at their
paths. -/
structure DataDir where
  wal : Option Bytes
  again : Bytes
  keyframe : List Char → Option Bytes

/-- `read_keyframe`. -/
def readKeyframe (dir : DataDir) (sha : List Char) (expected_bytes : Nat) : Except String Bytes :=
  match dir.keyframe sha with
  | none => .error "keyframe path contains a symlink or non-directory"
  | some bytes =>
    if bytes.length ≠ expected_bytes then
      .error "keyframe is not a regular file of the declared size"
    else if sha256Hex p.sha256 bytes ≠ sha then
      .error "keyframe bytes do not match event metadata"
    else .ok bytes

/-- The arguments of `put_verified`. -/
structure Upload where
  key : List Char
  bytes : Bytes
  limit : Nat

/-- The second pass over the log: its uploads, or the error that ends it. -/
def chunkUploads : Nat → Bytes → List WalChunk → List (Except String Upload)
  | limit, _, [] =>
    if limit ≠ 0 then [.error "WAL preflight did not cover its committed boundary"] else []
  | limit, source, chunk :: chunks =>
    if source.length < chunk.object.bytes then [.error "failed to fill whole buffer"]
    else
      let bytes := source.take chunk.object.bytes
      match verifyObject p chunk.object bytes with
      | .error error => [.error error]
      | .ok () =>
        .ok ⟨chunk.object.key, bytes, MAX_RECORD_LINE_BYTES⟩ ::
          chunkUploads (limit - chunk.object.bytes) (source.drop chunk.object.bytes) chunks

/-- The upload of an image. -/
def imageUpload (dir : DataDir) (blob : StoredObject) : Except String Upload := do
  let bytes ← readKeyframe p dir blob.sha256 blob.bytes
  return ⟨blob.key, bytes, MAX_BLOB_BYTES⟩

/-- An archive that is to be uploaded, in this order and up to the first error. -/
structure Plan where
  log : Bytes
  manifest : Manifest
  manifest_key : List Char
  uploads : List (Except String Upload)

/-- The log up to its committed boundary, after `WalWriter::open`. -/
def committedLog (env : OpenEnv) (dir : DataDir) : Except String Bytes :=
  match dir.wal with
  | none => .error "WAL does not exist"
  | some file =>
    match WalWriter.openWal p.crc p.os env (some file) with
    | (.error error, _) => .error error.display
    | (.ok ownership, file) => .ok ((file.getD []).take ownership.committedEnd)

/-- The manifest of a log. -/
def preflight (options : ArchiveOptions) (log : Bytes) : Except String Manifest := do
  let scan ← scanLines p options.pathPrefix options.chunk_bytes (p.os.reader log)
    ⟨0, [], 0, 1, [], []⟩
  if scan.bytes_read ≠ log.length then
    throw "WAL changed or ended before its committed boundary"
  else do
    let scan ← scan.finish p options.pathPrefix
    let coverage := scan.next_seq - 1
    let manifest := ⟨FORMAT_VERSION, scan.wal_chunks, scan.keyframes, coverage, coverage, coverage⟩
    validateManifest manifest
    if (p.toVec manifest).length > MAX_MANIFEST_BYTES then throw "manifest exceeds 16 MiB"
    else return manifest

/-- `archive`, up to its first upload. -/
def plan (env : OpenEnv) (dir : DataDir) (options : ArchiveOptions) : Except String Plan := do
  let pathPrefix ← validatePrefix options.pathPrefix
  if options.chunk_bytes = 0 ∨ options.chunk_bytes > 64 * 1024 * 1024 then
    throw "chunk size must be between 1 byte and 64 MiB"
  else do
    let log ← committedLog p env dir
    let manifest ← preflight p options log
    let manifest_bytes := p.toVec manifest
    let manifest_key := manifestKey pathPrefix (sha256Hex p.sha256 manifest_bytes)
    return {
      log, manifest, manifest_key
      uploads := chunkUploads p log.length (dir.again.take log.length) manifest.wal_chunks ++
        manifest.keyframes.map (imageUpload p dir) ++
        [.ok ⟨manifest_key, manifest_bytes, MAX_MANIFEST_BYTES⟩] }

/-- `get_limited`. -/
def getLimited (store : Store) (path : List Char) (limit : Nat) : Except String Bytes :=
  match store path with
  | none => .error "object not found"
  | some bytes => if bytes.length > limit then .error "remote object exceeds limit" else .ok bytes

/-- `PutMode::Create`: an object that exists is kept. -/
def Store.create (store : Store) (path : List Char) (bytes : Bytes) : Store :=
  fun other ↦ if other = path then some ((store path).getD bytes) else store other

/-- Where an attempt to archive is. -/
inductive Stage where
  | uploading (rest : List (Except String Upload))
  /-- The object was put, and is read back. -/
  | verifying (upload : Upload) (path : List Char) (rest : List (Except String Upload))
  | published
  | failed

/-- An attempt to archive a directory. -/
structure Attempt where
  dir : DataDir
  plan : Plan
  stage : Stage

/-- How an operation on the store ends: done, or with an error, which a request that took effect may
also report. -/
inductive Outcome where
  | ok
  | refused
  | lost

/-- The next operation of an attempt. -/
def Stage.advance (store : Store) (o : Outcome) : Stage → Store × Stage
  | .uploading [] => (store, .published)
  | .uploading (.error _ :: _) => (store, .failed)
  | .uploading (.ok upload :: rest) =>
    if upload.bytes.length > upload.limit then (store, .failed)
    else
      match p.parsePath upload.key with
      | .error _ => (store, .failed)
      | .ok path =>
        match o with
        | .ok => (store.create path upload.bytes, .verifying upload path rest)
        | .refused => (store, .failed)
        | .lost => (store.create path upload.bytes, .failed)
  | .verifying upload path rest =>
    match o with
    | .ok =>
      match getLimited store path upload.limit with
      | .error _ => (store, .failed)
      | .ok actual =>
        if actual.length ≠ upload.bytes.length ∨
            sha256Hex p.sha256 actual ≠ sha256Hex p.sha256 upload.bytes then (store, .failed)
        else (store, .uploading rest)
    | .refused | .lost => (store, .failed)
  | .published => (store, .published)
  | .failed => (store, .failed)

/-- A store and all attempts that use it. -/
structure System where
  store : Store
  attempts : List Attempt

namespace System

/-- Nothing is stored. -/
def initial : System := ⟨fun _ ↦ none, []⟩

/-- An attempt passes its checks. -/
def start (s : System) (dir : DataDir) (plan : Plan) : System :=
  ⟨s.store, s.attempts ++ [⟨dir, plan, .uploading plan.uploads⟩]⟩

/-- An attempt makes its next operation. -/
def run (s : System) (id : Nat) (o : Outcome) : System :=
  match s.attempts[id]? with
  | none => s
  | some attempt =>
    let (store, stage) := attempt.stage.advance p s.store o
    ⟨store, s.attempts.set id { attempt with stage }⟩

end System

/-- Attempts start and proceed in any order, and may stop at any operation. -/
inductive Reachable : System → Prop where
  | initial : Reachable .initial
  | start {s : System} (env : OpenEnv) (dir : DataDir) (options : ArchiveOptions) {made : Plan}
      (hplan : plan p env dir options = .ok made) (h : Reachable s) : Reachable (s.start dir made)
  | run {s : System} (id : Nat) (o : Outcome) (h : Reachable s) : Reachable (s.run p id o)

/-! ### Restoring -/

/-- The files that are restored. -/
structure Tree where
  wal : Bytes
  keyframes : List (List Char × Bytes)

/-- The variables of the loop over the chunks. -/
structure Restoring where
  next_seq : Nat
  referenced_keyframes : List (List Char × Nat)
  wal : Bytes

/-- The hash that a manifest key ends in. -/
def manifestSha (manifest_key : List Char) : Option (List Char) :=
  ((manifest_key.splitOn '/').getLast?).bind (stripSuffix ".json".toList)

/-- One event of a chunk. -/
def restoreEvent (state : Nat × List (List Char × Nat)) (event : TimelineEvent) :
    Except String (Nat × List (List Char × Nat)) :=
  let (next_seq, referenced) := state
  if event.seq.toNat ≠ next_seq then throw (sequenceGap next_seq event.seq.toNat)
  else do
    match ← keyframeReference p event with
    | none => return (next_seq + 1, referenced)
    | some (sha, bytes) =>
      match referenced.lookup sha with
      | some previous =>
        if previous ≠ bytes then throw "one keyframe hash has conflicting byte counts"
        else return (next_seq + 1, referenced)
      | none => return (next_seq + 1, (sha, bytes) :: referenced)

/-- One chunk. -/
def restoreChunk (store : Store) (r : Restoring) (chunk : WalChunk) : Except String Restoring := do
  let path ← p.parsePath chunk.object.key
  let bytes ← getLimited store path MAX_RECORD_LINE_BYTES
  verifyObject p chunk.object bytes
  let events ← validateChunk p bytes
  if events.head?.map (·.seq.toNat) ≠ some chunk.first_seq ∨
      events.getLast?.map (·.seq.toNat) ≠ some chunk.last_seq then
    throw "WAL chunk sequence range differs from manifest"
  else do
    let (next_seq, referenced) ← events.foldlM (restoreEvent p) (r.next_seq, r.referenced_keyframes)
    return ⟨next_seq, referenced, r.wal ++ bytes⟩

/-- One image. -/
def restoreImage (store : Store) (blob : StoredObject) : Except String (List Char × Bytes) := do
  validateSha blob.sha256
  let path ← p.parsePath blob.key
  let bytes ← getLimited store path MAX_BLOB_BYTES
  verifyObject p blob bytes
  return (blob.sha256, bytes)

/-- `restore`, as far as the contents of what it restores are concerned. -/
def restore (store : Store) (manifest_key : List Char) : Except String (Manifest × Tree) := do
  let path ← p.parsePath manifest_key
  let manifest_sha ← required (manifestSha manifest_key) "manifest key must end in <sha256>.json"
  validateSha manifest_sha
  let manifest_bytes ← getLimited store path MAX_MANIFEST_BYTES
  if sha256Hex p.sha256 manifest_bytes ≠ manifest_sha then throw "manifest SHA-256 mismatch"
  else do
    let manifest ← p.fromSlice manifest_bytes
    validateManifest manifest
    let r ← manifest.wal_chunks.foldlM (restoreChunk p store) ⟨1, [], []⟩
    if r.next_seq - 1 ≠ manifest.event_coverage_seq then
      throw "restored event coverage differs from manifest"
    else if r.referenced_keyframes.length ≠ manifest.keyframes.length ∨
        manifest.keyframes.any (fun blob ↦
          r.referenced_keyframes.lookup blob.sha256 ≠ some blob.bytes) then
      throw "manifest does not contain every referenced keyframe"
    else do
      let keyframes ← manifest.keyframes.mapM (restoreImage p store)
      return (manifest, ⟨r.wal, keyframes⟩)

variable {p pathPrefix}

/-! ### Keys -/

/-- Two digits of a byte. -/
theorem hex_two {n : Nat} (h : n < 256) : hex 2 n = [(n / 16).digitChar, (n % 16).digitChar] := by
  unfold hex
  by_cases hn : n < 16
  · rw [Nat.toDigits_of_lt_base hn, Nat.div_eq_of_lt hn, Nat.mod_eq_of_lt hn]
    rfl
  · rw [Nat.toDigits_of_base_le (by decide) (Nat.not_lt.mp hn),
      Nat.toDigits_of_lt_base (Nat.div_lt_of_lt_mul h)]
    rfl

/-- The characters of a hash are digits. -/
theorem exists_digitChar_of_mem {data : Bytes} {c : Char} (h : c ∈ sha256Hex p.sha256 data) :
    ∃ d < 16, c = d.digitChar := by
  obtain ⟨byte, -, hc⟩ := List.mem_flatMap.mp h
  rw [hex_two byte.toNat_lt, List.mem_pair] at hc
  rcases hc with rfl | rfl
  · exact ⟨_, Nat.div_lt_of_lt_mul byte.toNat_lt, rfl⟩
  · exact ⟨_, Nat.mod_lt _ (by decide), rfl⟩

theorem isHashDigit_digitChar : ∀ d < 16, isHashDigit d.digitChar = true := by decide

theorem isHashDigit_of_mem {data : Bytes} {c : Char} (h : c ∈ sha256Hex p.sha256 data) :
    isHashDigit c = true := by
  obtain ⟨d, hd, rfl⟩ := exists_digitChar_of_mem h
  exact isHashDigit_digitChar d hd

/-- The digest has 32 bytes. -/
def Packages.Digests (p : Packages) : Prop := ∀ data, (p.sha256 data).length = 32

theorem length_sha256Hex (h : p.Digests) (data : Bytes) :
    (sha256Hex p.sha256 data).length = 64 := by
  have htwo : ((p.sha256 data).map fun byte ↦ (hex 2 byte.toNat).length) =
      List.replicate 32 2 := by
    rw [List.eq_replicate_iff, List.length_map]
    refine ⟨h data, fun n hn ↦ ?_⟩
    obtain ⟨byte, -, rfl⟩ := List.mem_map.mp hn
    rw [hex_two byte.toNat_lt]
    rfl
  rw [sha256Hex, List.length_flatMap, htwo]
  rfl

theorem validateSha_sha256Hex (h : p.Digests) (data : Bytes) :
    validateSha (sha256Hex p.sha256 data) = .ok () := by
  have hall : (sha256Hex p.sha256 data).all isHashDigit = true :=
    List.all_eq_true.mpr fun c hc ↦ isHashDigit_of_mem hc
  rw [validateSha, if_neg]
  rintro (hne | hne)
  · exact hne (length_sha256Hex h data)
  · exact hne hall

/-- The hash of a manifest is read back from its key. -/
theorem manifestSha_manifestKey (pathPrefix : List Char) (data : Bytes) :
    manifestSha (manifestKey pathPrefix (sha256Hex p.sha256 data)) =
      some (sha256Hex p.sha256 data) := by
  have hslash : '/' ∉ sha256Hex p.sha256 data ++ ".json".toList := by
    intro hmem
    rcases List.mem_append.mp hmem with hmem | hmem
    · exact absurd (isHashDigit_of_mem hmem) (by decide)
    · exact absurd hmem (by decide)
  have hkey : manifestKey pathPrefix (sha256Hex p.sha256 data) =
      (pathPrefix ++ "/manifests".toList) ++
        '/' :: (sha256Hex p.sha256 data ++ ".json".toList) := by
    simp [manifestKey]
  rw [manifestSha, hkey, List.splitOn_append_cons_self, List.splitOn_eq_singleton hslash,
    List.getLast?_concat]
  change stripSuffix ".json".toList (sha256Hex p.sha256 data ++ ".json".toList) = _
  rw [stripSuffix, if_pos (List.suffix_append _ _), List.length_append, Nat.add_sub_cancel,
    List.take_left]

/-- A prefix that passes its check does not start with a slash. -/
theorem head?_of_validatePrefix {pathPrefix pathPrefix' : List Char}
    (h : validatePrefix pathPrefix = .ok pathPrefix') :
    pathPrefix' = pathPrefix ∧ pathPrefix ≠ [] ∧ pathPrefix.head? ≠ some '/' := by
  unfold validatePrefix at h
  obtain ⟨hvalid, h⟩ := guard_eq_ok h
  cases h
  refine ⟨rfl, fun hnil ↦ hvalid (.inl hnil), fun hslash ↦ hvalid (.inr (.inr ?_))⟩
  obtain ⟨rest, rfl⟩ := List.head?_eq_some_iff.mp hslash
  rw [List.any_eq_true]
  refine ⟨[], ?_, rfl⟩
  rw [List.splitOn_cons_eq_if_modifyHead, if_pos (by decide)]
  exact List.mem_cons_self

/-- The segments of a prefix that passes its check are safe. -/
theorem segments_of_validatePrefix {pathPrefix pathPrefix' : List Char}
    (h : validatePrefix pathPrefix = .ok pathPrefix') :
    ∀ segment ∈ pathPrefix.splitOn '/', isPrefixSegment segment = true := by
  unfold validatePrefix at h
  obtain ⟨hvalid, -⟩ := guard_eq_ok h
  intro segment hsegment
  by_contra hne
  exact hvalid (.inr (.inr (List.any_eq_true.mpr ⟨segment, hsegment, by simpa using hne⟩)))

/-! ### The first pass -/

/-- Chunks that were prepared one after the other, with their bytes, the next number and the images
so far. -/
inductive Prepared (p : Packages) (pathPrefix : List Char) :
    List WalChunk → List Bytes → Nat → List StoredObject → Prop
  | nil : Prepared p pathPrefix [] [] 1 []
  | concat {chunks : List WalChunk} {contents : List Bytes} {next next' : Nat}
      {keyframes keyframes' : List StoredObject} {bytes : Bytes} {count : Nat} {chunk : WalChunk}
      (h : Prepared p pathPrefix chunks contents next keyframes)
      (hchunk : prepareChunk p pathPrefix bytes count next keyframes =
        .ok (chunk, next', keyframes')) :
      Prepared p pathPrefix (chunks ++ [chunk]) (contents ++ [bytes]) next' keyframes'

variable {s s' : Scan} {done : Bytes}

/-- The prepared chunks and the open one are the log so far. -/
def Scan.Covers (p : Packages) (pathPrefix : List Char) (s : Scan) (done : Bytes) : Prop :=
  ∃ contents, Prepared p pathPrefix s.wal_chunks contents s.next_seq s.keyframes ∧
    contents.flatten ++ s.chunk = done

namespace Scan.Covers

theorem closeChunk (h : s.Covers p pathPrefix done) (hclose : s.closeChunk p pathPrefix = .ok s') :
    s'.Covers p pathPrefix done ∧ s'.chunk = [] := by
  obtain ⟨contents, hprepared, hdone⟩ := h
  unfold Scan.closeChunk at hclose
  obtain ⟨⟨stored, next, keyframes⟩, hchunk, hclose⟩ := bind_eq_ok hclose
  cases hclose
  refine ⟨⟨contents ++ [s.chunk], hprepared.concat hchunk, ?_⟩, rfl⟩
  rw [List.flatten_concat, List.append_nil, hdone]

theorem makeRoom {chunk_bytes length : Nat} (h : s.Covers p pathPrefix done)
    (hroom : s.makeRoom p pathPrefix chunk_bytes length = .ok s') :
    s'.Covers p pathPrefix done := by
  unfold Scan.makeRoom at hroom
  split at hroom
  · obtain ⟨closed, hclose, hroom⟩ := bind_eq_ok hroom
    obtain ⟨-, hroom⟩ := guard_eq_ok hroom
    cases hroom
    exact (h.closeChunk hclose).1
  · cases hroom
    exact h

theorem addLine {chunk_bytes : Nat} {line : Bytes} (h : s.Covers p pathPrefix done)
    (hline : s.addLine p pathPrefix chunk_bytes line = .ok s') :
    s'.Covers p pathPrefix (done ++ line) := by
  unfold Scan.addLine at hline
  obtain ⟨-, hline⟩ := guard_eq_ok hline
  obtain ⟨roomy, hroom, hline⟩ := bind_eq_ok hline
  cases hline
  have hcounted :
      Scan.Covers p pathPrefix { s with bytes_read := s.bytes_read + line.length } done := h
  obtain ⟨contents, hprepared, hdone⟩ := hcounted.makeRoom hroom
  refine ⟨contents, hprepared, ?_⟩
  rw [← hdone, List.append_assoc]

theorem finish (h : s.Covers p pathPrefix done) (hfinish : s.finish p pathPrefix = .ok s') :
    s'.Covers p pathPrefix done ∧ s'.chunk = [] := by
  unfold Scan.finish at hfinish
  split at hfinish
  · next hempty =>
    cases hfinish
    exact ⟨h, hempty⟩
  · obtain ⟨-, hfinish⟩ := guard_eq_ok hfinish
    exact h.closeChunk hfinish

end Scan.Covers

theorem rest_of_readBoundedLineLoop_none {line : Bytes} {reader : BufReader}
    (h : readBoundedLineLoop line reader = .ok none) : line = [] ∧ reader.rest = [] := by
  fun_induction readBoundedLineLoop line reader with
  | case1 reader hempty => exact ⟨rfl, (BufReader.fillBuf_eq_nil_iff reader).mp hempty⟩
  | case2 => cases h
  | case3 => cases h
  | case4 => cases h
  | case5 line reader hne length _ _ ih =>
    have htake := (List.append_eq_nil_iff.mp (ih h).1).2
    rcases List.take_eq_nil_iff.mp htake with hzero | hnil
    · exact absurd hzero (Nat.ne_of_gt (lineLen_pos hne))
    · exact absurd hnil hne

/-- The lines cover the log to its end. -/
theorem Scan.Covers.scanLines {chunk_bytes : Nat} {reader : BufReader}
    (h : s.Covers p pathPrefix done)
    (hscan : scanLines p pathPrefix chunk_bytes reader s = .ok s') :
    s'.Covers p pathPrefix (done ++ reader.rest) := by
  fun_induction Archive.scanLines p pathPrefix chunk_bytes reader s generalizing done with
  | case1 => cases hscan
  | case2 reader s hread =>
    cases hscan
    rwa [(rest_of_readBoundedLineLoop_none hread).2, List.append_nil]
  | case3 => cases hscan
  | case4 reader s line reader' hread s₁ hline ih =>
    rw [(rest_of_readBoundedLine hread).1, ← List.append_assoc]
    exact ih (h.addLine hline) hscan

/-- What the first pass makes of a log. -/
theorem preflight_ok {options : ArchiveOptions} {log : Bytes} {manifest : Manifest}
    (h : preflight p options log = .ok manifest) :
    (∃ contents next, Prepared p options.pathPrefix manifest.wal_chunks contents next
      manifest.keyframes ∧ contents.flatten = log ∧ manifest.event_coverage_seq = next - 1) ∧
      validateManifest manifest = .ok () ∧ (p.toVec manifest).length ≤ MAX_MANIFEST_BYTES := by
  unfold preflight at h
  obtain ⟨scan, hscan, h⟩ := bind_eq_ok h
  obtain ⟨-, h⟩ := guard_eq_ok h
  obtain ⟨finished, hfinish, h⟩ := bind_eq_ok h
  obtain ⟨_, hvalid, h⟩ := bind_eq_ok h
  obtain ⟨hlength, h⟩ := guard_eq_ok h
  cases h
  have hstart : Scan.Covers p options.pathPrefix ⟨0, [], 0, 1, [], []⟩ [] := ⟨[], .nil, rfl⟩
  obtain ⟨⟨contents, hprepared, hdone⟩, hempty⟩ := (hstart.scanLines hscan).finish hfinish
  rw [hempty, List.append_nil, List.nil_append, p.os.rest_reader] at hdone
  exact ⟨⟨contents, _, hprepared, hdone, rfl⟩, hvalid, Nat.not_lt.mp hlength⟩

/-! ### A log of one line -/

/-- A line that is a whole buffer is read at once. -/
theorem readBoundedLine_single {line : Bytes} (hframe : IsFrame newline line)
    (hlength : line.length ≤ MAX_RECORD_LINE_BYTES) :
    ∃ reader, readBoundedLine (BufReader.single line) = .ok (some (line, reader)) ∧
      readBoundedLine reader = .ok none := by
  obtain ⟨body, rfl, hbody⟩ := hframe
  have hline : lineLen (body ++ [newline]) = (body ++ [newline]).length := by
    rw [lineLen_append hbody, List.length_append, List.length_singleton]
  have hfill : (BufReader.single (body ++ [newline])).fillBuf = body ++ [newline] := by
    rw [BufReader.single, dif_neg (by simp)]
    rfl
  have hend : ((BufReader.single (body ++ [newline])).consume
      (body ++ [newline]).length).fillBuf = [] := by
    rw [BufReader.fillBuf_eq_nil_iff, BufReader.rest_consume _ (by rw [hfill]),
      BufReader.rest_single, List.drop_length]
  refine ⟨(BufReader.single (body ++ [newline])).consume (body ++ [newline]).length, ?_, ?_⟩
  · rw [readBoundedLine, readBoundedLineLoop, dif_neg (by rw [hfill]; simp)]
    dsimp only
    rw [hfill, hline, if_neg (by simpa using hlength), if_pos (by simp), List.take_length]
    rfl
  · rw [readBoundedLine, readBoundedLineLoop, dif_pos hend, if_pos rfl]

theorem scanLines_some {chunk_bytes : Nat} {reader reader' : BufReader} {line : Bytes}
    (hread : readBoundedLine reader = .ok (some (line, reader')))
    (hline : s.addLine p pathPrefix chunk_bytes line = .ok s') :
    scanLines p pathPrefix chunk_bytes reader s =
      scanLines p pathPrefix chunk_bytes reader' s' := by
  rw [scanLines]
  split
  · next h => cases hread.symm.trans h
  · next h => cases hread.symm.trans h
  · next line₁ reader₁ h =>
    cases hread.symm.trans h
    rw [hline]

theorem scanLines_none {chunk_bytes : Nat} {reader : BufReader}
    (hread : readBoundedLine reader = .ok none) :
    scanLines p pathPrefix chunk_bytes reader s = .ok s := by
  rw [scanLines]
  split
  · next h => cases hread.symm.trans h
  · rfl
  · next h => cases hread.symm.trans h

theorem committedLog_of_openWal {env : OpenEnv} {dir : DataDir} {ownership : WalWriter}
    {file file' : Bytes} (hwal : dir.wal = some file)
    (hopen : WalWriter.openWal p.crc p.os env (some file) = (.ok ownership, some file')) :
    committedLog p env dir = .ok (file'.take ownership.committedEnd) := by
  unfold committedLog
  rw [hwal]
  dsimp only
  rw [hopen]
  rfl

/-- The manifest of a log of one line. -/
theorem preflight_line {options : ArchiveOptions} {log : Bytes} {chunk : WalChunk} {next : Nat}
    {keyframes : List StoredObject} {manifest : Manifest} (hframe : IsFrame newline log)
    (hlength : log.length ≤ MAX_RECORD_LINE_BYTES)
    (hreader : p.os.reader log = BufReader.single log)
    (hchunk : prepareChunk p options.pathPrefix log 1 1 [] = .ok (chunk, next, keyframes))
    (hmanifest : manifest = ⟨FORMAT_VERSION, [chunk], keyframes, next - 1, next - 1, next - 1⟩)
    (hvalid : validateManifest manifest = .ok ())
    (hsize : (p.toVec manifest).length ≤ MAX_MANIFEST_BYTES) :
    preflight p options log = .ok manifest := by
  obtain ⟨reader, hread, hend⟩ := readBoundedLine_single hframe hlength
  have hadd : Scan.addLine p options.pathPrefix options.chunk_bytes ⟨0, [], 0, 1, [], []⟩ log =
      .ok ⟨log.length, log, 1, 1, [], []⟩ := by
    have hfits : ¬ 0 + log.length > u64Max :=
      Nat.not_lt.mpr ((Nat.zero_add _).trans_le (hlength.trans (by decide)))
    unfold Scan.addLine Scan.makeRoom
    rw [if_neg hfits, if_neg fun h ↦ h.1 rfl, pure_bind, Nat.zero_add]
    rfl
  unfold preflight
  rw [hreader, scanLines_some hread hadd, scanLines_none hend, ok_bind, if_neg (not_not.mpr rfl),
    Scan.finish, if_neg hframe.ne_nil, if_neg (by simp [MAX_MANIFEST_ITEMS]), Scan.closeChunk,
    hchunk, ok_bind]
  dsimp only [List.nil_append]
  rw [pure_bind, ← hmanifest, hvalid, ok_bind, if_neg (Nat.not_lt.mpr hsize)]
  rfl

/-- The uploads of a log of one chunk. -/
theorem chunkUploads_single {log : Bytes} {chunk : WalChunk}
    (hbytes : chunk.object.bytes = log.length)
    (hverify : verifyObject p chunk.object log = .ok ()) :
    chunkUploads p log.length (log.take log.length) [chunk] =
      [.ok ⟨chunk.object.key, log, MAX_RECORD_LINE_BYTES⟩] := by
  unfold chunkUploads
  rw [List.take_length, hbytes, if_neg (Nat.lt_irrefl _), List.take_length]
  dsimp only
  rw [hverify]
  dsimp only
  rw [Nat.sub_self, chunkUploads, if_neg (not_not.mpr rfl)]

/-- What a plan is made of, where its parts succeed. -/
theorem plan_of_preflight {env : OpenEnv} {dir : DataDir} {options : ArchiveOptions}
    {log : Bytes} {manifest : Manifest} {chunks images : List (Except String Upload)}
    (hsafe : validatePrefix options.pathPrefix = .ok options.pathPrefix)
    (hchunk : ¬ (options.chunk_bytes = 0 ∨ options.chunk_bytes > 64 * 1024 * 1024))
    (hlog : committedLog p env dir = .ok log) (hpreflight : preflight p options log = .ok manifest)
    (hchunks : chunkUploads p log.length (dir.again.take log.length) manifest.wal_chunks = chunks)
    (himages : manifest.keyframes.map (imageUpload p dir) = images) :
    plan p env dir options = .ok ⟨log, manifest,
      manifestKey options.pathPrefix (sha256Hex p.sha256 (p.toVec manifest)),
      chunks ++ images ++ [.ok ⟨manifestKey options.pathPrefix
        (sha256Hex p.sha256 (p.toVec manifest)), p.toVec manifest, MAX_MANIFEST_BYTES⟩]⟩ := by
  unfold plan
  rw [hsafe, ok_bind, if_neg hchunk, hlog, ok_bind, hpreflight, ok_bind, ← hchunks, ← himages]
  rfl

end Vidarax.Archive
