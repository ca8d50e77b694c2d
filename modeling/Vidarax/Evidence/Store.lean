import Mathlib.Logic.Function.Iterate
import Vidarax.Base.Hex
import Vidarax.Base.Volume

/-!
# The store of evidence

Package `vidarax-api`, `wal_sink.rs` 49–266, 343–515. Images, clips and sounds are kept in files
that are named by their SHA-256, and a file is stored before an event that names it is appended.
Calls run at the same time, and every step of a call is one operation on the file system, which may
fail. A crash or an exit ends all calls, and the next process starts with its own number.
-/

namespace Vidarax.Evidence

open Base

/-- `keyframe_blob_root` and `media_blob_root`. -/
inductive BlobRoot where
  | keyframes
  | media
  deriving DecidableEq

/-- Extensions of stored files. -/
inductive Extension where
  | jpg
  | mp4
  | wav
  deriving DecidableEq

/-- Paths in the directory of the log. -/
inductive BlobPath where
  /-- `keyframes` and `media`. -/
  | home (root : BlobRoot)
  /-- `keyframes/blobs` and `media/blobs`. -/
  | blobs (root : BlobRoot)
  /-- A directory of `blobs`. -/
  | shard (root : BlobRoot) (name : List Char)
  /-- `{sha256}.{extension}` in the directory of its first two digits. -/
  | blob (root : BlobRoot) (sha256 : List Char) (extension : Extension)
  /-- `.{sha256}.{extension}.{process}.{sequence}.tmp` beside it. -/
  | temp (root : BlobRoot) (sha256 : List Char) (extension : Extension) (process sequence : Nat)
  deriving DecidableEq

/-- The directory of a path; `none` is the directory of the log. -/
def BlobPath.parent : BlobPath → Option BlobPath
  | home _ => none
  | blobs root => some (home root)
  | shard root _ => some (blobs root)
  | blob root sha256 _ | temp root sha256 _ _ _ => some (shard root (sha256.take 2))

/-- What a call stores. -/
structure Blob where
  root : BlobRoot
  extension : Extension
  data : Bytes

/-- Extensions of the supported media types; `wal_sink.rs:105–109`. -/
def mediaExtension : String → Option Extension
  | "video/mp4" => some .mp4
  | "audio/wav" | "audio/x-wav" | "audio/wave" => some .wav
  | _ => none

/-- What `persist_keyframe_blob` and `persist_media_blob` are called with. -/
inductive Request where
  | keyframe (jpeg_data : Bytes)
  | media (data : Bytes) (media_type : String)

/-- The file of a request. -/
def Request.blob : Request → Except String Blob
  | keyframe jpeg_data => .ok ⟨.keyframes, .jpg, jpeg_data⟩
  | media data media_type =>
    match mediaExtension media_type with
    | some extension => .ok ⟨.media, extension, data⟩
    | none => .error s!"unsupported media sidecar type {media_type}"

/-- Where a call is: the operation that comes next. -/
inductive Stage where
  /-- `create_dir_all`, with the levels still to make. -/
  | createDirectories (rest : List BlobPath)
  /-- `sync_blob_parent_directories`, with the directories still to sync. -/
  | syncParents (rest : List (Option BlobPath))
  /-- `final_path.exists()`. -/
  | checkFinal
  /-- `NEXT_BLOB_TEMP.fetch_add`. -/
  | takeSequence
  /-- `options.open(&temp_path)`. -/
  | createTemp (sequence : Nat)
  /-- `file.write_all(data)`. -/
  | writeTemp (sequence inode : Nat)
  /-- `sync_file_durable(&file)`. -/
  | syncTemp (sequence inode : Nat)
  /-- `hard_link(&temp_path, final_path)`. -/
  | hardLink (sequence : Nat)
  /-- `remove_file(&temp_path)`. -/
  | removeTemp (sequence : Nat) (created : Bool)
  /-- `sync_blob_directory` after a link. -/
  | syncLinked (sequence : Nat)
  /-- `symlink_metadata` of a file that is there. -/
  | inspect
  /-- `File::open` of it. -/
  | openExisting
  /-- Reading it, and comparing. -/
  | compare (inode : Nat)
  /-- `sync_file_durable` of it. -/
  | syncExisting (inode : Nat)
  /-- `sync_blob_directory` of it. -/
  | syncShard
  /-- `remove_file(&temp_path)` after an error. -/
  | cleanUp (sequence : Nat)
  /-- The file is stored; `append_run_event` comes next. -/
  | persisted (created : Bool)
  | appended
  | failed
  deriving DecidableEq

/-- How an operation ends. One that fails may have had its effect, and a write that fails leaves
any contents. -/
inductive Outcome where
  | ok
  | error (done : Bool) (left : Bytes)

/-- The volume after an operation with an effect. -/
def Outcome.choose (o : Outcome) (v w : Volume BlobPath) : Volume BlobPath :=
  match o with
  | ok | error true _ => w
  | error false _ => v

/-- The stage after an operation. -/
def Outcome.stage (o : Outcome) (next failure : Stage) : Stage :=
  match o with
  | ok => next
  | error .. => failure

variable (sha256 : Bytes → Bytes)

/-- The text of a hash. -/
def sha256Hex (data : Bytes) : List Char := (sha256 data).flatMap fun byte ↦ hex 2 byte.toNat

namespace Blob

variable (b : Blob)

/-- `final_path`. -/
def path : BlobPath := .blob b.root (sha256Hex sha256 b.data) b.extension

/-- `directory`. -/
def shard : BlobPath := .shard b.root ((sha256Hex sha256 b.data).take 2)

/-- `temp_path`. -/
def temp (process sequence : Nat) : BlobPath :=
  .temp b.root (sha256Hex sha256 b.data) b.extension process sequence

/-- The directories above the file. -/
def levels : List BlobPath := [.home b.root, .blobs b.root, b.shard sha256]

end Blob

/-- A call that stores a file and appends an event. -/
structure Call where
  blob : Blob
  stage : Stage

/-- Remove a file. -/
def unlink (v : Volume BlobPath) (p : BlobPath) : Volume BlobPath :=
  if v.entry p = none then v else v.set p none

/-- One operation of a call: the volume, the next sequence number and the stage after it. -/
def Call.advance (call : Call) (process : Nat) (v : Volume BlobPath) (next : Nat) (o : Outcome) :
    Volume BlobPath × Nat × Stage :=
  let b := call.blob
  let path := b.path sha256
  let temp := b.temp sha256 process
  match call.stage with
  | .createDirectories [] =>
    (v, next, .syncParents [none, some (.home b.root), some (.blobs b.root)])
  | .createDirectories (level :: rest) =>
    match v.entry level with
    | some .directory => (v, next, o.stage (.createDirectories rest) .failed)
    | some (.file _) => (v, next, .failed)
    | none =>
      (o.choose v (v.set level (some .directory)), next, o.stage (.createDirectories rest) .failed)
  | .syncParents [] => (v, next, .checkFinal)
  | .syncParents (d :: rest) =>
    (o.choose v (v.syncDirectory BlobPath.parent d), next, o.stage (.syncParents rest) .failed)
  | .checkFinal =>
    -- `exists` says no where it cannot tell.
    (v, next, o.stage (if (v.entry path).isSome then .inspect else .takeSequence) .takeSequence)
  | .takeSequence => (v, next + 1, .createTemp next)
  | .createTemp sequence =>
    match v.entry (temp sequence) with
    | some _ => (v, next, .cleanUp sequence)
    | none =>
      (o.choose v (v.createFile (temp sequence)), next,
        o.stage (.writeTemp sequence v.next) (.cleanUp sequence))
  | .writeTemp sequence inode =>
    match o with
    | .ok => (v.writeFile inode b.data, next, .syncTemp sequence inode)
    | .error _ left => (v.writeFile inode left, next, .cleanUp sequence)
  | .syncTemp sequence inode =>
    (o.choose v (v.syncFile inode), next, o.stage (.hardLink sequence) (.cleanUp sequence))
  | .hardLink sequence =>
    match v.entry (temp sequence), v.entry path with
    | none, _ => (v, next, .cleanUp sequence)
    | some _, some _ => (v, next, o.stage (.removeTemp sequence false) (.cleanUp sequence))
    | some e, none =>
      (o.choose v (v.set path (some e)), next,
        o.stage (.removeTemp sequence true) (.cleanUp sequence))
  | .removeTemp sequence created =>
    match v.entry (temp sequence) with
    | none => (v, next, .cleanUp sequence)
    | some _ =>
      (o.choose v (unlink v (temp sequence)), next,
        o.stage (if created then .syncLinked sequence else .inspect) (.cleanUp sequence))
  | .syncLinked sequence =>
    (o.choose v (v.syncDirectory BlobPath.parent (some (b.shard sha256))), next,
      o.stage (.persisted true) (.cleanUp sequence))
  | .inspect =>
    match v.entry path with
    | some (.file i) =>
      (v, next, o.stage (if (v.data i).length = b.data.length then .openExisting else .failed)
        .failed)
    | _ => (v, next, .failed)
  | .openExisting =>
    match v.entry path with
    | some (.file i) => (v, next, o.stage (.compare i) .failed)
    | _ => (v, next, .failed)
  | .compare i =>
    (v, next, o.stage (if v.data i = b.data then .syncExisting i else .failed) .failed)
  | .syncExisting i => (o.choose v (v.syncFile i), next, o.stage .syncShard .failed)
  | .syncShard =>
    (o.choose v (v.syncDirectory BlobPath.parent (some (b.shard sha256))), next,
      o.stage (.persisted false) .failed)
  | .cleanUp sequence => (o.choose v (unlink v (temp sequence)), next, .failed)
  | .persisted _ => (v, next, o.stage .appended .failed)
  | .appended => (v, next, .appended)
  | .failed => (v, next, .failed)

/-- What an appended event says of a stored file, beside the bytes that were to be stored. -/
structure Reference where
  image_ref : BlobPath
  sha256 : List Char
  bytes : Nat
  data : Bytes
  deriving DecidableEq

/-- The reference to a file. -/
def Blob.reference (b : Blob) : Reference where
  image_ref := b.path sha256
  sha256 := sha256Hex sha256 b.data
  bytes := b.data.length
  data := b.data

/-- The events that an operation of a call appends; an append that fails may have had its effect. -/
def Call.appends (call : Call) (o : Outcome) : List Reference :=
  match call.stage, o with
  | .persisted _, .ok | .persisted _, .error true _ => [call.blob.reference sha256]
  | _, _ => []

/-- A data directory, the process that uses it, and its calls. -/
structure System where
  volume : Volume BlobPath
  process : Nat
  nextTemp : Nat
  calls : List Call
  staged : List Reference

namespace System

/-- An empty directory. -/
def initial (process : Nat) : System :=
  ⟨⟨fun _ ↦ none, fun _ ↦ [], fun _ ↦ [], fun _ ↦ false, 0⟩, process, 0, [], []⟩

/-- A call begins. -/
def start (s : System) (b : Blob) : System :=
  { s with calls := s.calls ++ [⟨b, .createDirectories (b.levels sha256)⟩] }

/-- A call makes a step. -/
def run (s : System) (id : Nat) (o : Outcome) : System :=
  match s.calls[id]? with
  | none => s
  | some call =>
    let (volume, nextTemp, stage) := call.advance sha256 s.process s.volume s.nextTemp o
    { s with
      volume := volume
      nextTemp := nextTemp
      calls := s.calls.set id ⟨call.blob, stage⟩
      staged := s.staged ++ call.appends sha256 o }

/-- A call that nothing interrupts and no error ends; no call has more operations. -/
def attempt (b : Blob) (s : System) : System :=
  (fun t ↦ t.run sha256 s.calls.length .ok)^[17] (s.start sha256 b)

/-- Another process starts on a volume. -/
def restart (s : System) (v : Volume BlobPath) (process : Nat) : System :=
  ⟨v, process, 0, [], s.staged⟩

/-- Steps of a system. -/
inductive Step (s : System) : System → Prop where
  | start (request : Request) (b : Blob) (h : request.blob = .ok b) : Step s (s.start sha256 b)
  | run (id : Nat) (o : Outcome) : Step s (s.run sha256 id o)
  | exit (process : Nat) : Step s (s.restart s.volume process)
  | crash (v : Volume BlobPath) (process : Nat) (h : s.volume.Crash BlobPath.parent v) :
    Step s (s.restart v process)

/-- States of a run that starts in an empty directory. -/
inductive Reachable : System → Prop where
  | initial (process : Nat) : Reachable (initial process)
  | step {s s' : System} (h : Reachable s) (hstep : s.Step sha256 s') : Reachable s'

end System

end Vidarax.Evidence
