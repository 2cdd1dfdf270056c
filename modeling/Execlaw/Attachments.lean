import Execlaw.Keyed
import Execlaw.Locks
import Mathlib.Data.List.Dedup
/-!
# Attachments — stored files and the rows that refer to them (`core/src/attachments.rs`)

The rows of attachments and artifacts refer to files by path.  Artifacts are content-addressed: a file of the artifacts
root is called by its digest and may be shared by many rows.  A file is published under a temporary name and renamed;
a file is removed by whoever removes the last row that refers to its path.  Publishers and removers take the write lock
of the path, `insert_artifact` its read lock, and `insert` none.
-/
namespace Execlaw

open Table Locks

/-! ## Names and digests -/

def isAsciiHexdigit (c : Char) : Bool :=
  ('0' ≤ c && c ≤ '9') || ('a' ≤ c && c ≤ 'f') || ('A' ≤ c && c ≤ 'F')

def isSha256Filename (name : String) : Bool := name.toList.length == 64 && name.toList.all isAsciiHexdigit

def isTemporaryName (name : String) : Bool :=
  ".".toList.isPrefixOf name.toList && (".tmp".toList.isSuffixOf name.toList || ".tmp-".toList.isPrefixOf name.toList)

structure Sha256 where
  hex : List UInt8 → String
  named : ∀ bytes, isSha256Filename (hex bytes) = true

def joinPath (root name : String) : String := root ++ "/" ++ name

def pluginArtifactPath (root sha256 : String) : String := joinPath root sha256

/-! ## Rows and files -/

structure AttachmentRow where
  id : String
  path : String
  sha256 : String
deriving DecidableEq

structure ArtifactRow where
  id : String
  kind : String
  path : String
  sha256 : String
  bytes : Option Int
  pluginId : Option String
  expiresAt : Option Int

structure ToolResultRow where
  artifactId : String
  conversationId : String
  runId : String
  sha256 : String
  byteLength : Int
deriving DecidableEq

structure StoredFile where
  bytes : List UInt8
  modifiedAt : Int
deriving DecidableEq

structure Blobs where
  files : List (String × StoredFile)
  attachments : Keyed AttachmentRow.id (fun _ => True)
  artifacts : Keyed ArtifactRow.id (fun _ => True)
  results : Keyed ToolResultRow.artifactId (fun _ => True)

namespace Blobs

def file (s : Blobs) (path : String) : Option StoredFile := Table.get path s.files

def put (path : String) (f : StoredFile) (s : Blobs) : Blobs := { s with files := Table.upsert path f s.files }

def unlink (path : String) (s : Blobs) : Blobs :=
  { s with files := s.files.filter (fun e => decide (e.1 ≠ path)) }

def references (s : Blobs) (path : String) : Nat :=
  s.artifacts.rows.countP (fun r => r.path == path) + s.attachments.rows.countP (fun r => r.path == path)

def deleteAttachment (id : String) (s : Blobs) : Blobs :=
  { s with attachments := s.attachments.remove id (fun _ => true) }

def deleteArtifact (id : String) (s : Blobs) : Blobs :=
  { s with artifacts := s.artifacts.remove id (fun _ => true), results := s.results.remove id (fun _ => true) }

end Blobs

structure PluginArtifactCreated where
  attachmentId : String
  sha256 : String
  sizeBytes : Nat

inductive AttachmentError
  | sqlite
  | io
  | migration (operation : String)
  | invariant (msg : String)

structure Answer where
  ok : Bool
  now : Int

inductive Mark
  | stores (path sha256 : String)
  | registers (path sha256 : String)
  | purges (id path : String)
  | unlinks (path : String)

abbrev Task (α : Type) : Type := ExceptT AttachmentError (Prog Blobs String Mark Answer) α

def dbQuery {α : Type} (f : Blobs → α) : Task α :=
  atomically none fun a s => (if a.ok then .ok (f s) else .error .sqlite, s)

def dbTransaction {α : Type} (mark : Option Mark) (f : Blobs → Except AttachmentError (α × Blobs)) : Task α :=
  atomically mark fun a s =>
    if a.ok then
      match f s with
      | .ok (x, s') => (.ok x, s')
      | .error e => (.error e, s)
    else (.error .sqlite, s)

def systemCall (e : AttachmentError) : Task Unit := atomically none fun a s => (if a.ok then .ok () else .error e, s)

def fileExists (path : String) : Task Bool := atomically none fun _ s => (.ok (s.file path).isSome, s)

def createNew (path : String) : Task Unit :=
  atomically none fun a s => if a.ok && (s.file path).isNone then (.ok (), s.put path ⟨[], a.now⟩) else (.error .io, s)

/-- `File::create`, which truncates a file it finds. -/
def createFile (path : String) : Task Unit :=
  atomically none fun a s =>
    if a.ok then (.ok (), s.put path ⟨[], a.now⟩) else (.error (.migration "plugin artifact from path: create temp"), s)

/-- `write_all` and `sync_all` of an open file. -/
def writeAll (path : String) (bytes : List UInt8) : Task Unit :=
  atomically none fun a s => if a.ok then (.ok (), s.put path ⟨bytes, a.now⟩) else (.error .io, s)

def renameFile (source target : String) : Task Unit :=
  atomically none fun a s =>
    match s.file source with
    | some f => if a.ok then (.ok (), (s.unlink source).put target f) else (.error .io, s)
    | none => (.error .io, s)

/-- `remove_file`: whether a file was there. -/
def removeFile (path : String) : Task Bool :=
  atomically (some (.unlinks path)) fun a s =>
    match s.file path with
    | none => (.ok false, s)
    | some _ => if a.ok then (.ok true, s.unlink path) else (.error .io, s)

def discardFile (path : String) : Task Unit :=
  atomically (some (.unlinks path)) fun a s => (.ok (), if a.ok then s.unlink path else s)

def ensureInformationLabel : Task Unit := dbQuery fun _ => ()

section Store

variable (sha : Sha256)

def verifyContentAddressed (path expectedSha256 : String) (expectedBytes : Nat) : Task Unit :=
  atomically none fun a s =>
    match s.file path with
    | none => (.error .io, s)
    | some f =>
      if !a.ok then (.error .io, s)
      else if f.bytes.length ≠ expectedBytes then
        (.error (.invariant "content-addressed artifact path is not a regular file of the referenced size"), s)
      else if sha.hex f.bytes ≠ expectedSha256 then
        (.error (.invariant "existing content-addressed artifact does not match its digest or size"), s)
      else (.ok (), s)

def writeAndRename (temporary path : String) (bytes : List UInt8) (sha256 : String) : Task Unit := do
  createNew temporary
  writeAll temporary bytes
  match ← attempt (renameFile temporary path) with
  | .ok () => pure ()
  | .error e =>
    if ← fileExists path then do
      verifyContentAddressed sha path sha256 bytes.length
      discardFile temporary
    else throw e

def publishContentAddressed (path root : String) (bytes : List UInt8) (sha256 uuid : String) : Task Unit := do
  systemCall (.migration ("create artifact directory " ++ root))
  if ← fileExists path then verifyContentAddressed sha path sha256 bytes.length
  else do
    let temporary := joinPath root ("." ++ sha256 ++ "." ++ uuid ++ ".tmp")
    locked .write temporary do
      match ← attempt (writeAndRename sha temporary path bytes sha256) with
      | .ok () => pure ()
      | .error e => do
        discardFile temporary
        throw e

def insertAttachment (row : AttachmentRow) : Task Unit := do
  dbTransaction (some (.stores row.path row.sha256)) fun s =>
    match s.attachments.insert? row trivial with
    | some attachments => .ok ((), { s with attachments := attachments })
    | none => .error .sqlite
  ensureInformationLabel

def insertArtifactMetadata (mark : Option Mark) (row : ArtifactRow) : Task Unit :=
  dbTransaction mark fun s =>
    match s.artifacts.insert? row trivial with
    | some artifacts => .ok ((), { s with artifacts := artifacts })
    | none => .error .sqlite

def insertArtifact (row : ArtifactRow) : Task Unit :=
  locked .read row.path do
    insertArtifactMetadata (some (.registers row.path row.sha256)) row
    ensureInformationLabel

/-- `insert_plugin_artifact`, with the two names it draws. -/
def insertPluginArtifact (root pluginId : String) (bytes : List UInt8) (ttlSeconds : Option Int) (now : Int)
    (uuid attachmentId : String) : Task PluginArtifactCreated := do
  let sha256 := sha.hex bytes
  let path := pluginArtifactPath root sha256
  locked .write path do
    publishContentAddressed sha path root bytes sha256 uuid
    insertArtifactMetadata none
      { id := attachmentId
        kind := "plugin_artifact"
        path := path
        sha256 := sha256
        bytes := some bytes.length
        pluginId := some pluginId
        expiresAt := ttlSeconds.map (now + ·) }
    ensureInformationLabel
    pure ⟨attachmentId, sha256, bytes.length⟩

def placeStreamed (temporary path sha256 : String) (total : Nat) : Task Unit := do
  if ← fileExists path then do
    verifyContentAddressed sha path sha256 total
    discardFile temporary
  else
    match ← attempt (renameFile temporary path) with
    | .ok () => pure ()
    | .error _ => do
      discardFile temporary
      throw (.migration "plugin artifact from path: rename")

/-- `insert_plugin_artifact_from_path`, of a source that reads as `content`. -/
def insertPluginArtifactFromPath (root pluginId : String) (content : List UInt8) (ttlSeconds : Option Int) (now : Int)
    (uuid attachmentId : String) : Task PluginArtifactCreated := do
  systemCall (.migration ("plugin artifact from path: create_dir_all " ++ root))
  systemCall (.migration "plugin artifact from path: open source")
  let temporary := joinPath root (".tmp-" ++ uuid)
  locked .write temporary do
    createFile temporary
    match ← attempt (writeAll temporary content) with
    | .error _ => do
      discardFile temporary
      throw (.migration "plugin artifact from path: write temp")
    | .ok () => do
      let sha256 := sha.hex content
      let path := pluginArtifactPath root sha256
      locked .write path do
        placeStreamed sha temporary path sha256 content.length
        insertArtifactMetadata none
          { id := attachmentId
            kind := "plugin_artifact"
            path := path
            sha256 := sha256
            bytes := some content.length
            pluginId := some pluginId
            expiresAt := ttlSeconds.map (now + ·) }
        ensureInformationLabel
        pure ⟨attachmentId, sha256, content.length⟩

def badArtifactId (artifactId : String) : Bool :=
  artifactId.isEmpty || 128 < artifactId.utf8ByteSize ||
    !artifactId.toList.all (fun c => c.isAlphanum || c == '-' || c == '_')

def checkArtifact (row : ArtifactRow) (s : Blobs) : Except AttachmentError Unit :=
  match s.artifacts.row row.id with
  | none => .ok ()
  | some existing =>
    if existing.bytes.isNone then .error .sqlite
    else if (existing.path, existing.sha256, existing.bytes, existing.kind) ≠
        (row.path, row.sha256, row.bytes, row.kind) then
      .error (.invariant "artifact id was reused with different bytes or kind")
    else .ok ()

def checkLink (link : ToolResultRow) (s : Blobs) : Except AttachmentError Unit :=
  match s.results.row link.artifactId with
  | none => .ok ()
  | some existing =>
    if existing ≠ link then .error (.invariant "artifact id belongs to another run or digest") else .ok ()

/-- The two `INSERT OR IGNORE`, each checked against what it found. -/
def storeToolResult (row : ArtifactRow) (link : ToolResultRow) (s : Blobs) :
    Except AttachmentError (Unit × Blobs) := do
  checkArtifact row s
  checkLink link s
  pure ((), { s with artifacts := s.artifacts.insertOrIgnore row trivial
                     results := s.results.insertOrIgnore link trivial })

def insertToolResultArtifactWithId (root conversationId runId artifactId : String) (bytes : List UInt8) (now : Int)
    (uuid : String) : Task PluginArtifactCreated :=
  if 50 * 1024 * 1024 < bytes.length then throw (.invariant "tool result exceeds the 50 MiB artifact limit")
  else if badArtifactId artifactId then throw (.invariant "tool result artifact id is invalid")
  else do
    let sha256 := sha.hex bytes
    let path := pluginArtifactPath root sha256
    locked .write path do
      publishContentAddressed sha path root bytes sha256 uuid
      dbTransaction none (storeToolResult
        { id := artifactId
          kind := "tool_result"
          path := path
          sha256 := sha256
          bytes := some bytes.length
          pluginId := none
          expiresAt := some (min (now + 30 * 24 * 60 * 60) (2 ^ 63 - 1)) }
        { artifactId := artifactId
          conversationId := conversationId
          runId := runId
          sha256 := sha256
          byteLength := bytes.length })
      ensureInformationLabel
      pure ⟨artifactId, sha256, bytes.length⟩

end Store

def deleteAttachmentRow (id : String) (s : Blobs) : Except AttachmentError (Option (String × Bool) × Blobs) :=
  match s.attachments.row id with
  | none => .ok (none, s)
  | some row => .ok (some (row.path, (s.deleteAttachment id).references row.path == 0), s.deleteAttachment id)

def purgeAttachment (id : String) : Task Bool := do
  match ← dbQuery (fun s => s.attachments.row id) with
  | none => pure false
  | some before =>
    locked .write before.path do
      match ← dbTransaction (some (.purges id before.path)) (deleteAttachmentRow id) with
      | none => pure false
      | some (_, false) => pure true
      | some (path, true) => do
        let _ ← removeFile path
        pure true

def removeArtifactRow (id path : String) : Task Unit :=
  locked .write path do
    dbTransaction none (fun s => .ok ((), s.deleteArtifact id))
    let stillUsed ← dbQuery (fun s => s.references path)
    if stillUsed = 0 then do
      let _ ← removeFile path
      pure ()
    else pure ()

def removeArtifactRows : List (String × String) → Task Nat
  | [] => pure 0
  | (id, path) :: rest => do
    removeArtifactRow id path
    let removed ← removeArtifactRows rest
    pure (removed + 1)

def artifactsWhere (p : ArtifactRow → Bool) (s : Blobs) : List (String × String) :=
  (s.artifacts.rows.filter p).map (fun r => (r.id, r.path))

def purgeArtifactsForPlugin (pluginId : String) : Task Nat := do
  let rows ← dbQuery (artifactsWhere (fun r => r.pluginId == some pluginId))
  removeArtifactRows rows

def sweepExpiredPluginArtifacts (now : Int) : Task Nat := do
  let expired ← dbQuery (artifactsWhere (fun r => r.expiresAt.any (fun e => decide (e ≤ now))))
  removeArtifactRows expired

def entryName (root path : String) : Option String :=
  if (joinPath root "").toList.isPrefixOf path.toList then
    some (String.ofList (path.toList.drop (joinPath root "").toList.length))
  else none

def Blobs.entries (root : String) (s : Blobs) : List String :=
  ((s.files.filterMap (fun e => entryName root e.1)).filter (fun n => !n.toList.contains '/')).dedup

/-- `read_dir`; a root that is not there has no entries. -/
def readDir (root : String) : Task (List String) :=
  atomically none fun a s => (if a.ok then .ok (s.entries root) else .error .io, s)

def isStale (name : String) (f : StoredFile) (now minimumAgeSeconds : Int) : Bool :=
  (isSha256Filename name || isTemporaryName name) && decide (0 ≤ f.modifiedAt) &&
    decide (max minimumAgeSeconds 0 ≤ now - f.modifiedAt)

def symlinkMetadata (path : String) : Task StoredFile :=
  atomically none fun a s =>
    match s.file path with
    | some f => (if a.ok then .ok f else .error .io, s)
    | none => (.error .io, s)

def sweepStale (name path : String) : Task Bool :=
  locked .write path do
    if isSha256Filename name then do
      let referenced ← dbQuery (fun s => s.references path)
      if referenced ≠ 0 then pure false else removeFile path
    else removeFile path

def sweepEntries (root : String) (now minimumAgeSeconds : Int) : List String → Task Nat
  | [] => pure 0
  | name :: rest => do
    let metadata ← symlinkMetadata (joinPath root name)
    if isStale name metadata now minimumAgeSeconds then do
      let removed ← sweepStale name (joinPath root name)
      let others ← sweepEntries root now minimumAgeSeconds rest
      pure (others + removed.toNat)
    else sweepEntries root now minimumAgeSeconds rest

def sweepOrphanArtifactBlobs (root : String) (now minimumAgeSeconds : Int) : Task Nat := do
  let entries ← readDir root
  sweepEntries root now minimumAgeSeconds entries

inductive AttachmentCall
  | insert (row : AttachmentRow)
  | insertArtifact (row : ArtifactRow)
  | insertPluginArtifact (pluginId : String) (bytes : List UInt8) (ttlSeconds : Option Int) (now : Int)
      (uuid attachmentId : String)
  | insertPluginArtifactFromPath (pluginId : String) (content : List UInt8) (ttlSeconds : Option Int) (now : Int)
      (uuid attachmentId : String)
  | insertToolResultArtifactWithId (conversationId runId artifactId : String) (bytes : List UInt8) (now : Int)
      (uuid : String)
  | purgeAttachment (id : String)
  | purgeArtifactsForPlugin (pluginId : String)
  | sweepExpiredPluginArtifacts (now : Int)
  | sweepOrphanArtifactBlobs (now minimumAgeSeconds : Int)

inductive AttachmentReply
  | done
  | created (artifact : PluginArtifactCreated)
  | purged (found : Bool)
  | count (removed : Nat)

def AttachmentCall.task (sha : Sha256) (root : String) : AttachmentCall → Task AttachmentReply
  | insert row => do
    Execlaw.insertAttachment row
    pure .done
  | insertArtifact row => do
    Execlaw.insertArtifact row
    pure .done
  | insertPluginArtifact pluginId bytes ttlSeconds now uuid attachmentId => do
    let artifact ← Execlaw.insertPluginArtifact sha root pluginId bytes ttlSeconds now uuid attachmentId
    pure (.created artifact)
  | insertPluginArtifactFromPath pluginId content ttlSeconds now uuid attachmentId => do
    let artifact ← Execlaw.insertPluginArtifactFromPath sha root pluginId content ttlSeconds now uuid attachmentId
    pure (.created artifact)
  | insertToolResultArtifactWithId conversationId runId artifactId bytes now uuid => do
    let artifact ← Execlaw.insertToolResultArtifactWithId sha root conversationId runId artifactId bytes now uuid
    pure (.created artifact)
  | purgeAttachment id => do
    let found ← Execlaw.purgeAttachment id
    pure (.purged found)
  | purgeArtifactsForPlugin pluginId => do
    let removed ← Execlaw.purgeArtifactsForPlugin pluginId
    pure (.count removed)
  | sweepExpiredPluginArtifacts now => do
    let removed ← Execlaw.sweepExpiredPluginArtifacts now
    pure (.count removed)
  | sweepOrphanArtifactBlobs now minimumAgeSeconds => do
    let removed ← Execlaw.sweepOrphanArtifactBlobs root now minimumAgeSeconds
    pure (.count removed)

structure PlacedFile where
  path : String
  bytes : List UInt8
  now : Int

def placeFile (sha : Sha256) (root : String) (e : PlacedFile) (s : Blobs) : Option Blobs :=
  if (s.file e.path).isNone && (entryName root e.path).all (fun name => name == sha.hex e.bytes) then
    some (s.put e.path ⟨e.bytes, e.now⟩)
  else none

end Execlaw
