import Execlaw.Interleave
import Execlaw.Outbox
import Execlaw.UnicodeText
import Mathlib.Data.List.Dedup
import Mathlib.Data.List.Infix
import Mathlib.Data.String.Basic
/-!
# SkillStore — skills, their versions and the proposals for them (`skills/src/store.rs`, `skills/src/model.rs`)

A skill is a row that points at its current version; versions are added and never removed.  Resources are rows of a
version and a content-addressed blob, whose count two triggers keep.  `forget` blanks a skill and fences its name with a
tombstone.  Each store call is a program of its transactions: `approve_proposal` takes four, in which other calls come
between.  SHA-256, the JSON parser, the matching of the secret scanner and the full-text index are parameters.
-/
namespace Execlaw

open Table Interleave

inductive SkillState
  | trial | stable | archived
deriving DecidableEq

inductive RegistrationKind
  | authored | shipped | registered
deriving DecidableEq

structure SkillRow where
  id : Nat
  name : String
  currentVersionId : Option Nat
  state : SkillState
  source : String
  registrationKind : RegistrationKind
  owningPluginId : Option String
  createdAt : Int
  archivedAt : Option Int
deriving DecidableEq

structure SearchRow where
  rowid : Nat
  description : String
  bodyMd : String
deriving DecidableEq

structure SkillVersion where
  id : Nat
  skillId : Nat
  version : Nat
  description : String
  bodyMd : String
  frontmatterJson : String
  bodySha256 : String
  authoredBy : String
  authoredAt : Int
  promotionNotes : Option String
  parentVersionId : Option Nat
deriving DecidableEq

def SkillVersion.searchRow (v : SkillVersion) : SearchRow := ⟨v.id, v.description, v.bodyMd⟩

structure ResourceRow where
  skillVersionId : Nat
  path : String
  blobSha : String
deriving DecidableEq

def ResourceRow.key (r : ResourceRow) : Nat × String := (r.skillVersionId, r.path)

/-- A row of `state_blobs`; its `size_bytes` is the length. -/
structure BlobRow where
  sha256 : String
  bytes : List UInt8
  mime : String
  refcount : Int
deriving DecidableEq

inductive ProposalKind
  | newSkill | versionFork
deriving DecidableEq

inductive ProposalState
  | pending | approved | rejected | superseded
deriving DecidableEq

def ProposalState.asStr : ProposalState → String
  | pending => "pending"
  | approved => "approved"
  | rejected => "rejected"
  | superseded => "superseded"

structure SkillProposal where
  id : Nat
  kind : ProposalKind
  targetSkillId : Option Nat
  proposedName : String
  description : String
  bodyMd : String
  frontmatterJson : String
  sourceRunId : String
  trajectorySummary : Option String
  toolCallsObserved : Nat
  state : ProposalState
  promotedSkillId : Option Nat := none
  promotedVersionId : Option Nat := none
  createdAt : Int
  reviewedAt : Option Int := none
  reviewer : Option String := none
  decisionNotes : Option String := none
deriving DecidableEq

structure SkillTombstone where
  skillId : Nat
  nameSha256 : String
  requestedBy : String
  requestedAt : Int
deriving DecidableEq

structure EvalCase where
  skillName : String
  caseId : String
  prompt : String
  requiredTermsJson : String
  forbiddenTermsJson : String
  minOutputChars : Int
  maxOutputChars : Int
  maxOutputTokens : Int
  workspaceFilesJson : String
  expectedWorkspaceFilesJson : String
  mockIntegrationsJson : String
  expectedIntegrationCallsJson : String
  forbiddenActionsJson : String
deriving DecidableEq

structure EvalRun where
  skillName : String
  versionId : Nat
  bodySha256 : String
  evaluatorVersion : String
  passed : Bool
  resultsJson : String
  suiteSha256 : String
  modelId : Option String
  backendFingerprint : Option String
deriving DecidableEq

/-- The tables.  No row of `state_skills`, `state_skill_versions` or `state_skill_proposals` is ever deleted, so
`AUTOINCREMENT` counts their rows. -/
structure SkillStore where
  skills : List SkillRow
  versions : List SkillVersion
  index : List SearchRow
  resources : List ResourceRow
  blobs : List BlobRow
  proposals : List SkillProposal
  tombstones : List SkillTombstone
  evalCases : List EvalCase
  evalRuns : List EvalRun
deriving DecidableEq

def SkillStore.empty : SkillStore := ⟨[], [], [], [], [], [], [], [], []⟩

/-! ## Requests and errors -/

inductive Strictness
  | strict | warn

inductive Severity
  | block | warn
deriving DecidableEq

structure Finding where
  field : String
  severity : Severity

structure ResourceBlob where
  path : String
  mime : String
  bytes : List UInt8

structure NewSkillVersion where
  description : String
  bodyMd : String
  frontmatterJson : String
  authoredBy : String
  promotionNotes : Option String

structure NewSkill where
  name : String
  source : String
  registrationKind : RegistrationKind
  owningPluginId : Option String
  initialVersion : NewSkillVersion
  resources : List ResourceBlob

structure NewProposal where
  kind : ProposalKind
  targetSkillId : Option Nat
  proposedName : String
  description : String
  bodyMd : String
  frontmatterJson : String
  sourceRunId : String
  trajectorySummary : Option String
  toolCallsObserved : Nat

inductive SkillError
  | db (e : DbError)
  | invalidName (name : String)
  | notFound (what : String)
  | alreadyExists (name : String)
  | invalidStateTransition (source target : String)
  | blocked (findings : Nat) (fields : List String)
  | invalidFrontmatter (msg : String)
  | resourceTooLarge (size cap : Nat)
  | bodyTooLarge (size cap : Nat)
  | denied (msg : String)
deriving DecidableEq

structure SkillPrivacyDeletionReport where
  alreadyForgotten : Bool := false
  versionsScrubbed : Nat := 0
  proposalsScrubbed : Nat := 0
  evaluationRunsScrubbed : Nat := 0
  evaluationCasesRemoved : Nat := 0
  resourcesRemoved : Nat := 0
  blobsRemoved : Nat := 0
deriving DecidableEq

/-- What the store uses of its libraries: hex SHA-256, the parse of a JSON text, the findings of the secret scanner's
expressions, the hash of the JSON of a suite, the rowids that match a full-text query, best first, and `{:?}`. -/
structure SkillLib where
  sha256Hex : List UInt8 → String
  parseJson : String → Except String Unit
  findings : String → String → String → List (String × List UInt8) → List Finding
  suiteSha256 : List EvalCase → String
  fullText : List SearchRow → String → List Nat
  debug : Option String → String

def SkillLib.sha256Text (lib : SkillLib) (text : String) : String := lib.sha256Hex text.toUTF8.toList

def maxBodyBytes : Nat := 256 * 1024

def maxResourceBytes : Nat := 1024 * 1024

def maxSkillTotalBytes : Nat := 10 * 1024 * 1024

def skillEvalVersion : String := "skill-eval-v2-behavioral-assertions"

/-- One side of the `/`. -/
def validSegment : List Char → Bool
  | [] => false
  | c :: cs => (c.isLower || c.isDigit) && cs.all fun c => c.isLower || c.isDigit || c == '-'

def validateSkillName (name : String) : Except SkillError Unit :=
  let parts := name.toList.splitOn '/'
  if name.utf8ByteSize < 3 || 128 < name.utf8ByteSize || parts.length != 2 || !parts.all validSegment then
    .error (.invalidName name)
  else .ok ()

def validateFrontmatter (lib : SkillLib) (text : String) : Except SkillError Unit :=
  (lib.parseJson text).mapError .invalidFrontmatter

def validateBody (body : String) : Except SkillError Unit :=
  if maxBodyBytes < body.utf8ByteSize then .error (.bodyTooLarge body.utf8ByteSize maxBodyBytes) else .ok ()

/-- The loop of `validate_sizes`; `total` is what came before. -/
def validateResources (total : Nat) : List ResourceBlob → Except SkillError Unit
  | [] => if maxSkillTotalBytes < total then .error (.resourceTooLarge total maxSkillTotalBytes) else .ok ()
  | r :: rs =>
    if maxResourceBytes < r.bytes.length then .error (.resourceTooLarge r.bytes.length maxResourceBytes)
    else validateResources (total + r.bytes.length) rs

def validateSizes (body : String) (resources : List ResourceBlob) : Except SkillError Unit := do
  validateBody body
  validateResources body.utf8ByteSize resources

/-- `scan`, then `run_scanner`. -/
def runScanner (lib : SkillLib) (v : NewSkillVersion) (resources : List ResourceBlob) (strictness : Strictness) :
    Except SkillError Unit :=
  let findings := lib.findings v.bodyMd v.description v.frontmatterJson (resources.map fun r => (r.path, r.bytes))
  let blocks : Bool := match strictness with
    | .strict => !findings.isEmpty
    | .warn => findings.any fun f => f.severity == .block
  if blocks then .error (.blocked findings.length (findings.map Finding.field)) else .ok ()

/-- The checks of `create` and `import_shipped`. -/
def checkNewSkill (lib : SkillLib) (new : NewSkill) (strictness : Strictness) : Except SkillError Unit := do
  validateSkillName new.name
  validateFrontmatter lib new.initialVersion.frontmatterJson
  validateSizes new.initialVersion.bodyMd new.resources
  runScanner lib new.initialVersion new.resources strictness

/-- The checks of `add_version`. -/
def checkNewVersion (lib : SkillLib) (v : NewSkillVersion) (strictness : Strictness) : Except SkillError Unit := do
  validateFrontmatter lib v.frontmatterJson
  validateBody v.bodyMd
  runScanner lib v [] strictness

def privacyNameHash (lib : SkillLib) (name : String) : String := lib.sha256Text ((trim name).map Char.toLower)

/-! ## Statements -/

namespace SkillStore

variable (lib : SkillLib) (s : SkillStore)

def skillNamed (name : String) : Option SkillRow := byKey SkillRow.name name s.skills

def versionsOf (skillId : Nat) : List SkillVersion := s.versions.filter fun v => decide (v.skillId = skillId)

def maxVersion (skillId : Nat) : Nat := ((s.versionsOf skillId).map SkillVersion.version).foldr max 0

def nameDeleted (hash : String) : Bool := s.tombstones.any fun t => t.nameSha256 == hash

/-- The skill has a tombstone. -/
def forgotten (skillId : Nat) : Bool := s.tombstones.any fun t => t.skillId == skillId

def ensureNameNotPrivacyDeleted (name : String) : Except DbError Unit :=
  let nameHash := privacyNameHash lib name
  if s.nameDeleted nameHash then
    .error (.invariant ("skill name was privacy-deleted and cannot be reused: " ++ nameHash))
  else .ok ()

/-- `INSERT INTO state_skill_versions` with its trigger, and the update of the skill that makes it current. -/
def writeVersion (v : SkillVersion) (set : SkillRow → SkillRow) : SkillStore :=
  { s with
    versions := s.versions ++ [v]
    index := s.index ++ [v.searchRow]
    skills := updateKey SkillRow.id v.skillId (fun r => set { r with currentVersionId := some v.id }) s.skills }

/-- `INSERT INTO state_skill_resources` with its trigger. -/
def insertResource (r : ResourceRow) : Except DbError SkillStore :=
  if s.resources.any fun x => x.key == r.key then
    .error (.sqlite "UNIQUE constraint failed: state_skill_resources.skill_version_id, state_skill_resources.path")
  else .ok { s with
    resources := s.resources ++ [r]
    blobs := updateKey BlobRow.sha256 r.blobSha (fun b => { b with refcount := b.refcount + 1 }) s.blobs }

def upsertBlob (bytes : List UInt8) (mime : String) : SkillStore :=
  if s.blobs.any fun b => b.sha256 == lib.sha256Hex bytes then s
  else { s with blobs := s.blobs ++ [⟨lib.sha256Hex bytes, bytes, mime, 0⟩] }

/-- The resources of a new version, one after another. -/
def attachAll (versionId : Nat) : List ResourceBlob → SkillStore → Except DbError SkillStore
  | [], s => .ok s
  | r :: rs, s => do
    let s ← (s.upsertBlob lib r.bytes r.mime).insertResource ⟨versionId, r.path, lib.sha256Hex r.bytes⟩
    attachAll versionId rs s

def copyAll (versionId : Nat) : List ResourceRow → SkillStore → Except DbError SkillStore
  | [], s => .ok s
  | r :: rs, s => do
    let s ← s.insertResource { r with skillVersionId := versionId }
    copyAll versionId rs s

/-- `DELETE FROM state_skill_resources` with its trigger. -/
def deleteResources (takes : ResourceRow → Bool) : SkillStore :=
  { s with
    resources := s.resources.filter fun r => !takes r
    blobs := (s.resources.filter takes).foldl (fun blobs r =>
      updateKey BlobRow.sha256 r.blobSha (fun b => { b with refcount := b.refcount - 1 }) blobs) s.blobs }

end SkillStore

/-- The row of a version under the next id. -/
def NewSkillVersion.row (lib : SkillLib) (v : NewSkillVersion) (s : SkillStore) (skillId : Nat) (now : Int)
    (parent : Option Nat) : SkillVersion where
  id := s.versions.length + 1
  skillId := skillId
  version := s.maxVersion skillId + 1
  description := v.description
  bodyMd := v.bodyMd
  frontmatterJson := v.frontmatterJson
  bodySha256 := lib.sha256Text v.bodyMd
  authoredBy := v.authoredBy
  authoredAt := now
  promotionNotes := v.promotionNotes
  parentVersionId := parent

/-- The row of a rollback, with the content of an earlier version. -/
def SkillVersion.copyRow (target : SkillVersion) (s : SkillStore) (skillId targetVersion : Nat) (authoredBy : String)
    (now : Int) (parent : Nat) : SkillVersion :=
  { target with
    id := s.versions.length + 1
    skillId := skillId
    version := s.maxVersion skillId + 1
    authoredBy := authoredBy
    authoredAt := now
    promotionNotes := some ("Rollback copy of version " ++ toString targetVersion)
    parentVersionId := some parent }

/-- A `NULL` read as an `i64`. -/
def nullCurrentVersion (column : Nat) : DbError :=
  .sqlite (("Invalid column type Null at index: " ++ toString column) ++ ", name: current_version_id")

/-! ## Transactions -/

namespace SkillStore

variable (lib : SkillLib)

/-- The insert of `create` and of `import_shipped`; the new skill has no version yet, so its first is number 1. -/
def insertSkill (new : NewSkill) (now : Int) (s : SkillStore) : Except DbError (Nat × SkillStore) := do
  let skillId := s.skills.length + 1
  let row : SkillRow :=
    { id := skillId, name := new.name, currentVersionId := none, state := .trial, source := new.source
      registrationKind := new.registrationKind, owningPluginId := new.owningPluginId, createdAt := now
      archivedAt := none }
  let version := new.initialVersion.row lib s skillId now none
  let s ← ({ s with skills := s.skills ++ [row] }.writeVersion { version with version := 1 } id).attachAll lib version.id
    new.resources
  pure (skillId, s)

def createBody (new : NewSkill) (now : Int) (s : SkillStore) : Except DbError (Nat × SkillStore) := do
  s.ensureNameNotPrivacyDeleted lib new.name
  match s.skillNamed new.name with
  | some _ => .error (.invariant ("skill already exists: " ++ new.name))
  | none => s.insertSkill lib new now

def addVersionBody (name : String) (v : NewSkillVersion) (now : Int) (s : SkillStore) :
    Except DbError (Nat × SkillStore) :=
  match s.skillNamed name with
  | none => .error (.invariant ("skill not found: " ++ name))
  | some r =>
    match r.currentVersionId with
    | none => .error (nullCurrentVersion 1)
    | some current =>
      if r.state = .archived then .error (.invariant ("cannot add version to archived skill: " ++ name))
      else
        let version := v.row lib s r.id now (some current)
        .ok (version.id, s.writeVersion version id)

def rollbackBody (name : String) (targetVersion : Nat) (authoredBy : String) (now : Int) (s : SkillStore) :
    Except DbError (Nat × SkillStore) :=
  match s.skillNamed name with
  | none => .error (.invariant ("skill not found: " ++ name))
  | some r =>
    match r.currentVersionId with
    | none => .error (nullCurrentVersion 1)
    | some current =>
      if r.state = .archived then .error (.invariant ("cannot roll back archived skill: " ++ name))
      else
        match (s.versionsOf r.id).find? fun v => decide (v.version = targetVersion) with
        | none => .error (.invariant (("skill " ++ name) ++ (" has no version " ++ toString targetVersion)))
        | some target =>
          if target.id = current then
            .error (.invariant (("skill " ++ name) ++ (" is already at version " ++ toString targetVersion)))
          else do
            let version := target.copyRow s r.id targetVersion authoredBy now current
            let s ← (s.writeVersion version fun r => { r with state := .trial }).copyAll version.id
              (s.resources.filter fun x => decide (x.skillVersionId = target.id))
            pure (version.id, s)

/-- The suite of a skill as `promote` reads it. -/
def suiteOf (s : SkillStore) (name : String) : List EvalCase :=
  orderBy EvalCase.caseId (s.evalCases.filter fun c => decide (c.skillName = name))

/-- An evaluation of this version against this suite, by a known model. -/
def evaluates (name : String) (v : SkillVersion) (suite : List EvalCase) (r : EvalRun) : Bool :=
  decide (r.skillName = name ∧ r.versionId = v.id ∧ r.bodySha256 = v.bodySha256 ∧
    r.suiteSha256 = lib.suiteSha256 suite ∧ r.evaluatorVersion = skillEvalVersion) &&
    (r.modelId.isSome && r.backendFingerprint.isSome)

/-- The latest evaluation passed. -/
def passingEval (s : SkillStore) (name : String) (v : SkillVersion) (suite : List EvalCase) : Bool :=
  (s.evalRuns.filter (evaluates lib name v suite)).getLast?.any EvalRun.passed

def setState (s : SkillStore) (name : String) (set : SkillRow → SkillRow) : SkillStore :=
  { s with skills := updateKey SkillRow.name name set s.skills }

def promoteBody (name : String) (notes : Option String) (s : SkillStore) : Except DbError (Bool × SkillStore) :=
  match s.skillNamed name with
  | none => .error (.invariant ("skill not found: " ++ name))
  | some r =>
    match r.state with
    | .stable => .ok (false, s)
    | .archived => .error (.invariant ("cannot promote archived skill: " ++ name))
    | .trial =>
      match r.currentVersionId.bind fun id => byKey SkillVersion.id id s.versions with
      | none => .error noRows
      | some v =>
        let suite := s.suiteOf name
        if suite.isEmpty then .error (.invariant (("skill " ++ name) ++ " has no held-out evaluation suite"))
        else if suite.any fun c => c.expectedWorkspaceFilesJson == "\x7b\x7d" && c.expectedIntegrationCallsJson == "[]" then
          .error (.invariant (("skill " ++ name) ++
            " evaluation suite has no workspace or mock integration assertions"))
        else if !s.passingEval lib name v suite then
          .error (.invariant (("skill " ++ name) ++
            " must pass the current held-out suite for its current version before promotion"))
        else
          let s := s.setState name fun r => { r with state := .stable }
          let versions := match notes with
            | some notes => updateKey SkillVersion.id v.id (fun v => { v with promotionNotes := some notes }) s.versions
            | none => s.versions
          .ok (true, { s with versions := versions })

def archiveRow (now : Int) (r : SkillRow) : SkillRow := { r with state := .archived, archivedAt := some now }

def archiveBody (name : String) (now : Int) (s : SkillStore) : Except DbError (Bool × SkillStore) :=
  match s.skillNamed name with
  | none => .error (.invariant ("skill not found: " ++ name))
  | some r => if r.state = .archived then .ok (false, s) else .ok (true, s.setState name (archiveRow now))

def archiveForPluginBody (pluginId : String) (now : Int) (s : SkillStore) : Except DbError (List String × SkillStore) :=
  let takes := fun r : SkillRow => decide (r.owningPluginId = some pluginId ∧ r.state ≠ .archived)
  .ok ((s.skills.filter takes).map SkillRow.name,
    { s with skills := s.skills.map fun r => if takes r then archiveRow now r else r })

/-- A version without its content. -/
def scrubVersion (v : SkillVersion) : SkillVersion :=
  { v with
    description := ""
    bodyMd := ""
    frontmatterJson := "\x7b\x7d"
    bodySha256 := lib.sha256Text "privacy-deleted-skill-version"
    authoredBy := "privacy-deleted"
    promotionNotes := none }

def scrubProposal (placeholder : String) (p : SkillProposal) : SkillProposal :=
  { p with
    proposedName := placeholder
    description := ""
    bodyMd := ""
    frontmatterJson := "\x7b\x7d"
    sourceRunId := "privacy-deleted"
    trajectorySummary := none
    decisionNotes := none }

def scrubRun (r : EvalRun) : EvalRun :=
  { r with
    skillName := "privacy-deleted"
    bodySha256 := lib.sha256Text "privacy-deleted-skill-version"
    resultsJson := "\x7b\x7d" }

def shellRow (placeholder : String) (now : Int) (r : SkillRow) : SkillRow :=
  { r with
    name := placeholder
    currentVersionId := none
    state := .archived
    source := "privacy_deleted"
    registrationKind := .authored
    owningPluginId := none
    archivedAt := some now }

def concerns (skillId : Nat) (name : String) (p : SkillProposal) : Bool :=
  decide (p.targetSkillId = some skillId ∨ p.promotedSkillId = some skillId ∨ p.proposedName = name)

def evaluated (ids : List Nat) (name : String) (r : EvalRun) : Bool := decide (r.skillName = name ∨ r.versionId ∈ ids)

/-- The writes of `forget`. -/
def scrub (tombstone : SkillTombstone) (placeholder name : String) (now : Int) (s : SkillStore) : SkillStore :=
  let skillId := tombstone.skillId
  let ids := (s.versionsOf skillId).map SkillVersion.id
  let takes := fun r : ResourceRow => decide (r.skillVersionId ∈ ids)
  let hashes := ((s.resources.filter takes).map ResourceRow.blobSha).dedup
  let t := s.deleteResources takes
  { skills := updateKey SkillRow.id skillId (shellRow placeholder now) s.skills
    versions := s.versions.map fun v => if v.skillId = skillId then scrubVersion lib v else v
    index := s.index.filter fun row => !decide (row ∈ (s.versionsOf skillId).map SkillVersion.searchRow)
    resources := t.resources
    blobs := t.blobs.filter fun b => !(decide (b.sha256 ∈ hashes) && decide (b.refcount ≤ 0))
    proposals := s.proposals.map fun p => if concerns skillId name p then scrubProposal placeholder p else p
    tombstones := s.tombstones ++ [tombstone]
    evalCases := s.evalCases.filter fun c => !decide (c.skillName = name)
    evalRuns := s.evalRuns.map fun r => if evaluated ids name r then scrubRun lib r else r }

def scrubReport (tombstone : SkillTombstone) (name : String) (s s' : SkillStore) : SkillPrivacyDeletionReport where
  versionsScrubbed := (s.versionsOf tombstone.skillId).length
  proposalsScrubbed := (s.proposals.filter (concerns tombstone.skillId name)).length
  evaluationRunsScrubbed :=
    (s.evalRuns.filter (evaluated ((s.versionsOf tombstone.skillId).map SkillVersion.id) name)).length
  evaluationCasesRemoved := (s.evalCases.filter fun c => decide (c.skillName = name)).length
  resourcesRemoved := s.resources.length - s'.resources.length
  blobsRemoved := s.blobs.length - s'.blobs.length

def forgetBody (name requestedBy uuid : String) (now : Int) (s : SkillStore) :
    Except DbError (SkillPrivacyDeletionReport × SkillStore) :=
  let nameHash := privacyNameHash lib name
  match s.skillNamed name with
  | none =>
    if s.nameDeleted nameHash then .ok ({ alreadyForgotten := true }, s)
    else .error (.invariant ("skill not found: " ++ name))
  | some r =>
    if s.forgotten r.id then .ok ({ alreadyForgotten := true }, s)
    else if s.nameDeleted nameHash then
      .error (.sqlite "UNIQUE constraint failed: state_skill_privacy_tombstones.name_sha256")
    else
      let placeholder := "privacy-deleted/" ++ uuid
      if s.skills.any fun x => x.name == placeholder && x.id != r.id then
        .error (.sqlite "UNIQUE constraint failed: state_skills.name")
      else
        let s' := s.scrub lib ⟨r.id, nameHash, requestedBy, now⟩ placeholder name now
        .ok (scrubReport ⟨r.id, nameHash, requestedBy, now⟩ name s s', s')

/-- The refusals of `import_shipped` that name another owner. -/
def importConflict (new : NewSkill) (owning : String) (r : SkillRow) : Option DbError :=
  if r.registrationKind ≠ .shipped ∧ r.registrationKind ≠ .registered then
    some (.invariant (("name " ++ new.name) ++ " is owned by an admin- or agent-authored skill; " ++
      "plugin import would clobber it. Rename the plugin's skill or archive the existing one before retrying."))
  else if r.owningPluginId ≠ some owning then
    some (.invariant (("name " ++ new.name) ++ " is owned by plugin " ++ lib.debug r.owningPluginId ++
      "; refusing cross-plugin overwrite"))
  else none

def importBody (new : NewSkill) (owning : String) (now : Int) (s : SkillStore) : Except DbError (Nat × SkillStore) := do
  s.ensureNameNotPrivacyDeleted lib new.name
  match s.skillNamed new.name with
  | none => s.insertSkill lib new now
  | some r =>
    match r.currentVersionId with
    | none => .error (nullCurrentVersion 1)
    | some current =>
      match importConflict lib new owning r with
      | some e => .error e
      | none => do
        let version := new.initialVersion.row lib s r.id now (some current)
        -- an archived skill comes back to trial, a stable one stays stable
        let s ← (s.writeVersion version fun r =>
          if r.state = .archived then { r with state := .trial, archivedAt := none } else r).attachAll lib version.id
            new.resources
        pure (r.id, s)

/-- A proposal that a later fork of the same skill replaces. -/
def superseded (target : Nat) (p : SkillProposal) : Bool :=
  decide (p.targetSkillId = some target ∧ p.state = .pending ∧ p.kind = .versionFork)

/-- A new fork puts the pending forks of its target aside. -/
def supersedeForks (new : NewProposal) (now : Int) (proposals : List SkillProposal) : List SkillProposal :=
  match new.kind, new.targetSkillId with
  | .versionFork, some t => proposals.map fun p =>
    if superseded t p then { p with state := .superseded, reviewedAt := some now } else p
  | _, _ => proposals

def submitBody (new : NewProposal) (now : Int) (s : SkillStore) : Except DbError (Nat × SkillStore) := do
  s.ensureNameNotPrivacyDeleted lib new.proposedName
  if new.targetSkillId.any fun t => !decide (t ∈ s.skills.map SkillRow.id) then
    .error (.sqlite "FOREIGN KEY constraint failed")
  else
    let row : SkillProposal :=
      { id := s.proposals.length + 1, kind := new.kind, targetSkillId := new.targetSkillId
        proposedName := new.proposedName, description := new.description, bodyMd := new.bodyMd
        frontmatterJson := new.frontmatterJson, sourceRunId := new.sourceRunId
        trajectorySummary := new.trajectorySummary, toolCallsObserved := new.toolCallsObserved, state := .pending
        createdAt := now }
    .ok (row.id, { s with proposals := supersedeForks new now s.proposals ++ [row] })

/-- The last transaction of `approve_proposal`. -/
def markApproved (id skillId versionId : Nat) (reviewer : String) (notes : Option String) (now : Int) (s : SkillStore) :
    SkillStore :=
  { s with proposals := updateKey SkillProposal.id id (fun p =>
      if p.state = .pending then
        { p with
          state := .approved, promotedSkillId := some skillId, promotedVersionId := some versionId
          reviewedAt := some now, reviewer := some reviewer, decisionNotes := notes }
      else p) s.proposals }

def rejectBody (id : Nat) (reviewer : String) (notes : Option String) (now : Int) (s : SkillStore) :
    Except DbError (Unit × SkillStore) :=
  match byKey SkillProposal.id id s.proposals with
  | none => .error (.invariant ("proposal " ++ toString id ++ " not found"))
  | some p =>
    match p.state with
    | .approved => .error (.invariant ("proposal " ++ toString id ++ " already approved; cannot reject"))
    | .rejected => .ok ((), s)
    | _ => .ok ((), { s with proposals := updateKey SkillProposal.id id (fun p =>
        { p with
          state := .rejected, reviewedAt := some now, reviewer := some reviewer, decisionNotes := notes }) s.proposals })

end SkillStore

namespace SkillStore

structure SkillIndexEntry where
  name : String
  description : String
  state : SkillState
  version : Nat

structure SkillView where
  name : String
  description : String
  state : SkillState
  version : Nat
  bodyMd : String
  frontmatterJson : String
  resourcePaths : List String

/-- The join of `state_skills` with its current version, archived skills left out. -/
def activeVersion (s : SkillStore) (r : SkillRow) : Option SkillVersion :=
  if r.state = .archived then none else r.currentVersionId.bind fun id => byKey SkillVersion.id id s.versions

def indexEntry (s : SkillStore) (r : SkillRow) : Option SkillIndexEntry :=
  (s.activeVersion r).map fun v => ⟨r.name, v.description, r.state, v.version⟩

def listIndex (s : SkillStore) : List SkillIndexEntry :=
  orderBy SkillIndexEntry.name (s.skills.filterMap s.indexEntry)

def view (s : SkillStore) (name : String) : Option SkillView := do
  let r ← s.skillNamed name
  let v ← s.activeVersion r
  pure ⟨r.name, v.description, r.state, v.version, v.bodyMd, v.frontmatterJson,
    orderBy id ((s.resources.filter fun x => decide (x.skillVersionId = v.id)).map ResourceRow.path)⟩

/-- `resource`: the mime type and the bytes. -/
def resource (s : SkillStore) (name path : String) : Option (String × List UInt8) := do
  let r ← s.skillNamed name
  let v ← s.activeVersion r
  let x ← byKey ResourceRow.key (v.id, path) s.resources
  let b ← byKey BlobRow.sha256 x.blobSha s.blobs
  pure (b.mime, b.bytes)

def sanitizeFtsQuery (u : Unicode) (query : String) : String :=
  String.intercalate " " (((query.toList.splitOnP fun c => !u.isAlphanumeric c).filter (· ≠ [])).map String.ofList)

/-- The row that has the version as its current one. -/
def searchHit (s : SkillStore) (rowid : Nat) : Option SkillIndexEntry := do
  let r ← s.skills.find? fun r => decide (r.currentVersionId = some rowid)
  s.indexEntry r

def search (lib : SkillLib) (u : Unicode) (query : String) (k : Nat) (s : SkillStore) : List SkillIndexEntry :=
  let sanitized := sanitizeFtsQuery u query
  if sanitized.isEmpty then []
  else ((lib.fullText s.index sanitized).filterMap s.searchHit).take (min (max k 1) 50)

/-- `get`: a forgotten skill is left out, and the current version is read as a number. -/
def get (s : SkillStore) (name : String) : Except SkillError (Option (SkillRow × SkillVersion)) :=
  match s.skillNamed name with
  | none => .ok none
  | some r =>
    if s.forgotten r.id then .ok none
    else
      match r.currentVersionId with
      | none => .error (.db (nullCurrentVersion 9))
      | some id =>
        match byKey SkillVersion.id id s.versions with
        | none => .error (.db noRows)
        | some v => .ok (some (r, v))

end SkillStore

/-- A store call that may fail, in the transactions it takes. -/
abbrev SkillProg := ExceptT SkillError (Prog SkillStore)

namespace SkillStore

variable (lib : SkillLib)

/-- One transaction: what the body did, or nothing. -/
def transaction {α : Type} (fails : DbError → SkillError) (body : SkillStore → Except DbError (α × SkillStore)) :
    SkillProg α :=
  ExceptT.mk (Prog.atomic fun s =>
    match body s with
    | .ok (a, s') => (.ok a, s')
    | .error e => (.error (fails e), s))

/-- A check before the database is touched. -/
def checking (checked : Except SkillError Unit) : SkillProg Unit := ExceptT.mk (Prog.ret checked)

def query {α : Type} (f : SkillStore → Except SkillError α) : SkillProg α := ExceptT.mk (Prog.read f)

def create (new : NewSkill) (strictness : Strictness) (now : Int) : SkillProg Nat := do
  checking (checkNewSkill lib new strictness)
  transaction .db (createBody lib new now)

def addVersion (name : String) (v : NewSkillVersion) (strictness : Strictness) (now : Int) : SkillProg Nat := do
  checking (checkNewVersion lib v strictness)
  transaction .db (addVersionBody lib name v now)

def rollbackVersion (name : String) (targetVersion : Nat) (authoredBy : String) (now : Int) : SkillProg Nat :=
  transaction .db (rollbackBody name targetVersion authoredBy now)

/-- The transaction says whether it changed the skill; the call only logs it. -/
def promote (name : String) (notes : Option String) : SkillProg Bool := transaction .db (promoteBody lib name notes)

def archive (name : String) (now : Int) : SkillProg Bool := transaction .db (archiveBody name now)

/-- `forget`, with the UUID of the placeholder. -/
def forget (name requestedBy uuid : String) (now : Int) : SkillProg SkillPrivacyDeletionReport := do
  checking (validateSkillName name)
  checking (if (trim requestedBy).isEmpty then
    .error (.denied "forgetting a skill requires an authenticated Controller") else .ok ())
  transaction .db (forgetBody lib name requestedBy uuid now)

/-- The owner check of `import_shipped`. -/
def importOwner (new : NewSkill) : Except SkillError String :=
  match new.owningPluginId with
  | some id => if id.isEmpty then .error (.db (.invariant "import_shipped requires owning_plugin_id")) else .ok id
  | none => .error (.db (.invariant "import_shipped requires owning_plugin_id"))

/-- The error of `import_shipped`, told by its text. -/
def importError (name : String) (e : DbError) : SkillError :=
  let mentions := fun (word : String) => decide (word.toList <:+: e.display.toList)
  if mentions "name " && mentions "owned by" then .alreadyExists name else .db e

def importShipped (new : NewSkill) (now : Int) : SkillProg Nat := do
  checking (checkNewSkill lib new .strict)
  let owning ← ExceptT.mk (Prog.ret (importOwner new))
  transaction (importError new.name) (importBody lib new owning now)

def archiveForPlugin (pluginId : String) (now : Int) : SkillProg (List String) :=
  transaction .db (archiveForPluginBody pluginId now)

def submitProposal (new : NewProposal) (now : Int) : SkillProg Nat := do
  checking (validateSkillName new.proposedName)
  transaction .db (submitBody lib new now)

/-- The version a proposal asks for. -/
def proposedVersion (p : SkillProposal) (reviewer : String) (notes : Option String) : NewSkillVersion where
  description := p.description
  bodyMd := p.bodyMd
  frontmatterJson := p.frontmatterJson
  authoredBy := ("agent:" ++ p.sourceRunId) ++ (" (approved by " ++ reviewer ++ ")")
  promotionNotes := notes

def proposedSkill (p : SkillProposal) (reviewer : String) (notes : Option String) : NewSkill where
  name := p.proposedName
  source := "agent:" ++ p.sourceRunId
  registrationKind := .authored
  owningPluginId := none
  initialVersion := proposedVersion p reviewer notes
  resources := []

/-- `get_proposal` and the check that it is pending. -/
def pendingProposal (id : Nat) (s : SkillStore) : Except SkillError SkillProposal :=
  match byKey SkillProposal.id id s.proposals with
  | none => .error (.notFound ("proposal " ++ toString id))
  | some p => if p.state = .pending then .ok p else .error (.invalidStateTransition p.state.asStr "approved")

def nameOf (id : Nat) (s : SkillStore) : Except SkillError String :=
  match byKey SkillRow.id id s.skills with
  | none => .error (.db noRows)
  | some r => .ok r.name

def currentVersionIdOf (id : Nat) (s : SkillStore) : Except SkillError Nat :=
  match byKey SkillRow.id id s.skills with
  | none => .error (.db noRows)
  | some r => (r.currentVersionId.map Except.ok).getD (.error (.db (nullCurrentVersion 0)))

/-- The skill or the version an approval writes; for a fork the name of its target is read first. -/
def writeProposal (p : SkillProposal) (reviewer : String) (notes : Option String) (now : Int) : SkillProg Nat :=
  match p.kind, p.targetSkillId with
  | .newSkill, _ => create lib (proposedSkill p reviewer notes) .strict now
  | .versionFork, none => ExceptT.mk (Prog.ret (.error (.db (.invariant "version_fork proposal missing target_skill_id"))))
  | .versionFork, some target => do
    let name ← query (nameOf target)
    let _ ← addVersion lib name (proposedVersion p reviewer notes) .strict now
    pure target

def approveProposal (id : Nat) (reviewer : String) (notes : Option String) (now : Int) : SkillProg Nat := do
  let p ← query (pendingProposal id)
  let skillId ← writeProposal lib p reviewer notes now
  let versionId ← query (currentVersionIdOf skillId)
  transaction .db fun s => .ok ((), s.markApproved id skillId versionId reviewer notes now)
  pure skillId

def rejectProposal (id : Nat) (reviewer : String) (notes : Option String) (now : Int) : SkillProg Unit :=
  transaction .db (rejectBody id reviewer notes now)

/-- `record_skill_eval_run` of the admin API: an evaluation names a version there is. -/
def recordEvalRun (r : EvalRun) : SkillProg Unit :=
  transaction .db fun s =>
    if r.versionId ∈ s.versions.map SkillVersion.id then .ok ((), { s with evalRuns := s.evalRuns ++ [r] })
    else .error (.sqlite "FOREIGN KEY constraint failed")

/-- The transaction of `save_skill_eval_suite` in the admin API. -/
def saveEvalSuite (name : String) (cases : List EvalCase) : SkillProg Unit :=
  transaction .db fun s =>
    let cases := cases.map fun c => { c with skillName := name }
    if (cases.map EvalCase.caseId).Nodup then
      .ok ((), { s with evalCases := s.evalCases.filter (fun c => !decide (c.skillName = name)) ++ cases })
    else .error (.sqlite "UNIQUE constraint failed: state_skill_eval_cases.skill_name, state_skill_eval_cases.case_id")

end SkillStore

inductive SkillCall
  | create (new : NewSkill) (strictness : Strictness) (now : Int)
  | addVersion (name : String) (v : NewSkillVersion) (strictness : Strictness) (now : Int)
  | rollbackVersion (name : String) (targetVersion : Nat) (authoredBy : String) (now : Int)
  | promote (name : String) (notes : Option String)
  | archive (name : String) (now : Int)
  | forget (name requestedBy uuid : String) (now : Int)
  | importShipped (new : NewSkill) (now : Int)
  | archiveForPlugin (pluginId : String) (now : Int)
  | submitProposal (new : NewProposal) (now : Int)
  | approveProposal (id : Nat) (reviewer : String) (notes : Option String) (now : Int)
  | rejectProposal (id : Nat) (reviewer : String) (notes : Option String) (now : Int)
  | recordEvalRun (r : EvalRun)
  | saveEvalSuite (name : String) (cases : List EvalCase)

inductive SkillReply
  | id (n : Nat)
  | names (names : List String)
  | report (r : SkillPrivacyDeletionReport)
  | done
deriving DecidableEq

open SkillStore in
/-- The program of a call. -/
def SkillCall.prog (lib : SkillLib) (_ : Nat) : SkillCall → Prog SkillStore (Except SkillError SkillReply)
  | create new strictness now => (SkillReply.id <$> SkillStore.create lib new strictness now).run
  | addVersion name v strictness now => (SkillReply.id <$> SkillStore.addVersion lib name v strictness now).run
  | rollbackVersion name target author now => (SkillReply.id <$> SkillStore.rollbackVersion name target author now).run
  | promote name notes => ((fun _ => SkillReply.done) <$> SkillStore.promote lib name notes).run
  | archive name now => ((fun _ => SkillReply.done) <$> SkillStore.archive name now).run
  | forget name requestedBy uuid now => (SkillReply.report <$> SkillStore.forget lib name requestedBy uuid now).run
  | importShipped new now => (SkillReply.id <$> SkillStore.importShipped lib new now).run
  | archiveForPlugin pluginId now => (SkillReply.names <$> SkillStore.archiveForPlugin pluginId now).run
  | submitProposal new now => (SkillReply.id <$> SkillStore.submitProposal lib new now).run
  | approveProposal id reviewer notes now =>
    (SkillReply.id <$> SkillStore.approveProposal lib id reviewer notes now).run
  | rejectProposal id reviewer notes now =>
    ((fun _ => SkillReply.done) <$> SkillStore.rejectProposal id reviewer notes now).run
  | recordEvalRun r => ((fun _ => SkillReply.done) <$> SkillStore.recordEvalRun r).run
  | saveEvalSuite name cases => ((fun _ => SkillReply.done) <$> SkillStore.saveEvalSuite name cases).run

abbrev SkillPool := Pool SkillStore SkillCall (Except SkillError SkillReply)

/-- No row, and no call under way. -/
def SkillPool.start : SkillPool := ⟨SkillStore.empty, fun _ => none⟩

/-- A run of the store: any number of calls under way, each going on or stopping at any point. -/
def SkillRun (lib : SkillLib) (p : SkillPool) (es : List (Event SkillCall (Except SkillError SkillReply) Empty))
    (p' : SkillPool) : Prop :=
  Steps.Run (Pool.Step (SkillCall.prog lib) (fun s _ => s)) p es p'

end Execlaw
