import Execlaw.EventLog
import Execlaw.MemoryAssertions
/-!
# MemoryWrites — the writers of assertions (`core/src/memory_assertions.rs`)

Extraction, the Controller's review handlers and source deletion each run in one transaction: a call that fails leaves
the tables, so a writer is a function to `Except`.  JSON text, SHA-256, MessagePack and JSON pointers are the parameter
`MemoryCodec`.
-/
namespace Execlaw

open Table Closure

structure CandidateEvidence where
  eventSeq : Int
  payloadPath : String
  quote : String
  quoteHash : String
  evidenceKind : EvidenceKind

structure MemoryCandidate where
  kind : MemoryKind
  subject : String
  predicate : String
  object : Json
  confidence : ℚ
  supersedesId : Option String
  evidence : List CandidateEvidence

structure MemoryCodec where
  /-- `serde_json::to_string`. -/
  jsonText : Json → String
  /-- `serde_json::to_vec`. -/
  candidateJson : MemoryCandidate → List UInt8
  fromSlice : List UInt8 → Except String Json
  /-- `serde_json::Value::pointer`. -/
  pointer : Json → String → Option Json
  /-- `hex::encode(Sha256::digest(…))`. -/
  sha256 : List UInt8 → String

structure MemoryExtractionPolicy where
  automaticApproval : Bool := false
  minimumConfidence : ℚ := 1

structure MemoryPrivacyDeletionReport where
  assertionsHidden : Nat := 0
  evidenceHidden : Nat := 0

namespace MemoryAssertionStore

variable (codec : MemoryCodec)

def sha256Text (text : String) : String := codec.sha256 (Wire.utf8 text)

def isAsciiHexdigit (c : Char) : Bool :=
  c.isDigit || (decide ('a' ≤ c) && decide (c ≤ 'f')) || (decide ('A' ≤ c) && decide (c ≤ 'F'))

def isQuoteHash (hash : String) : Bool := hash.utf8ByteSize == 64 && hash.toList.all isAsciiHexdigit

/-! ## `append`, `add_evidence` and `project_approved` -/

def append (assertion : MemoryAssertion) (db : MemoryDb) : Except MemoryAssertionError MemoryDb :=
  if (trim assertion.assertionId).isEmpty ∨ (trim assertion.scope).isEmpty ∨ (trim assertion.trustClass).isEmpty ∨
      (trim assertion.subject).isEmpty ∨ (trim assertion.predicate).isEmpty ∨
      (trim assertion.extractionRunId).isEmpty ∨ ¬ (0 ≤ assertion.confidence ∧ assertion.confidence ≤ 1) then
    .error (.invalid "required fields and confidence must be valid")
  else if db.tombstoned .assertion assertion.assertionId then
    .error (.db (.invariant "privacy-deleted memory assertion cannot be recreated"))
  else (db.insertAssertion assertion).mapError .db

def lowered (evidence : MemoryEvidenceRecord) : MemoryEvidenceRecord :=
  { evidence with quoteHash := evidence.quoteHash.map Char.toLower }

/-- `{conversation_id}#{event_seq}`, the target of a source tombstone. -/
def sourceId (event : String × Int) : String :=
  let (conversationId, eventSeq) := event
  s!"{conversationId}#{eventSeq}"

def addEvidence (evidence : MemoryEvidenceRecord) (db : MemoryDb) : Except MemoryAssertionError MemoryDb :=
  if (trim evidence.payloadPath).isEmpty ∨ isQuoteHash evidence.quoteHash = false then
    .error (.invalid "evidence requires a payload path and SHA-256 quote hash")
  else if db.tombstoned .assertion evidence.assertionId || db.tombstoned .evidence evidence.evidenceId ||
      db.tombstoned .sourceEvent (sourceId evidence.event) then
    .error (.db (.invariant "privacy-deleted memory evidence cannot be recreated"))
  else (db.insertEvidence (lowered evidence)).mapError .db

/-- `INSERT … SELECT`: an assertion that is not stored projects nothing. -/
def projectApproved (assertionId key : String) (projectedAt : Int) (db : MemoryDb) :
    Except MemoryAssertionError MemoryDb :=
  match db.assertions.row assertionId with
  | none => .ok db
  | some a =>
    (db.project { scope := a.scope, trustClass := a.trustClass, key := key, assertionId := a.assertionId
                  projectedAt := projectedAt }).mapError .db

/-! ## `persist_candidate` -/

def stripPrefix (pre s : String) : Option String :=
  if pre.toList.isPrefixOf s.toList then some (String.ofList (s.toList.drop pre.toList.length)) else none

def valueAtPath (value : Json) (path : String) : Option Json :=
  if path = "$" then some value
  else
    match stripPrefix "/" path with
    | some pointer => codec.pointer value s!"/{pointer}"
    | none =>
      match stripPrefix "$." path with
      | none => none
      | some segments => (segments.splitOn ".").foldlM (fun current segment => current.get segment) value

def sourceQuote (value : Json) : String :=
  match value with
  | .str text => text
  | other => codec.jsonText other

def checkCandidateEvidence (job : MemoryJob) (db : MemoryDb) (item : CandidateEvidence) : Except DbError Unit :=
  if db.tombstoned .sourceEvent (sourceId (job.conversationId, item.eventSeq)) then
    .error (.invariant "privacy-deleted source event cannot produce memory evidence")
  else if item.eventSeq < job.eventStartSeq ∨ job.eventEndSeq < item.eventSeq ∨ isQuoteHash item.quoteHash = false then
    .error (.serde "candidate evidence is outside the committed job range or malformed")
  else
    match db.events.row (job.conversationId, item.eventSeq) with
    | none => .error noRows
    | some event =>
      match decodePayloadBytes codec.fromSlice (EventKind.parse event.kind) event.payload with
      | .error e => .error (.serde s!"decode evidence payload: {e.display}")
      | .ok payload =>
        match valueAtPath codec payload item.payloadPath with
        | none =>
          let path := item.payloadPath
          .error (.serde s!"evidence path not found: {path}")
        | some value =>
          if sourceQuote codec value ≠ item.quote ∨
              sha256Text codec (sourceQuote codec value) ≠ item.quoteHash.map Char.toLower then
            .error (.serde "evidence quote or SHA-256 hash does not match the committed event")
          else .ok ()

def candidateEvidenceRow (assertionId : String) (job : MemoryJob) (now : Int) (index : Nat)
    (item : CandidateEvidence) : MemoryEvidenceRecord :=
  let (seq, path, hash) := (item.eventSeq, item.payloadPath, item.quoteHash)
  { evidenceId := sha256Text codec s!"{assertionId}:{index}:{seq}:{path}:{hash}"
    assertionId := assertionId
    conversationId := job.conversationId
    eventSeq := item.eventSeq
    payloadPath := item.payloadPath
    quoteHash := item.quoteHash.map Char.toLower
    evidenceKind := item.evidenceKind
    createdAt := now }

def candidateEvidenceRows (assertionId : String) (job : MemoryJob) (now : Int) (items : List CandidateEvidence) :
    List MemoryEvidenceRecord :=
  items.mapIdx (candidateEvidenceRow codec assertionId job now)

def insertEvidenceRows : List MemoryEvidenceRecord → MemoryDb → Except DbError MemoryDb
  | [], db => .ok db
  | e :: rows, db => do
    let db ← db.insertOrIgnoreEvidence e
    insertEvidenceRows rows db

/-- `MemoryExtractionPolicy` on a candidate: procedural memory and derived evidence wait for a review. -/
def candidateStatus (policy : MemoryExtractionPolicy) (candidate : MemoryCandidate) : AssertionStatus :=
  if policy.automaticApproval = true ∧ candidate.kind ≠ .procedural ∧
      policy.minimumConfidence ≤ candidate.confidence ∧
      candidate.evidence.all (fun item => decide (item.evidenceKind ≠ .derived)) = true then .approved
  else .proposed

def projectionKey (subject predicate : String) : String := s!"{subject}:{predicate}"

def candidateId (job : MemoryJob) (candidate : MemoryCandidate) : String :=
  codec.sha256 (Wire.utf8 job.jobId ++ codec.candidateJson candidate)

def candidateRow (job : MemoryJob) (hostScope hostTrustClass : String) (candidate : MemoryCandidate)
    (policy : MemoryExtractionPolicy) (now : Int) : MemoryAssertion where
  assertionId := candidateId codec job candidate
  scope := hostScope
  trustClass := hostTrustClass
  kind := candidate.kind
  subject := candidate.subject
  predicate := candidate.predicate
  object := candidate.object
  confidence := candidate.confidence
  status := candidateStatus policy candidate
  observedFrom := job.eventStartSeq
  observedTo := some job.eventEndSeq
  validFrom := now
  validTo := none
  supersedesId := candidate.supersedesId
  extractionRunId := job.runId
  createdEventSeq := job.eventEndSeq
  createdAt := now

def holdsFor (db : MemoryDb) (assertionId scope trustClass : String) : Bool :=
  (db.assertions.row assertionId).any fun a => a.scope == scope && a.trustClass == trustClass

def checkCandidate (job : MemoryJob) (hostScope hostTrustClass : String) (candidate : MemoryCandidate)
    (db : MemoryDb) : Except DbError Unit :=
  if db.tombstoned .assertion (candidateId codec job candidate) then
    .error (.invariant "privacy-deleted memory assertion cannot be recreated")
  else if candidate.supersedesId.all (fun id => holdsFor db id hostScope hostTrustClass) = false then
    .error (.serde "superseded assertion is outside the host-derived scope or trust class")
  else candidate.evidence.forM (checkCandidateEvidence codec job db)

def storeCandidate (row : MemoryAssertion) (evidence : List MemoryEvidenceRecord) (db : MemoryDb) :
    Except DbError MemoryDb := do
  let db ← db.insertOrIgnoreAssertion row
  insertEvidenceRows evidence db

def projectCandidate (row : MemoryAssertion) (now : Int) (db : MemoryDb) : Except DbError MemoryDb :=
  if row.status = .approved then
    db.project { scope := row.scope, trustClass := row.trustClass, key := projectionKey row.subject row.predicate
                 assertionId := row.assertionId, projectedAt := now }
  else .ok db

def persistCandidate (job : MemoryJob) (hostScope hostTrustClass : String) (candidate : MemoryCandidate)
    (policy : MemoryExtractionPolicy) (now : Int) (db : MemoryDb) : Except MemoryAssertionError (String × MemoryDb) :=
  if job.kind ≠ .memoryExtract ∨ (trim hostScope).isEmpty ∨ (trim hostTrustClass).isEmpty ∨
      (trim candidate.subject).isEmpty ∨ (trim candidate.predicate).isEmpty ∨
      ¬ (0 ≤ candidate.confidence ∧ candidate.confidence ≤ 1) ∨ candidate.evidence.isEmpty then
    .error (.invalid "invalid extraction candidate")
  else
    let row := candidateRow codec job hostScope hostTrustClass candidate policy now
    (do
      checkCandidate codec job hostScope hostTrustClass candidate db
      let db ← storeCandidate row (candidateEvidenceRows codec row.assertionId job now candidate.evidence) db
      let db ← projectCandidate row now db
      return (row.assertionId, db)).mapError .db

/-! ## The Controller's reviews -/

def reviewAccepted (reviewerId reason : String) (event : EventRecord) : Bool :=
  !(trim reviewerId).isEmpty && !(trim reason).isEmpty && decide (reason.utf8ByteSize ≤ 2000) &&
    event.kind == .other && event.actor == some reviewerId

def reviewRow (label : String) (assertionId reviewerId : String) (decision : ReviewDecision) (reason : String)
    (event : EventRecord) (createdAt : Int) : AssertionReview :=
  let (conversationId, seq) := (event.conversationId, event.seq)
  { reviewId := sha256Text codec s!"{label}:{assertionId}:{conversationId}:{seq}"
    assertionId := assertionId
    conversationId := conversationId
    eventSeq := seq
    reviewerId := reviewerId
    decision := decision
    reason := trim reason
    createdAt := createdAt }

def insertRetraction (assertionId reviewerId reason : String) (event : EventRecord) (createdAt : Int)
    (db : MemoryDb) : Except MemoryAssertionError MemoryDb :=
  if (trim assertionId).isEmpty ∨ reviewAccepted reviewerId reason event = false then
    .error (.invalid "retraction requires a bounded reason and matching Controller event")
  else if db.stored assertionId = false then .error (.invalid "memory assertion was not found")
  else if db.reviews.rows.any (fun r => r.assertionId == assertionId && r.decision == .retracted) then
    .error (.invalid "memory assertion was already retracted")
  else
    match db.insertReview (reviewRow codec "memory-retraction" assertionId reviewerId .retracted reason event
        createdAt) with
    | .error e => .error (.db e)
    | .ok db => .ok (db.unproject (closure db.lineageEdges [assertionId]))

def correctionRow (original : MemoryAssertion) (replacement : Json) (reviewerId : String) (event : EventRecord)
    (createdAt : Int) : MemoryAssertion :=
  let (id, conversationId, seq) := (original.assertionId, event.conversationId, event.seq)
  { original with
    assertionId := sha256Text codec s!"memory-correction:{id}:{conversationId}:{seq}"
    object := replacement
    confidence := 1
    status := .approved
    observedFrom := event.seq
    observedTo := none
    validFrom := createdAt
    validTo := none
    supersedesId := some original.assertionId
    extractionRunId := s!"operator-correction:{reviewerId}"
    createdEventSeq := event.seq
    createdAt := createdAt }

def correctionEvidence (assertionId : String) (replacement : Json) (event : EventRecord) (createdAt : Int) :
    MemoryEvidenceRecord :=
  let (conversationId, seq) := (event.conversationId, event.seq)
  { evidenceId := sha256Text codec s!"{assertionId}:{seq}:{conversationId}:operator_correction"
    assertionId := assertionId
    conversationId := conversationId
    eventSeq := seq
    payloadPath := "$.replacement"
    quoteHash := sha256Text codec (codec.jsonText replacement)
    evidenceKind := .operatorCorrection
    createdAt := createdAt }

def insertCorrection (original : MemoryAssertion) (replacement : Json) (reviewerId reason : String)
    (event : EventRecord) (createdAt : Int) (db : MemoryDb) : Except MemoryAssertionError (String × MemoryDb) :=
  if reviewAccepted reviewerId reason event = false then
    .error (.invalid "correction requires a bounded reason and matching Controller event")
  else if 64 * 1024 < (codec.jsonText replacement).utf8ByteSize then
    .error (.invalid "corrected memory value exceeds 64 KiB")
  else if holdsFor db original.assertionId original.scope original.trustClass = false then
    .error (.invalid "memory assertion changed before correction")
  else if db.assertions.rows.any (fun a => a.supersedesId == some original.assertionId && a.status == .approved) then
    .error (.invalid "a newer approved assertion already supersedes this revision")
  else
    let row := correctionRow codec original replacement reviewerId event createdAt
    (do
      let db ← db.insertAssertion row
      let db ← db.insertEvidence (correctionEvidence codec row.assertionId replacement event createdAt)
      let db ← db.insertReview (reviewRow codec "memory-correction-review" original.assertionId reviewerId .corrected
        reason event createdAt)
      let db ← (db.unproject (closure db.ancestorEdges [original.assertionId])).project
        { scope := original.scope, trustClass := original.trustClass
          key := projectionKey original.subject original.predicate
          assertionId := row.assertionId, projectedAt := createdAt }
      return (row.assertionId, db)).mapError .db

def retract (assertionId reviewerId reason : String) (event : EventRecord) (createdAt : Int) (db : MemoryDb) :
    Except MemoryAssertionError MemoryDb :=
  match db.insertEvent (plainRow event) with
  | .error e => .error (.db e)
  | .ok db => insertRetraction codec assertionId reviewerId reason event createdAt db

def correct (original : MemoryAssertion) (replacement : Json) (reviewerId reason : String) (event : EventRecord)
    (createdAt : Int) (db : MemoryDb) : Except MemoryAssertionError (String × MemoryDb) :=
  match db.insertEvent (plainRow event) with
  | .error e => .error (.db e)
  | .ok db => insertCorrection codec original replacement reviewerId reason event createdAt db

/-! ## `tombstone_source_event` -/

def affected (db : MemoryDb) (event : String × Int) : List String :=
  orderBy id (closure db.childEdges
    ((db.evidence.rows.filter (fun e => e.event == event)).map MemoryEvidenceRecord.assertionId))

def requestTombstone (event : String × Int) (requestedBy : String) (requestedAt : Int) (kind : TombstoneKind)
    (id : String) (assertionId : Option String) : PrivacyTombstone :=
  let source := sourceId event
  { targetKind := kind
    targetId := id
    assertionId := assertionId
    sourceConversationId := event.1
    sourceEventSeq := event.2
    requestId := sha256Text codec s!"memory-source-deletion:{source}"
    requestedBy := requestedBy
    requestedAt := requestedAt }

def hideEvidence (tombstone : TombstoneKind → String → Option String → PrivacyTombstone) (assertionId : String) :
    List String → MemoryPrivacyDeletionReport × MemoryDb → MemoryPrivacyDeletionReport × MemoryDb
  | [], done => done
  | evidenceId :: rest, done =>
    let hidden := done.2.insertTombstone (tombstone .evidence evidenceId (some assertionId))
    hideEvidence tombstone assertionId rest
      ({ done.1 with evidenceHidden := done.1.evidenceHidden + hidden.1 }, hidden.2)

def hideAssertions (tombstone : TombstoneKind → String → Option String → PrivacyTombstone) :
    List String → MemoryPrivacyDeletionReport × MemoryDb → MemoryPrivacyDeletionReport × MemoryDb
  | [], done => done
  | id :: rest, done =>
    let hidden := done.2.insertTombstone (tombstone .assertion id (some id))
    let db := hidden.2.unproject [id]
    let evidenceIds := orderBy (fun e : String => e)
      ((db.evidence.rows.filter (fun e => e.assertionId == id)).map MemoryEvidenceRecord.evidenceId)
    hideAssertions tombstone rest (hideEvidence tombstone id evidenceIds
      ({ done.1 with assertionsHidden := done.1.assertionsHidden + hidden.1 }, db))

def tombstoneSourceEvent (conversationId : String) (eventSeq : Int) (requestedBy : String) (requestedAt : Int)
    (db : MemoryDb) : Except MemoryAssertionError (MemoryPrivacyDeletionReport × MemoryDb) :=
  let event := (conversationId, eventSeq)
  if (trim conversationId).isEmpty ∨ eventSeq ≤ 0 ∨ (trim requestedBy).isEmpty then
    .error (.invalid "source deletion requires a conversation, positive event sequence, and actor")
  else if db.inLog event = false then .error (.notFound (sourceId event))
  else
    let tombstone := requestTombstone codec event requestedBy requestedAt
    let db := (db.insertTombstone (tombstone .sourceEvent (sourceId event) none)).2
    .ok (hideAssertions tombstone (affected db event) ({}, db))

end MemoryAssertionStore

end Execlaw
