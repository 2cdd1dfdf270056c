import Execlaw.Calls
import Execlaw.Keyed
import Execlaw.Outbox
/-!
# ResearchJobs — deep-research jobs and their deletion (`core/src/research.rs`)

A job is a row with a status, and every writer carries the statuses it may leave in its `WHERE`.  A deletion job is a
tombstone: it hides the row from the readers at once, its payload is scrubbed in the same transaction, and the row goes
when the deletion completes.
-/
namespace Execlaw

open Table

inductive ResearchJobStatus
  | pending | planning | planned | gathering | synthesizing | awaitingInput | complete | failed | cancelled
deriving DecidableEq

namespace ResearchJobStatus

def asStr : ResearchJobStatus → String
  | .pending => "pending"
  | .planning => "planning"
  | .planned => "planned"
  | .gathering => "gathering"
  | .synthesizing => "synthesizing"
  | .awaitingInput => "awaiting_input"
  | .complete => "complete"
  | .failed => "failed"
  | .cancelled => "cancelled"

def isTerminal : ResearchJobStatus → Bool
  | .complete | .failed | .cancelled => true
  | _ => false

end ResearchJobStatus

structure ResearchJobRow where
  id : String
  conversationId : String
  query : String
  status : ResearchJobStatus
  callerTrust : String
  cardId : Option String
  planJson : Option (List UInt8)
  notesJson : Option (List UInt8)
  workspacePath : Option String
  attachmentId : Option String
  error : Option String
  overridesJson : Option (List UInt8)
  createdAt : Int
  updatedAt : Int
  startedAt : Option Int
  finishedAt : Option Int

structure RecoveredJobRef where
  jobId : String
  conversationId : String
  cardId : Option String

structure ResearchPurgeCandidate where
  jobId : String
  workspacePath : Option String
  attachmentId : Option String

inductive DeletionStatus | pending | complete
deriving DecidableEq

structure ResearchDeletionJob where
  deletionId : String
  resourceId : String
  requestedBy : String
  requestSource : String
  payloadJson : String
  status : DeletionStatus
  attemptCount : Nat
  lastError : Option String
  requestedAt : Int
  updatedAt : Int
  completedAt : Option Int

def ResearchDeletionJob.Ok (d : ResearchDeletionJob) : Prop := d.status = .complete ↔ d.completedAt.isSome = true

inductive ResearchError
  | db (error : DbError)
  | invalid (msg : String)
  | notFound (what : String)
  | encoding (msg : String)

structure ResearchCodec (Plan Note : Type) where
  planToVec : Plan → Except String (List UInt8)
  notesToVec : List Note → Except String (List UInt8)
  candidateToString : ResearchPurgeCandidate → Except String String

structure ResearchTables where
  jobs : Keyed ResearchJobRow.id (fun _ => True)
  deletions : Keyed ResearchDeletionJob.deletionId ResearchDeletionJob.Ok

namespace ResearchTables

def empty : ResearchTables := ⟨.empty, .empty⟩

def deletionOf (t : ResearchTables) (id : String) : Option ResearchDeletionJob :=
  t.deletions.rows.find? (fun d => d.resourceId == id)

def tombstoned (t : ResearchTables) (id : String) : Bool := t.deletions.rows.any (fun d => d.resourceId == id)

theorem isSome_deletionOf (t : ResearchTables) (id : String) : (t.deletionOf id).isSome = t.tombstoned id := by
  rw [deletionOf, tombstoned, List.isSome_find?]

end ResearchTables

namespace ResearchJobStore

def get (id : String) (t : ResearchTables) : Option ResearchJobRow :=
  (t.jobs.row id).filter (fun r => !t.tombstoned r.id)

def listAll (t : ResearchTables) : List ResearchJobRow :=
  orderBy (fun r => -r.createdAt) (t.jobs.rows.filter (fun r => !t.tombstoned r.id))

def listForConversation (conversationId : String) (t : ResearchTables) : List ResearchJobRow :=
  orderBy (fun r => -r.createdAt)
    (t.jobs.rows.filter (fun r => r.conversationId == conversationId && !t.tombstoned r.id))

/-! ## Updates -/

abbrev JobChange := Change ResearchJobRow.id (fun _ => True)

def advance (source target : ResearchJobStatus) (now : Int) : JobChange where
  takes := fun r => r.status == source
  set := fun r => { r with status := target, updatedAt := now }
  key_set := fun _ => rfl
  keeps_ok := fun _ h _ => h

def claimChange (cardId : String) (now : Int) : JobChange where
  takes := fun r => r.status == .pending
  set := fun r =>
    { r with status := .planning, cardId := r.cardId.or (some cardId), startedAt := some now, updatedAt := now }
  key_set := fun _ => rfl
  keeps_ok := fun _ h _ => h

def plannedChange (blob : List UInt8) (now : Int) : JobChange where
  takes := fun r => r.status == .planning
  set := fun r => { r with planJson := some blob, status := .planned, updatedAt := now }
  key_set := fun _ => rfl
  keeps_ok := fun _ h _ => h

def notesChange (blob : List UInt8) (now : Int) : JobChange where
  takes := fun r => !r.status.isTerminal
  set := fun r => { r with notesJson := some blob, updatedAt := now }
  key_set := fun _ => rfl
  keeps_ok := fun _ h _ => h

def workspaceChange (path : String) (now : Int) : JobChange where
  takes := fun r => !r.status.isTerminal
  set := fun r => { r with workspacePath := some path, updatedAt := now }
  key_set := fun _ => rfl
  keeps_ok := fun _ h _ => h

def awaitingChange (question : String) (now : Int) : JobChange where
  takes := fun r => !r.status.isTerminal
  set := fun r => { r with status := .awaitingInput, error := some question, updatedAt := now }
  key_set := fun _ => rfl
  keeps_ok := fun _ h _ => h

def resumeChange (merged : String) (now : Int) : JobChange where
  takes := fun r => r.status == .awaitingInput
  set := fun r =>
    { r with
      status := .pending, query := merged, error := none, planJson := none, startedAt := none, updatedAt := now }
  key_set := fun _ => rfl
  keeps_ok := fun _ h _ => h

def finishChange (terminal : ResearchJobStatus) (error attachmentId : Option String) (now : Int) : JobChange where
  takes := fun r => !r.status.isTerminal
  set := fun r =>
    { r with
      status := terminal, error := error.or r.error, attachmentId := attachmentId.or r.attachmentId
      finishedAt := some now, updatedAt := now }
  key_set := fun _ => rfl
  keeps_ok := fun _ h _ => h

/-- The statuses `cancel_active` leaves. -/
def cancellable : List ResearchJobStatus :=
  [.pending, .planning, .planned, .gathering, .synthesizing, .awaitingInput]

def cancelChange (reason : Option String) (now : Int) : JobChange where
  takes := fun r => cancellable.contains r.status
  set := fun r =>
    { r with status := .cancelled, error := reason.or r.error, finishedAt := some now, updatedAt := now }
  key_set := fun _ => rfl
  keeps_ok := fun _ h _ => h

def interrupted : List ResearchJobStatus := [.planning, .gathering, .synthesizing]

def failChange (reason : String) (now : Int) : JobChange where
  takes := fun r => interrupted.contains r.status
  set := fun r => { r with status := .failed, error := some reason, finishedAt := some now, updatedAt := now }
  key_set := fun _ => rfl
  keeps_ok := fun _ h _ => h

def scrub (r : ResearchJobRow) : ResearchJobRow :=
  { r with query := "", planJson := none, notesJson := none, error := none }

def scrubChange : JobChange where
  takes := fun r => r.status.isTerminal
  set := scrub
  key_set := fun _ => rfl
  keeps_ok := fun _ h _ => h

/-- An `UPDATE` of one job, and whether it found a row. -/
def update (id : String) (c : JobChange) (t : ResearchTables) : Bool × ResearchTables :=
  (t.jobs.changed id c, { t with jobs := t.jobs.update id c })

/-- The writers that answer `NotFound` where their update takes no row. -/
def updateOrNotFound (id : String) (c : JobChange) (t : ResearchTables) :
    Except ResearchError Unit × ResearchTables :=
  if (update id c t).1 then (.ok (), (update id c t).2) else (.error (.notFound id), (update id c t).2)

/-! ## `insert_pending` -/

def newJob (id conversationId query callerTrust : String) (overridesJson : Option (List UInt8)) (now : Int) :
    ResearchJobRow where
  id := id
  conversationId := conversationId
  query := query
  status := .pending
  callerTrust := callerTrust
  cardId := none
  planJson := none
  notesJson := none
  workspacePath := none
  attachmentId := none
  error := none
  overridesJson := overridesJson
  createdAt := now
  updatedAt := now
  startedAt := none
  finishedAt := none

def insertTx (row : ResearchJobRow) (t : ResearchTables) : Except DbError (Unit × ResearchTables) :=
  if t.tombstoned row.id then .error (.invariant "research job id is protected by a privacy tombstone")
  else
    match t.jobs.insert? row trivial with
    | none => .error (.sqlite "UNIQUE constraint failed: state_research_jobs.id")
    | some jobs => .ok ((), { t with jobs := jobs })

/-- `insert_pending` up to the row it reads back. -/
def insertPending (id conversationId query callerTrust : String) (overridesJson : Option (List UInt8)) (now : Int)
    (t : ResearchTables) : Except ResearchError Unit × ResearchTables :=
  if (trim query).isEmpty then (.error (.invalid "query is empty"), t)
  else if 8000 < (trim query).length then (.error (.invalid "query too long (max 8000 chars)"), t)
  else
    match Calls.transact (insertTx (newJob id conversationId (trim query) callerTrust overridesJson now)) t with
    | (.error e, t) => (.error (.db e), t)
    | (.ok (), t) => (.ok (), t)

/-- What `insert_pending` returns, from the answer of its transaction and the state its `get` meets. -/
def inserted (id : String) (answer : Except ResearchError Unit) (later : ResearchTables) :
    Except ResearchError ResearchJobRow :=
  match answer with
  | .error e => .error e
  | .ok () =>
    match get id later with
    | some r => .ok r
    | none => .error (.notFound id)

/-! ## `claim_next_pending` -/

def nextPending (t : ResearchTables) : Option ResearchJobRow :=
  (orderBy ResearchJobRow.createdAt
    (t.jobs.rows.filter (fun r => r.status == .pending && !t.tombstoned r.id))).head?

/-- The transaction of `claim_next_pending`: the identifier it claims. -/
def claimNextPending (cardId : String) (now : Int) (t : ResearchTables) : Option String × ResearchTables :=
  match nextPending t with
  | none => (none, t)
  | some r => (some r.id, (update r.id (claimChange cardId now) t).2)

/-- What `claim_next_pending` returns, from the identifier it claimed and the state its `get` meets. -/
def claimed (id : Option String) (later : ResearchTables) : Option ResearchJobRow := id.bind (fun id => get id later)

/-! ## The phases of a runner -/

section Phases

variable {Plan Note : Type} (codec : ResearchCodec Plan Note)

def setPlanned (id : String) (plan : Plan) (now : Int) (t : ResearchTables) :
    Except ResearchError Unit × ResearchTables :=
  match codec.planToVec plan with
  | .error e => (.error (.encoding e), t)
  | .ok blob => updateOrNotFound id (plannedChange blob now) t

def setNotes (id : String) (notes : List Note) (now : Int) (t : ResearchTables) :
    Except ResearchError Unit × ResearchTables :=
  match codec.notesToVec notes with
  | .error e => (.error (.encoding e), t)
  | .ok blob => updateOrNotFound id (notesChange blob now) t

end Phases

def markGathering (id : String) (now : Int) : ResearchTables → Bool × ResearchTables :=
  update id (advance .planned .gathering now)

def markSynthesizing (id : String) (now : Int) : ResearchTables → Bool × ResearchTables :=
  update id (advance .gathering .synthesizing now)

def setWorkspacePath (id path : String) (now : Int) : ResearchTables → Except ResearchError Unit × ResearchTables :=
  updateOrNotFound id (workspaceChange path now)

def finish (id : String) (terminal : ResearchJobStatus) (error attachmentId : Option String) (now : Int)
    (t : ResearchTables) : Except ResearchError Bool × ResearchTables :=
  if !terminal.isTerminal then (.error (.invalid s!"{terminal.asStr} is not a terminal status"), t)
  else (.ok (update id (finishChange terminal error attachmentId now) t).1,
    (update id (finishChange terminal error attachmentId now) t).2)

def markFailedWhereActive (reason : String) (now : Int) (t : ResearchTables) :
    List RecoveredJobRef × ResearchTables :=
  ((t.jobs.rows.filter (fun r => interrupted.contains r.status)).map (fun r => ⟨r.id, r.conversationId, r.cardId⟩),
    { t with jobs := t.jobs.updateAll (failChange reason now) })

def setAwaitingInput (id question : String) (now : Int) : ResearchTables → Bool × ResearchTables :=
  update id (awaitingChange question now)

/-- The query a clarification is appended to; `unwrap_or_default` where no row awaits one. -/
def awaitingQuery (id : String) (t : ResearchTables) : String :=
  (((t.jobs.row id).filter (fun r => r.status == .awaitingInput)).map ResearchJobRow.query).getD ""

def resumeWithClarification (id clarification : String) (now : Int) (t : ResearchTables) : Bool × ResearchTables :=
  if (awaitingQuery id t).isEmpty then (false, t)
  else update id
    (resumeChange (awaitingQuery id t ++ "\n\nClarification from operator: " ++ clarification) now) t

def cancelActive (id : String) (reason : Option String) (now : Int) : ResearchTables → Bool × ResearchTables :=
  update id (cancelChange reason now)

def newDeletion (deletionId resourceId requestedBy requestSource payloadJson : String) (now : Int) :
    ResearchDeletionJob where
  deletionId := deletionId
  resourceId := resourceId
  requestedBy := requestedBy
  requestSource := requestSource
  payloadJson := payloadJson
  status := .pending
  attemptCount := 0
  lastError := none
  requestedAt := now
  updatedAt := now
  completedAt := none

theorem newDeletion_ok (deletionId resourceId requestedBy requestSource payloadJson : String) (now : Int) :
    (newDeletion deletionId resourceId requestedBy requestSource payloadJson now).Ok := by
  simp [ResearchDeletionJob.Ok, newDeletion]

def notFoundPrefix : String := "research job not found:"

def activeMessage : String := "active research jobs cannot be deleted"

def insertDeletion (d : ResearchDeletionJob) (hd : d.Ok) (t : ResearchTables) : Except DbError (String × ResearchTables) :=
  match t.deletions.insert? d hd with
  | none => .error (.sqlite "UNIQUE constraint failed: state_privacy_deletion_jobs.deletion_id")
  | some deletions =>
    .ok (d.deletionId, ⟨t.jobs.update d.resourceId scrubChange, deletions⟩)

/-- The transaction of `request_deletion`; `candidateId` is the fresh identifier. -/
def requestDeletionTx (candidateToString : ResearchPurgeCandidate → Except String String)
    (jobId requestedBy requestSource : String) (now : Int) (candidateId : String) (t : ResearchTables) :
    Except DbError (String × ResearchTables) :=
  match t.deletionOf jobId with
  | some d => .ok (d.deletionId, t)
  | none =>
    match t.jobs.row jobId with
    | none => .error (.invariant s!"{notFoundPrefix} {jobId}")
    | some r =>
      if !r.status.isTerminal then .error (.invariant activeMessage)
      else
        match candidateToString ⟨jobId, r.workspacePath, r.attachmentId⟩ with
        | .error e => .error (.invariant s!"encode deletion payload: {e}")
        | .ok payload =>
          insertDeletion (newDeletion candidateId jobId requestedBy requestSource payload now)
            (newDeletion_ok ..) t

/-- The `map_err` of `request_deletion`. -/
def deletionError : DbError → ResearchError
  | .invariant message =>
    if notFoundPrefix.toList.isPrefixOf message.toList then .notFound message
    else if message = activeMessage then .invalid message
    else .db (.invariant message)
  | e => .db e

def requestDeletion (candidateToString : ResearchPurgeCandidate → Except String String)
    (jobId requestedBy requestSource : String) (now : Int) (candidateId : String) (t : ResearchTables) :
    Except ResearchError String × ResearchTables :=
  if (trim requestedBy).isEmpty || 128 < requestedBy.utf8ByteSize ||
      !(["controller", "retention"].contains requestSource) then
    (.error (.invalid "invalid research deletion actor or source"), t)
  else
    match Calls.transact (requestDeletionTx candidateToString jobId requestedBy requestSource now candidateId) t with
    | (.error e, t) => (.error (deletionError e), t)
    | (.ok deletionId, t) => (.ok deletionId, t)

abbrev DeletionChange := Change ResearchDeletionJob.deletionId ResearchDeletionJob.Ok

def failureChange (error : String) (now : Int) : DeletionChange where
  takes := fun d => d.status == .pending
  set := fun d =>
    { d with attemptCount := d.attemptCount + 1, lastError := some (String.ofList (error.toList.take 2048)), updatedAt := now }
  key_set := fun _ => rfl
  keeps_ok := fun _ h _ => h

def recordDeletionFailure (deletionId error : String) (now : Int) (t : ResearchTables) : ResearchTables :=
  { t with deletions := t.deletions.update deletionId (failureChange error now) }

def completeChange (now : Int) : DeletionChange where
  takes := fun d => d.status == .pending
  set := fun d => { d with status := .complete, lastError := none, completedAt := some now, updatedAt := now }
  key_set := fun _ => rfl
  keeps_ok := fun _ _ _ => by simp [ResearchDeletionJob.Ok]

def completeDeletion (deletionId : String) (now : Int) (t : ResearchTables) : Bool × ResearchTables :=
  match (t.deletions.row deletionId).filter (fun d => d.status == .pending) with
  | none => (false, t)
  | some d =>
    (t.deletions.changed deletionId (completeChange now),
      ⟨t.jobs.remove d.resourceId (fun r => r.status.isTerminal),
        t.deletions.update deletionId (completeChange now)⟩)

/-- The statements that take the connection: `insert_pending` and `claim_next_pending` end with a `get` of their own. -/
inductive Call (Plan Note : Type)
  | insertPending (id conversationId query callerTrust : String) (overridesJson : Option (List UInt8)) (now : Int)
  | get (id : String)
  | listAll
  | listForConversation (conversationId : String)
  | claimNextPending (cardId : String) (now : Int)
  | setWorkspacePath (id path : String) (now : Int)
  | setPlanned (id : String) (plan : Plan) (now : Int)
  | markGathering (id : String) (now : Int)
  | setNotes (id : String) (notes : List Note) (now : Int)
  | markSynthesizing (id : String) (now : Int)
  | setAwaitingInput (id question : String) (now : Int)
  | resumeWithClarification (id clarification : String) (now : Int)
  | finish (id : String) (terminal : ResearchJobStatus) (error attachmentId : Option String) (now : Int)
  | cancelActive (id : String) (reason : Option String) (now : Int)
  | markFailedWhereActive (reason : String) (now : Int)
  | requestDeletion (jobId requestedBy requestSource : String) (now : Int) (candidateId : String)
  | recordDeletionFailure (deletionId error : String) (now : Int)
  | completeDeletion (deletionId : String) (now : Int)

inductive Reply
  | done
  | moved (landed : Bool)
  | found (row : Option ResearchJobRow)
  | rows (rows : List ResearchJobRow)
  | claimed (id : Option String)
  | recovered (refs : List RecoveredJobRef)
  | deletion (deletionId : String)

def answer {α : Type} (f : α → Reply) :
    Except ResearchError α × ResearchTables → Except ResearchError Reply × ResearchTables
  | (.ok a, t) => (.ok (f a), t)
  | (.error e, t) => (.error e, t)

def reply {α : Type} (f : α → Reply) (p : α × ResearchTables) : Except ResearchError Reply × ResearchTables :=
  (.ok (f p.1), p.2)

def exec {Plan Note : Type} (codec : ResearchCodec Plan Note) (t : ResearchTables) :
    Call Plan Note → Except ResearchError Reply × ResearchTables
  | .insertPending id conversationId query callerTrust overridesJson now =>
    answer (fun _ => .done) (insertPending id conversationId query callerTrust overridesJson now t)
  | .get id => (.ok (.found (get id t)), t)
  | .listAll => (.ok (.rows (listAll t)), t)
  | .listForConversation conversationId => (.ok (.rows (listForConversation conversationId t)), t)
  | .claimNextPending cardId now => reply .claimed (claimNextPending cardId now t)
  | .setWorkspacePath id path now => answer (fun _ => .done) (setWorkspacePath id path now t)
  | .setPlanned id plan now => answer (fun _ => .done) (setPlanned codec id plan now t)
  | .markGathering id now => reply .moved (markGathering id now t)
  | .setNotes id notes now => answer (fun _ => .done) (setNotes codec id notes now t)
  | .markSynthesizing id now => reply .moved (markSynthesizing id now t)
  | .setAwaitingInput id question now => reply .moved (setAwaitingInput id question now t)
  | .resumeWithClarification id clarification now => reply .moved (resumeWithClarification id clarification now t)
  | .finish id terminal error attachmentId now => answer .moved (finish id terminal error attachmentId now t)
  | .cancelActive id reason now => reply .moved (cancelActive id reason now t)
  | .markFailedWhereActive reason now => reply .recovered (markFailedWhereActive reason now t)
  | .requestDeletion jobId requestedBy requestSource now candidateId =>
    answer .deletion
      (requestDeletion codec.candidateToString jobId requestedBy requestSource now candidateId t)
  | .recordDeletionFailure deletionId error now => (.ok .done, recordDeletionFailure deletionId error now t)
  | .completeDeletion deletionId now => reply .moved (completeDeletion deletionId now t)

end ResearchJobStore

end Execlaw
