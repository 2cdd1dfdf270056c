import Execlaw.Closure
import Execlaw.Outbox
/-!
# Runs — durable runs and their steps (`core/src/runs.rs`)

A run is a row with a status and a cursor; its steps are rows keyed by id and by ordinal.  A worker claims the step at
the cursor under a lease, finishes or parks it by name, and moves the cursor past a completed step.  Every guard is a
`WHERE` clause: an operation that finds no row to update changes nothing and says so.
-/
namespace Execlaw

/-! ## Statuses and errors -/

def RunStatus.asStr : RunStatus → String
  | .pending => "pending"
  | .running => "running"
  | .waiting => "waiting"
  | .completed => "completed"
  | .failed => "failed"
  | .cancelled => "cancelled"

def RunStatus.active : RunStatus → Bool
  | .pending | .running | .waiting => true
  | .completed | .failed | .cancelled => false

def RunStepStatus.asStr : RunStepStatus → String
  | .pending => "pending"
  | .running => "running"
  | .waiting => "waiting"
  | .completed => "completed"
  | .failed => "failed"

def StepState.status : StepState → RunStepStatus
  | .pending => .pending
  | .running _ _ => .running
  | .waiting => .waiting
  | .completed _ => .completed
  | .failed _ => .failed

def RunStepRecord.status (s : RunStepRecord) : RunStepStatus := s.state.status

def RunStepRecord.leaseOwner (s : RunStepRecord) : Option String :=
  match s.state with
  | .running owner _ => some owner
  | _ => none

def RunStepRecord.leaseExpiresAt (s : RunStepRecord) : Option Int :=
  match s.state with
  | .running _ expiry => some expiry
  | _ => none

/-- `status IN ('pending', 'running', 'waiting')` of a step. -/
def RunStepRecord.unfinished (s : RunStepRecord) : Bool :=
  s.status == .pending || s.status == .running || s.status == .waiting

inductive RunStoreError
  | db (error : DbError)
  | notFound (entity id : String)
  | invalidTransition (entity id status operation : String)
  | conflict (msg : String)
  | invalidLease (now leaseExpiresAt : Int)
  | corrupt (msg : String)
deriving DecidableEq

def runTx {α : Type} (f : Db → Except DbError (α × Db)) (db : Db) : Except RunStoreError α × Db :=
  match transaction f db with
  | (.ok a, db) => (.ok a, db)
  | (.error e, db) => (.error (.db e), db)

/-- The primary key `(run_id, step_id)`. -/
def RunStepRecord.key (s : RunStepRecord) : String × String := (s.runId, s.stepId)

/-- The unique pair `(run_id, ordinal)`. -/
def RunStepRecord.slot (s : RunStepRecord) : String × Int := (s.runId, s.ordinal)

def Db.run (db : Db) (runId : String) : Option RunRow := Table.byKey RunRow.runId runId db.runs

def Db.step (db : Db) (runId stepId : String) : Option RunStepRecord :=
  Table.byKey RunStepRecord.key (runId, stepId) db.steps

def Db.stepAt (db : Db) (runId : String) (ordinal : Int) : Option RunStepRecord :=
  Table.byKey RunStepRecord.slot (runId, ordinal) db.steps

def Db.budget (db : Db) (runId : String) : Option ExecutionBudgetRow :=
  Table.byKey ExecutionBudgetRow.runId runId db.budgets

def requiredRun (runId : String) (db : Db) : Except RunStoreError RunRow :=
  match db.run runId with
  | some r => .ok r
  | none => .error (.notFound "run" runId)

def requiredStep (runId stepId : String) (db : Db) : Except RunStoreError RunStepRecord :=
  match db.step runId stepId with
  | some s => .ok s
  | none => .error (.notFound "step" s!"{runId}/{stepId}")

def transitionError (runId stepId operation : String) (db : Db) : RunStoreError :=
  match requiredStep runId stepId db with
  | .ok s => .invalidTransition "step" s!"{runId}/{stepId}" s.status.asStr operation
  | .error e => e

def Db.updateStep (db : Db) (runId stepId : String) (f : RunStepRecord → RunStepRecord) : Db :=
  { db with steps := Table.updateKey RunStepRecord.key (runId, stepId) f db.steps }

def Db.updateRun (db : Db) (runId : String) (f : RunRow → RunRow) : Db :=
  { db with runs := Table.updateKey RunRow.runId runId f db.runs }

def Db.setRunStatus (db : Db) (runId : String) (status : RunStatus) : Db :=
  db.updateRun runId (fun r => { r with status := status })

def Db.atCursor (db : Db) (s : RunStepRecord) : Bool :=
  match db.run s.runId with
  | some r => r.status.active && decide (s.ordinal = r.cursor)
  | none => false

/-! ## Creating runs -/

structure NewRun where
  conversationId : String
  parentRunId : Option String := none
  inputEventSeq : Int
  startedAt : Int
  deadlineAt : Option Int := none

def foreignKey : DbError := .sqlite "FOREIGN KEY constraint failed"

def Db.hasEvent (db : Db) (conversationId : String) (seq : Int) : Bool :=
  db.events.any (fun e => e.conversationId == conversationId && e.seq == seq)

def Db.insertRun (db : Db) (runId : String) (new : NewRun) : Except DbError Db :=
  if db.hasEvent new.conversationId new.inputEventSeq then
    .ok { db with
      runs := db.runs ++ [{
        runId := runId, conversationId := new.conversationId, status := .pending
        inputEventSeq := new.inputEventSeq, startedAt := new.startedAt, parentRunId := new.parentRunId
        cursor := 0, deadlineAt := new.deadlineAt }]
      eventRefs := db.eventRefs ++ [(new.conversationId, new.inputEventSeq)] }
  else .error foreignKey

def checkParent (db : Db) (new : NewRun) : Except DbError Unit :=
  match new.parentRunId with
  | none => .ok ()
  | some parentRunId =>
    match db.run parentRunId with
    | none => .error (.invariant s!"parent run '{parentRunId}' was not found")
    | some parent =>
      if parent.conversationId = new.conversationId then .ok ()
      else .error (.invariant "parent and child runs must share a conversation")

/-- The transaction of `create_run_with_id`: `INSERT OR IGNORE` skips a known id, and an input sequence the table's
`CHECK` refuses. -/
def createRunTx (runId : String) (new : NewRun) : Db → Except RunStoreError Unit × Db :=
  runTx fun db =>
    match checkParent db new with
    | .error e => .error e
    | .ok () =>
      if (db.run runId).isSome ∨ new.inputEventSeq ≤ 0 then .ok ((), db)
      else (db.insertRun runId new).map (fun db => ((), db))

/-- `create_run_with_id`, without the information label it observes for the run's input. -/
def createRunWithId (runId : String) (new : NewRun) (db : Db) : Except RunStoreError RunRow × Db :=
  match createRunTx runId new db with
  | (.error e, db) => (.error e, db)
  | (.ok (), db) =>
    match requiredRun runId db with
    | .error e => (.error e, db)
    | .ok existing =>
      if existing.conversationId ≠ new.conversationId ∨ existing.parentRunId ≠ new.parentRunId ∨
          existing.inputEventSeq ≠ new.inputEventSeq ∨ existing.deadlineAt ≠ new.deadlineAt then
        (.error (.conflict s!"run '{runId}' was retried with a different definition"), db)
      else (.ok existing, db)

/-- `fork_run`, without the copy of the completion contract; `newId` is the fresh identifier. -/
def forkRun (sourceRunId newId : String) (now : Int) (db : Db) : Except RunStoreError RunRow × Db :=
  match requiredRun sourceRunId db with
  | .error e => (.error e, db)
  | .ok source =>
    let new : NewRun :=
      { conversationId := source.conversationId, parentRunId := some source.runId
        inputEventSeq := source.inputEventSeq, startedAt := now, deadlineAt := none }
    match runTx (fun db =>
        if (db.run newId).isSome then .error (.sqlite "UNIQUE constraint failed: state_runs.run_id")
        else (db.insertRun newId new).map (fun db => ((), db))) db with
    | (.error e, db) => (.error e, db)
    | (.ok (), db) => (requiredRun newId db, db)

/-! ## Execution budgets -/

def saturatingMul (a b : Int) : Int := max (-2 ^ 63) (min (2 ^ 63 - 1) (a * b))

/-- The clock check of `validate_run_clock`. -/
def validateRunClock (lastObservedMs nowMs : Int) : Except DbError Unit :=
  if nowMs < lastObservedMs then
    .error (.invariant
      s!"wall clock moved backward from {lastObservedMs} to {nowMs}; timer validity is unverifiable")
  else .ok ()

def Db.updateBudget (db : Db) (runId : String) (f : ExecutionBudgetRow → ExecutionBudgetRow) : Db :=
  { db with budgets := Table.updateKey ExecutionBudgetRow.runId runId f db.budgets }

def ensureExecutionBudget (runId : String) (timeLimitMs retryLimit effectLimit : Nat) (nowMs : Int) (db : Db) :
    Except RunStoreError ExecutionBudgetRow × Db :=
  if timeLimitMs = 0 then (.error (.conflict "run time budget must be positive"), db)
  else if 2 ^ 63 ≤ timeLimitMs then (.error (.conflict "run time budget is too large"), db)
  else if (db.run runId).isNone then (.error (.db foreignKey), db)
  else
    let fresh : ExecutionBudgetRow :=
      { runId := runId, timeLimitMs := timeLimitMs, deadlineAtMs := saturatingAdd nowMs timeLimitMs
        retryLimit := retryLimit, effectLimit := effectLimit, updatedAtMs := nowMs }
    let stored := (db.budget runId).getD fresh
    let db := if (db.budget runId).isSome then db else { db with budgets := db.budgets ++ [fresh] }
    if stored.timeLimitMs ≠ timeLimitMs ∨ stored.retryLimit ≠ retryLimit ∨ stored.effectLimit ≠ effectLimit then
      (.error (.db (.invariant "run execution budget changed during a durable run")), db)
    else
      (.ok stored,
        db.updateRun runId (fun r => { r with deadlineAt := r.deadlineAt.or (some (stored.deadlineAtMs / 1000)) }))

def executionBudgetAt (runId : String) (nowMs : Int) : Db → Except RunStoreError (Option ExecutionBudgetRow) × Db :=
  runTx fun db =>
    match db.budget runId with
    | none => .ok (none, db)
    | some b =>
      if b.updatedAtMs ≤ nowMs then
        .ok (some { b with updatedAtMs := nowMs }, db.updateBudget runId (fun b => { b with updatedAtMs := nowMs }))
      else
        match validateRunClock b.updatedAtMs nowMs with
        | .error e => .error e
        | .ok () => .ok (none, db)

def observeExecutionBudgetAtSecond (runId : String) (now : Int) : Db → Except RunStoreError Unit × Db :=
  runTx fun db =>
    match db.budget runId with
    | none => .ok ((), db)
    | some b =>
      if now < b.updatedAtMs / 1000 then
        .error (.invariant
          (s!"wall clock moved backward from {b.updatedAtMs} to {saturatingMul now 1000}; " ++
            "timer validity is unverifiable"))
      else .ok ((), db.updateBudget runId (fun b => { b with updatedAtMs := max b.updatedAtMs (saturatingMul now 1000) }))

structure NewRunStep where
  stepId : String
  ordinal : Int
  kind : RunStepKind
  inputHash : String
  approvalId : Option String := none
  outboxIdempotencyKey : Option String := none

def NewRunStep.record (new : NewRunStep) (runId : String) : RunStepRecord where
  runId := runId
  stepId := new.stepId
  ordinal := new.ordinal
  kind := new.kind
  inputHash := new.inputHash
  approvalId := new.approvalId
  outboxIdempotencyKey := new.outboxIdempotencyKey

/-- A row that `INSERT OR IGNORE` skips: its key, its ordinal, its approval id or its outbox key is taken, or its
ordinal is one the `CHECK` refuses. -/
def Db.stepCollides (db : Db) (s : RunStepRecord) : Bool :=
  decide (s.ordinal < 0) || db.steps.any (fun t => t.key == s.key || t.slot == s.slot ||
    (t.approvalId.isSome && t.approvalId == s.approvalId) ||
    (t.outboxIdempotencyKey.isSome && t.outboxIdempotencyKey == s.outboxIdempotencyKey))

def RunStepRecord.defines (s : RunStepRecord) (new : NewRunStep) : Bool :=
  decide (s.ordinal = new.ordinal ∧ s.kind = new.kind ∧ s.inputHash = new.inputHash ∧
    s.approvalId = new.approvalId ∧ s.outboxIdempotencyKey = new.outboxIdempotencyKey)

def addStepTx (runId : String) (new : NewRunStep) : Db → Except RunStoreError (Option RunStepRecord) × Db :=
  runTx fun db =>
    match db.run runId with
    | none => .error (.invariant s!"run '{runId}' was not found")
    | some r =>
      if r.status.active then
        let db :=
          if db.stepCollides (new.record runId) then db else { db with steps := db.steps ++ [new.record runId] }
        .ok (db.step runId new.stepId, db)
      else .error (.invariant s!"cannot add step to run '{runId}' while it is {r.status.asStr}")

def addStep (runId : String) (new : NewRunStep) (db : Db) : Except RunStoreError RunStepRecord × Db :=
  match addStepTx runId new db with
  | (.error e, db) => (.error e, db)
  | (.ok none, db) =>
    (.error (.conflict s!"step '{new.stepId}' collides with an existing ordinal, approval id, or outbox key"), db)
  | (.ok (some existing), db) =>
    if existing.defines new then (.ok existing, db)
    else (.error (.conflict s!"step '{new.stepId}' was retried with a different definition"), db)

def StepState.claimable (state : StepState) (now : Int) : Bool :=
  match state with
  | .pending => true
  | .running _ expiry => decide (expiry ≤ now)
  | _ => false

def RunStepRecord.claim (s : RunStepRecord) (leaseOwner : String) (now leaseExpiresAt : Int) : RunStepRecord :=
  { s with
    state := .running leaseOwner leaseExpiresAt, attempt := s.attempt + 1, startedAt := s.startedAt.or (some now) }

def moveStep (runId stepId : String) (guard : Db → RunStepRecord → Bool) (f : RunStepRecord → RunStepRecord)
    (status : RunStatus) (db : Db) : Bool × Db :=
  match db.step runId stepId with
  | some s => if guard db s then (true, (db.updateStep runId stepId f).setRunStatus runId status) else (false, db)
  | none => (false, db)

def movedStep (runId stepId operation : String) : Except RunStoreError Bool × Db → Except RunStoreError RunStepRecord × Db
  | (.error e, db) => (.error e, db)
  | (.ok true, db) => (requiredStep runId stepId db, db)
  | (.ok false, db) => (.error (transitionError runId stepId operation db), db)

def claimStepTx (runId stepId leaseOwner : String) (now leaseExpiresAt : Int) : Db → Except RunStoreError Bool × Db :=
  runTx fun db => .ok (moveStep runId stepId (fun db s => s.state.claimable now && db.atCursor s)
    (fun s => s.claim leaseOwner now leaseExpiresAt) .running db)

def claimStep (runId stepId leaseOwner : String) (now leaseExpiresAt : Int) (db : Db) :
    Except RunStoreError RunStepRecord × Db :=
  match observeExecutionBudgetAtSecond runId now db with
  | (.error e, db) => (.error e, db)
  | (.ok (), db) =>
    if leaseExpiresAt ≤ now then (.error (.invalidLease now leaseExpiresAt), db)
    else movedStep runId stepId "claim" (claimStepTx runId stepId leaseOwner now leaseExpiresAt db)

def RunStepRecord.leasedTo (s : RunStepRecord) (leaseOwner : String) : Bool := s.leaseOwner == some leaseOwner

def RunStepRecord.finish (s : RunStepRecord) (state : StepState) (outputRef : Option String) : RunStepRecord :=
  { s with state := state, outputRef := outputRef }

def finishStep (runId stepId leaseOwner : String) (state : StepState) (outputRef : Option String) (db : Db) :
    Except RunStoreError RunStepRecord × Db :=
  movedStep runId stepId state.status.asStr
    (runTx (fun db => .ok (moveStep runId stepId (fun _ s => s.leasedTo leaseOwner)
      (fun s => s.finish state outputRef) (if state.status = .failed then .failed else .running) db)) db)

def completeStep (runId stepId leaseOwner : String) (outputRef : Option String) (completedAt : Int) :
    Db → Except RunStoreError RunStepRecord × Db :=
  finishStep runId stepId leaseOwner (.completed completedAt) outputRef

def failStep (runId stepId leaseOwner : String) (outputRef : Option String) (completedAt : Int) :
    Db → Except RunStoreError RunStepRecord × Db :=
  finishStep runId stepId leaseOwner (.failed completedAt) outputRef

/-- `INSERT OR IGNORE INTO state_outbox`: the row of a new key is stored, and no delivery event with it. -/
def Db.insertOutbox (db : Db) (row : OutboxRow) : Db :=
  if db.outbox.any (fun r => r.idempotencyKey == row.idempotencyKey) then db
  else
    let id := db.outboxSeq + 1
    { db with
      outbox := db.outbox ++ [{
        id := id, idempotencyKey := row.idempotencyKey, conversationId := row.conversationId
        effectKind := row.effectKind, payload := row.payload, status := row.status, attempts := row.attempts
        nextAttemptAt := row.nextAttemptAt, lastError := row.lastError, enqueuedSeq := row.enqueuedSeq }]
      outboxSeq := id }

def Db.sameOutbox (db : Db) (row : OutboxRow) : Bool :=
  match db.outbox.find? (fun r => r.idempotencyKey == row.idempotencyKey) with
  | some r => decide (r.conversationId = row.conversationId ∧ r.effectKind = row.effectKind ∧
      r.payload = row.payload ∧ r.enqueuedSeq = row.enqueuedSeq)
  | none => false

def checkEnqueueStep (runId stepId : String) (row : OutboxRow) (db : Db) : Except RunStoreError Unit :=
  match requiredStep runId stepId db with
  | .error e => .error e
  | .ok step =>
    if step.kind ≠ .outboxEnqueue ∧ step.kind ≠ .toolDispatch then
      .error (.conflict s!"step '{stepId}' is not an effect-enqueue step")
    else if step.outboxIdempotencyKey ≠ some row.idempotencyKey then
      .error (.conflict s!"step '{stepId}' does not reserve outbox key '{row.idempotencyKey}'")
    else
      match requiredRun runId db with
      | .error e => .error e
      | .ok run =>
        if run.conversationId ≠ row.conversationId then
          .error (.conflict "run and outbox row must share a conversation")
        else .ok ()

def enqueueAndCompleteTx (runId stepId leaseOwner : String) (row : OutboxRow) (outputRef : Option String)
    (completedAt : Int) : Db → Except RunStoreError Unit × Db :=
  runTx fun db =>
    let db := db.insertOutbox row
    if !db.sameOutbox row then
      .error (.invariant s!"outbox key '{row.idempotencyKey}' was already used for a different effect")
    else
      match moveStep runId stepId (fun _ s => s.leasedTo leaseOwner)
        (fun s => s.finish (.completed completedAt) outputRef) .running db with
      | (true, db) => .ok ((), db)
      | (false, db) =>
        let status := (db.step runId stepId).map RunStepRecord.status
        if status = some .completed then .ok ((), db)
        else
          let current := (status.map RunStepStatus.asStr).getD "missing"
          .error (.invariant s!"step '{runId}/{stepId}' cannot complete from {current}")

def enqueueOutboxAndCompleteStep (runId stepId leaseOwner : String) (row : OutboxRow) (outputRef : Option String)
    (completedAt : Int) (db : Db) : Except RunStoreError RunStepRecord × Db :=
  match checkEnqueueStep runId stepId row db with
  | .error e => (.error e, db)
  | .ok () =>
    match enqueueAndCompleteTx runId stepId leaseOwner row outputRef completedAt db with
    | (.error e, db) => (.error e, db)
    | (.ok (), db) => (requiredStep runId stepId db, db)

def RunStepRecord.park (s : RunStepRecord) (approvalId : Option String) : RunStepRecord :=
  { s with state := .waiting, approvalId := approvalId.or s.approvalId }

def Db.approvalTaken (db : Db) (s : RunStepRecord) (approvalId : Option String) : Bool :=
  approvalId.isSome && db.steps.any (fun t => t.key != s.key && t.approvalId == approvalId)

def waitStepTx (runId stepId leaseOwner : String) (approvalId : Option String) :
    Db → Except RunStoreError Bool × Db :=
  runTx fun db =>
    match db.step runId stepId with
    | none => .ok (false, db)
    | some s =>
      if s.leasedTo leaseOwner && db.approvalTaken s approvalId then
        .error (.sqlite "UNIQUE constraint failed: state_run_steps.approval_id")
      else .ok (moveStep runId stepId (fun _ s => s.leasedTo leaseOwner) (fun s => s.park approvalId) .waiting db)

def waitStep (runId stepId leaseOwner : String) (approvalId : Option String) (db : Db) :
    Except RunStoreError RunStepRecord × Db :=
  match requiredStep runId stepId db with
  | .error e => (.error e, db)
  | .ok step =>
    if step.kind = .approvalWait ∧ approvalId.or step.approvalId = none then
      (.error (.conflict "approval_wait steps require an approval_id"), db)
    else movedStep runId stepId "wait" (waitStepTx runId stepId leaseOwner approvalId db)

def RunStepRecord.resumable (s : RunStepRecord) (approvalId : Option String) : Bool :=
  s.status == .waiting && (s.approvalId.isNone || (s.approvalId == approvalId))

def resumeWaitingStep (runId stepId : String) (approvalId : Option String) (db : Db) :
    Except RunStoreError RunStepRecord × Db :=
  movedStep runId stepId "resume"
    (runTx (fun db => .ok (moveStep runId stepId (fun _ s => s.resumable approvalId)
      (fun s => { s with state := .pending }) .pending db)) db)

/-! ## The cursor -/

def movedRun (runId operation : String) : Except RunStoreError Bool × Db → Except RunStoreError RunRow × Db
  | (.error e, db) => (.error e, db)
  | (.ok true, db) => (requiredRun runId db, db)
  | (.ok false, db) =>
    match requiredRun runId db with
    | .error e => (.error e, db)
    | .ok run => (.error (.invalidTransition "run" runId run.status.asStr operation), db)

def RunRow.standsAt (r : RunRow) (cursor : Int) : Bool := decide (r.cursor = cursor) && r.status.active

def advanceCursor (runId : String) (expectedCursor : Int) (db : Db) : Except RunStoreError RunRow × Db :=
  movedRun runId "advance cursor"
    (runTx (fun db =>
      if (db.stepAt runId expectedCursor).map RunStepRecord.status ≠ some .completed then .ok (false, db)
      else if (db.run runId).any (fun r => r.standsAt expectedCursor) then
        .ok (true, db.updateRun runId (fun r => { r with cursor := r.cursor + 1, status := .pending }))
      else .ok (false, db)) db)

/-- One `UPDATE`: the cursor must have no step. -/
def completeRun (runId : String) (expectedCursor : Int) (db : Db) : Except RunStoreError RunRow × Db :=
  movedRun runId "complete"
    (if (db.run runId).any (fun r => r.standsAt expectedCursor) && (db.stepAt runId expectedCursor).isNone then
      (.ok true, db.setRunStatus runId .completed)
    else (.ok false, db))

/-! ## Ending runs -/

/-- The `(parent_run_id, run_id)` pairs. -/
def Db.parentEdges (db : Db) : List (String × String) :=
  db.runs.filterMap (fun r => r.parentRunId.map (fun parent => (parent, r.runId)))

/-- The `descendants` of the recursive query. -/
def Db.descendants (db : Db) (runId : String) : List String := Closure.reach db.parentEdges runId

def RunRow.terminate (r : RunRow) (status : RunStatus) : RunRow :=
  if r.status.active then { r with status := status } else r

def RunStepRecord.close (s : RunStepRecord) (output : Option String → Option String) (closedAt : Int) :
    RunStepRecord :=
  if s.unfinished then { s with state := .failed closedAt, outputRef := output s.outputRef } else s

def Db.terminate (db : Db) (ids : List String) (status : RunStatus) (output : Option String → Option String)
    (closedAt : Int) : Db :=
  { db with
    runs := db.runs.map (fun r => if ids.contains r.runId then r.terminate status else r)
    steps := db.steps.map (fun s => if ids.contains s.runId then s.close output closedAt else s) }

def cancelRun (runId : String) (cancelledAt : Int) : Db → Except RunStoreError Bool × Db :=
  runTx fun db =>
    match db.run runId with
    | none => .ok (false, db)
    | some prior =>
      if !prior.status.active && prior.status != .cancelled then .ok (false, db)
      else
        .ok (prior.status.active,
          db.terminate (runId :: db.descendants runId) .cancelled (fun _ => some "error:cancelled") cancelledAt)

def failRun (runId : String) (failedAt : Int) : Db → Except RunStoreError Bool × Db :=
  runTx fun db =>
    if (db.run runId).any (fun r => r.status.active) then
      .ok (true, db.terminate [runId] .failed (fun output => output.or (some "error:run_failed")) failedAt)
    else .ok (false, db)

def Db.budgetExpired (db : Db) (runId : String) (nowMs : Int) : Bool :=
  (db.budget runId).any (fun b => decide (b.deadlineAtMs ≤ nowMs))

def failRunIfBudgetExpired (runId : String) (nowMs : Int) (db : Db) : Except RunStoreError Bool × Db :=
  match executionBudgetAt runId nowMs db with
  | (.error e, db) => (.error e, db)
  | (.ok _, db) =>
    runTx (fun db =>
      if (db.run runId).any (fun r => r.status.active) && db.budgetExpired runId nowMs then
        .ok (true, db.terminate [runId] .failed (fun output => output.or (some "error:run_budget_expired"))
          (nowMs / 1000))
      else .ok (false, db)) db

inductive NextSafeAction
  | claim (step : RunStepRecord)
  | reclaimExpired (step : RunStepRecord)
  | waitForLease (step : RunStepRecord)
  | waitForApproval (step : RunStepRecord)
  | wait (step : RunStepRecord)
  | advanceCursor (step : RunStepRecord)
  | completeRun (cursor : Int)
  | runCompleted
  | runFailed
  | runCancelled

def RunStepRecord.nextAction (step : RunStepRecord) (now : Int) : NextSafeAction :=
  match step.state with
  | .pending => .claim step
  | .running _ expiry => if expiry ≤ now then .reclaimExpired step else .waitForLease step
  | .waiting => if step.approvalId.isSome then .waitForApproval step else .wait step
  | .completed _ => .advanceCursor step
  | .failed _ => .runFailed

def nextSafeAction (runId : String) (now : Int) (db : Db) : Except RunStoreError NextSafeAction :=
  match requiredRun runId db with
  | .error e => .error e
  | .ok run =>
    match run.status with
    | .completed => .ok .runCompleted
    | .failed => .ok .runFailed
    | .cancelled => .ok .runCancelled
    | .pending | .running | .waiting =>
      match db.stepAt runId run.cursor with
      | none => .ok (.completeRun run.cursor)
      | some step => .ok (step.nextAction now)

end Execlaw
