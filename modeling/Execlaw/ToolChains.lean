import Execlaw.Calls
import Execlaw.Interleave
import Execlaw.Keyed
import Execlaw.Outbox
/-!
# ToolChains — runs of persisted plans (`server/src/tool_chain_tool.rs`)

A plan is executed step by step: an effect step enqueues its effect unless the outbox has its key already, and is
recorded either way.  A plan with effects waits for an approval first.  Every function is a program of single database
calls; `ChainState.log` remembers what they did and is read by no program.  Identifiers the source draws at random, the
hash of the effects and the encoding of an effect are arguments.
-/
namespace Execlaw

open Table Interleave

/-! ## Plans -/

structure ResourceVersionPrecondition where
  resourceKey : String
  expectedVersion : Option String
  conditionalUpdates : Bool
deriving DecidableEq

structure CompensationSpec where
  label : String
  effectKind : String
  payload : String
  resourceKeys : List String
deriving DecidableEq

structure StoredStep where
  stepIndex : Nat
  label : String
  effectKind : Option String
  payload : String
  resourcePreconditions : List ResourceVersionPrecondition := []
  compensation : Option CompensationSpec := none
  idempotencyKeyOverride : Option String := none
deriving DecidableEq

structure CompensationOrigin where
  originalRunId : String
  originalStepIndex : Nat

structure StoredPlan where
  objective : String
  constraints : List String
  steps : List StoredStep
  compensationFor : Option CompensationOrigin := none

structure ChainEffect where
  runId : String
  stepIndex : Nat
  label : String
  payload : String
  resourcePreconditions : List ResourceVersionPrecondition
deriving DecidableEq

def StoredStep.effect (step : StoredStep) (runId : String) : ChainEffect :=
  ⟨runId, step.stepIndex, step.label, step.payload, step.resourcePreconditions⟩

def mint (conversationId : String) (turnSeq : Int) (ordinal : Nat) : String := s!"{conversationId}:{turnSeq}:{ordinal}"

def StoredStep.key (step : StoredStep) (conversationId : String) (runSeq : Int) : String :=
  step.idempotencyKeyOverride.getD (mint conversationId runSeq step.stepIndex)

structure ChainCodec where
  hash : List StoredStep → String
  encode : ChainEffect → Except String (List UInt8)

def approvalEffectHash (codec : ChainCodec) (plan : StoredPlan) : String :=
  codec.hash (plan.steps.filter (fun step => step.effectKind.isSome))

inductive ChainRunStatus | running | awaitingApproval | denied | failed | completed
deriving DecidableEq

structure ResourceVersionRow where
  resourceKey : String
  versionToken : String
  conditionalUpdates : Bool

/-- A row of `state_chain_plans`; the plan, or the error of decoding it. -/
structure ChainPlanRow where
  id : String
  conversationId : String
  plan : Except String StoredPlan
  hasExternalEffects : Bool

structure ChainRunRow where
  id : String
  planId : String
  conversationId : String
  runSeq : Int
  status : ChainRunStatus
  approvalId : Option String
  approvalEffectHash : Option String
  errorText : Option String
  updatedAt : Int
  finishedAt : Option Int
deriving DecidableEq

/-- A row of `state_chain_run_steps`; every row is completed. -/
structure ChainStepRow where
  runId : String
  stepIndex : Nat
  effectKind : Option String
  payload : String
  outboxKey : Option String
  updatedAt : Int

def ChainStepRow.key (r : ChainStepRow) : String × Nat := (r.runId, r.stepIndex)

inductive CompensationStatus | awaitingApproval | enqueued | denied | failed
deriving DecidableEq

structure ChainCompensationRow where
  id : String
  origin : String × Nat
  originalOutboxKey : String
  compensationPlanId : String
  approvalRunId : String
  status : CompensationStatus
  updatedAt : Int

/-- What a call did: it looked the key of an effect step up and found a payload, enqueued the step, recorded a step as
completed, wrote the status of a run as its first write or its last; another producer sent a payload under a key. -/
inductive ChainEvent
  | looked (runId : String) (step : StoredStep) (found : Option (List UInt8))
  | enqueued (runId : String) (step : StoredStep)
  | recorded (runId : String) (step : StoredStep) (outboxKey : Option String)
  | opened (worker : Nat) (runId : String) (found written : ChainRunStatus)
  | closed (worker : Nat) (runId : String) (found written : ChainRunStatus)
  | sent (key : String) (payload : List UInt8)
deriving DecidableEq

structure ChainState where
  db : Db
  versions : Keyed ResourceVersionRow.resourceKey (fun _ => True)
  plans : Keyed ChainPlanRow.id (fun _ => True)
  runs : Keyed ChainRunRow.id (fun _ => True)
  steps : Keyed ChainStepRow.key (fun _ => True)
  compensations : Keyed ChainCompensationRow.origin (fun _ => True)
  log : List ChainEvent

namespace ToolChain

abbrev ChainProg := ExceptT String (Prog ChainState)

def query {α : Type} (f : ChainState → α) : ChainProg α := ExceptT.mk (Prog.atomic fun s => (.ok (f s), s))

def stmt {α : Type} (f : ChainState → Except String (α × ChainState)) : ChainProg α :=
  ExceptT.mk (Prog.atomic (Calls.transact f))

/-! ## Resource versions -/

structure ResourceVersionCheck where
  isMatch : Bool
  conditionalUpdates : Bool

def validateResourceKey (key : String) : Except String Unit :=
  if (trim key).isEmpty ∨ 256 < key.utf8ByteSize ∨ trim key ≠ key then
    .error "invalid resource version: resource key must contain 1 to 256 trimmed bytes"
  else .ok ()

/-- The loop of `check`; each version is a query of its own. -/
def checkFrom (seen : List String) : List ResourceVersionPrecondition → ChainProg (List ResourceVersionCheck)
  | [] => pure []
  | p :: rest => do
    ExceptT.mk (pure (validateResourceKey p.resourceKey))
    if p.resourceKey ∈ seen then throw s!"invalid resource version: duplicate resource key '{p.resourceKey}'"
    let current ← query (fun s => s.versions.row p.resourceKey)
    let checks ← checkFrom (p.resourceKey :: seen) rest
    pure (⟨p.expectedVersion.isSome && p.expectedVersion == current.map ResourceVersionRow.versionToken,
      current.any ResourceVersionRow.conditionalUpdates⟩ :: checks)

def check (preconditions : List ResourceVersionPrecondition) : ChainProg (List ResourceVersionCheck) :=
  if 64 < preconditions.length then throw "invalid resource version: a proposal may bind at most 64 resources"
  else checkFrom [] preconditions

/-- The loop of `capture`. -/
def captureFrom (seen : List String) : List String → ChainProg (List ResourceVersionPrecondition)
  | [] => pure []
  | key :: rest => do
    ExceptT.mk (pure (validateResourceKey key))
    if key ∈ seen then throw s!"invalid resource version: duplicate resource key '{key}'"
    let current ← query (fun s => s.versions.row key)
    let more ← captureFrom (key :: seen) rest
    pure (⟨key, current.map ResourceVersionRow.versionToken, current.any ResourceVersionRow.conditionalUpdates⟩ :: more)

def capture (resourceKeys : List String) : ChainProg (List ResourceVersionPrecondition) :=
  if 64 < resourceKeys.length then throw "invalid resource version: a proposal may bind at most 64 resources"
  else captureFrom [] resourceKeys

def context {α : Type} (msg : String) (p : ChainProg α) : ChainProg α :=
  ExceptT.mk (p.run >>= fun res => pure (res.mapError (fun e => msg ++ ": " ++ e)))

/-! ## Plans and runs -/

def insertPlan (id conversationId : String) (plan : StoredPlan) (s : ChainState) :
    Except String (Unit × ChainState) :=
  match s.plans.insert? ⟨id, conversationId, .ok plan, true⟩ trivial with
  | none => .error "UNIQUE constraint failed: state_chain_plans.id"
  | some plans => .ok ((), { s with plans := plans })

def loadPlan (planId : String) : ChainProg (StoredPlan × Bool × String) := do
  match ← query (fun s => s.plans.row planId) with
  | none => throw "plan not found"
  | some row =>
    match row.plan with
    | .error e => throw s!"decode stored plan: {e}"
    | .ok plan => pure (plan, row.hasExternalEffects, row.conversationId)

def nextRunSeq (conversationId : String) (s : ChainState) : Int :=
  (((s.runs.rows.filter (fun r => r.conversationId == conversationId)).map ChainRunRow.runSeq).max?.getD 0) + 1

def insertRun (runId planId conversationId : String) (status : ChainRunStatus) (now : Int) (s : ChainState) :
    Except String ((String × Int) × ChainState) :=
  let seq := nextRunSeq conversationId s
  match s.runs.insert? ⟨runId, planId, conversationId, seq, status, none, none, none, now, none⟩ trivial with
  | none => .error "UNIQUE constraint failed: state_chain_runs.id"
  | some runs =>
    if (s.plans.row planId).isNone then .error "FOREIGN KEY constraint failed"
    else .ok ((runId, seq), { s with runs := runs })

def createRun (runId planId conversationId : String) (status : ChainRunStatus) (now : Int) : ChainProg (String × Int) :=
  context "create run failed" (stmt (insertRun runId planId conversationId status now))

abbrev ChainRunChange := Change ChainRunRow.id (fun _ => True)

def waitingChange (approvalId effectHash : String) (now : Int) : ChainRunChange where
  takes := fun _ => true
  set := fun r =>
    { r with
      status := .awaitingApproval, approvalId := some approvalId, approvalEffectHash := some effectHash
      updatedAt := now }
  key_set := fun _ => rfl
  keeps_ok := fun _ h _ => h

def waitRun (runId approvalId effectHash : String) (now : Int) (s : ChainState) : Except String (String × ChainState) :=
  if s.runs.rows.any (fun r => r.approvalId == some approvalId && r.id != runId) then
    .error "UNIQUE constraint failed: state_chain_runs.approval_id"
  else .ok (approvalId, { s with runs := s.runs.update runId (waitingChange approvalId effectHash now) })

def markRunWaitingApproval (runId approvalId effectHash : String) (now : Int) : ChainProg String :=
  context "mark awaiting approval failed" (stmt (waitRun runId approvalId effectHash now))

def resolveRunForApproval (approvalId : String) : ChainProg (Option ChainRunRow) :=
  query (fun s => s.runs.rows.find? (fun r => r.approvalId == some approvalId))

def terminalChange (status : ChainRunStatus) (errorText : Option String) (now : Int) : ChainRunChange where
  takes := fun _ => true
  set := fun r => { r with status := status, errorText := errorText, finishedAt := some now, updatedAt := now }
  key_set := fun _ => rfl
  keeps_ok := fun _ h _ => h

def statusChange (status : ChainRunStatus) (now : Int) : ChainRunChange where
  takes := fun _ => true
  set := fun r => { r with status := status, updatedAt := now }
  key_set := fun _ => rfl
  keeps_ok := fun _ h _ => h

def writeStatus (runId : String) (change : ChainRunChange) (note : ChainRunStatus → ChainEvent) (s : ChainState) :
    Except String (Unit × ChainState) :=
  .ok ((), { s with
    runs := s.runs.update runId change
    log := s.log ++ ((s.runs.row runId).map (fun r => note r.status)).toList })

/-- `mark_run_terminal`, before anything else is written of the run. -/
def openTerminal (worker : Nat) (runId : String) (status : ChainRunStatus) (errorText : Option String) (now : Int) :
    ChainProg Unit :=
  stmt (writeStatus runId (terminalChange status errorText now) (fun found => .opened worker runId found status))

def closeTerminal (worker : Nat) (runId : String) (status : ChainRunStatus) (errorText : Option String) (now : Int) :
    ChainProg Unit :=
  stmt (writeStatus runId (terminalChange status errorText now) (fun found => .closed worker runId found status))

def markRunStatus (worker : Nat) (runId : String) (status : ChainRunStatus) (now : Int) : ChainProg Unit :=
  stmt (writeStatus runId (statusChange status now) (fun found => .opened worker runId found status))

def stepChange (outboxKey : Option String) (now : Int) : Change ChainStepRow.key (fun _ => True) where
  takes := fun _ => true
  set := fun r => { r with outboxKey := outboxKey, updatedAt := now }
  key_set := fun _ => rfl
  keeps_ok := fun _ h _ => h

def recordStep (runId : String) (step : StoredStep) (outboxKey : Option String) (now : Int) (s : ChainState) :
    Except String (Unit × ChainState) :=
  if (s.runs.row runId).isNone then .error "FOREIGN KEY constraint failed"
  else
    let row : ChainStepRow := ⟨runId, step.stepIndex, step.effectKind, step.payload, outboxKey, now⟩
    .ok ((), { s with
      steps := (s.steps.insertOrIgnore row trivial).update row.key (stepChange outboxKey now)
      log := s.log ++ [.recorded runId step outboxKey] })

def writeStepRow (runId : String) (step : StoredStep) (outboxKey : Option String) (now : Int) : ChainProg Unit :=
  context "write step row failed" (stmt (recordStep runId step outboxKey now))

def outboxRow (key : String) (db : Db) : Option OutboxRec := db.outbox.find? (fun r => r.idempotencyKey == key)

def outboxAlreadyHasKey (runId : String) (step : StoredStep) (key : String) : ChainProg Bool :=
  stmt (fun s =>
    let found := outboxRow key s.db
    .ok (found.isSome, { s with log := s.log ++ [.looked runId step (found.map OutboxRec.payload)] }))

def enqueueStep (row : OutboxRow) (runId : String) (step : StoredStep) (now : Int) (s : ChainState) :
    Except String (Unit × ChainState) :=
  match enqueue row now s.db with
  | (.ok _, db) => .ok ((), { s with db := db, log := s.log ++ [.enqueued runId step] })
  | (.error e, _) => .error e.display

def conversationLastSeq (conversationId : String) : ChainProg Int :=
  query (fun s =>
    ((s.db.conversations.find? (fun r => r.conversationId == conversationId)).map ConversationRow.lastSeq).getD 0)

variable (codec : ChainCodec)

/-- One step of `execute_run_steps`. -/
def executeStep (runId : String) (runSeq : Int) (conversationId : String) (enqueuedSeq now : Int) (step : StoredStep) :
    ChainProg Unit := do
  let current ← context "check resource versions" (check step.resourcePreconditions)
  if current.any (fun c => !c.isMatch) then
    throw (s!"resource_precondition_conflict at step {step.stepIndex}: " ++
      "preview is stale; prepare and preview a new plan")
  match step.effectKind with
  | some effectKind =>
    if current.any (fun c => !c.conditionalUpdates) then
      throw (s!"conditional_update_unsupported at step {step.stepIndex}: " ++
        "the provider cannot enforce resource versions; no effect was enqueued")
    let key := step.key conversationId runSeq
    if !(← outboxAlreadyHasKey runId step key) then
      let payload ← context "encode outbox payload failed" (ExceptT.mk (pure (codec.encode (step.effect runId))))
      context "enqueue outbox failed" (stmt (enqueueStep
        { idempotencyKey := key, conversationId := conversationId, effectKind := effectKind, payload := payload,
          enqueuedSeq := enqueuedSeq } runId step now))
    writeStepRow runId step (some key) now
  | none => writeStepRow runId step none now

def executeSteps (runId : String) (runSeq : Int) (conversationId : String) (enqueuedSeq now : Int) :
    List StoredStep → ChainProg (Nat × Nat)
  | [] => pure (0, 0)
  | step :: rest => do
    executeStep codec runId runSeq conversationId enqueuedSeq now step
    let counts ← executeSteps runId runSeq conversationId enqueuedSeq now rest
    pure (counts.1 + 1, counts.2 + if step.effectKind.isSome then 1 else 0)

def reviewChange (status : CompensationStatus) (now : Int) (approvalRunId : String) :
    Change ChainCompensationRow.origin (fun _ => True) where
  takes := fun r => r.approvalRunId == approvalRunId && r.status == .awaitingApproval
  set := fun r => { r with status := status, updatedAt := now }
  key_set := fun _ => rfl
  keeps_ok := fun _ h _ => h

def markCompensationReviewStatus (approvalRunId : String) (status : CompensationStatus) (now : Int) : ChainProg Unit :=
  stmt (fun s => .ok ((), { s with compensations := s.compensations.updateAll (reviewChange status now approvalRunId) }))

def executeRunSteps (runId : String) (runSeq : Int) (conversationId : String) (plan : StoredPlan) (now : Int) :
    ChainProg (Nat × Nat) := do
  let enqueuedSeq ← conversationLastSeq conversationId
  let counts ← executeSteps codec runId runSeq conversationId enqueuedSeq now plan.steps
  if plan.compensationFor.isSome then markCompensationReviewStatus runId .enqueued now
  pure counts

/-! ## Reports of a partial failure -/

structure ReviewIds where
  planId : String
  runId : String
  approvalId : String
  compensationId : String

inductive Residual
  | effectIdentityMissing
  | stepDefinitionMissing
  | notConfirmed (outboxStatus : Option OutboxStatus) (reversible : Bool)
  | awaitingApproval (compensationId approvalId : String)
  | noCompensation

def compensationReviewForOrigin (runId : String) (stepIndex : Nat) (s : ChainState) : Option (String × String) :=
  (s.compensations.row (runId, stepIndex)).bind fun c =>
    (s.runs.row c.approvalRunId).bind fun r => r.approvalId.map fun approvalId => (c.id, approvalId)

def compensationPlan (runId : String) (step : StoredStep) (spec : CompensationSpec)
    (preconditions : List ResourceVersionPrecondition) : StoredPlan where
  objective := s!"Compensate step {step.stepIndex} from run {runId}"
  constraints := ["Compensation is a separate effect and requires a fresh approval."]
  steps := [{
    stepIndex := 0, label := spec.label, effectKind := some spec.effectKind, payload := spec.payload
    resourcePreconditions := preconditions
    idempotencyKeyOverride := some s!"chain-compensation:{runId}:{step.stepIndex}" }]
  compensationFor := some ⟨runId, step.stepIndex⟩

def insertCompensation (row : ChainCompensationRow) (s : ChainState) : Except String (Unit × ChainState) :=
  match s.compensations.insert? row trivial with
  | none => .error ("UNIQUE constraint failed: state_chain_compensations.original_run_id, " ++
      "state_chain_compensations.original_step_index")
  | some compensations => .ok ((), { s with compensations := compensations })

def createCompensationReview (ids : ReviewIds) (runId : String) (step : StoredStep) (outboxKey : String)
    (spec : CompensationSpec) (now : Int) : ChainProg (String × String) := do
  match ← query (compensationReviewForOrigin runId step.stepIndex) with
  | some review => pure review
  | none =>
    match ← query (fun s => s.runs.row runId) with
    | none => throw "load original run for compensation: Query returned no rows"
    | some original =>
      let preconditions ← context "capture compensation resource versions" (capture spec.resourceKeys)
      let plan := compensationPlan runId step spec preconditions
      context "store compensation plan" (stmt (insertPlan ids.planId original.conversationId plan))
      let _ ← createRun ids.runId ids.planId original.conversationId .running now
      let approvalId ← markRunWaitingApproval ids.runId ids.approvalId (approvalEffectHash codec plan) now
      context "record compensation review" (stmt (insertCompensation
        ⟨ids.compensationId, (runId, step.stepIndex), outboxKey, ids.planId, ids.runId, .awaitingApproval, now⟩))
      pure (ids.compensationId, approvalId)

def residualOf (ids : ReviewIds) (runId : String) (plan : StoredPlan) (now : Int) (row : ChainStepRow) :
    ChainProg Residual := do
  match row.outboxKey with
  | none => pure .effectIdentityMissing
  | some key =>
    let outboxStatus ← query (fun s => (outboxRow key s.db).map OutboxRec.status)
    match plan.steps.find? (fun step => step.stepIndex == row.stepIndex) with
    | none => pure .stepDefinitionMissing
    | some step =>
      if outboxStatus ≠ some .delivered then pure (.notConfirmed outboxStatus step.compensation.isSome)
      else
        match step.compensation with
        | none => pure .noCompensation
        | some spec =>
          let review ← createCompensationReview codec ids runId step key spec now
          pure (.awaitingApproval review.1 review.2)

def residualsOf (ids : Nat → ReviewIds) (runId : String) (plan : StoredPlan) (now : Int) :
    List ChainStepRow → ChainProg (List (Nat × Residual))
  | [] => pure []
  | row :: rest => do
    let residual ← residualOf codec (ids row.stepIndex) runId plan now row
    let more ← residualsOf ids runId plan now rest
    pure ((row.stepIndex, residual) :: more)

def partialFailureReport (ids : Nat → ReviewIds) (runId : String) (plan : StoredPlan) (now : Int) :
    ChainProg (List (Nat × Residual)) := do
  let completed ← query (fun s => orderBy ChainStepRow.stepIndex
    (s.steps.rows.filter (fun r => r.runId == runId && r.effectKind.isSome)))
  residualsOf codec ids runId plan now completed

/-! ## Resolving an approval -/

inductive ChainApprovalDecision | approve | deny

inductive ChainResult
  | alreadyResolved (runId : String)
  | denied (runId : String)
  | awaitingApproval (runId approvalId : String)
  | completed (runId : String) (executed effects : Nat) (compensation : Bool)
  | failed (runId error : String) (residuals : List (Nat × Residual))

def attempt {α : Type} (p : ChainProg α) : ChainProg (Except String α) := ExceptT.mk (p.run >>= fun res => pure (.ok res))

def executeApproved (worker : Nat) (run : ChainRunRow) (plan : StoredPlan) (now : Int) (ids : Nat → ReviewIds) :
    ChainProg ChainResult := do
  match ← attempt (executeRunSteps codec run.id run.runSeq run.conversationId plan now) with
  | .ok counts =>
    closeTerminal worker run.id .completed none now
    pure (.completed run.id counts.1 counts.2 plan.compensationFor.isSome)
  | .error e =>
    closeTerminal worker run.id .failed (some e) now
    markCompensationReviewStatus run.id .failed now
    let residuals ← partialFailureReport codec ids run.id plan now
    pure (.failed run.id e residuals)

def refuseApproval (worker : Nat) (runId errorText e : String) (now : Int) : ChainProg ChainResult := do
  openTerminal worker runId .failed (some errorText) now
  markCompensationReviewStatus runId .failed now
  throw e

def approveRun (worker : Nat) (run : ChainRunRow) (now : Int) (ids : Nat → ReviewIds) : ChainProg ChainResult := do
  match ← attempt (loadPlan run.planId) with
  | .error e => refuseApproval worker run.id e e now
  | .ok (plan, _, _) =>
    if run.approvalEffectHash ≠ some (approvalEffectHash codec plan) then
      refuseApproval worker run.id "approved effect no longer matches the pending approval" "approval_effect_mismatch" now
    else
      markRunStatus worker run.id .running now
      executeApproved codec worker run plan now ids

def denyRun (worker : Nat) (run : ChainRunRow) (now : Int) : ChainProg ChainResult := do
  openTerminal worker run.id .denied (some "denied by controller") now
  markCompensationReviewStatus run.id .denied now
  pure (.denied run.id)

/-- **`resolve_chain_approval`**: the status is read first, and none of the writes looks at it again. -/
def resolveChainApproval (worker : Nat) (approvalId : String) (decision : ChainApprovalDecision) (now : Int)
    (ids : Nat → ReviewIds) : ChainProg ChainResult := do
  match ← resolveRunForApproval approvalId with
  | none => throw "approval_not_found"
  | some run =>
    if run.status ≠ .awaitingApproval then pure (.alreadyResolved run.id)
    else
      match decision with
      | .deny => denyRun worker run now
      | .approve => approveRun codec worker run now ids

/-! ## Executing a plan -/

/-- The loop of `preview_plan`: whether a precondition is stale, and whether one cannot be enforced. -/
def previewSteps : List StoredStep → ChainProg (Bool × Bool)
  | [] => pure (false, false)
  | step :: rest => do
    let checks ← context "check resource versions" (check step.resourcePreconditions)
    let more ← previewSteps rest
    pure (checks.any (fun c => !c.isMatch) || more.1,
      (step.effectKind.isSome && checks.any (fun c => c.isMatch && !c.conditionalUpdates)) || more.2)

def previewPlan (planId conversationId : String) : ChainProg Bool := do
  let (plan, _, owner) ← loadPlan planId
  if owner ≠ conversationId then throw "plan belongs to a different conversation"
  let (stale, unsupported) ← previewSteps plan.steps
  pure (!stale && !unsupported)

def chainExecute (worker : Nat) (planId conversationId : String) (allowExternal : Bool) (runId approvalId : String)
    (now : Int) (ids : Nat → ReviewIds) : ChainProg ChainResult := do
  let (plan, hasExternalEffects, owner) ← loadPlan planId
  if owner ≠ conversationId then throw "plan belongs to a different conversation"
  let ready ← previewPlan planId conversationId
  if !ready then throw "resource_precondition_conflict"
  if hasExternalEffects && !allowExternal then
    throw "plan contains external effects; set allow_external_effects=true to request approval flow"
  let (runId, runSeq) ← createRun runId planId conversationId .running now
  if hasExternalEffects then
    let approvalId ← markRunWaitingApproval runId approvalId (approvalEffectHash codec plan) now
    pure (.awaitingApproval runId approvalId)
  else
    match ← attempt (executeRunSteps codec runId runSeq conversationId plan now) with
    | .ok counts =>
      closeTerminal worker runId .completed none now
      pure (.completed runId counts.1 counts.2 false)
    | .error e =>
      closeTerminal worker runId .failed (some e) now
      let residuals ← partialFailureReport codec ids runId plan now
      pure (.failed runId e residuals)

end ToolChain

/-! ## The pool -/

inductive ChainCall
  | execute (planId conversationId : String) (allowExternal : Bool) (runId approvalId : String) (now : Int)
      (ids : Nat → ToolChain.ReviewIds)
  | resolve (approvalId : String) (decision : ToolChain.ChainApprovalDecision) (now : Int)
      (ids : Nat → ToolChain.ReviewIds)

inductive ChainEnv
  | observed (version : ResourceVersionRow)
  | planned (row : ChainPlanRow)
  | queued (row : OutboxRow) (now : Int)
  | marked (key : String) (status : OutboxStatus)

namespace ToolChain

variable (codec : ChainCodec)

def prog (worker : Nat) : ChainCall → Prog ChainState (Except String ChainResult)
  | .execute planId conversationId allowExternal runId approvalId now ids =>
    (chainExecute codec worker planId conversationId allowExternal runId approvalId now ids).run
  | .resolve approvalId decision now ids => (resolveChainApproval codec worker approvalId decision now ids).run

def env (s : ChainState) : ChainEnv → ChainState
  | .observed version =>
    { s with versions := (s.versions.remove version.resourceKey (fun _ => true)).insertOrIgnore version trivial }
  | .planned row => { s with plans := s.plans.insertOrIgnore row trivial }
  | .queued row now =>
    match enqueueIdempotent row now s.db with
    | (.ok _, db) => { s with db := db, log := s.log ++ [.sent row.idempotencyKey row.payload] }
    | (.error _, db) => { s with db := db }
  | .marked key status =>
    { s with
      db := { s.db with
        outbox := s.db.outbox.map (fun r => if r.idempotencyKey = key then { r with status := status } else r) } }

abbrev ChainPool := Pool ChainState ChainCall (Except String ChainResult)

abbrev ChainRun (p : ChainPool) (es : List (Event ChainCall (Except String ChainResult) ChainEnv)) (p' : ChainPool) :
    Prop :=
  Steps.Run (Pool.Step (prog codec) env) p es p'

end ToolChain

end Execlaw
