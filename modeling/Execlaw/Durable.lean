import Execlaw.Interleave
import Execlaw.NextAction
/-!
# Durable — a worker's view of a run (`runner-local/src/durable.rs`)

A `DurableRun` names a run and a worker.  Its operations are short programs over the store: each transaction and each
query is atomic, and other workers may act between two of them.  `alone` runs such a program with no other worker.
-/
namespace Execlaw

open Interleave

/-! ## Programs over the store -/

abbrev StoreProg (α : Type) := ExceptT RunStoreError (Prog Db) α

namespace StoreProg

variable {α β : Type}

def ofTx (f : Db → Except RunStoreError α × Db) : StoreProg α := ExceptT.mk (Prog.atomic f)

def query (f : Db → Except RunStoreError α) : StoreProg α := ExceptT.mk (Prog.read f)

def ofExcept (x : Except RunStoreError α) : StoreProg α := ExceptT.mk (Prog.ret x)

def alone (p : StoreProg α) (db : Db) : Except RunStoreError α × Db := Prog.alone p.run db

/-! ## The store's operations, one access at a time -/

def getRun (runId : String) : StoreProg (Option RunRow) := query fun db => .ok (db.run runId)

def getStep (runId stepId : String) : StoreProg (Option RunStepRecord) := query fun db => .ok (db.step runId stepId)

def movedStep (runId stepId operation : String) (moved : StoreProg Bool) : StoreProg RunStepRecord := do
  if ← moved then query (requiredStep runId stepId)
  else query fun db => .error (transitionError runId stepId operation db)

def movedRun (runId operation : String) (moved : StoreProg Bool) : StoreProg RunRow := do
  if ← moved then query (requiredRun runId)
  else
    let run ← query (requiredRun runId)
    throw (.invalidTransition "run" runId run.status.asStr operation)

def addStep (runId : String) (new : NewRunStep) : StoreProg RunStepRecord := ofTx (Execlaw.addStep runId new)

def claimStep (runId stepId leaseOwner : String) (now leaseExpiresAt : Int) : StoreProg RunStepRecord := do
  ofTx (observeExecutionBudgetAtSecond runId now)
  if leaseExpiresAt ≤ now then throw (.invalidLease now leaseExpiresAt)
  else movedStep runId stepId "claim" (ofTx (claimStepTx runId stepId leaseOwner now leaseExpiresAt))

def finishStepTx (runId stepId leaseOwner : String) (state : StepState) (outputRef : Option String) :
    Db → Except RunStoreError Bool × Db :=
  runTx fun db => .ok (moveStep runId stepId (fun _ s => s.leasedTo leaseOwner) (fun s => s.finish state outputRef)
    (if state.status = .failed then .failed else .running) db)

def finishStep (runId stepId leaseOwner : String) (state : StepState) (outputRef : Option String) :
    StoreProg RunStepRecord :=
  movedStep runId stepId state.status.asStr (ofTx (finishStepTx runId stepId leaseOwner state outputRef))

def completeStep (runId stepId leaseOwner : String) (outputRef : Option String) (completedAt : Int) :
    StoreProg RunStepRecord :=
  finishStep runId stepId leaseOwner (.completed completedAt) outputRef

def failStep (runId stepId leaseOwner : String) (outputRef : Option String) (completedAt : Int) :
    StoreProg RunStepRecord :=
  finishStep runId stepId leaseOwner (.failed completedAt) outputRef

def waitStep (runId stepId leaseOwner : String) (approvalId : Option String) : StoreProg RunStepRecord := do
  let step ← query (requiredStep runId stepId)
  if step.kind = .approvalWait ∧ approvalId.or step.approvalId = none then
    throw (.conflict "approval_wait steps require an approval_id")
  else movedStep runId stepId "wait" (ofTx (waitStepTx runId stepId leaseOwner approvalId))

def resumeWaitingStepTx (runId stepId : String) (approvalId : Option String) : Db → Except RunStoreError Bool × Db :=
  runTx fun db => .ok (moveStep runId stepId (fun _ s => s.resumable approvalId) (fun s => { s with state := .pending })
    .pending db)

def resumeWaitingStep (runId stepId : String) (approvalId : Option String) : StoreProg RunStepRecord :=
  movedStep runId stepId "resume" (ofTx (resumeWaitingStepTx runId stepId approvalId))

def advanceCursorTx (runId : String) (expectedCursor : Int) : Db → Except RunStoreError Bool × Db :=
  runTx fun db =>
    if (db.stepAt runId expectedCursor).map RunStepRecord.status ≠ some .completed then .ok (false, db)
    else if (db.run runId).any (fun r => r.standsAt expectedCursor) then
      .ok (true, db.updateRun runId (fun r => { r with cursor := r.cursor + 1, status := .pending }))
    else .ok (false, db)

def advanceCursor (runId : String) (expectedCursor : Int) : StoreProg RunRow :=
  movedRun runId "advance cursor" (ofTx (advanceCursorTx runId expectedCursor))

def completeRunTx (runId : String) (expectedCursor : Int) (db : Db) : Except RunStoreError Bool × Db :=
  if (db.run runId).any (fun r => r.standsAt expectedCursor) && (db.stepAt runId expectedCursor).isNone then
    (.ok true, db.setRunStatus runId .completed)
  else (.ok false, db)

def completeRun (runId : String) (expectedCursor : Int) : StoreProg RunRow :=
  movedRun runId "complete" (ofTx (completeRunTx runId expectedCursor))

def nextSafeAction (runId : String) (now : Int) : StoreProg NextSafeAction := do
  let run ← query (requiredRun runId)
  match run.status with
  | .completed => pure .runCompleted
  | .failed => pure .runFailed
  | .cancelled => pure .runCancelled
  | .pending | .running | .waiting =>
    match ← query fun db => .ok (db.stepAt runId run.cursor) with
    | none => pure (.completeRun run.cursor)
    | some step => pure (step.nextAction now)

end StoreProg

/-! ## Durable runs -/

def stripPrefix (pre s : String) : Option String :=
  if pre.toList.isPrefixOf s.toList then some (String.ofList (s.toList.drop pre.length)) else none

@[simp] theorem stripPrefix_append (pre s : String) : stripPrefix pre (pre ++ s) = some s := by
  have hpre : pre.toList.isPrefixOf (pre ++ s).toList = true := by
    rw [String.toList_append, List.isPrefixOf_iff_prefix]
    exact List.prefix_append _ _
  rw [stripPrefix, if_pos hpre, String.toList_append, ← String.length_toList, List.drop_left, String.ofList_toList]

def outputPrefix : String := "json:"

/-- JSON, for inputs of type `I` and outputs of type `T`, and the texts of its errors. -/
structure Serde (I T : Type) where
  /-- `to_value`, then `stable_input_hash`. -/
  inputHash : I → Except String String
  toString : T → Except String String
  fromStr : String → Except String T
  /-- The derived `Debug`. -/
  debug : NextSafeAction → String

/-- **The text of `o` reads back as `o`**, where it can be read. -/
def Serde.ReadsBack {I T : Type} (serde : Serde I T) (o : T) : Prop :=
  ∀ json v, serde.toString o = .ok json → serde.fromStr json = .ok v → v = o

inductive StepDecision (T : Type)
  | execute (step : RunStepRecord)
  | replay (output : T)
  | waitForApproval (approvalId : String)
  | busy (leaseOwner : Option String)

/-- A worker of a run; `with_lease_seconds` and `with_model_lease_seconds` keep both leases positive. -/
structure DurableRun where
  runId : String
  workerId : String
  leaseSeconds : Int := 60
  modelLeaseSeconds : Int := 60
  positive : 1 ≤ leaseSeconds := by decide
  modelPositive : 1 ≤ modelLeaseSeconds := by decide

namespace DurableRun

def leaseEnd (d : DurableRun) (kind : RunStepKind) (now : Int) : Int :=
  saturatingAdd now (if kind = .modelRequest then d.modelLeaseSeconds else d.leaseSeconds)

variable {I T : Type} (serde : Serde I T) (d : DurableRun)

def decodeOutput (step : RunStepRecord) : Except RunStoreError T :=
  match step.outputRef with
  | none => .error (.corrupt s!"completed step '{step.stepId}' has no output")
  | some output =>
    match stripPrefix outputPrefix output with
    | none => .error (.corrupt s!"completed step '{step.stepId}' has an unsupported output reference")
    | some json =>
      match serde.fromStr json with
      | .error e => .error (.corrupt s!"completed step '{step.stepId}' output is invalid JSON: {e}")
      | .ok v => .ok v

structure StepInput (I : Type) where
  stepId : String
  ordinal : Int
  kind : RunStepKind
  input : I
  approvalId : Option String := none
  outboxIdempotencyKey : Option String := none

def StepInput.newStep (x : StepInput I) (inputHash : String) : NewRunStep where
  stepId := x.stepId
  ordinal := x.ordinal
  kind := x.kind
  inputHash := inputHash
  approvalId := x.approvalId
  outboxIdempotencyKey := x.outboxIdempotencyKey

def define (x : StepInput I) : StoreProg RunStepRecord :=
  match serde.inputHash x.input with
  | .error e => throw (.conflict s!"serialize step input: {e}")
  | .ok inputHash => StoreProg.addStep d.runId (x.newStep inputHash)

def enterNext (stepId : String) (ordinal : Int) (kind : RunStepKind) (now : Int) (action : NextSafeAction) :
    StoreProg (StepDecision T) :=
  let refused : StoreProg (StepDecision T) := throw (.conflict
    s!"step '{stepId}' at ordinal {ordinal} is not the next safe action: {serde.debug action}")
  match action with
  | .claim step | .reclaimExpired step =>
    if step.stepId = stepId then do
      let claimed ← StoreProg.claimStep d.runId stepId d.workerId now (d.leaseEnd kind now)
      pure (.execute claimed)
    else refused
  | .waitForLease step => if step.stepId = stepId then pure (.busy step.leaseOwner) else refused
  | .waitForApproval step =>
    if step.stepId = stepId then
      match step.approvalId with
      | some approvalId => pure (.waitForApproval approvalId)
      | none => throw (.corrupt "approval wait has no approval id")
    else refused
  | .advanceCursor step =>
    if step.stepId = stepId then StoreProg.ofExcept ((decodeOutput serde step).map .replay) else refused
  | _ => refused

def enterDefinedStep (stepId : String) (ordinal : Int) (kind : RunStepKind) (now : Int) :
    StoreProg (StepDecision T) := do
  let stored ← StoreProg.getStep d.runId stepId
  match stored.filter (fun step => step.status == .completed) with
  | some step => StoreProg.ofExcept ((decodeOutput serde step).map .replay)
  | none =>
    let action ← StoreProg.nextSafeAction d.runId now
    d.enterNext serde stepId ordinal kind now action

def begin (x : StepInput I) (now : Int) : StoreProg (StepDecision T) := do
  let _ ← d.define serde x
  d.enterDefinedStep serde x.stepId x.ordinal x.kind now

def resumeExisting (stepId : String) (ordinal : Int) (kind : RunStepKind) (now : Int) :
    StoreProg (StepDecision T) := do
  match ← StoreProg.getStep d.runId stepId with
  | none => throw (.conflict s!"step '{stepId}' is not defined")
  | some step =>
    if step.ordinal ≠ ordinal ∨ step.kind ≠ kind then
      throw (.conflict s!"step '{stepId}' has a different kind or ordinal")
    else d.enterDefinedStep serde stepId ordinal kind now

def complete (stepId : String) (output : T) (completedAt : Int) : StoreProg RunStepRecord :=
  match serde.toString output with
  | .error e => throw (.conflict s!"serialize step output: {e}")
  | .ok json => StoreProg.completeStep d.runId stepId d.workerId (some (outputPrefix ++ json)) completedAt

def fail (stepId detail : String) (failedAt : Int) : StoreProg RunStepRecord :=
  StoreProg.failStep d.runId stepId d.workerId (some ("error:" ++ String.ofList (detail.toList.take 512))) failedAt

def waitForApproval (stepId approvalId : String) : StoreProg RunStepRecord :=
  StoreProg.waitStep d.runId stepId d.workerId (some approvalId)

def resumeApproval (stepId approvalId : String) : StoreProg RunStepRecord :=
  StoreProg.resumeWaitingStep d.runId stepId (some approvalId)

def advance (ordinal : Int) : StoreProg RunRow := do
  let stored ← StoreProg.getRun d.runId
  match stored.filter (fun run => decide (ordinal < run.cursor)) with
  | some run => pure run
  | none => StoreProg.advanceCursor d.runId ordinal

def finish (cursor : Int) : StoreProg RunRow := StoreProg.completeRun d.runId cursor

end DurableRun

end Execlaw
