import Execlaw.Runs
import Execlaw.Steps
/-!
# RunMoves — what a call does to the run tables

Any number of workers call the store in any order, with any arguments and clocks; a call is one step.  Whatever it
returns, a call leaves `state_runs` and `state_run_steps` as they were or makes one of the moves of `RunMove`.
-/
namespace Execlaw

inductive RunCall
  | createRunWithId (runId : String) (new : NewRun)
  | forkRun (sourceRunId newId : String) (now : Int)
  | ensureExecutionBudget (runId : String) (timeLimitMs retryLimit effectLimit : Nat) (nowMs : Int)
  | executionBudgetAt (runId : String) (nowMs : Int)
  | addStep (runId : String) (new : NewRunStep)
  | claimStep (runId stepId leaseOwner : String) (now leaseExpiresAt : Int)
  | completeStep (runId stepId leaseOwner : String) (outputRef : Option String) (completedAt : Int)
  | enqueueOutboxAndCompleteStep (runId stepId leaseOwner : String) (row : OutboxRow) (outputRef : Option String)
      (completedAt : Int)
  | failStep (runId stepId leaseOwner : String) (outputRef : Option String) (completedAt : Int)
  | waitStep (runId stepId leaseOwner : String) (approvalId : Option String)
  | resumeWaitingStep (runId stepId : String) (approvalId : Option String)
  | advanceCursor (runId : String) (expectedCursor : Int)
  | completeRun (runId : String) (expectedCursor : Int)
  | cancelRun (runId : String) (cancelledAt : Int)
  | failRun (runId : String) (failedAt : Int)
  | failRunIfBudgetExpired (runId : String) (nowMs : Int)

def Db.exec (db : Db) : RunCall → Db
  | .createRunWithId runId new => (createRunWithId runId new db).2
  | .forkRun sourceRunId newId now => (forkRun sourceRunId newId now db).2
  | .ensureExecutionBudget runId timeLimitMs retryLimit effectLimit nowMs =>
    (ensureExecutionBudget runId timeLimitMs retryLimit effectLimit nowMs db).2
  | .executionBudgetAt runId nowMs => (executionBudgetAt runId nowMs db).2
  | .addStep runId new => (addStep runId new db).2
  | .claimStep runId stepId leaseOwner now leaseExpiresAt => (claimStep runId stepId leaseOwner now leaseExpiresAt db).2
  | .completeStep runId stepId leaseOwner outputRef completedAt =>
    (completeStep runId stepId leaseOwner outputRef completedAt db).2
  | .enqueueOutboxAndCompleteStep runId stepId leaseOwner row outputRef completedAt =>
    (enqueueOutboxAndCompleteStep runId stepId leaseOwner row outputRef completedAt db).2
  | .failStep runId stepId leaseOwner outputRef completedAt =>
    (failStep runId stepId leaseOwner outputRef completedAt db).2
  | .waitStep runId stepId leaseOwner approvalId => (waitStep runId stepId leaseOwner approvalId db).2
  | .resumeWaitingStep runId stepId approvalId => (resumeWaitingStep runId stepId approvalId db).2
  | .advanceCursor runId expectedCursor => (advanceCursor runId expectedCursor db).2
  | .completeRun runId expectedCursor => (completeRun runId expectedCursor db).2
  | .cancelRun runId cancelledAt => (cancelRun runId cancelledAt db).2
  | .failRun runId failedAt => (failRun runId failedAt db).2
  | .failRunIfBudgetExpired runId nowMs => (failRunIfBudgetExpired runId nowMs db).2

def RunCall.Step (db : Db) (c : RunCall) (db' : Db) : Prop := db.exec c = db'

def Db.execAll (db : Db) (calls : List RunCall) : Db := calls.foldl Db.exec db

theorem run_execAll : ∀ (db : Db) (calls : List RunCall), Steps.Run RunCall.Step db calls (db.execAll calls)
  | _, [] => rfl
  | db, c :: calls => ⟨db.exec c, rfl, run_execAll (db.exec c) calls⟩

def sampleEvents : Db :=
  { events := [{ conversationId := "c", seq := 1, kind := "user_msg", payload := [], committedAt := 0, actor := none }] }

/-- **How a call moves one step**, with the status its run takes. -/
inductive StepMove (db : Db) (s : RunStepRecord) : RunCall → RunStepRecord → RunStatus → Prop
  | claimed {leaseOwner : String} {now leaseExpiresAt : Int} (free : s.state.claimable now = true)
      (cursor : db.atCursor s = true) :
      StepMove db s (.claimStep s.runId s.stepId leaseOwner now leaseExpiresAt)
        (s.claim leaseOwner now leaseExpiresAt) .running
  | completed {leaseOwner : String} {outputRef : Option String} {completedAt : Int}
      (leased : s.leasedTo leaseOwner = true) :
      StepMove db s (.completeStep s.runId s.stepId leaseOwner outputRef completedAt)
        (s.finish (.completed completedAt) outputRef) .running
  | enqueued {leaseOwner : String} {row : OutboxRow} {outputRef : Option String} {completedAt : Int}
      (leased : s.leasedTo leaseOwner = true) :
      StepMove db s (.enqueueOutboxAndCompleteStep s.runId s.stepId leaseOwner row outputRef completedAt)
        (s.finish (.completed completedAt) outputRef) .running
  | failed {leaseOwner : String} {outputRef : Option String} {completedAt : Int}
      (leased : s.leasedTo leaseOwner = true) :
      StepMove db s (.failStep s.runId s.stepId leaseOwner outputRef completedAt)
        (s.finish (.failed completedAt) outputRef) .failed
  | parked {leaseOwner : String} {approvalId : Option String} (leased : s.leasedTo leaseOwner = true) :
      StepMove db s (.waitStep s.runId s.stepId leaseOwner approvalId) (s.park approvalId) .waiting
  | resumed {approvalId : Option String} (parked : s.resumable approvalId = true) :
      StepMove db s (.resumeWaitingStep s.runId s.stepId approvalId) { s with state := .pending } .pending

inductive Ends (db : Db) : RunCall → List String → RunStatus → Prop
  | cancelled {runId : String} {cancelledAt : Int} {prior : RunRow} (found : db.run runId = some prior)
      (live : prior.status.active = true ∨ prior.status = .cancelled) :
      Ends db (.cancelRun runId cancelledAt) (runId :: db.descendants runId) .cancelled
  | failed {runId : String} {failedAt : Int} : Ends db (.failRun runId failedAt) [runId] .failed
  | expired {runId : String} {nowMs : Int} : Ends db (.failRunIfBudgetExpired runId nowMs) [runId] .failed

/-- **The moves of the run tables**, each from what a call's guards have checked. -/
inductive RunMove (db : Db) : RunCall → Db → Prop
  | quiet {c : RunCall} {db' : Db} (runs : db'.runs = db.runs) (steps : db'.steps = db.steps) : RunMove db c db'
  | bounded {runId : String} {timeLimitMs retryLimit effectLimit : Nat} {nowMs deadline : Int} {db' : Db}
      (runs : db'.runs = Table.updateKey RunRow.runId runId
        (fun r => { r with deadlineAt := r.deadlineAt.or (some deadline) }) db.runs)
      (steps : db'.steps = db.steps) :
      RunMove db (.ensureExecutionBudget runId timeLimitMs retryLimit effectLimit nowMs) db'
  | created {c : RunCall} {r : RunRow} {db' : Db} (fresh : db.run r.runId = none) (status : r.status = .pending)
      (cursor : r.cursor = 0) (parent : ∀ p, r.parentRunId = some p → (db.run p).isSome)
      (runs : db'.runs = db.runs ++ [r]) (steps : db'.steps = db.steps)
      (inserts : (∃ new, c = .createRunWithId r.runId new ∧ r.parentRunId = new.parentRunId) ∨
        ∃ source now, c = .forkRun source r.runId now ∧ r.parentRunId = some source) : RunMove db c db'
  | defined {new : NewRunStep} {r : RunRow} {db' : Db} (found : db.run r.runId = some r)
      (active : r.status.active = true) (free : db.stepCollides (new.record r.runId) = false)
      (runs : db'.runs = db.runs) (steps : db'.steps = db.steps ++ [new.record r.runId]) :
      RunMove db (.addStep r.runId new) db'
  | moved {c : RunCall} {s s' : RunStepRecord} {status : RunStatus} {f : RunStepRecord → RunStepRecord} {db' : Db}
      (found : db.step s.runId s.stepId = some s) (move : StepMove db s c s' status) (written : f s = s')
      (runs : db'.runs = Table.updateKey RunRow.runId s.runId (fun r => { r with status := status }) db.runs)
      (steps : db'.steps = Table.updateKey RunStepRecord.key s.key f db.steps) : RunMove db c db'
  | advanced {s : RunStepRecord} {r : RunRow} {db' : Db} (found : db.run r.runId = some r)
      (active : r.status.active = true) (step : db.stepAt r.runId r.cursor = some s) (done : s.status = .completed)
      (runs : db'.runs = Table.updateKey RunRow.runId r.runId
        (fun r => { r with cursor := r.cursor + 1, status := .pending }) db.runs)
      (steps : db'.steps = db.steps) : RunMove db (.advanceCursor r.runId r.cursor) db'
  | completed {r : RunRow} {db' : Db} (found : db.run r.runId = some r) (active : r.status.active = true)
      (empty : db.stepAt r.runId r.cursor = none)
      (runs : db'.runs = Table.updateKey RunRow.runId r.runId (fun r => { r with status := .completed }) db.runs)
      (steps : db'.steps = db.steps) : RunMove db (.completeRun r.runId r.cursor) db'
  | ended {c : RunCall} {ids : List String} {status : RunStatus} {output : Option String → Option String}
      {closedAt : Int} {db' : Db} (ends : Ends db c ids status)
      (runs : db'.runs = (db.terminate ids status output closedAt).runs)
      (steps : db'.steps = (db.terminate ids status output closedAt).steps) : RunMove db c db'

/-! ## Reading the calls -/

section Calls

variable {db : Db}

theorem runTx_cases {α : Type} (f : Db → Except DbError (α × Db)) (db : Db) :
    (∃ e, runTx f db = (.error (.db e), db)) ∨ ∃ a db', f db = .ok (a, db') ∧ runTx f db = (.ok a, db') := by
  unfold runTx
  rcases transaction_cases f db with ⟨e, h⟩ | ⟨a, db', hf, h⟩
  · exact .inl ⟨e, by rw [h]⟩
  · exact .inr ⟨a, db', hf, by rw [h]⟩

theorem runTx_ok {α : Type} (f : Db → α × Db) (db : Db) : runTx (fun db => .ok (f db)) db = (.ok (f db).1, (f db).2) :=
  rfl

@[simp] theorem movedStep_snd (runId stepId operation : String) (res : Except RunStoreError Bool × Db) :
    (movedStep runId stepId operation res).2 = res.2 := by
  rcases res with ⟨e | _ | _, db⟩ <;> rfl

@[simp] theorem movedRun_snd (runId operation : String) (res : Except RunStoreError Bool × Db) :
    (movedRun runId operation res).2 = res.2 := by
  rcases res with ⟨e | _ | _, db⟩
  · rfl
  · cases h : requiredRun runId db <;> simp only [movedRun, h]
  · rfl

theorem step_key {runId stepId : String} {s : RunStepRecord} (h : db.step runId stepId = some s) :
    s.runId = runId ∧ s.stepId = stepId := by
  have hkey : s.key = (runId, stepId) := Table.key_of_byKey h
  exact Prod.mk.inj hkey

variable {runId : String}

theorem stepAt_slot {ordinal : Int} {s : RunStepRecord} (h : db.stepAt runId ordinal = some s) :
    s.runId = runId ∧ s.ordinal = ordinal := by
  have hslot : s.slot = (runId, ordinal) := Table.key_of_byKey h
  exact Prod.mk.inj hslot

theorem run_id {r : RunRow} (h : db.run runId = some r) : r.runId = runId := Table.key_of_byKey h

theorem moveStep_cases (runId stepId : String) (guard : Db → RunStepRecord → Bool) (f : RunStepRecord → RunStepRecord)
    (status : RunStatus) (db : Db) :
    moveStep runId stepId guard f status db = (false, db) ∨
    ∃ s, db.step s.runId s.stepId = some s ∧ s.runId = runId ∧ s.stepId = stepId ∧ guard db s = true ∧
      moveStep runId stepId guard f status db = (true, (db.updateStep runId stepId f).setRunStatus runId status) := by
  unfold moveStep
  cases hs : db.step runId stepId with
  | none => exact .inl rfl
  | some s =>
    obtain ⟨rfl, rfl⟩ := step_key hs
    by_cases hg : guard db s
    · exact .inr ⟨s, hs, rfl, rfl, hg, by simp only [hg, if_true]⟩
    · exact .inl (by simp only [hg, if_false, Bool.false_eq_true])

theorem RunMove.of_moveStep {c : RunCall} {runId stepId : String} {guard : Db → RunStepRecord → Bool}
    {f : RunStepRecord → RunStepRecord} {status : RunStatus} {db₀ db' : Db} (hsteps : db₀.steps = db.steps)
    (hruns : db₀.runs = db.runs) (hdb : db' = (moveStep runId stepId guard f status db₀).2)
    (hmove : ∀ s, s.runId = runId → s.stepId = stepId → guard db₀ s = true → StepMove db s c (f s) status) :
    RunMove db c db' := by
  subst hdb
  rcases moveStep_cases runId stepId guard f status db₀ with h | ⟨s, hs, rfl, rfl, hg, h⟩
  · exact .quiet (by rw [h, hruns]) (by rw [h, hsteps])
  · have hs' : db.step s.runId s.stepId = some s := by
      unfold Db.step at hs ⊢
      rw [← hsteps]
      exact hs
    rw [h]
    exact .moved hs' (hmove s rfl rfl hg) rfl
      (by simp only [Db.setRunStatus, Db.updateRun, Db.updateStep, hruns])
      (by simp only [Db.setRunStatus, Db.updateRun, Db.updateStep, hsteps, RunStepRecord.key])

theorem runMove_tx {α : Type} {f : Db → Except DbError (α × Db)} {c : RunCall}
    (hmove : ∀ a db', f db = .ok (a, db') → RunMove db c db') : RunMove db c (runTx f db).2 := by
  rcases runTx_cases f db with ⟨e, h⟩ | ⟨a, db', hf, h⟩
  · rw [h]
    exact .quiet rfl rfl
  · rw [h]
    exact hmove a db' hf

theorem observe_tables (runId : String) (now : Int) (db : Db) :
    (observeExecutionBudgetAtSecond runId now db).2.runs = db.runs ∧
      (observeExecutionBudgetAtSecond runId now db).2.steps = db.steps := by
  unfold observeExecutionBudgetAtSecond
  rcases runTx_cases _ db with ⟨e, h⟩ | ⟨a, db', hf, h⟩
  · rw [h]
    exact ⟨rfl, rfl⟩
  · rw [h]
    split at hf
    · cases hf
      exact ⟨rfl, rfl⟩
    · split at hf
      · cases hf
      · cases hf
        exact ⟨rfl, rfl⟩

theorem executionBudgetAt_tables (runId : String) (nowMs : Int) (db : Db) :
    (executionBudgetAt runId nowMs db).2.runs = db.runs ∧ (executionBudgetAt runId nowMs db).2.steps = db.steps := by
  unfold executionBudgetAt
  rcases runTx_cases _ db with ⟨e, h⟩ | ⟨a, db', hf, h⟩
  · rw [h]
    exact ⟨rfl, rfl⟩
  · rw [h]
    split at hf
    · cases hf
      exact ⟨rfl, rfl⟩
    · split at hf
      · cases hf
        exact ⟨rfl, rfl⟩
      · split at hf
        · cases hf
        · cases hf
          exact ⟨rfl, rfl⟩

theorem insertRun_ok {new : NewRun} {db' : Db} (h : db.insertRun runId new = .ok db') :
    ∃ r : RunRow, r.runId = runId ∧ r.status = .pending ∧ r.cursor = 0 ∧ r.parentRunId = new.parentRunId ∧
      db'.runs = db.runs ++ [r] ∧ db'.steps = db.steps := by
  unfold Db.insertRun at h
  split at h
  · cases h
    exact ⟨_, rfl, rfl, rfl, rfl, rfl, rfl⟩
  · cases h

theorem createRunWithId_snd (runId : String) (new : NewRun) (db : Db) :
    (createRunWithId runId new db).2 = (createRunTx runId new db).2 := by
  unfold createRunWithId
  rcases createRunTx runId new db with ⟨e | u, db'⟩
  · rfl
  · cases h : requiredRun runId db' with
    | error e => simp only [h]
    | ok existing =>
      simp only [h]
      split <;> rfl

theorem createRun_move (runId : String) (new : NewRun) :
    RunMove db (.createRunWithId runId new) (createRunWithId runId new db).2 := by
  rw [createRunWithId_snd]
  unfold createRunTx
  refine runMove_tx fun a db' hf => ?_
  have hparent : checkParent db new = .ok () := by
    cases hp : checkParent db new with
    | error e => simp only [hp, reduceCtorEq] at hf
    | ok u => rfl
  simp only [hparent] at hf
  split at hf
  · cases hf
    exact .quiet rfl rfl
  rename_i hnew
  cases hins : db.insertRun runId new with
  | error e =>
    rw [hins] at hf
    cases hf
  | ok db'' =>
    rw [hins] at hf
    cases hf
    obtain ⟨r, rfl, hst, hcur, hpar, hruns, hsteps⟩ := insertRun_ok hins
    refine .created ?_ hst hcur ?_ hruns hsteps (.inl ⟨new, rfl, hpar⟩)
    · cases hrun : db.run r.runId with
      | none => rfl
      | some old => exact absurd (.inl (by rw [hrun]; rfl)) hnew
    · intro p hp
      rw [hpar] at hp
      unfold checkParent at hparent
      rw [hp] at hparent
      cases hrun : db.run p with
      | none => simp only [hrun, reduceCtorEq] at hparent
      | some parent => rfl

theorem forkRun_move (sourceRunId newId : String) (now : Int) :
    RunMove db (.forkRun sourceRunId newId now) (forkRun sourceRunId newId now db).2 := by
  unfold forkRun requiredRun
  cases hsource : db.run sourceRunId with
  | none => exact .quiet rfl rfl
  | some source =>
    obtain rfl := run_id hsource
    dsimp only
    rcases runTx_cases _ db with ⟨e, h⟩ | ⟨a, db', hf, h⟩
    · rw [h]
      exact .quiet rfl rfl
    rw [h]
    split at hf
    · cases hf
    rename_i hnew
    cases hins : db.insertRun newId
        { conversationId := source.conversationId, parentRunId := some source.runId
          inputEventSeq := source.inputEventSeq, startedAt := now, deadlineAt := none } with
    | error e =>
      rw [hins] at hf
      cases hf
    | ok db'' =>
      rw [hins] at hf
      cases hf
      obtain ⟨r, rfl, hst, hcur, hpar, hruns, hsteps⟩ := insertRun_ok hins
      refine .created ?_ hst hcur ?_ hruns hsteps (.inr ⟨source.runId, now, rfl, hpar⟩)
      · cases hrun : db.run r.runId with
        | none => rfl
        | some old => simp [hrun] at hnew
      · intro p hp
        rw [hpar] at hp
        cases hp
        rw [hsource]
        rfl

theorem ensureExecutionBudget_move (runId : String) (timeLimitMs retryLimit effectLimit : Nat) (nowMs : Int) :
    RunMove db (.ensureExecutionBudget runId timeLimitMs retryLimit effectLimit nowMs)
      (ensureExecutionBudget runId timeLimitMs retryLimit effectLimit nowMs db).2 := by
  unfold ensureExecutionBudget
  split
  · exact .quiet rfl rfl
  split
  · exact .quiet rfl rfl
  split
  · exact .quiet rfl rfl
  extract_lets fresh stored db₁
  have hruns : db₁.runs = db.runs := by
    dsimp only [db₁]
    split <;> rfl
  have hsteps : db₁.steps = db.steps := by
    dsimp only [db₁]
    split <;> rfl
  split
  · exact .quiet hruns hsteps
  · refine .bounded (?_ : _ = Table.updateKey RunRow.runId runId
      (fun r => { r with deadlineAt := r.deadlineAt.or (some (stored.deadlineAtMs / 1000)) }) db.runs) hsteps
    rw [← hruns]
    rfl

theorem addStep_snd (runId : String) (new : NewRunStep) (db : Db) :
    (addStep runId new db).2 = (addStepTx runId new db).2 := by
  unfold addStep
  rcases addStepTx runId new db with ⟨e | _ | existing, db'⟩
  · rfl
  · rfl
  · dsimp only
    split <;> rfl

theorem addStep_move (runId : String) (new : NewRunStep) :
    RunMove db (.addStep runId new) (addStep runId new db).2 := by
  rw [addStep_snd]
  unfold addStepTx
  refine runMove_tx fun a db' hf => ?_
  cases hrun : db.run runId with
  | none => simp only [hrun, reduceCtorEq] at hf
  | some r =>
    obtain rfl := run_id hrun
    simp only [hrun] at hf
    split at hf
    · rename_i hact
      cases hf
      cases hfree : db.stepCollides (new.record r.runId) with
      | true => exact .quiet rfl rfl
      | false => exact .defined hrun hact hfree rfl rfl
    · cases hf

theorem claimStepTx_move (runId stepId leaseOwner : String) (now leaseExpiresAt : Int) :
    RunMove db (.claimStep runId stepId leaseOwner now leaseExpiresAt)
      (claimStepTx runId stepId leaseOwner now leaseExpiresAt db).2 := by
  rw [claimStepTx, runTx_ok]
  refine .of_moveStep rfl rfl rfl ?_
  rintro s rfl rfl hg
  rw [Bool.and_eq_true] at hg
  exact .claimed hg.1 hg.2

theorem claimStep_move (runId stepId leaseOwner : String) (now leaseExpiresAt : Int) :
    RunMove db (.claimStep runId stepId leaseOwner now leaseExpiresAt)
      (claimStep runId stepId leaseOwner now leaseExpiresAt db).2 := by
  unfold claimStep
  obtain ⟨hruns, hsteps⟩ := observe_tables runId now db
  generalize observeExecutionBudgetAtSecond runId now db = res at hruns hsteps ⊢
  rcases res with ⟨e | u, db₁⟩
  · exact .quiet hruns hsteps
  dsimp only at hruns hsteps ⊢
  split
  · exact .quiet hruns hsteps
  · rw [movedStep_snd, claimStepTx, runTx_ok]
    refine .of_moveStep hsteps hruns rfl ?_
    rintro s rfl rfl hg
    rw [Bool.and_eq_true] at hg
    have hcursor : db.atCursor s = true := by
      have hat := hg.2
      unfold Db.atCursor Db.run at hat ⊢
      rwa [hruns] at hat
    exact .claimed hg.1 hcursor

theorem finishStep_move {c : RunCall} (runId stepId leaseOwner : String) (state : StepState)
    (outputRef : Option String)
    (hmove : ∀ s : RunStepRecord, s.runId = runId → s.stepId = stepId → s.leasedTo leaseOwner = true →
      StepMove db s c (s.finish state outputRef) (if state.status = .failed then .failed else .running)) :
    RunMove db c (finishStep runId stepId leaseOwner state outputRef db).2 := by
  unfold finishStep
  rw [movedStep_snd, runTx_ok]
  refine .of_moveStep rfl rfl rfl ?_
  exact hmove

theorem insertOutbox_tables (row : OutboxRow) (db : Db) :
    (db.insertOutbox row).runs = db.runs ∧ (db.insertOutbox row).steps = db.steps := by
  unfold Db.insertOutbox
  split <;> exact ⟨rfl, rfl⟩

theorem enqueueOutboxAndCompleteStep_snd (runId stepId leaseOwner : String) (row : OutboxRow)
    (outputRef : Option String) (completedAt : Int) (db : Db) :
    (enqueueOutboxAndCompleteStep runId stepId leaseOwner row outputRef completedAt db).2 = db ∨
    (enqueueOutboxAndCompleteStep runId stepId leaseOwner row outputRef completedAt db).2 =
      (enqueueAndCompleteTx runId stepId leaseOwner row outputRef completedAt db).2 := by
  unfold enqueueOutboxAndCompleteStep
  cases checkEnqueueStep runId stepId row db with
  | error e => exact .inl rfl
  | ok u =>
    rcases enqueueAndCompleteTx runId stepId leaseOwner row outputRef completedAt db with ⟨e | u, db'⟩
    · exact .inr rfl
    · exact .inr rfl

theorem enqueueOutboxAndCompleteStep_move (runId stepId leaseOwner : String) (row : OutboxRow)
    (outputRef : Option String) (completedAt : Int) :
    RunMove db (.enqueueOutboxAndCompleteStep runId stepId leaseOwner row outputRef completedAt)
      (enqueueOutboxAndCompleteStep runId stepId leaseOwner row outputRef completedAt db).2 := by
  rcases enqueueOutboxAndCompleteStep_snd runId stepId leaseOwner row outputRef completedAt db with h | h
  · rw [h]
    exact .quiet rfl rfl
  rw [h]
  unfold enqueueAndCompleteTx
  obtain ⟨hruns, hsteps⟩ := insertOutbox_tables row db
  refine runMove_tx fun a db' hf => ?_
  extract_lets db₁ at hf
  split at hf
  · cases hf
  have hdb : db' = (moveStep runId stepId (fun _ s => s.leasedTo leaseOwner)
      (fun s => s.finish (.completed completedAt) outputRef) .running db₁).2 := by
    split at hf
    · rename_i heq
      cases hf
      rw [heq]
    · rename_i heq
      dsimp only at hf
      split at hf
      · cases hf
        rw [heq]
      · cases hf
  refine .of_moveStep hsteps hruns hdb ?_
  rintro s rfl rfl hg
  exact .enqueued hg

theorem waitStepTx_move (runId stepId leaseOwner : String) (approvalId : Option String) :
    RunMove db (.waitStep runId stepId leaseOwner approvalId) (waitStepTx runId stepId leaseOwner approvalId db).2 := by
  unfold waitStepTx
  refine runMove_tx fun a db' hf => ?_
  split at hf
  · cases hf
    exact .quiet rfl rfl
  · split at hf
    · cases hf
    · have hdb := congrArg Prod.snd (Except.ok.inj hf)
      refine .of_moveStep rfl rfl hdb.symm ?_
      rintro s rfl rfl hg
      exact .parked hg

theorem waitStep_move (runId stepId leaseOwner : String) (approvalId : Option String) :
    RunMove db (.waitStep runId stepId leaseOwner approvalId) (waitStep runId stepId leaseOwner approvalId db).2 := by
  unfold waitStep
  cases requiredStep runId stepId db with
  | error e => exact .quiet rfl rfl
  | ok step =>
    dsimp only
    split
    · exact .quiet rfl rfl
    · rw [movedStep_snd]
      exact waitStepTx_move runId stepId leaseOwner approvalId

theorem resumeWaitingStep_move (runId stepId : String) (approvalId : Option String) :
    RunMove db (.resumeWaitingStep runId stepId approvalId) (resumeWaitingStep runId stepId approvalId db).2 := by
  unfold resumeWaitingStep
  rw [movedStep_snd, runTx_ok]
  refine .of_moveStep rfl rfl rfl ?_
  rintro s rfl rfl hg
  exact .resumed hg

theorem any_standsAt {cursor : Int} (h : (db.run runId).any (fun r => r.standsAt cursor) = true) :
    ∃ r, db.run r.runId = some r ∧ r.runId = runId ∧ r.cursor = cursor ∧ r.status.active = true := by
  cases hr : db.run runId with
  | none => simp [hr] at h
  | some r =>
    obtain rfl := run_id hr
    simp only [hr, Option.any_some, RunRow.standsAt, Bool.and_eq_true, decide_eq_true_eq] at h
    exact ⟨r, hr, rfl, h.1, h.2⟩

theorem advanceCursor_move (runId : String) (expectedCursor : Int) :
    RunMove db (.advanceCursor runId expectedCursor) (advanceCursor runId expectedCursor db).2 := by
  unfold advanceCursor
  rw [movedRun_snd]
  refine runMove_tx fun a db' hf => ?_
  split at hf
  · cases hf
    exact .quiet rfl rfl
  rename_i hdone
  split at hf
  · rename_i hstands
    obtain ⟨r, hr, rfl, rfl, hact⟩ := any_standsAt hstands
    cases hf
    cases hs : db.stepAt r.runId r.cursor with
    | none => simp [hs] at hdone
    | some s =>
      rw [hs, Option.map_some, ne_eq, not_not, Option.some.injEq] at hdone
      exact .advanced hr hact hs hdone rfl rfl
  · cases hf
    exact .quiet rfl rfl

theorem completeRun_move (runId : String) (expectedCursor : Int) :
    RunMove db (.completeRun runId expectedCursor) (completeRun runId expectedCursor db).2 := by
  unfold completeRun
  rw [movedRun_snd]
  split
  · rename_i h
    rw [Bool.and_eq_true] at h
    obtain ⟨r, hr, rfl, rfl, hact⟩ := any_standsAt h.1
    exact .completed hr hact (Option.isNone_iff_eq_none.1 h.2) rfl rfl
  · exact .quiet rfl rfl

theorem cancelRun_move (runId : String) (cancelledAt : Int) :
    RunMove db (.cancelRun runId cancelledAt) (cancelRun runId cancelledAt db).2 := by
  unfold cancelRun
  refine runMove_tx fun a db' hf => ?_
  cases hr : db.run runId with
  | none =>
    simp only [hr] at hf
    cases hf
    exact .quiet rfl rfl
  | some prior =>
    simp only [hr] at hf
    split at hf
    · cases hf
      exact .quiet rfl rfl
    · rename_i hlive
      cases hf
      refine .ended (.cancelled hr ?_) rfl rfl
      simpa [Classical.or_iff_not_imp_left] using hlive

theorem failRun_move (runId : String) (failedAt : Int) :
    RunMove db (.failRun runId failedAt) (failRun runId failedAt db).2 := by
  unfold failRun
  refine runMove_tx fun a db' hf => ?_
  split at hf
  · cases hf
    exact .ended .failed rfl rfl
  · cases hf
    exact .quiet rfl rfl

theorem failRunIfBudgetExpired_move (runId : String) (nowMs : Int) :
    RunMove db (.failRunIfBudgetExpired runId nowMs) (failRunIfBudgetExpired runId nowMs db).2 := by
  unfold failRunIfBudgetExpired
  obtain ⟨hruns, hsteps⟩ := executionBudgetAt_tables runId nowMs db
  generalize executionBudgetAt runId nowMs db = res at hruns hsteps ⊢
  rcases res with ⟨e | b, db₁⟩
  · exact .quiet hruns hsteps
  dsimp only at hruns hsteps ⊢
  rcases runTx_cases _ db₁ with ⟨e, h⟩ | ⟨a, db', hf, h⟩
  · rw [h]
    exact .quiet hruns hsteps
  rw [h]
  split at hf
  · cases hf
    refine .ended .expired (?_ : _ = (db.terminate [runId] .failed
      (fun output => output.or (some "error:run_budget_expired")) (nowMs / 1000)).runs) ?_
    · simp [Db.terminate, hruns]
    · simp [Db.terminate, hsteps]
  · cases hf
    exact .quiet hruns hsteps

end Calls

theorem exec_move (db : Db) (c : RunCall) : RunMove db c (db.exec c) := by
  cases c with
  | createRunWithId runId new => exact createRun_move runId new
  | forkRun sourceRunId newId now => exact forkRun_move sourceRunId newId now
  | ensureExecutionBudget runId timeLimitMs retryLimit effectLimit nowMs =>
    exact ensureExecutionBudget_move runId timeLimitMs retryLimit effectLimit nowMs
  | executionBudgetAt runId nowMs =>
    obtain ⟨hruns, hsteps⟩ := executionBudgetAt_tables runId nowMs db
    exact .quiet hruns hsteps
  | addStep runId new => exact addStep_move runId new
  | claimStep runId stepId leaseOwner now leaseExpiresAt =>
    exact claimStep_move runId stepId leaseOwner now leaseExpiresAt
  | completeStep runId stepId leaseOwner outputRef completedAt =>
    refine finishStep_move runId stepId leaseOwner (.completed completedAt) outputRef ?_
    rintro s rfl rfl hg
    exact .completed hg
  | enqueueOutboxAndCompleteStep runId stepId leaseOwner row outputRef completedAt =>
    exact enqueueOutboxAndCompleteStep_move runId stepId leaseOwner row outputRef completedAt
  | failStep runId stepId leaseOwner outputRef completedAt =>
    refine finishStep_move runId stepId leaseOwner (.failed completedAt) outputRef ?_
    rintro s rfl rfl hg
    exact .failed hg
  | waitStep runId stepId leaseOwner approvalId => exact waitStep_move runId stepId leaseOwner approvalId
  | resumeWaitingStep runId stepId approvalId => exact resumeWaitingStep_move runId stepId approvalId
  | advanceCursor runId expectedCursor => exact advanceCursor_move runId expectedCursor
  | completeRun runId expectedCursor => exact completeRun_move runId expectedCursor
  | cancelRun runId cancelledAt => exact cancelRun_move runId cancelledAt
  | failRun runId failedAt => exact failRun_move runId failedAt
  | failRunIfBudgetExpired runId nowMs => exact failRunIfBudgetExpired_move runId nowMs

end Execlaw
