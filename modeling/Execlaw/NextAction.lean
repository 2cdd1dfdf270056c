import Execlaw.RunFinality
/-!
# NextAction — `next_safe_action` against the store's guards

`next_safe_action` reads the run and the step at its cursor; each operation re-checks its own `WHERE` clause.  On the
states the store reaches the two agree: the answer names the one operation the guards let through.
-/
namespace Execlaw

open Steps

/-- The run's execution budget, if it has one, was last observed in a second not after `now`. -/
def Db.ClockBehind (db : Db) (runId : String) (now : Int) : Prop :=
  ∀ b, db.budget runId = some b → b.updatedAtMs / 1000 ≤ now

inductive ProgressOp
  | claim (stepId : String)
  | resume (stepId : String)
  | advance (cursor : Int)
  | complete (cursor : Int)

def Db.Enables (db : Db) (runId : String) (now : Int) : ProgressOp → Prop
  | .claim stepId => ∃ worker d s, 0 < d ∧ (claimStep runId stepId worker now (now + d) db).1 = .ok s
  | .resume stepId => ∃ approvalId s, (resumeWaitingStep runId stepId approvalId db).1 = .ok s
  | .advance cursor => ∃ r, (advanceCursor runId cursor db).1 = .ok r
  | .complete cursor => ∃ r, (completeRun runId cursor db).1 = .ok r

def Db.RefusedByLease (db : Db) (runId stepId worker : String) (now : Int) : Prop :=
  ∃ s expiry, db.step runId stepId = some s ∧ s.leaseExpiresAt = some expiry ∧ now < expiry ∧
    ∀ d, 0 < d → (claimStep runId stepId worker now (now + d) db).1 =
      .error (.invalidTransition "step" s!"{runId}/{stepId}" "running" "claim")

/-! ## When an operation succeeds -/

section Success

variable {db : Db} {runId stepId : String} {operation : String}

theorem movedStep_ok {b : Bool} {db' : Db} :
    (∃ s, (movedStep runId stepId operation (.ok b, db')).1 = .ok s) ↔
      b = true ∧ (db'.step runId stepId).isSome = true := by
  cases b with
  | false => simp [movedStep]
  | true => cases hs : db'.step runId stepId <;> simp [movedStep, requiredStep, hs]

theorem step_updateStep {f : RunStepRecord → RunStepRecord} (hf : ∀ s, (f s).key = s.key) (status : RunStatus) :
    ((db.updateStep runId stepId f).setRunStatus runId status).step runId stepId = (db.step runId stepId).map f :=
  Table.byKey_updateKey_self (runId, stepId) f hf db.steps

theorem moveStep_ok {guard : Db → RunStepRecord → Bool} {f : RunStepRecord → RunStepRecord} {status : RunStatus}
    (hf : ∀ s, (f s).key = s.key) :
    (∃ s, (movedStep runId stepId operation (runTx (fun db => .ok (moveStep runId stepId guard f status db)) db)).1 =
      .ok s) ↔ ∃ s, db.step runId stepId = some s ∧ guard db s = true := by
  rw [runTx_ok, movedStep_ok]
  unfold moveStep
  cases hs : db.step runId stepId with
  | none => simp
  | some s =>
    by_cases hg : guard db s
    · simp [hg, step_updateStep hf, hs]
    · simp [hg]

theorem observe_ok {now : Int} (h : db.ClockBehind runId now) :
    ∃ db₁, observeExecutionBudgetAtSecond runId now db = (.ok (), db₁) ∧ db₁.runs = db.runs ∧
      db₁.steps = db.steps := by
  obtain ⟨hruns, hsteps⟩ := observe_tables runId now db
  have hok : (observeExecutionBudgetAtSecond runId now db).1 = .ok () := by
    unfold observeExecutionBudgetAtSecond
    cases hb : db.budget runId with
    | none => simp [runTx, transaction, hb]
    | some b => simp [runTx, transaction, hb, not_lt.2 (h b hb)]
  exact ⟨_, Prod.ext hok rfl, hruns, hsteps⟩

theorem claimStep_ok {worker : String} {now expiry : Int} (hclock : db.ClockBehind runId now) (hlt : now < expiry) :
    (∃ s, (claimStep runId stepId worker now expiry db).1 = .ok s) ↔
      ∃ s, db.step runId stepId = some s ∧ s.state.claimable now = true ∧ db.atCursor s = true := by
  obtain ⟨db₁, hobs, hruns, hsteps⟩ := observe_ok hclock
  unfold claimStep
  rw [hobs]
  dsimp only
  rw [if_neg (not_le.2 hlt), claimStepTx, moveStep_ok (f := fun s => s.claim worker now expiry) (fun _ => rfl)]
  simp [Db.step, Db.atCursor, Db.run, hruns, hsteps]

theorem claimable_of_claimStep {worker : String} {now expiry : Int} {s' : RunStepRecord}
    (h : (claimStep runId stepId worker now expiry db).1 = .ok s') :
    ∃ s, db.step runId stepId = some s ∧ s.state.claimable now = true ∧ db.atCursor s = true := by
  obtain ⟨hruns, hsteps⟩ := observe_tables runId now db
  unfold claimStep at h
  generalize observeExecutionBudgetAtSecond runId now db = res at h hruns hsteps
  rcases res with ⟨e | u, db₁⟩
  · cases h
  dsimp only at h hruns hsteps
  split at h
  · cases h
  · rw [claimStepTx] at h
    obtain ⟨s, hs, hg⟩ := (moveStep_ok (f := fun s => s.claim worker now expiry) (fun _ => rfl)).1 ⟨s', h⟩
    simp only [Db.step, Db.atCursor, Db.run, hruns, hsteps, Bool.and_eq_true] at hs hg ⊢
    exact ⟨s, hs, hg⟩

theorem resumeWaitingStep_ok {approvalId : Option String} :
    (∃ s, (resumeWaitingStep runId stepId approvalId db).1 = .ok s) ↔
      ∃ s, db.step runId stepId = some s ∧ s.resumable approvalId = true :=
  moveStep_ok (f := fun s => { s with state := .pending }) (fun _ => rfl)

theorem movedRun_ok {b : Bool} {db' : Db} :
    (∃ r, (movedRun runId operation (.ok b, db')).1 = .ok r) ↔ b = true ∧ (db'.run runId).isSome = true := by
  cases b with
  | false | true => cases hr : db'.run runId <;> simp [movedRun, requiredRun, hr]

theorem run_updateRun {f : RunRow → RunRow} (hf : ∀ r, (f r).runId = r.runId) :
    (db.updateRun runId f).run runId = (db.run runId).map f :=
  Table.byKey_updateKey_self runId f hf db.runs

variable {cursor : Int}

theorem standsAt_iff : (db.run runId).any (fun r => r.standsAt cursor) = true ↔
    ∃ r, db.run runId = some r ∧ r.cursor = cursor ∧ r.status.active = true := by
  cases hr : db.run runId <;> simp [RunRow.standsAt]

theorem advanceCursor_ok :
    (∃ r, (advanceCursor runId cursor db).1 = .ok r) ↔
      ∃ r s, db.run runId = some r ∧ r.cursor = cursor ∧ r.status.active = true ∧
        db.stepAt runId cursor = some s ∧ s.status = .completed := by
  have hdone : (db.stepAt runId cursor).map RunStepRecord.status = some .completed ↔
      ∃ s, db.stepAt runId cursor = some s ∧ s.status = .completed := by
    cases db.stepAt runId cursor <;> simp
  unfold advanceCursor runTx transaction
  by_cases hd : (db.stepAt runId cursor).map RunStepRecord.status = some .completed
  · by_cases hst : (db.run runId).any (fun r => r.standsAt cursor) = true
    · simp only [hd, not_true_eq_false, if_false, hst, if_true, ne_eq, movedRun_ok, true_and]
      obtain ⟨r, hr, hcur, hact⟩ := standsAt_iff.1 hst
      obtain ⟨s, hs, hs'⟩ := hdone.1 hd
      rw [run_updateRun (f := fun r => { r with cursor := r.cursor + 1, status := .pending }) (fun _ => rfl), hr]
      exact ⟨fun _ => ⟨r, s, rfl, hcur, hact, hs, hs'⟩, fun _ => rfl⟩
    · simp only [hd, not_true_eq_false, if_false, hst, ne_eq, movedRun_ok, Bool.false_eq_true, false_and, false_iff]
      rintro ⟨r, s, hr, hcur, hact, -⟩
      exact hst (standsAt_iff.2 ⟨r, hr, hcur, hact⟩)
  · simp only [hd, not_false_eq_true, if_true, ne_eq, movedRun_ok, Bool.false_eq_true, false_and, false_iff]
    rintro ⟨r, s, -, -, -, hs, hs'⟩
    exact hd (hdone.2 ⟨s, hs, hs'⟩)

theorem completeRun_ok :
    (∃ r, (completeRun runId cursor db).1 = .ok r) ↔
      ∃ r, db.run runId = some r ∧ r.cursor = cursor ∧ r.status.active = true ∧ db.stepAt runId cursor = none := by
  unfold completeRun
  by_cases h : ((db.run runId).any (fun r => r.standsAt cursor) && (db.stepAt runId cursor).isNone) = true
  · rw [if_pos h, movedRun_ok]
    rw [Bool.and_eq_true, Option.isNone_iff_eq_none] at h
    obtain ⟨r, hr, hcur, hact⟩ := standsAt_iff.1 h.1
    simp only [Db.setRunStatus, run_updateRun (f := fun r => { r with status := .completed }) (fun _ => rfl),
      hr, true_and]
    exact ⟨fun _ => ⟨r, rfl, hcur, hact, h.2⟩, fun _ => rfl⟩
  · rw [if_neg h, movedRun_ok]
    simp only [Bool.false_eq_true, false_and, false_iff]
    rintro ⟨r, hr, hcur, hact, hnone⟩
    refine h ?_
    rw [Bool.and_eq_true, Option.isNone_iff_eq_none]
    exact ⟨standsAt_iff.2 ⟨r, hr, hcur, hact⟩, hnone⟩

end Success

/-! ## What the answer says -/

def NextSafeAction.step? : NextSafeAction → Option RunStepRecord
  | .claim s | .reclaimExpired s | .waitForLease s | .waitForApproval s | .wait s | .advanceCursor s => some s
  | _ => none

theorem nextAction_step? (s : RunStepRecord) (now : Int) :
    (s.nextAction now).step? = some s ∨ (s.nextAction now = .runFailed ∧ s.status = .failed) := by
  unfold RunStepRecord.nextAction RunStepRecord.status
  cases s.state with
  | pending | completed => exact .inl rfl
  | running owner expiry | waiting =>
    dsimp only
    split <;> exact .inl rfl
  | failed => exact .inr ⟨rfl, rfl⟩

theorem step?_nextAction {s t : RunStepRecord} {now : Int} (h : (s.nextAction now).step? = some t) : t = s := by
  rcases nextAction_step? s now with h' | ⟨h', -⟩
  · exact Option.mem_unique h h'
  · rw [h'] at h
    cases h

section Answers

variable {db : Db} {runId : String} {now : Int}

theorem nextSafeAction_cases (runId : String) (now : Int) (db : Db) :
    (db.run runId = none ∧ nextSafeAction runId now db = .error (.notFound "run" runId)) ∨
    ∃ r, db.run runId = some r ∧
      ((r.status = .completed ∧ nextSafeAction runId now db = .ok .runCompleted) ∨
        (r.status = .failed ∧ nextSafeAction runId now db = .ok .runFailed) ∨
        (r.status = .cancelled ∧ nextSafeAction runId now db = .ok .runCancelled) ∨
        (r.status.active = true ∧ db.stepAt runId r.cursor = none ∧
          nextSafeAction runId now db = .ok (.completeRun r.cursor)) ∨
        (r.status.active = true ∧ ∃ s, db.stepAt runId r.cursor = some s ∧
          nextSafeAction runId now db = .ok (s.nextAction now))) := by
  unfold nextSafeAction requiredRun
  cases hr : db.run runId with
  | none => exact .inl ⟨rfl, rfl⟩
  | some r =>
    refine .inr ⟨r, rfl, ?_⟩
    cases hst : r.status <;> cases hs : db.stepAt runId r.cursor <;> simp [RunStatus.active, hst, hs]

theorem nextSafeAction_step {a : NextSafeAction} {s : RunStepRecord} (ha : a.step? = some s) :
    nextSafeAction runId now db = .ok a ↔ ∃ r, db.run runId = some r ∧ r.status.active = true ∧
      db.stepAt runId r.cursor = some s ∧ s.nextAction now = a := by
  constructor
  · intro h
    rcases nextSafeAction_cases runId now db with ⟨-, h'⟩ | ⟨r, hr, ⟨-, h'⟩ | ⟨-, h'⟩ | ⟨-, h'⟩ | ⟨-, -, h'⟩ | h'⟩
    · rw [h] at h'
      cases h'
    · rw [h] at h'
      cases h'
      cases ha
    · rw [h] at h'
      cases h'
      cases ha
    · rw [h] at h'
      cases h'
      cases ha
    · rw [h] at h'
      cases h'
      cases ha
    · obtain ⟨hact, t, ht, h'⟩ := h'
      rw [h] at h'
      cases h'
      obtain rfl := step?_nextAction ha
      exact ⟨r, hr, hact, ht, rfl⟩
  · rintro ⟨r, hr, hact, hs, rfl⟩
    unfold nextSafeAction requiredRun
    rw [hr]
    cases hst : r.status <;> simp_all [RunStatus.active]

theorem Db.RunsOk.not_failed (hok : db.RunsOk) {r : RunRow} (hr : db.run runId = some r)
    (hact : r.status.active = true) {s : RunStepRecord} (hs : db.stepAt runId r.cursor = some s) :
    s.status ≠ .failed := by
  obtain ⟨hmem, rfl⟩ := hok.run_iff.1 hr
  obtain ⟨hs, hrun, -⟩ := hok.stepAt_iff.1 hs
  intro hfailed
  rw [(hok.fits r hmem s hs hrun).failed hfailed] at hact
  cases hact

theorem nextSafeAction_completeRun (cursor : Int) :
    nextSafeAction runId now db = .ok (.completeRun cursor) ↔
      ∃ r, db.run runId = some r ∧ r.cursor = cursor ∧ r.status.active = true ∧ db.stepAt runId cursor = none := by
  constructor
  · intro h
    rcases nextSafeAction_cases runId now db with ⟨-, h'⟩ | ⟨r, hr, ⟨-, h'⟩ | ⟨-, h'⟩ | ⟨-, h'⟩ | ⟨hact, hnone, h'⟩ | h'⟩
    · rw [h] at h'
      cases h'
    · rw [h] at h'
      cases h'
    · rw [h] at h'
      cases h'
    · rw [h] at h'
      cases h'
    · rw [h] at h'
      cases h'
      exact ⟨r, hr, rfl, hact, hnone⟩
    · obtain ⟨-, t, -, h'⟩ := h'
      rw [h] at h'
      rcases nextAction_step? t now with ht | ⟨ht, -⟩ <;> rw [← Except.ok.inj h'] at ht <;> cases ht
  · rintro ⟨r, hr, rfl, hact, hnone⟩
    unfold nextSafeAction requiredRun
    rw [hr]
    cases hst : r.status <;> simp_all [RunStatus.active]

theorem nextSafeAction_final (hok : db.RunsOk) {a : NextSafeAction} {status : RunStatus}
    (ha : (a = .runCompleted ∧ status = .completed) ∨ (a = .runFailed ∧ status = .failed) ∨
      (a = .runCancelled ∧ status = .cancelled)) :
    nextSafeAction runId now db = .ok a ↔ ∃ r, db.run runId = some r ∧ r.status = status := by
  rcases nextSafeAction_cases runId now db with
    ⟨hr, h⟩ | ⟨r, hr, ⟨hst, h⟩ | ⟨hst, h⟩ | ⟨hst, h⟩ | ⟨hact, -, h⟩ | ⟨hact, s, hs, h⟩⟩
  · simp [h, hr]
  · rcases ha with ⟨rfl, rfl⟩ | ⟨rfl, rfl⟩ | ⟨rfl, rfl⟩ <;> simp [h, hr, hst]
  · rcases ha with ⟨rfl, rfl⟩ | ⟨rfl, rfl⟩ | ⟨rfl, rfl⟩ <;> simp [h, hr, hst]
  · rcases ha with ⟨rfl, rfl⟩ | ⟨rfl, rfl⟩ | ⟨rfl, rfl⟩ <;> simp [h, hr, hst]
  · have hne : r.status ≠ status := by
      rcases ha with ⟨-, rfl⟩ | ⟨-, rfl⟩ | ⟨-, rfl⟩ <;> · intro hst; simp [hst, RunStatus.active] at hact
    rcases ha with ⟨rfl, rfl⟩ | ⟨rfl, rfl⟩ | ⟨rfl, rfl⟩ <;> simp [h, hr, hne]
  · have hne : r.status ≠ status := by
      rcases ha with ⟨-, rfl⟩ | ⟨-, rfl⟩ | ⟨-, rfl⟩ <;> · intro hst; simp [hst, RunStatus.active] at hact
    -- the one step that could answer for a failed run is not at the cursor of an active one
    have hfailed := hok.not_failed hr hact hs
    have hans : s.nextAction now ≠ a := by
      rintro rfl
      rcases nextAction_step? s now with hs' | ⟨-, hs'⟩
      · rcases ha with ⟨ha, -⟩ | ⟨ha, -⟩ | ⟨ha, -⟩ <;> rw [ha] at hs' <;> cases hs'
      · exact hfailed hs'
    simp [h, hr, hne, hans]

end Answers

/-! ## The answer and the guards -/

section Exact

variable {db : Db} {runId : String} {now : Int} {s : RunStepRecord}

theorem Db.RunsOk.atCursor_iff (hok : db.RunsOk) {stepId : String} :
    (db.step runId stepId = some s ∧ db.atCursor s = true) ↔
      s.stepId = stepId ∧ ∃ r, db.run runId = some r ∧ r.status.active = true ∧ db.stepAt runId r.cursor = some s := by
  constructor
  · rintro ⟨hs, hcur⟩
    obtain ⟨hmem, rfl, hid⟩ := hok.step_iff.1 hs
    unfold Db.atCursor at hcur
    cases hr : db.run s.runId with
    | none => simp [hr] at hcur
    | some r =>
      simp only [hr, Bool.and_eq_true, decide_eq_true_eq] at hcur
      exact ⟨hid, r, rfl, hcur.1, hok.stepAt_iff.2 ⟨hmem, rfl, hcur.2⟩⟩
  · rintro ⟨hid, r, hr, hact, hs⟩
    obtain ⟨hmem, rfl, hord⟩ := hok.stepAt_iff.1 hs
    refine ⟨hok.step_iff.2 ⟨hmem, rfl, hid⟩, ?_⟩
    simp [Db.atCursor, hr, hact, hord]

theorem claimable_iff :
    s.state.claimable now = true ↔ s.nextAction now = .claim s ∨ s.nextAction now = .reclaimExpired s := by
  unfold RunStepRecord.nextAction StepState.claimable
  cases s.state with
  | pending | completed | failed => simp
  | running owner expiry => by_cases h : expiry ≤ now <;> simp [h]
  | waiting => by_cases h : s.approvalId.isSome = true <;> simp [h]

theorem waitForLease_iff :
    s.nextAction now = .waitForLease s ↔ ∃ expiry, s.leaseExpiresAt = some expiry ∧ now < expiry := by
  unfold RunStepRecord.nextAction RunStepRecord.leaseExpiresAt
  cases s.state with
  | pending | completed | failed => simp
  | running owner expiry =>
    by_cases h : expiry ≤ now
    · simp [h]
    · simp [h, not_le.1 h]
  | waiting => by_cases h : s.approvalId.isSome = true <;> simp [h]

theorem waitForApproval_iff :
    s.nextAction now = .waitForApproval s ↔ s.status = .waiting ∧ s.approvalId.isSome = true := by
  unfold RunStepRecord.nextAction RunStepRecord.status
  cases s.state with
  | pending | completed | failed => simp [StepState.status]
  | running owner expiry => by_cases h : expiry ≤ now <;> simp [h, StepState.status]
  | waiting => by_cases h : s.approvalId.isSome = true <;> simp [h, StepState.status]

theorem advanceCursor_iff : s.nextAction now = .advanceCursor s ↔ s.status = .completed := by
  unfold RunStepRecord.nextAction RunStepRecord.status
  cases s.state with
  | pending | completed | failed => simp [StepState.status]
  | running owner expiry => by_cases h : expiry ≤ now <;> simp [h, StepState.status]
  | waiting => by_cases h : s.approvalId.isSome = true <;> simp [h, StepState.status]

theorem claim_iff (hok : db.RunsOk) {stepId : String} :
    (∃ s, s.stepId = stepId ∧
      (nextSafeAction runId now db = .ok (.claim s) ∨ nextSafeAction runId now db = .ok (.reclaimExpired s))) ↔
    ∃ s, db.step runId stepId = some s ∧ s.state.claimable now = true ∧ db.atCursor s = true := by
  constructor
  · rintro ⟨s, hid, h⟩
    obtain ⟨r, hr, hact, hs, hnext⟩ : ∃ r, db.run runId = some r ∧ r.status.active = true ∧
        db.stepAt runId r.cursor = some s ∧ (s.nextAction now = .claim s ∨ s.nextAction now = .reclaimExpired s) := by
      rcases h with h | h
      · obtain ⟨r, hr, hact, hs, hnext⟩ := (nextSafeAction_step (s := s) rfl).1 h
        exact ⟨r, hr, hact, hs, .inl hnext⟩
      · obtain ⟨r, hr, hact, hs, hnext⟩ := (nextSafeAction_step (s := s) rfl).1 h
        exact ⟨r, hr, hact, hs, .inr hnext⟩
    obtain ⟨hs, hcur⟩ := hok.atCursor_iff.2 ⟨hid, r, hr, hact, hs⟩
    exact ⟨s, hs, claimable_iff.2 hnext, hcur⟩
  · rintro ⟨s, hs, hclaim, hcur⟩
    obtain ⟨hid, r, hr, hact, hat⟩ := hok.atCursor_iff.1 ⟨hs, hcur⟩
    refine ⟨s, hid, (claimable_iff.1 hclaim).imp ?_ ?_⟩
    · intro hnext
      exact (nextSafeAction_step (s := s) rfl).2 ⟨r, hr, hact, hat, hnext⟩
    · intro hnext
      exact (nextSafeAction_step (s := s) rfl).2 ⟨r, hr, hact, hat, hnext⟩

theorem claimStep_refused {stepId worker : String} {d expiry : Int} (hclock : db.ClockBehind runId now) (hd : 0 < d)
    (hs : db.step runId stepId = some s) (hexp : s.leaseExpiresAt = some expiry) (hlive : now < expiry) :
    (claimStep runId stepId worker now (now + d) db).1 =
      .error (.invalidTransition "step" s!"{runId}/{stepId}" "running" "claim") := by
  obtain ⟨db₁, hobs, hruns, hsteps⟩ := observe_ok hclock
  have hs₁ : db₁.step runId stepId = some s := by
    unfold Db.step at hs ⊢
    rw [hsteps]
    exact hs
  have hstate : s.state.claimable now = false ∧ s.status = .running := by
    unfold RunStepRecord.leaseExpiresAt at hexp
    unfold RunStepRecord.status
    cases hst : s.state <;> simp_all [StepState.claimable, StepState.status]
  have hmove : moveStep runId stepId (fun db s => s.state.claimable now && db.atCursor s)
      (fun s => s.claim worker now (now + d)) .running db₁ = (false, db₁) := by
    simp [moveStep, hs₁, hstate.1]
  unfold claimStep
  rw [hobs]
  dsimp only
  rw [if_neg (by omega), claimStepTx, runTx_ok, hmove]
  simp [movedStep, transitionError, requiredStep, hs₁, hstate.2, RunStepStatus.asStr]

end Exact

/-- **`next_safe_action` is exact**: its answer names what the store accepts at that time. -/
structure Db.NextActionExact (db : Db) (runId : String) (now : Int) : Prop where
  claim : db.ClockBehind runId now → ∀ stepId worker d, 0 < d →
    ((∃ s, s.stepId = stepId ∧
        (nextSafeAction runId now db = .ok (.claim s) ∨ nextSafeAction runId now db = .ok (.reclaimExpired s))) ↔
      ∃ s, (claimStep runId stepId worker now (now + d) db).1 = .ok s)
  waitForLease : db.ClockBehind runId now → ∀ stepId worker,
    (∀ s, db.step runId stepId = some s → s.leaseOwner ≠ some worker) →
    ((∃ s, s.stepId = stepId ∧ nextSafeAction runId now db = .ok (.waitForLease s)) ↔
      db.RefusedByLease runId stepId worker now)
  waitForApproval : ∀ s, nextSafeAction runId now db = .ok (.waitForApproval s) →
    s.status = .waiting ∧ ∃ approvalId, s.approvalId = some approvalId ∧
      ∃ s', (resumeWaitingStep runId s.stepId (some approvalId) db).1 = .ok s'
  advanceCursor : ∀ cursor, (∃ s, s.ordinal = cursor ∧ nextSafeAction runId now db = .ok (.advanceCursor s)) ↔
    ∃ r, (advanceCursor runId cursor db).1 = .ok r
  completeRun : ∀ cursor, nextSafeAction runId now db = .ok (.completeRun cursor) ↔
    ∃ r, (completeRun runId cursor db).1 = .ok r
  runCompleted : nextSafeAction runId now db = .ok .runCompleted ↔
    ∃ r, db.run runId = some r ∧ r.status = .completed
  runFailed : nextSafeAction runId now db = .ok .runFailed ↔ ∃ r, db.run runId = some r ∧ r.status = .failed
  runCancelled : nextSafeAction runId now db = .ok .runCancelled ↔
    ∃ r, db.run runId = some r ∧ r.status = .cancelled
  one : ∀ p q, db.Enables runId now p → db.Enables runId now q → p = q

section Main

variable {db : Db} {runId : String} {now : Int}

def RunRow.Offers (db : Db) (r : RunRow) (now : Int) : ProgressOp → Prop
  | .claim stepId => ∃ s, db.stepAt r.runId r.cursor = some s ∧ s.stepId = stepId ∧ s.state.claimable now = true
  | .resume stepId => ∃ s, db.stepAt r.runId r.cursor = some s ∧ s.stepId = stepId ∧ s.status = .waiting
  | .advance cursor => r.cursor = cursor ∧ ∃ s, db.stepAt r.runId r.cursor = some s ∧ s.status = .completed
  | .complete cursor => r.cursor = cursor ∧ db.stepAt r.runId r.cursor = none

theorem Db.Enables.offers (hok : db.RunsOk) {p : ProgressOp} (h : db.Enables runId now p) :
    ∃ r, db.run runId = some r ∧ r.Offers db now p := by
  cases p with
  | claim stepId =>
    obtain ⟨worker, d, s', -, h⟩ := h
    obtain ⟨s, hs, hclaim, hcur⟩ := claimable_of_claimStep h
    obtain ⟨hid, r, hr, -, hat⟩ := hok.atCursor_iff.1 ⟨hs, hcur⟩
    obtain rfl := run_id hr
    exact ⟨r, hr, s, hat, hid, hclaim⟩
  | resume stepId =>
    obtain ⟨approvalId, s', h⟩ := h
    obtain ⟨s, hs, hres⟩ := resumeWaitingStep_ok.1 ⟨s', h⟩
    obtain ⟨hmem, rfl, hid⟩ := hok.step_iff.1 hs
    obtain ⟨hheld, hst⟩ := held_of_resumable hres
    obtain ⟨r, hr, -, hord⟩ := hok.of_held hmem hheld
    exact ⟨r, hr, s, hok.stepAt_iff.2 ⟨hmem, (run_id hr).symm, hord⟩, hid, hst⟩
  | advance cursor =>
    obtain ⟨r, s, hr, hcur, -, hs, hdone⟩ := advanceCursor_ok.1 h
    obtain rfl := run_id hr
    exact ⟨r, hr, hcur, s, by rw [hcur]; exact hs, hdone⟩
  | complete cursor =>
    obtain ⟨r, hr, hcur, -, hnone⟩ := completeRun_ok.1 h
    obtain rfl := run_id hr
    exact ⟨r, hr, hcur, by rw [hcur]; exact hnone⟩

theorem RunRow.Offers.unique {r : RunRow} {p q : ProgressOp} (hp : r.Offers db now p) (hq : r.Offers db now q) :
    p = q := by
  have hclaim : ∀ s : RunStepRecord, s.state.claimable now = true → s.status ≠ .waiting ∧ s.status ≠ .completed := by
    intro s h
    unfold RunStepRecord.status
    cases hst : s.state <;> simp_all [StepState.claimable, StepState.status]
  cases p <;> cases q <;> simp_all [RunRow.Offers] <;> grind

end Main

theorem next_safe_action_exact {db₀ db : Db} {calls : List RunCall} (h₀ : db₀.NoRuns)
    (hrun : Run RunCall.Step db₀ calls db) (runId : String) (now : Int) : db.NextActionExact runId now := by
  have hok := run_runsOk h₀.ok hrun
  constructor
  · intro hclock stepId worker d hd
    rw [claim_iff hok, claimStep_ok hclock (by omega)]
  · intro hclock stepId worker _
    constructor
    · rintro ⟨s, hid, h⟩
      obtain ⟨r, hr, hact, hat, hnext⟩ := (nextSafeAction_step (s := s) rfl).1 h
      obtain ⟨hs, -⟩ := hok.atCursor_iff.2 ⟨hid, r, hr, hact, hat⟩
      obtain ⟨expiry, hexp, hlive⟩ := waitForLease_iff.1 hnext
      exact ⟨s, expiry, hs, hexp, hlive, fun d hd => claimStep_refused hclock hd hs hexp hlive⟩
    · rintro ⟨s, expiry, hs, hexp, hlive, -⟩
      obtain ⟨hmem, rfl, hid⟩ := hok.step_iff.1 hs
      have hheld : s.held = true := by
        unfold RunStepRecord.leaseExpiresAt at hexp
        unfold RunStepRecord.held RunStepRecord.status
        cases hst : s.state <;> simp_all [StepState.status]
      obtain ⟨r, hr, hact, hord⟩ := hok.of_held hmem hheld
      exact ⟨s, hid, (nextSafeAction_step (s := s) rfl).2
        ⟨r, hr, hact, hok.stepAt_iff.2 ⟨hmem, rfl, hord⟩, waitForLease_iff.2 ⟨expiry, hexp, hlive⟩⟩⟩
  · intro s h
    obtain ⟨r, hr, hact, hat, hnext⟩ := (nextSafeAction_step (s := s) rfl).1 h
    obtain ⟨hst, happ⟩ := waitForApproval_iff.1 hnext
    obtain ⟨approvalId, happ⟩ := Option.isSome_iff_exists.1 happ
    obtain ⟨hs, -⟩ := hok.atCursor_iff.2 ⟨rfl, r, hr, hact, hat⟩
    exact ⟨hst, approvalId, happ, resumeWaitingStep_ok.2 ⟨s, hs, by simp [RunStepRecord.resumable, hst, happ]⟩⟩
  · intro cursor
    rw [advanceCursor_ok]
    constructor
    · rintro ⟨s, rfl, h⟩
      obtain ⟨r, hr, hact, hat, hnext⟩ := (nextSafeAction_step (s := s) rfl).1 h
      have hord := (stepAt_slot hat).2
      exact ⟨r, s, hr, hord.symm, hact, by rw [hord]; exact hat, advanceCursor_iff.1 hnext⟩
    · rintro ⟨r, s, hr, rfl, hact, hat, hdone⟩
      exact ⟨s, (stepAt_slot hat).2, (nextSafeAction_step (s := s) rfl).2
        ⟨r, hr, hact, hat, advanceCursor_iff.2 hdone⟩⟩
  · intro cursor
    rw [nextSafeAction_completeRun, completeRun_ok]
  · exact nextSafeAction_final hok (.inl ⟨rfl, rfl⟩)
  · exact nextSafeAction_final hok (.inr (.inl ⟨rfl, rfl⟩))
  · exact nextSafeAction_final hok (.inr (.inr ⟨rfl, rfl⟩))
  · intro p q hp hq
    obtain ⟨r, hr, hp⟩ := hp.offers hok
    obtain ⟨r', hr', hq⟩ := hq.offers hok
    rw [hr] at hr'
    cases hr'
    exact hp.unique hq

theorem next_safe_action_exact_sample :
    (sampleEvents.execAll (sampleCalls.take 2)).NextActionExact "r" 5 ∧
      (nextSafeAction "r" 5 (sampleEvents.execAll (sampleCalls.take 2))).toOption.bind NextSafeAction.step? =
        (sampleEvents.execAll (sampleCalls.take 2)).step "r" "s" :=
  ⟨next_safe_action_exact ⟨rfl, rfl⟩ (run_execAll sampleEvents (sampleCalls.take 2)) "r" 5, by decide⟩

end Execlaw
