import Execlaw.Durable
/-!
# DurablePool — steps are executed once and replayed alike

Any number of workers call the operations of `DurableRun` in any order, at any clocks, and may stop at any point; any
other caller uses the store between their accesses.  A lease passes to another worker only after it has expired, a
completed step is replayed with the output it was completed with, and a definition that differs is refused.
-/
namespace Execlaw

open Interleave Steps

/-! ## Calls of the workers -/

inductive DurableCall (I T : Type)
  | define (x : DurableRun.StepInput I)
  | begin (x : DurableRun.StepInput I) (now : Int)
  | resumeExisting (stepId : String) (ordinal : Int) (kind : RunStepKind) (now : Int)
  | complete (stepId : String) (output : T) (completedAt : Int)
  | fail (stepId detail : String) (failedAt : Int)
  | waitForApproval (stepId approvalId : String)
  | resumeApproval (stepId approvalId : String)
  | advance (ordinal : Int)
  | finish (cursor : Int)

inductive Reply (T : Type)
  | decision (decision : StepDecision T)
  | step (step : RunStepRecord)
  | run (run : RunRow)

section Calls

variable {I T : Type}

def DurableRun.prog (serde : Serde I T) (d : DurableRun) : DurableCall I T → StoreProg (Reply T)
  | .define x => do pure (.step (← d.define serde x))
  | .begin x now => do pure (.decision (← d.begin serde x now))
  | .resumeExisting stepId ordinal kind now => do
    pure (.decision (← d.resumeExisting serde stepId ordinal kind now))
  | .complete stepId output completedAt => do pure (.step (← d.complete serde stepId output completedAt))
  | .fail stepId detail failedAt => do pure (.step (← d.fail stepId detail failedAt))
  | .waitForApproval stepId approvalId => do pure (.step (← d.waitForApproval stepId approvalId))
  | .resumeApproval stepId approvalId => do pure (.step (← d.resumeApproval stepId approvalId))
  | .advance ordinal => do pure (.run (← d.advance ordinal))
  | .finish cursor => do pure (.run (← d.finish cursor))

def DurableCall.enters? : DurableCall I T → Option String
  | .begin x _ => some x.stepId
  | .resumeExisting stepId _ _ _ => some stepId
  | _ => none

def DurableCall.clock? : DurableCall I T → Option Int
  | .begin _ now | .resumeExisting _ _ _ now => some now
  | _ => none

def RunCall.claims? : RunCall → Option (String × Int)
  | .claimStep _ _ leaseOwner now _ => some (leaseOwner, now)
  | _ => none

abbrev DurablePool (I T : Type) := Pool Db (DurableCall I T) (Except RunStoreError (Reply T))

abbrev DurableEvent (I T : Type) := Event (DurableCall I T) (Except RunStoreError (Reply T)) RunCall

def DurablePool.Step (serde : Serde I T) (workers : Nat → DurableRun) :
    DurablePool I T → DurableEvent I T → DurablePool I T → Prop :=
  Pool.Step (fun i c => ((workers i).prog serde c).run) Db.exec

end Calls

/-! ## Every access is a move of the run tables -/

/-- Nothing, or a move that a call of `ok` makes. -/
def Db.MovesBy (ok : RunCall → Prop) (db db' : Db) : Prop := db' = db ∨ ∃ l, ok l ∧ RunMove db l db'

section Accesses

variable {α β : Type} {ok : RunCall → Prop}

theorem moves_ofTx {f : Db → Except RunStoreError α × Db} {l : RunCall} (hl : ok l) (h : ∀ db, RunMove db l (f db).2) :
    Prog.Moves (Db.MovesBy ok) (StoreProg.ofTx f).run :=
  Prog.moves_atomic fun db => .inr ⟨l, hl, h db⟩

theorem moves_query (f : Db → Except RunStoreError α) : Prog.Moves (Db.MovesBy ok) (StoreProg.query f).run :=
  Prog.moves_read fun _ => .inl rfl

theorem moves_ofExcept (x : Except RunStoreError α) : Prog.Moves (Db.MovesBy ok) (StoreProg.ofExcept x).run :=
  Prog.moves_ret _

theorem moves_pure (a : α) : Prog.Moves (Db.MovesBy ok) (pure a : StoreProg α).run := Prog.moves_ret _

theorem moves_throw (e : RunStoreError) : Prog.Moves (Db.MovesBy ok) (throw e : StoreProg α).run := Prog.moves_ret _

theorem moves_bind {p : StoreProg α} {f : α → StoreProg β} (hp : Prog.Moves (Db.MovesBy ok) p.run)
    (hf : ∀ a, Prog.Moves (Db.MovesBy ok) (f a).run) : Prog.Moves (Db.MovesBy ok) (p >>= f).run :=
  moves_exceptT_bind hp hf

variable {moved : StoreProg Bool}

theorem moves_movedStep (runId stepId operation : String) (h : Prog.Moves (Db.MovesBy ok) moved.run) :
    Prog.Moves (Db.MovesBy ok) (StoreProg.movedStep runId stepId operation moved).run := by
  refine moves_bind h fun b => ?_
  split
  · exact moves_query _
  · exact moves_query _

theorem moves_movedRun (runId operation : String) (h : Prog.Moves (Db.MovesBy ok) moved.run) :
    Prog.Moves (Db.MovesBy ok) (StoreProg.movedRun runId operation moved).run := by
  refine moves_bind h fun b => ?_
  split
  · exact moves_query _
  · exact moves_bind (moves_query _) fun _ => moves_throw _

theorem moves_claimStep (runId stepId leaseOwner : String) (now leaseExpiresAt : Int)
    (hl : ok (.claimStep runId stepId leaseOwner now leaseExpiresAt)) :
    Prog.Moves (Db.MovesBy ok) (StoreProg.claimStep runId stepId leaseOwner now leaseExpiresAt).run := by
  refine moves_bind (moves_ofTx hl fun db => ?_) fun _ => ?_
  · exact .quiet (observe_tables runId now db).1 (observe_tables runId now db).2
  · split
    · exact moves_throw _
    · exact moves_movedStep _ _ _ (moves_ofTx hl fun db => claimStepTx_move runId stepId leaseOwner now leaseExpiresAt)

theorem moves_finishStep (runId stepId leaseOwner : String) {state : StepState} (outputRef : Option String)
    {l : RunCall} (hl : ok l) (h : ∀ db, RunMove db l (finishStep runId stepId leaseOwner state outputRef db).2) :
    Prog.Moves (Db.MovesBy ok) (StoreProg.finishStep runId stepId leaseOwner state outputRef).run := by
  refine moves_movedStep _ _ _ (moves_ofTx hl fun db => ?_)
  have hmove := h db
  rwa [finishStep, movedStep_snd] at hmove

theorem moves_nextSafeAction (runId : String) (now : Int) :
    Prog.Moves (Db.MovesBy ok) (StoreProg.nextSafeAction runId now).run := by
  refine moves_bind (moves_query _) fun run => ?_
  cases run.status
  case completed | failed | cancelled => exact moves_pure _
  all_goals
    refine moves_bind (moves_query _) fun step => ?_
    cases step <;> exact moves_pure _

end Accesses

def DurableCall.Allows {I T : Type} (c : DurableCall I T) (d : DurableRun) (l : RunCall) : Prop :=
  ∀ w now, l.claims? = some (w, now) → w = d.workerId ∧ c.clock? = some now

theorem allows_of_none {I T : Type} {c : DurableCall I T} {d : DurableRun} {l : RunCall} (h : l.claims? = none) :
    c.Allows d l := by
  intro w now hl
  rw [h] at hl
  cases hl

section Programs

variable {I T : Type} (serde : Serde I T) (d : DurableRun) {ok : RunCall → Prop}

variable (ok) in
theorem moves_define (x : DurableRun.StepInput I) (hl : ∀ new, ok (.addStep d.runId new)) :
    Prog.Moves (Db.MovesBy ok) (d.define serde x).run := by
  unfold DurableRun.define
  split
  · exact moves_throw _
  · exact moves_ofTx (hl _) fun db => addStep_move d.runId _

theorem moves_enterNext (stepId : String) (ordinal : Int) (kind : RunStepKind) (now : Int) (action : NextSafeAction)
    (hl : ∀ leaseExpiresAt, ok (.claimStep d.runId stepId d.workerId now leaseExpiresAt)) :
    Prog.Moves (Db.MovesBy ok) (d.enterNext serde stepId ordinal kind now action).run := by
  cases action with
  | claim step | reclaimExpired step =>
    dsimp only [DurableRun.enterNext]
    split
    · exact moves_bind (moves_claimStep _ _ _ _ _ (hl _)) fun _ => moves_pure _
    · exact moves_throw _
  | waitForLease step =>
    dsimp only [DurableRun.enterNext]
    split
    · exact moves_pure _
    · exact moves_throw _
  | waitForApproval step =>
    dsimp only [DurableRun.enterNext]
    split
    · cases step.approvalId with
      | none => exact moves_throw _
      | some approvalId => exact moves_pure _
    · exact moves_throw _
  | advanceCursor step =>
    dsimp only [DurableRun.enterNext]
    split
    · exact moves_ofExcept _
    · exact moves_throw _
  | wait | completeRun | runCompleted | runFailed | runCancelled => exact moves_throw _

theorem moves_enterDefinedStep (stepId : String) (ordinal : Int) (kind : RunStepKind) (now : Int)
    (hl : ∀ leaseExpiresAt, ok (.claimStep d.runId stepId d.workerId now leaseExpiresAt)) :
    Prog.Moves (Db.MovesBy ok) (d.enterDefinedStep serde stepId ordinal kind now).run := by
  refine moves_bind (moves_query _) fun stored => ?_
  cases stored.filter (fun step => step.status == .completed) with
  | some step => exact moves_ofExcept _
  | none =>
    exact moves_bind (moves_nextSafeAction _ _) fun action => moves_enterNext serde d stepId ordinal kind now action hl

theorem prog_moves (c : DurableCall I T) : Prog.Moves (Db.MovesBy (c.Allows d)) (d.prog serde c).run := by
  have hclaim : ∀ stepId now, c.clock? = some now → ∀ leaseExpiresAt,
      c.Allows d (.claimStep d.runId stepId d.workerId now leaseExpiresAt) := by
    rintro stepId now hclock leaseExpiresAt w now' heq
    cases heq
    exact ⟨rfl, hclock⟩
  cases c with
  | define x =>
    exact moves_bind (moves_define serde d _ x fun new => allows_of_none rfl) fun _ => moves_pure _
  | begin x now =>
    refine moves_bind (moves_bind (moves_define serde d _ x fun new => allows_of_none rfl) fun _ => ?_) fun _ =>
      moves_pure _
    exact moves_enterDefinedStep serde d _ _ _ now (hclaim _ now rfl)
  | resumeExisting stepId ordinal kind now =>
    refine moves_bind (moves_bind (moves_query _) fun stored => ?_) fun _ => moves_pure _
    cases stored with
    | none => exact moves_throw _
    | some step =>
      dsimp only
      split
      · exact moves_throw _
      · exact moves_enterDefinedStep serde d stepId ordinal kind now (hclaim _ now rfl)
  | complete stepId output completedAt =>
    refine moves_bind ?_ fun _ => moves_pure _
    unfold DurableRun.complete
    split
    · exact moves_throw _
    · rename_i json _
      have hmove := fun db => exec_move db (.completeStep d.runId stepId d.workerId (some (outputPrefix ++ json))
        completedAt)
      exact moves_finishStep _ _ _ _ (allows_of_none rfl) hmove
  | fail stepId detail failedAt =>
    have hmove := fun db => exec_move db (.failStep d.runId stepId d.workerId
      (some ("error:" ++ String.ofList (detail.toList.take 512))) failedAt)
    exact moves_bind (moves_finishStep _ _ _ _ (allows_of_none rfl) hmove) fun _ => moves_pure _
  | waitForApproval stepId approvalId =>
    refine moves_bind (moves_bind (moves_query _) fun step => ?_) fun _ => moves_pure _
    split
    · exact moves_throw _
    · have hmove := fun db : Db => @waitStepTx_move db d.runId stepId d.workerId (some approvalId)
      exact moves_movedStep _ _ _ (moves_ofTx (allows_of_none rfl) hmove)
  | resumeApproval stepId approvalId =>
    have hmove : ∀ db, RunMove db (.resumeWaitingStep d.runId stepId (some approvalId))
        (StoreProg.resumeWaitingStepTx d.runId stepId (some approvalId) db).2 := by
      intro db
      have h := exec_move db (.resumeWaitingStep d.runId stepId (some approvalId))
      rwa [Db.exec, resumeWaitingStep, movedStep_snd] at h
    exact moves_bind (moves_movedStep _ _ _ (moves_ofTx (allows_of_none rfl) hmove)) fun _ => moves_pure _
  | advance ordinal =>
    refine moves_bind (moves_bind (moves_query _) fun stored => ?_) fun _ => moves_pure _
    cases stored.filter (fun run => decide (ordinal < run.cursor)) with
    | some run => exact moves_pure _
    | none =>
      have hmove : ∀ db, RunMove db (.advanceCursor d.runId ordinal)
          (StoreProg.advanceCursorTx d.runId ordinal db).2 := by
        intro db
        have h := exec_move db (.advanceCursor d.runId ordinal)
        rwa [Db.exec, advanceCursor, movedRun_snd] at h
      exact moves_movedRun _ _ (moves_ofTx (allows_of_none rfl) hmove)
  | finish cursor =>
    have hmove : ∀ db, RunMove db (.completeRun d.runId cursor) (StoreProg.completeRunTx d.runId cursor db).2 := by
      intro db
      have h := exec_move db (.completeRun d.runId cursor)
      rwa [Db.exec, completeRun, movedRun_snd] at h
    exact moves_bind (moves_movedRun _ _ (moves_ofTx (allows_of_none rfl) hmove)) fun _ => moves_pure _

end Programs

/-! ## What the moves of others keep -/

theorem RunStepRecord.SameStep.trans {s s' s'' : RunStepRecord} (h : s.SameStep s') (h' : s'.SameStep s'') :
    s.SameStep s'' :=
  ⟨h'.runId.trans h.runId, h'.stepId.trans h.stepId, h'.ordinal.trans h.ordinal, h'.kind.trans h.kind,
    h'.inputHash.trans h.inputHash, h'.outboxKey.trans h.outboxKey⟩

variable {c : RunCall}

theorem StepAfter.same {db : Db} {s s' : RunStepRecord} (h : StepAfter db c s s') : s.SameStep s' := by
  cases h with
  | kept => exact .refl s
  | moved hmove => exact hmove.same
  | closed _ _ output closedAt => exact (s.close_spec output closedAt).1

/-- **What a worker relies on**: a step keeps its definition, and a completed one stays as it is. -/
structure Db.Onward (db db' : Db) : Prop where
  ok : db.RunsOk → db'.RunsOk
  step : db.RunsOk → ∀ runId stepId s, db.step runId stepId = some s →
    ∃ s', db'.step runId stepId = some s' ∧ s.SameStep s' ∧ (s.status = .completed → s' = s)

theorem Db.Onward.refl (db : Db) : db.Onward db := ⟨id, fun _ _ _ s hs => ⟨s, hs, .refl s, fun _ => rfl⟩⟩

theorem Db.Onward.trans (db db' db'' : Db) (h : db.Onward db') (h' : db'.Onward db'') : db.Onward db'' := by
  refine ⟨h'.ok ∘ h.ok, ?_⟩
  intro hok runId stepId s hs
  obtain ⟨s', hs', hsame, hdone⟩ := h.step hok runId stepId s hs
  obtain ⟨s'', hs'', hsame', hdone'⟩ := h'.step (h.ok hok) runId stepId s' hs'
  refine ⟨s'', hs'', hsame.trans hsame', ?_⟩
  intro hst
  obtain rfl := hdone hst
  exact hdone' hst

variable {db db' : Db}

theorem RunMove.onward (h : RunMove db c db') : db.Onward db' := by
  refine ⟨h.ok, ?_⟩
  intro hok runId stepId s hs
  obtain ⟨s', hs', hafter⟩ := h.step_after hok hs
  exact ⟨s', hs', hafter.same, hafter.completed⟩

def Db.CompletedWith (db : Db) (runId stepId output : String) : Prop :=
  ∃ s, db.step runId stepId = some s ∧ s.status = .completed ∧ s.outputRef = some output

section Onward

variable {db db' : Db}

theorem Db.Onward.completed (h : db.Onward db') (hok : db.RunsOk) {runId stepId output : String}
    (hdone : db.CompletedWith runId stepId output) : db'.CompletedWith runId stepId output := by
  obtain ⟨s, hs, hst, hout⟩ := hdone
  obtain ⟨s', hs', -, hkept⟩ := h.step hok runId stepId s hs
  obtain rfl := hkept hst
  exact ⟨s', hs', hst, hout⟩

theorem completed_of_finishStepTx {runId stepId leaseOwner output : String} {completedAt : Int}
    (h : (StoreProg.finishStepTx runId stepId leaseOwner (.completed completedAt) (some output) db).1 = .ok true) :
    (StoreProg.finishStepTx runId stepId leaseOwner (.completed completedAt) (some output) db).2.CompletedWith
      runId stepId output := by
  rw [StoreProg.finishStepTx, runTx_ok] at h ⊢
  rcases moveStep_cases runId stepId (fun _ s => s.leasedTo leaseOwner)
    (fun s => s.finish (.completed completedAt) (some output)) .running db with hmove | ⟨s, hs, rfl, rfl, -, hmove⟩
  · have hfalse : false = true := Except.ok.inj ((congrArg (fun r => Except.ok r.1) hmove).symm.trans h)
    cases hfalse
  · have hstep := @step_updateStep db s.runId s.stepId
      (fun s => s.finish (.completed completedAt) (some output)) (fun _ => rfl) .running
    rw [hs] at hstep
    refine ⟨s.finish (.completed completedAt) (some output), ?_, rfl, rfl⟩
    have hdb := congrArg Prod.snd hmove
    exact hdb ▸ hstep

/-! ## Definitions that differ -/

def NewRunStep.Conflicts (new : NewRunStep) (s : RunStepRecord) : Prop :=
  (new.stepId = s.stepId ∨ new.ordinal = s.ordinal) ∧
    ¬ (new.stepId = s.stepId ∧ new.ordinal = s.ordinal ∧ new.kind = s.kind ∧ new.inputHash = s.inputHash)

theorem NewRunStep.Conflicts.same {new : NewRunStep} {s s' : RunStepRecord} (h : new.Conflicts s)
    (hsame : s.SameStep s') : new.Conflicts s' := by
  unfold NewRunStep.Conflicts at h ⊢
  rw [hsame.stepId, hsame.ordinal, hsame.kind, hsame.inputHash]
  exact h

theorem addStep_conflict (hok : db.RunsOk) {runId stepId : String} {s : RunStepRecord}
    (hs : db.step runId stepId = some s) {new : NewRunStep} (h : new.Conflicts s) :
    ∃ e, addStep runId new db = (.error e, db) := by
  obtain ⟨hmem, rfl, rfl⟩ := hok.step_iff.1 hs
  have hcollides : db.stepCollides (new.record s.runId) = true := by
    have htaken : ∃ t ∈ db.steps, t.key = (new.record s.runId).key ∨ t.slot = (new.record s.runId).slot := by
      refine ⟨s, hmem, ?_⟩
      rcases h.1 with hid | hord
      · exact .inl (by simp [RunStepRecord.key, NewRunStep.record, hid])
      · exact .inr (by simp [RunStepRecord.slot, NewRunStep.record, hord])
    by_contra hfree
    obtain ⟨t, ht, hkey⟩ := htaken
    have hnew := (free_of_not_collides (Bool.not_eq_true _ ▸ hfree)).2 t ht
    exact hkey.elim hnew.1 hnew.2
  obtain ⟨r, hr⟩ := hok.run_of_step hmem
  by_cases hact : r.status.active
  · have htx : addStepTx s.runId new db = (.ok (db.step s.runId new.stepId), db) := by
      simp [addStepTx, runTx, transaction, hr, hact, hcollides]
    rw [addStep, htx]
    cases hfound : db.step s.runId new.stepId with
    | none => exact ⟨_, rfl⟩
    | some t =>
      have hdiffers : t.defines new = false := by
        obtain ⟨htm, htr, hti⟩ := hok.step_iff.1 hfound
        simp only [RunStepRecord.defines, decide_eq_false_iff_not]
        rintro ⟨hord, hkind, hhash, -, -⟩
        rcases h.1 with hid | hplace
        · -- the step of the same id
          cases hs.symm.trans (hid ▸ hfound)
          exact h.2 ⟨hid, hord.symm, hkind.symm, hhash.symm⟩
        · -- the step of the same ordinal
          obtain rfl := hok.eq_of_slot htm hmem htr (hord.trans hplace)
          exact h.2 ⟨hti.symm, hplace, hkind.symm, hhash.symm⟩
      simp only [hdiffers, Bool.false_eq_true, if_false]
      exact ⟨_, rfl⟩
  · have htx : addStepTx s.runId new db =
        (.error (.db (.invariant s!"cannot add step to run '{s.runId}' while it is {r.status.asStr}")), db) := by
      simp [addStepTx, runTx, transaction, hr, hact]
    rw [addStep, htx]
    exact ⟨_, rfl⟩

end Onward

/-! ## What one worker ensures -/

theorem Db.MovesBy.onward {ok : RunCall → Prop} (h : db.MovesBy ok db') : db.Onward db' := by
  rcases h with rfl | ⟨l, -, hmove⟩
  · exact .refl db'
  · exact hmove.onward

section Ensured

variable {I T : Type} (serde : Serde I T) (d : DurableRun) {db : Db}

theorem complete_ensures (hok : db.RunsOk) (stepId : String) (output : T) (completedAt : Int) :
    Prog.Ensures Db.Onward (fun _ _ => True)
      (fun a db => ∀ r, a = .ok r → db.RunsOk ∧ ∃ json, serde.toString output = .ok json ∧
        db.CompletedWith d.runId stepId (outputPrefix ++ json))
      (d.complete serde stepId output completedAt).run db := by
  unfold DurableRun.complete
  cases hjson : serde.toString output with
  | error e =>
    intro _ _ r hr
    cases hr
  | ok json =>
    have hmove : ∀ db, RunMove db (.completeStep d.runId stepId d.workerId (some (outputPrefix ++ json)) completedAt)
        (StoreProg.finishStepTx d.runId stepId d.workerId (.completed completedAt) (some (outputPrefix ++ json)) db).2 := by
      intro db
      have h := exec_move db (.completeStep d.runId stepId d.workerId (some (outputPrefix ++ json)) completedAt)
      rwa [Db.exec, completeStep, finishStep, movedStep_snd] at h
    refine ensures_exceptT_bind Db.Onward.refl (M := fun a db => a = .ok true → db.RunsOk ∧
      db.CompletedWith d.runId stepId (outputPrefix ++ json)) ?_ ?_ ?_
    · refine Prog.ensures_atomic fun s hs => ⟨trivial, fun s' hs' htrue => ?_⟩
      have hok' := (hmove s).ok (hs.ok hok)
      exact ⟨hs'.ok hok', hs'.completed hok' (completed_of_finishStepTx htrue)⟩
    · intro e s _ s' _ r hr
      cases hr
    · intro b s hb
      cases b with
      | true =>
        refine Prog.ensures_read fun s' hs' => ⟨trivial, fun s'' hs'' r _ => ?_⟩
        obtain ⟨hok, hdone⟩ := hb rfl
        have hlater := Db.Onward.trans _ _ _ hs' hs''
        exact ⟨hlater.ok hok, json, rfl, hlater.completed hok hdone⟩
      | false =>
        refine Prog.ensures_read fun s' _ => ⟨trivial, fun s'' _ r hr => ?_⟩
        cases hr

theorem prog_completes (hok : db.RunsOk) (c : DurableCall I T) :
    Prog.Ensures Db.Onward (fun _ _ => True)
      (fun a db => ∀ stepId output completedAt reply, c = .complete stepId output completedAt → a = .ok reply →
        db.RunsOk ∧ ∃ json, serde.toString output = .ok json ∧
          db.CompletedWith d.runId stepId (outputPrefix ++ json))
      (d.prog serde c).run db := by
  cases c with
  | complete stepId output completedAt =>
    refine ensures_exceptT_bind Db.Onward.refl (complete_ensures serde d hok stepId output completedAt) ?_ ?_
    · intro e s _ s' _ _ _ _ reply _ hr
      cases hr
    · intro r s hr s' hon stepId' output' completedAt' reply heq _
      cases heq
      obtain ⟨hok, json, hjson, hdone⟩ := hr r rfl
      exact ⟨hon.ok hok, json, hjson, hon.completed hok hdone⟩
  | _ => exact (Prog.ensures_trivial _ db).mono fun _ _ _ _ _ _ _ heq => by cases heq

theorem decodeOutput_ok {s : RunStepRecord} {json : String} (hout : s.outputRef = some (outputPrefix ++ json))
    {dec : StepDecision T} (h : (DurableRun.decodeOutput serde s).map .replay = .ok dec) :
    ∃ v, serde.fromStr json = .ok v ∧ dec = .replay v := by
  unfold DurableRun.decodeOutput at h
  rw [hout] at h
  simp only [stripPrefix_append] at h
  cases hv : serde.fromStr json with
  | error e =>
    rw [hv] at h
    cases h
  | ok v =>
    rw [hv] at h
    cases h
    exact ⟨v, rfl, rfl⟩

variable {stepId json : String} (hok : db.RunsOk) (hdone : db.CompletedWith d.runId stepId (outputPrefix ++ json))
include hok hdone

theorem enterDefinedStep_ensures (ordinal : Int) (kind : RunStepKind) (now : Int) :
    Prog.Ensures Db.Onward (fun _ _ => True)
      (fun a _ => ∀ dec, a = .ok dec → ∃ v, serde.fromStr json = .ok v ∧ dec = .replay v)
      (d.enterDefinedStep serde stepId ordinal kind now).run db := by
  refine ensures_exceptT_bind Db.Onward.refl (M := fun a _ => ∃ s, a = .ok (some s) ∧ s.status = .completed ∧
    s.outputRef = some (outputPrefix ++ json)) ?_ ?_ ?_
  · refine Prog.ensures_read fun s hs => ⟨trivial, fun _ _ => ?_⟩
    obtain ⟨t, ht, hst, hout⟩ := hs.completed hok hdone
    exact ⟨t, congrArg Except.ok ht, hst, hout⟩
  · rintro e s ⟨t, heq, -⟩
    cases heq
  · rintro stored s ⟨t, heq, hst, hout⟩
    cases heq
    simp only [Option.filter_some, hst, beq_self_eq_true, if_true]
    intro _ _ dec hdec
    exact decodeOutput_ok serde hout hdec

theorem begin_ensures (x : DurableRun.StepInput I) (hx : x.stepId = stepId) (now : Int) :
    Prog.Ensures Db.Onward (fun _ _ => True)
      (fun a _ => ∀ dec, a = .ok dec → ∃ v, serde.fromStr json = .ok v ∧ dec = .replay v)
      (d.begin serde x now).run db := by
  have hdefine := (moves_define serde d (fun _ => True) x fun _ => trivial).ensures
    (I := fun db => db.RunsOk ∧ db.CompletedWith d.runId stepId (outputPrefix ++ json)) (fun _ _ h => h.onward)
    (fun _ _ h hon => ⟨hon.ok h.1, hon.completed h.1 h.2⟩) ⟨hok, hdone⟩
  refine ensures_exceptT_bind Db.Onward.refl hdefine ?_ ?_
  · intro e s _ s' _ dec hdec
    cases hdec
  · intro _ s hs
    rw [hx]
    exact enterDefinedStep_ensures serde d hs.1 hs.2 x.ordinal x.kind now

theorem resumeExisting_ensures (ordinal : Int) (kind : RunStepKind) (now : Int) :
    Prog.Ensures Db.Onward (fun _ _ => True)
      (fun a _ => ∀ dec, a = .ok dec → ∃ v, serde.fromStr json = .ok v ∧ dec = .replay v)
      (d.resumeExisting serde stepId ordinal kind now).run db := by
  refine ensures_exceptT_bind Db.Onward.refl
    (M := fun _ db => db.RunsOk ∧ db.CompletedWith d.runId stepId (outputPrefix ++ json)) ?_ ?_ ?_
  · refine Prog.ensures_read fun s hs => ⟨trivial, fun s' hs' => ?_⟩
    have hlater := Db.Onward.trans _ _ _ hs hs'
    exact ⟨hlater.ok hok, hlater.completed hok hdone⟩
  · intro e s _ s' _ dec hdec
    cases hdec
  · intro stored s hs
    cases stored with
    | none =>
      intro _ _ dec hdec
      cases hdec
    | some step =>
      dsimp only
      split
      · intro _ _ dec hdec
        cases hdec
      · exact enterDefinedStep_ensures serde d hs.1 hs.2 ordinal kind now

theorem prog_replays (c : DurableCall I T) :
    Prog.Ensures Db.Onward (fun _ _ => True)
      (fun a _ => c.enters? = some stepId → ∀ reply, a = .ok reply →
        ∃ v, serde.fromStr json = .ok v ∧ reply = .decision (.replay v))
      (d.prog serde c).run db := by
  by_cases hc : c.enters? = some stepId
  · have hreply : ∀ {p : StoreProg (StepDecision T)}, Prog.Ensures Db.Onward (fun _ _ => True)
        (fun a _ => ∀ dec, a = .ok dec → ∃ v, serde.fromStr json = .ok v ∧ dec = .replay v) p.run db →
        Prog.Ensures Db.Onward (fun _ _ => True) (fun a _ => c.enters? = some stepId → ∀ reply, a = .ok reply →
          ∃ v, serde.fromStr json = .ok v ∧ reply = .decision (.replay v))
          (do pure (Reply.decision (← p)) : StoreProg (Reply T)).run db := by
      intro p hp
      refine ensures_exceptT_bind Db.Onward.refl hp ?_ ?_
      · intro e s _ s' _ _ reply hr
        cases hr
      · intro dec s hdec s' _ _ reply hr
        obtain ⟨v, hv, rfl⟩ := hdec dec rfl
        cases hr
        exact ⟨v, hv, rfl⟩
    cases c with
    | begin x now => exact hreply (begin_ensures serde d hok hdone x (Option.some.inj hc) now)
    | resumeExisting stepId' ordinal kind now =>
      cases hc
      exact hreply (resumeExisting_ensures serde d hok hdone ordinal kind now)
    | _ => cases hc
  · exact (Prog.ensures_trivial _ db).mono fun _ _ _ h => absurd h hc

end Ensured

section Refused

variable {I T : Type} (serde : Serde I T) (d : DurableRun) {db : Db}

def DurableRun.StepInput.Conflicts (x : DurableRun.StepInput I) (s : RunStepRecord) : Prop :=
  ∀ inputHash, serde.inputHash x.input = .ok inputHash → (x.newStep inputHash).Conflicts s

/-- **A definition that differs is refused**, whatever others do meanwhile, and the call changes nothing. -/
theorem begin_refused (hok : db.RunsOk) {stepId : String} {s : RunStepRecord} (hs : db.step d.runId stepId = some s)
    {x : DurableRun.StepInput I} (hx : x.Conflicts serde s) (now : Int) :
    Prog.Ensures Db.Onward (fun s s' => s' = s) (fun a _ => ∃ e, a = .error e) (d.prog serde (.begin x now)).run db := by
  have hdefine : Prog.Ensures Db.Onward (fun s s' => s' = s) (fun a _ => ∃ e, a = .error e)
      (d.define serde x).run db := by
    unfold DurableRun.define
    cases hhash : serde.inputHash x.input with
    | error e => exact fun _ _ => ⟨_, rfl⟩
    | ok inputHash =>
      refine Prog.ensures_atomic fun db' hon => ?_
      obtain ⟨s', hs', hsame, -⟩ := hon.step hok d.runId stepId s hs
      obtain ⟨e, he⟩ := addStep_conflict (hon.ok hok) hs' ((hx inputHash hhash).same hsame)
      rw [he]
      exact ⟨rfl, fun _ _ => ⟨e, rfl⟩⟩
  have hfails : ∀ {α β : Type} {p : StoreProg α} {f : α → StoreProg β},
      Prog.Ensures Db.Onward (fun s s' => s' = s) (fun a _ => ∃ e, a = .error e) p.run db →
      Prog.Ensures Db.Onward (fun s s' => s' = s) (fun a _ => ∃ e, a = .error e) (p >>= f).run db := by
    intro α β p f hp
    refine ensures_exceptT_bind Db.Onward.refl hp (fun e s _ s' _ => ⟨e, rfl⟩) ?_
    rintro a s ⟨e, heq⟩
    cases heq
  exact hfails (hfails hdefine)

end Refused

def Db.Holds (db : Db) (runId stepId worker : String) (time : Int) : Prop :=
  ∃ s expiry, db.step runId stepId = some s ∧ s.state = .running worker expiry ∧ time < expiry

variable {runId stepId w w' : String}

theorem Db.Holds.unique {db : Db} {t t' : Int} (h : db.Holds runId stepId w t) (h' : db.Holds runId stepId w' t') :
    w = w' := by
  obtain ⟨s, e, hs, hst, -⟩ := h
  obtain ⟨s', e', hs', hst', -⟩ := h'
  cases hs.symm.trans hs'
  exact (StepState.running.inj (hst.symm.trans hst')).1

theorem RunMove.taken (h : RunMove db c db') (hok : db.RunsOk) {t t' : Int} (hw : db.Holds runId stepId w t)
    (hw' : db'.Holds runId stepId w' t') (hne : w' ≠ w) :
    ∃ now, c.claims? = some (w', now) ∧ ¬ db.Holds runId stepId w now := by
  obtain ⟨s, expiry, hs, hst, -⟩ := hw
  obtain ⟨s', expiry', hs', hst', -⟩ := hw'
  obtain ⟨s'', hs'', hafter⟩ := h.step_after hok hs
  cases hs'.symm.trans hs''
  cases hafter with
  | kept => exact absurd (StepState.running.inj (hst'.symm.trans hst)).1 hne
  | moved hmove =>
    cases hmove with
    | @claimed leaseOwner now _ hfree _ =>
      obtain rfl : leaseOwner = w' := (StepState.running.inj hst').1
      refine ⟨now, rfl, ?_⟩
      rintro ⟨r, e, hr, hre, hlive⟩
      cases hs.symm.trans hr
      rw [hre, StepState.claimable, decide_eq_true_eq] at hfree
      omega
    | completed | enqueued | failed | parked | resumed => cases hst'
  | closed _ _ output closedAt =>
    have hheld := (s.close_spec output closedAt).2.1
    rw [RunStepRecord.held, RunStepRecord.status, hst'] at hheld
    cases hheld

section Pools

variable {I T : Type} (serde : Serde I T) (workers : Nat → DurableRun)

inductive DurablePool.Claims (p : DurablePool I T) : DurableEvent I T → String → Int → Prop
  | worker {i : Nat} {c : DurableCall I T} {q : Prog Db (Except RunStoreError (Reply T))} {now : Int}
      (at_ : p.procs i = some (c, q)) (clock : c.clock? = some now) : p.Claims (.step i) (workers i).workerId now
  | other {l : RunCall} {w : String} {now : Int} (claims : l.claims? = some (w, now)) : p.Claims (.env l) w now

/-- **Steps are executed once and replayed alike**, after a run of a pool. -/
structure DurablePool.ExecutesOnce (es : List (DurableEvent I T)) (p : DurablePool I T) : Prop where
  holder : ∀ runId stepId w w' t, p.shared.Holds runId stepId w t → p.shared.Holds runId stepId w' t → w = w'
  taken : ∀ e p', DurablePool.Step serde workers p e p' → ∀ runId stepId w w' t t',
    p.shared.Holds runId stepId w t → p'.shared.Holds runId stepId w' t' → w' ≠ w →
    ∃ now, p.Claims workers e w' now ∧ ¬ p.shared.Holds runId stepId w now
  replayed : ∀ i stepId output completedAt r,
    .returns i (.complete stepId output completedAt) (.ok r) ∈ es →
    ∀ later p', Run (DurablePool.Step serde workers) p later p' →
    ∀ j, (workers j).runId = (workers i).runId → p.procs j = none → ∀ c reply, c.enters? = some stepId →
    .returns j c (.ok reply) ∈ later →
    (∃ json v, serde.toString output = .ok json ∧ serde.fromStr json = .ok v ∧ reply = .decision (.replay v)) ∧
      (serde.ReadsBack output → reply = .decision (.replay output))
  refused : ∀ runId stepId s, p.shared.step runId stepId = some s →
    ∀ later q, Run (DurablePool.Step serde workers) p later q →
    ∀ j x now q', (workers j).runId = runId → x.Conflicts serde s →
    DurablePool.Step serde workers q (.call j (.begin x now)) q' →
    ∀ rest p', Run (DurablePool.Step serde workers) q' rest p' → (∀ c, .call j c ∉ rest) →
    (∀ c a, .returns j c a ∈ rest → ∃ e, a = .error e) ∧
      Run (fun p e p' => DurablePool.Step serde workers p e p' ∧ (e = .step j → p'.shared = p.shared)) q' rest p'

variable {serde workers} {p p' : DurablePool I T} {es : List (DurableEvent I T)}

theorem pool_onward (hmoving : p.Moving (fun i c => Db.MovesBy (c.Allows (workers i))))
    (hrun : Run (DurablePool.Step serde workers) p es p') :
    p'.Moving (fun i c => Db.MovesBy (c.Allows (workers i))) ∧
      Run (fun p e p' => DurablePool.Step serde workers p e p' ∧ p.shared.Onward p'.shared) p es p' := by
  obtain ⟨hend, hrun⟩ := Pool.moves_run (fun i c => prog_moves serde (workers i) c) hmoving hrun
  refine ⟨hend, run_mono ?_ hrun⟩
  rintro s e s' ⟨hstep, hmove⟩
  refine ⟨hstep, ?_⟩
  cases hmove with
  | still hsame =>
    rw [hsame]
    exact .refl _
  | took _ hmove => exact hmove.onward
  | outside hmoved =>
    rw [hmoved]
    exact (exec_move _ _).onward

theorem run_onward (hrun : Run (fun p e p' => DurablePool.Step serde workers p e p' ∧ p.shared.Onward p'.shared)
    p es p') : p.shared.Onward p'.shared := by
  refine run_invariant (P := fun m => p.shared.Onward m.shared) hrun (.refl _) ?_
  rintro m e m' hm ⟨-, hon⟩
  exact .trans _ _ _ hm hon

theorem follows_onward {j : Nat} {guar : DurableCall I T → Db → Db → Prop}
    {post : DurableCall I T → Except RunStoreError (Reply T) → Db → Prop} {J : Db → Prop}
    (hJ : ∀ db db', J db → db.Onward db' → J db')
    (hcall : ∀ c db, Event.call j c ∈ es → J db →
      Prog.Ensures Db.Onward (guar c) (post c) ((workers j).prog serde c).run db)
    (hmoving : p.Moving (fun i c => Db.MovesBy (c.Allows (workers i)))) (hp : J p.shared)
    (h : p.Follows j Db.Onward guar post) (hrun : Run (DurablePool.Step serde workers) p es p') :
    Run (fun p e p' => DurablePool.Step serde workers p e p' ∧ p.Follows j Db.Onward guar post) p es p' :=
  Pool.follows_run Db.Onward.refl Db.Onward.trans hJ hcall (pool_onward hmoving hrun).2 hp h

/-- **Checkpointed steps are executed once and replayed identically**: every later call that enters a completed step
replays what the stored text of its output reads as. -/
theorem steps_executed_once {p₀ : DurablePool I T} (h₀ : p₀.shared.NoRuns)
    (hidle : ∀ i, p₀.procs i = none) (hrun : Run (DurablePool.Step serde workers) p₀ es p) :
    p.ExecutesOnce serde workers es := by
  have hmoving₀ : p₀.Moving (fun i c => Db.MovesBy (c.Allows (workers i))) := by
    intro i c q hq
    rw [hidle i] at hq
    cases hq
  obtain ⟨hmoving, hon⟩ := pool_onward hmoving₀ hrun
  have hok := (run_onward hon).ok h₀.ok
  constructor
  · intro runId stepId w w' t hw hw'
    exact hw.unique hw'
  · intro e p' hstep runId stepId w w' t t' hw hw' hne
    obtain ⟨-, hmove⟩ := hmoving.step (fun i c => prog_moves serde (workers i) c) hstep
    have hchanged : p'.shared ≠ p.shared := fun hsame => hne (((hsame ▸ hw').unique hw).symm ▸ rfl)
    cases hmove with
    | still hsame => exact absurd hsame hchanged
    | @took i c q _ hi hmove =>
      rcases hmove with hsame | ⟨l, hallows, hmove⟩
      · exact absurd hsame hchanged
      · obtain ⟨now, hclaims, hexpired⟩ := hmove.taken hok hw hw' hne
        obtain ⟨rfl, hclock⟩ := hallows w' now hclaims
        exact ⟨now, .worker hi hclock, hexpired⟩
    | @outside l _ hmoved =>
      rw [hmoved] at hw'
      obtain ⟨now, hclaims, hexpired⟩ := (exec_move p.shared l).taken hok hw hw' hne
      exact ⟨now, .other hclaims, hexpired⟩
  · intro i stepId output completedAt r hr later p' hlater j hsame hj c reply hc hreply
    -- the completion is in the tables from the moment it returned
    obtain ⟨pre, suf, m, m', -, hpre, ⟨hstep, hfollows⟩, hsuf⟩ := run_split (follows_onward (j := i)
      (fun _ _ h hon => hon.ok h) (fun c db _ hok => prog_completes serde (workers i) hok c) hmoving₀ h₀.ok
      (Pool.follows_of_idle (hidle i)) hrun) hr
    obtain ⟨hokm, json, hjson, hdone⟩ := hfollows.returns Db.Onward.refl hstep _ _ _ _ rfl rfl
    have hmovingm := (pool_onward hmoving₀ (run_mono (fun _ _ _ h => h.1) hpre)).1
    have honm := run_onward (pool_onward (hmovingm.step (fun i c => prog_moves serde (workers i) c) hstep).1
      (run_mono (fun _ _ _ h => h.1) hsuf)).2
    obtain ⟨-, rfl⟩ := hstep
    have hdone := honm.completed hokm hdone
    -- and every later call that enters the step finds it there
    obtain ⟨_, _, q, q', -, -, ⟨hstep, hfollows⟩, -⟩ := run_split (follows_onward (j := j)
      (J := fun db => db.RunsOk ∧ db.CompletedWith (workers j).runId stepId (outputPrefix ++ json))
      (fun _ _ h hon => ⟨hon.ok h.1, hon.completed h.1 h.2⟩)
      (fun c db _ h => prog_replays serde (workers j) h.1 h.2 c) hmoving ⟨hok, hsame ▸ hdone⟩
      (Pool.follows_of_idle hj) hlater) hreply
    obtain ⟨v, hv, rfl⟩ := hfollows.returns Db.Onward.refl hstep hc _ rfl
    exact ⟨⟨json, v, hjson, hv, rfl⟩, fun hback => by rw [hback json v hjson hv]⟩
  · intro runId stepId s hs later q hlater j x now q' hrunId hx hcall rest p' hrest hnone
    obtain ⟨hmovingq, honq⟩ := pool_onward hmoving hlater
    have honq := run_onward honq
    obtain ⟨s', hs', hsame, -⟩ := honq.step hok runId stepId s hs
    have hx' : x.Conflicts serde s' := fun inputHash hhash => (hx inputHash hhash).same hsame
    have hmovingq' := (hmovingq.step (fun i c => prog_moves serde (workers i) c) hcall).1
    obtain ⟨-, rfl⟩ := hcall
    have hfollows : Pool.Follows j Db.Onward (fun _ s s' => s' = s)
        (fun (_ : DurableCall I T) (a : Except RunStoreError (Reply T)) _ => ∃ e, a = .error e)
        ⟨q.shared, Function.update q.procs j (some (.begin x now, ((workers j).prog serde (.begin x now)).run))⟩ := by
      intro c program hc
      have hself := (Function.update_self j (some (.begin x now, ((workers j).prog serde (.begin x now)).run))
        q.procs).symm.trans hc
      cases hself
      exact begin_refused serde (workers j) (honq.ok hok) (hrunId ▸ hs') hx' now
    have hrun' := follows_onward (J := fun _ => True) (fun _ _ _ _ => trivial)
      (fun c _ hc => absurd hc (hnone c)) hmovingq' trivial hfollows hrest
    constructor
    · intro c a ha
      obtain ⟨_, _, m, m', -, -, ⟨hstep, hf⟩, -⟩ := run_split hrun' ha
      exact hf.returns Db.Onward.refl hstep
    · refine run_mono ?_ hrun'
      rintro m e m' ⟨hstep, hf⟩
      refine ⟨hstep, ?_⟩
      rintro rfl
      obtain ⟨c, program, -, heq⟩ := hf.guarantee Db.Onward.refl hstep
      exact heq

end Pools

/-- `serde_json` on outputs of type `Option<Option<bool>>`, both layers of which print as `null`. -/
def optionSerde : Serde String (Option (Option Bool)) where
  inputHash := .ok
  toString
    | some (some true) => .ok "true"
    | some (some false) => .ok "false"
    | _ => .ok "null"
  fromStr json :=
    if json = "true" then .ok (some (some true))
    else if json = "false" then .ok (some (some false))
    else if json = "null" then .ok none
    else .error "expected value at line 1 column 1"
  debug := fun _ => ""

def sampleWorker : DurableRun where
  runId := "r"
  workerId := "w"

def sampleStep : DurableRun.StepInput String where
  stepId := "s"
  ordinal := 0
  kind := .deterministicCompute
  input := "i"

abbrev SampleStep := DurablePool.Step optionSerde (fun _ => sampleWorker)

def sampleDurable (calls : List (DurableCall String (Option (Option Bool)))) : Db :=
  calls.foldl (fun db c => ((sampleWorker.prog optionSerde c).alone db).2)
    (sampleEvents.exec (.createRunWithId "r" { conversationId := "c", inputEventSeq := 1, startedAt := 0 }))

theorem run_sampleCall (db : Db) (c : DurableCall String (Option (Option Bool))) : ∃ n,
    Run SampleStep ⟨db, fun _ => none⟩
      (.call 0 c :: (List.replicate n (.step 0) ++ [.returns 0 c ((sampleWorker.prog optionSerde c).alone db).1]))
      ⟨((sampleWorker.prog optionSerde c).alone db).2, fun _ => none⟩ :=
  Pool.run_alone c rfl

/-- The worker alone creates the run, begins the step and completes it. -/
theorem run_completes (output : Option (Option Bool)) : ∃ es r, Run SampleStep ⟨sampleEvents, fun _ => none⟩ es
      ⟨sampleDurable [.begin sampleStep 1, .complete "s" output 2], fun _ => none⟩ ∧
    .returns 0 (.complete "s" output 2) (.ok r) ∈ es := by
  have hcreate : Run SampleStep ⟨sampleEvents, fun _ => none⟩
      [.env (.createRunWithId "r" { conversationId := "c", inputEventSeq := 1, startedAt := 0 })]
      ⟨sampleDurable [], fun _ => none⟩ := ⟨_, rfl, rfl⟩
  obtain ⟨n, hbegin⟩ := run_sampleCall (sampleDurable []) (.begin sampleStep 1)
  obtain ⟨m, hcomplete⟩ := run_sampleCall (sampleDurable [.begin sampleStep 1]) (.complete "s" output 2)
  have hok : ∃ r, ((sampleWorker.prog optionSerde (.complete "s" output 2)).alone
      (sampleDurable [.begin sampleStep 1])).1 = .ok r := by
    rcases output with _ | _ | _ | _ <;> exact ⟨_, rfl⟩
  obtain ⟨r, hr⟩ := hok
  refine ⟨_, r, run_append.2 ⟨_, run_append.2 ⟨_, hcreate, hbegin⟩, hcomplete⟩, ?_⟩
  rw [← hr]
  exact List.mem_append_right _ (List.mem_cons_of_mem _ (List.mem_append_right _ List.mem_cons_self))

theorem steps_executed_once_sample : ∃ es p r, Run SampleStep ⟨sampleEvents, fun _ => none⟩ es p ∧
    .returns 0 (.complete "s" (some (some true)) 2) (.ok r) ∈ es ∧
      p.ExecutesOnce optionSerde (fun _ => sampleWorker) es := by
  obtain ⟨es, r, hrun, hr⟩ := run_completes (some (some true))
  exact ⟨es, _, r, hrun, hr, steps_executed_once ⟨rfl, rfl⟩ (fun _ => rfl) hrun⟩

/-- **`Some(None)` is replayed as `None`**: both are stored as `null`. -/
theorem replays_other_output : ∃ es p r later p', Run SampleStep ⟨sampleEvents, fun _ => none⟩ es p ∧
    .returns 0 (.complete "s" (some none) 2) (.ok r) ∈ es ∧ Run SampleStep p later p' ∧
      .returns 0 (.begin sampleStep 3) (.ok (.decision (.replay none))) ∈ later := by
  obtain ⟨es, r, hrun, hr⟩ := run_completes (some none)
  obtain ⟨n, hbegin⟩ := run_sampleCall (sampleDurable [.begin sampleStep 1, .complete "s" (some none) 2])
    (.begin sampleStep 3)
  exact ⟨es, _, r, _, _, hrun, hr, hbegin,
    List.mem_cons_of_mem _ (List.mem_append_right _ (List.mem_singleton.2 rfl))⟩

end Execlaw
