import Execlaw.ToolChains
import Execlaw.Triples
/-!
# ToolChainOutline — what the calls of a chain run do, statement by statement

An `Outline` says what holds while a call is between its writes, while it executes a run, and before it records a step;
its fields are the statements that matter for it.  From them follow the triples of every program of chain runs, up to
the calls themselves.
-/
namespace Execlaw

open Table Interleave

namespace ToolChain

/-! ## Statements -/

theorem enqueueStep_ok {s s' : ChainState} {row : OutboxRow} {runId : String} {step : StoredStep} {now : Int} {a : Unit}
    (h : enqueueStep row runId step now s = .ok (a, s')) :
    ∃ db, s' = { s with db := db, log := s.log ++ [.enqueued runId step] } ∧
      outboxRow row.idempotencyKey s.db = none ∧ (∃ o, outboxRow row.idempotencyKey db = some o ∧ o.payload = row.payload) ∧
      ∀ key r, outboxRow key s.db = some r → outboxRow key db = some r := by
  unfold enqueueStep at h
  split at h
  · next henqueue =>
    cases h
    refine ⟨_, rfl, ?_⟩
    unfold enqueue transaction at henqueue
    by_cases hused : s.db.outbox.any (fun r => r.idempotencyKey == row.idempotencyKey)
    · simp [hused] at henqueue
    · simp only [hused, Bool.false_eq_true, if_false, Prod.mk.injEq] at henqueue
      obtain ⟨-, rfl⟩ := henqueue
      have hfree : outboxRow row.idempotencyKey s.db = none := by
        unfold outboxRow
        rw [List.find?_eq_none]
        simpa using hused
      refine ⟨hfree, ?_, fun key r hr => ?_⟩
      · unfold outboxRow at hfree
        simp [outboxRow, Db.insertEffect, List.find?_append, hfree]
      · unfold outboxRow at hr
        simp [outboxRow, Db.insertEffect, List.find?_append, hr]
  · cases h


/-- A statement that writes neither a status nor a step nor the outbox.  A run waits for an approval only if it is
`New`: its call created it. -/
inductive Calm (New : String → Prop) (s : ChainState) : ChainState → Prop
  | read : Calm New s s
  | planned {id conversationId : String} {plan : StoredPlan} {s' : ChainState}
      (h : insertPlan id conversationId plan s = .ok ((), s')) : Calm New s s'
  | created {runId planId conversationId : String} {status : ChainRunStatus} {now : Int} {a : String × Int}
      {s' : ChainState} (h : insertRun runId planId conversationId status now s = .ok (a, s')) : Calm New s s'
  | waits {runId approvalId effectHash a : String} {now : Int} {s' : ChainState} (hnew : New runId)
      (h : waitRun runId approvalId effectHash now s = .ok (a, s')) : Calm New s s'
  | reviewed {row : ChainCompensationRow} {s' : ChainState} (h : insertCompensation row s = .ok ((), s')) :
      Calm New s s'
  | marked (approvalRunId : String) (status : CompensationStatus) (now : Int) :
      Calm New s { s with compensations := s.compensations.updateAll (reviewChange status now approvalRunId) }

structure Frame (rely guar : ChainState → ChainState → Prop) (New : String → Prop) (A : ChainState → Prop) : Prop where
  refl : ∀ s, rely s s
  stable : Stable rely A
  calm : ∀ s s', A s → Calm New s s' → guar s s' ∧ A s'
  new : ∀ runId planId conversationId status now s a s', A s →
    insertRun runId planId conversationId status now s = .ok (a, s') → New runId

/-- **A program keeps an assertion**, whatever the others do. -/
def Keeps {α : Type} (rely guar : ChainState → ChainState → Prop) (A : ChainState → Prop) (p : ChainProg α) : Prop :=
  Triple rely guar A p (fun _ => A) (fun _ => A)

theorem triple_stmt {α : Type} {rely guar : ChainState → ChainState → Prop} {A E : ChainState → Prop}
    {B : α → ChainState → Prop} {f : ChainState → Except String (α × ChainState)} (hA : Stable rely A)
    (hB : ∀ a, Stable rely (B a)) (hE : Stable rely E) (hfail : ∀ s, A s → guar s s ∧ E s)
    (hok : ∀ s a s', A s → f s = .ok (a, s') → guar s s' ∧ B a s') : Triple rely guar A (stmt f) B (fun _ => E) := by
  refine Triple.atomic hA (fun s hs => ?_) hB (fun _ => hE) fun s hs => ?_
  all_goals rcases Calls.transact_cases f s with ⟨e, -, h⟩ | ⟨a, s', hf, h⟩
  · rw [h]
    exact (hfail s hs).1
  · rw [h]
    exact (hok s a s' hs hf).1
  · rw [h]
    exact (hfail s hs).2
  · rw [h]
    exact (hok s a s' hs hf).2

section Keeps

variable {α β : Type} {rely guar : ChainState → ChainState → Prop} {New : String → Prop} {A : ChainState → Prop}
  (hA : Frame rely guar New A)
include hA

theorem keeps_pure (a : α) : Keeps rely guar A (pure a) := Triple.pure hA.stable fun _ h => h

theorem keeps_throw (e : String) : Keeps rely guar A (throw e : ChainProg α) := Triple.throw hA.stable fun _ h => h

theorem keeps_lift (res : Except String α) : Keeps rely guar A (ExceptT.mk (pure res) : ChainProg α) :=
  Triple.lift hA.stable (fun _ _ _ h => h) (fun _ _ _ h => h)

variable {p : ChainProg α} {B : α → ChainState → Prop} {A' : ChainState → Prop}

theorem triple_bind {C : β → ChainState → Prop} {f : α → ChainProg β} (hp : Triple rely guar A' p B (fun _ => A))
    (hf : ∀ a, Triple rely guar (B a) (f a) C (fun _ => A)) : Triple rely guar A' (p >>= f) C (fun _ => A) :=
  Triple.bind hA.refl (fun _ => hA.stable) hp hf

theorem keeps_bind {f : α → ChainProg β} (hp : Keeps rely guar A p) (hf : ∀ a, Keeps rely guar A (f a)) :
    Keeps rely guar A (p >>= f) :=
  triple_bind hA hp hf

theorem triple_unless {c : Prop} [Decidable c] {e : String} {f : Unit → ChainProg α} (hA' : Stable rely A')
    (hweaken : ∀ s, A' s → A s) (hf : Triple rely guar A' (f ()) B (fun _ => A)) :
    Triple rely guar A' (if c then throw e >>= f else f ()) B (fun _ => A) := by
  by_cases h : c
  · rw [if_pos h]
    exact triple_bind hA (Triple.throw hA' hweaken) fun _ => hf
  · rw [if_neg h]
    exact hf

theorem keeps_unless {c : Prop} [Decidable c] {e : String} {f : Unit → ChainProg α} (hf : Keeps rely guar A (f ())) :
    Keeps rely guar A (if c then throw e >>= f else f ()) :=
  triple_unless hA hA.stable (fun _ h => h) hf

theorem keeps_query (f : ChainState → α) : Keeps rely guar A (query f) :=
  Triple.atomic hA.stable (fun s hs => (hA.calm s s hs .read).1) (fun _ => hA.stable) (fun _ => hA.stable) fun _ hs => hs

theorem keeps_stmt {f : ChainState → Except String (α × ChainState)}
    (hcalm : ∀ s a s', f s = .ok (a, s') → Calm New s s') : Keeps rely guar A (stmt f) :=
  triple_stmt hA.stable (fun _ => hA.stable) hA.stable (fun s hs => hA.calm s s hs .read) fun s a s' hs h =>
    hA.calm s s' hs (hcalm s a s' h)

omit hA in
theorem triple_context {E : ChainState → Prop} (hrefl : ∀ s, rely s s) (hB : ∀ a, Stable rely (B a))
    (hE : Stable rely E) (msg : String) (hp : Triple rely guar A' p B (fun _ => E)) :
    Triple rely guar A' (context msg p) B (fun _ => E) :=
  Triple.mapError hrefl hB (fun _ => hE) hp

theorem keeps_context (msg : String) (hp : Keeps rely guar A p) : Keeps rely guar A (context msg p) :=
  triple_context hA.refl (fun _ => hA.stable) hA.stable msg hp

theorem keeps_attempt (hp : Keeps rely guar A p) : Keeps rely guar A (attempt p) :=
  (Triple.caught hA.refl (fun _ => hA.stable) (fun _ => hA.stable) hp).weaken (fun _ h => h)
    (fun res _ h => by cases res <;> exact h) (fun _ _ h => h)

/-! ## Programs of calm statements -/

theorem keeps_checkFrom (preconditions : List ResourceVersionPrecondition) :
    ∀ seen, Keeps rely guar A (checkFrom seen preconditions) := by
  induction preconditions with
  | nil => exact fun _ => keeps_pure hA _
  | cons p rest ih =>
    intro seen
    rw [checkFrom]
    refine keeps_bind hA (keeps_lift hA _) fun _ => ?_
    exact keeps_unless hA (keeps_bind hA (keeps_query hA _) fun _ => keeps_bind hA (ih _) fun _ => keeps_pure hA _)

theorem keeps_check (preconditions : List ResourceVersionPrecondition) : Keeps rely guar A (check preconditions) := by
  unfold check
  split
  · exact keeps_throw hA _
  · exact keeps_checkFrom hA preconditions []

theorem keeps_captureFrom (keys : List String) : ∀ seen, Keeps rely guar A (captureFrom seen keys) := by
  induction keys with
  | nil => exact fun _ => keeps_pure hA _
  | cons key rest ih =>
    intro seen
    rw [captureFrom]
    refine keeps_bind hA (keeps_lift hA _) fun _ => ?_
    exact keeps_unless hA (keeps_bind hA (keeps_query hA _) fun _ => keeps_bind hA (ih _) fun _ => keeps_pure hA _)

theorem keeps_capture (keys : List String) : Keeps rely guar A (capture keys) := by
  unfold capture
  split
  · exact keeps_throw hA _
  · exact keeps_captureFrom hA keys []

theorem keeps_loadPlan (planId : String) : Keeps rely guar A (loadPlan planId) := by
  unfold loadPlan
  refine keeps_bind hA (keeps_query hA _) fun row => ?_
  cases row with
  | none => exact keeps_throw hA _
  | some row =>
    dsimp only
    split
    · exact keeps_throw hA _
    · exact keeps_pure hA _

theorem keeps_markReview (runId : String) (status : CompensationStatus) (now : Int) :
    Keeps rely guar A (markCompensationReviewStatus runId status now) := by
  refine keeps_stmt hA fun s a s' h => ?_
  cases h
  exact .marked runId status now

omit hA in
theorem insertRun_id {runId planId conversationId : String} {status : ChainRunStatus} {now : Int} {s s' : ChainState}
    {a : String × Int} (h : insertRun runId planId conversationId status now s = .ok (a, s')) : a.1 = runId := by
  unfold insertRun at h
  dsimp only at h
  split at h
  · cases h
  · split at h
    · cases h
    · cases h
      rfl

theorem triple_createRun (runId planId conversationId : String) (status : ChainRunStatus) (now : Int) :
    Triple rely guar A (createRun runId planId conversationId status now) (fun a s => A s ∧ a.1 = runId ∧ New runId)
      (fun _ => A) := by
  have hpost (a : String × Int) : Stable rely (fun s => A s ∧ a.1 = runId ∧ New runId) :=
    fun s s' hs hmove => ⟨hA.stable s s' hs.1 hmove, hs.2⟩
  refine triple_context hA.refl hpost hA.stable _ ?_
  refine triple_stmt hA.stable hpost hA.stable (fun s hs => hA.calm s s hs .read) fun s a s' hs h => ?_
  obtain ⟨hguar, hs'⟩ := hA.calm s s' hs (.created h)
  exact ⟨hguar, hs', insertRun_id h, hA.new _ _ _ _ _ s a s' hs h⟩

theorem keeps_wait {runId : String} (hnew : New runId) (approvalId effectHash : String) (now : Int) :
    Keeps rely guar A (markRunWaitingApproval runId approvalId effectHash now) :=
  keeps_context hA _ (keeps_stmt hA fun _ _ _ h => .waits hnew h)

theorem keeps_createReview (codec : ChainCodec) (ids : ReviewIds) (runId : String) (step : StoredStep) (key : String)
    (spec : CompensationSpec) (now : Int) :
    Keeps rely guar A (createCompensationReview codec ids runId step key spec now) := by
  unfold createCompensationReview
  refine keeps_bind hA (keeps_query hA _) fun review => ?_
  cases review with
  | some review => exact keeps_pure hA _
  | none =>
    refine keeps_bind hA (keeps_query hA _) fun original => ?_
    cases original with
    | none => exact keeps_throw hA _
    | some original =>
      refine keeps_bind hA (keeps_context hA _ (keeps_capture hA _)) fun preconditions => ?_
      refine keeps_bind hA (keeps_context hA _ (keeps_stmt hA fun _ _ _ h => .planned h)) fun _ => ?_
      refine triple_bind hA (triple_createRun hA _ _ _ _ _) fun created => Triple.of_fact fun hnew => ?_
      exact keeps_bind hA (keeps_wait hA hnew.2 _ _ _) fun _ => keeps_bind hA (keeps_context hA _ (keeps_stmt hA
        fun _ _ _ h => .reviewed h)) fun _ => keeps_pure hA _

theorem keeps_residualOf (codec : ChainCodec) (ids : ReviewIds) (runId : String) (plan : StoredPlan) (now : Int)
    (row : ChainStepRow) : Keeps rely guar A (residualOf codec ids runId plan now row) := by
  unfold residualOf
  split
  · exact keeps_pure hA _
  · refine keeps_bind hA (keeps_query hA _) fun outboxStatus => ?_
    split
    · exact keeps_pure hA _
    · split
      · exact keeps_pure hA _
      · split
        · exact keeps_pure hA _
        · exact keeps_bind hA (keeps_createReview hA codec _ _ _ _ _ _) fun _ => keeps_pure hA _

theorem keeps_report (codec : ChainCodec) (ids : Nat → ReviewIds) (runId : String) (plan : StoredPlan) (now : Int) :
    Keeps rely guar A (partialFailureReport codec ids runId plan now) := by
  have hrows (rows : List ChainStepRow) : Keeps rely guar A (residualsOf codec ids runId plan now rows) := by
    induction rows with
    | nil => exact keeps_pure hA _
    | cons row rest ih =>
      exact keeps_bind hA (keeps_residualOf hA codec _ _ _ _ _) fun _ => keeps_bind hA ih fun _ => keeps_pure hA _
  exact keeps_bind hA (keeps_query hA _) fun completed => hrows completed

theorem keeps_previewPlan (planId conversationId : String) : Keeps rely guar A (previewPlan planId conversationId) := by
  have hsteps (steps : List StoredStep) : Keeps rely guar A (previewSteps steps) := by
    induction steps with
    | nil => exact keeps_pure hA _
    | cons step rest ih =>
      exact keeps_bind hA (keeps_context hA _ (keeps_check hA _)) fun _ => keeps_bind hA ih fun _ => keeps_pure hA _
  unfold previewPlan
  refine keeps_bind hA (keeps_loadPlan hA planId) fun loaded => ?_
  refine keeps_unless hA ?_
  exact keeps_bind hA (hsteps _) fun _ => keeps_pure hA _

end Keeps

/-! ## Outlines -/

/-- **What the calls of one worker rely on, do, and hold.** -/
structure Outline (codec : ChainCodec) (worker : Nat) where
  rely : ChainState → ChainState → Prop
  guar : ChainState → ChainState → Prop
  /-- A run the call created. -/
  New : String → Prop
  /-- Between the writes. -/
  Rest : ChainState → Prop
  /-- While a run is executed. -/
  Exec : String → ChainState → Prop
  /-- Before a step is recorded under its key. -/
  Ready : String → StoredStep → String → ChainState → Prop
  /-- What is known of a row that was read, of a plan that was loaded, and of a run that is executed. -/
  Seen : ChainRunRow → Prop
  Loaded : String → StoredPlan → Prop
  Knows : String → String → Int → StoredPlan → Prop
  rest : Frame rely guar New Rest
  exec : ∀ runId, Frame rely guar New (Exec runId)
  ready : ∀ runId step key, Stable rely (Ready runId step key)
  exec_rest : ∀ runId s, Exec runId s → Rest s
  resolve : ∀ approvalId, Triple rely guar Rest (resolveRunForApproval approvalId)
    (fun found s => Rest s ∧ ∀ run, found = some run → Seen run) (fun _ => Rest)
  load : ∀ planId, Triple rely guar Rest (loadPlan planId) (fun res s => Rest s ∧ Loaded planId res.1) (fun _ => Rest)
  knows : ∀ run plan, Seen run → Loaded run.planId plan →
    run.approvalEffectHash = some (approvalEffectHash codec plan) → Knows run.id run.conversationId run.runSeq plan
  new : ∀ runId conversationId runSeq plan, New runId → Knows runId conversationId runSeq plan
  new_exec : ∀ runId s, New runId → Rest s → Exec runId s
  opens : ∀ runId status errorText now, status = .denied ∨ status = .failed →
    Keeps rely guar Rest (openTerminal worker runId status errorText now)
  begins : ∀ runId now, Triple rely guar Rest (markRunStatus worker runId .running now) (fun _ => Exec runId)
    (fun _ => Rest)
  closes : ∀ runId status errorText now, status = .completed ∨ status = .failed →
    Triple rely guar (Exec runId) (closeTerminal worker runId status errorText now) (fun _ => Rest) (fun _ => Rest)
  looks : ∀ runId step key, Triple rely guar (Exec runId) (outboxAlreadyHasKey runId step key)
    (fun found s => if found = true then Ready runId step key s else Exec runId s) (fun _ => Exec runId)
  enqueues : ∀ runId conversationId runSeq plan step row now, Knows runId conversationId runSeq plan →
    step ∈ plan.steps → step.effectKind.isSome = true → row.idempotencyKey = step.key conversationId runSeq →
    codec.encode (step.effect runId) = .ok row.payload →
    Triple rely guar (Exec runId) (stmt (enqueueStep row runId step now))
      (fun _ => Ready runId step row.idempotencyKey) (fun _ => Exec runId)
  records : ∀ runId step key now, Triple rely guar (Ready runId step key) (stmt (recordStep runId step (some key) now))
    (fun _ => Exec runId) (fun _ => Exec runId)
  notes : ∀ runId step now, step.effectKind = none → Keeps rely guar (Exec runId) (stmt (recordStep runId step none now))

/-! ## The programs of an outline -/

namespace Outline

variable {codec : ChainCodec} {worker : Nat} (o : Outline codec worker)

section Steps

variable {runId conversationId : String} {runSeq : Int} {plan : StoredPlan}
  (hknows : o.Knows runId conversationId runSeq plan)
include hknows

theorem executeStep (enqueuedSeq now : Int) {step : StoredStep} (hstep : step ∈ plan.steps) :
    Keeps o.rely o.guar (o.Exec runId) (executeStep codec runId runSeq conversationId enqueuedSeq now step) := by
  have hA := o.exec runId
  have hready (key : String) := o.ready runId step key
  have hrecord (key : String) : Triple o.rely o.guar (o.Ready runId step key) (writeStepRow runId step (some key) now)
      (fun _ => o.Exec runId) (fun _ => o.Exec runId) :=
    triple_context hA.refl (fun _ => hA.stable) hA.stable _ (o.records runId step key now)
  unfold ToolChain.executeStep
  refine keeps_bind hA (keeps_context hA _ (keeps_check hA _)) fun current => ?_
  refine keeps_unless hA ?_
  split
  · next effectKind heffect =>
    refine keeps_unless hA ?_
    refine triple_bind hA (o.looks runId step _) fun already => ?_
    cases already with
    | true => exact (hrecord _).weaken (fun _ h => by simpa using h) (fun _ _ h => h) (fun _ _ h => h)
    | false =>
      have hpost (payload : List UInt8) :
          Stable o.rely (fun s => o.Exec runId s ∧ codec.encode (step.effect runId) = .ok payload) :=
        fun s s' hs hmove => ⟨hA.stable s s' hs.1 hmove, hs.2⟩
      have hencode : Triple o.rely o.guar (o.Exec runId) (context "encode outbox payload failed"
          (ExceptT.mk (pure (codec.encode (step.effect runId)))))
          (fun payload s => o.Exec runId s ∧ codec.encode (step.effect runId) = .ok payload) (fun _ => o.Exec runId) :=
        triple_context hA.refl hpost hA.stable _ (Triple.lift hA.stable (fun _ _ h hs => ⟨hs, h⟩) (fun _ _ _ h => h))
      refine (triple_bind hA hencode fun payload => Triple.of_fact fun hpayload => ?_).weaken
        (fun _ h => by simpa using h) (fun _ _ h => h) (fun _ _ h => h)
      exact triple_bind hA (triple_context hA.refl (fun _ => hready _) hA.stable _
        (o.enqueues runId conversationId runSeq plan step _ now hknows hstep (by simp [heffect]) rfl hpayload))
        fun _ => hrecord _
  · next hnone => exact keeps_context hA _ (o.notes runId step now hnone)

theorem executeSteps (enqueuedSeq now : Int) (steps : List StoredStep) (hsteps : ∀ step ∈ steps, step ∈ plan.steps) :
    Keeps o.rely o.guar (o.Exec runId) (executeSteps codec runId runSeq conversationId enqueuedSeq now steps) := by
  have hA := o.exec runId
  induction steps with
  | nil => exact keeps_pure hA _
  | cons step rest ih =>
    exact keeps_bind hA (o.executeStep hknows enqueuedSeq now (hsteps step (by simp))) fun _ =>
      keeps_bind hA (ih fun other hother => hsteps other (by simp [hother])) fun _ => keeps_pure hA _

theorem executeRunSteps (now : Int) :
    Keeps o.rely o.guar (o.Exec runId) (executeRunSteps codec runId runSeq conversationId plan now) := by
  have hA := o.exec runId
  unfold ToolChain.executeRunSteps
  refine keeps_bind hA (keeps_query hA _) fun enqueuedSeq => ?_
  refine keeps_bind hA (o.executeSteps hknows enqueuedSeq now plan.steps fun _ h => h) fun counts => ?_
  split
  · exact keeps_bind hA (keeps_markReview hA _ _ _) fun _ => keeps_pure hA _
  · exact keeps_pure hA _

theorem finish (now : Int) {done : Nat × Nat → ChainResult} {failed : String → ChainProg ChainResult}
    (hfailed : ∀ e, Keeps o.rely o.guar o.Rest (failed e)) :
    Triple o.rely o.guar (o.Exec runId) (do
      match ← attempt (ToolChain.executeRunSteps codec runId runSeq conversationId plan now) with
      | .ok counts =>
        closeTerminal worker runId .completed none now
        pure (done counts)
      | .error e =>
        closeTerminal worker runId .failed (some e) now
        failed e) (fun _ => o.Rest) (fun _ => o.Rest) := by
  have hsteps := (keeps_attempt (o.exec runId) (o.executeRunSteps hknows now)).weaken (fun _ h => h) (fun _ _ h => h)
    (fun _ => o.exec_rest runId)
  refine triple_bind o.rest hsteps fun res => ?_
  cases res with
  | ok counts =>
    exact triple_bind o.rest (o.closes runId .completed none now (by simp)) fun _ => keeps_pure o.rest _
  | error e => exact triple_bind o.rest (o.closes runId .failed (some e) now (by simp)) fun _ => hfailed e

end Steps

/-! ### Resolving and executing -/

theorem refuseApproval (runId errorText e : String) (now : Int) :
    Keeps o.rely o.guar o.Rest (refuseApproval worker runId errorText e now) :=
  keeps_bind o.rest (o.opens runId .failed _ now (by simp)) fun _ =>
    keeps_bind o.rest (keeps_markReview o.rest _ _ _) fun _ => keeps_throw o.rest e

theorem denyRun (run : ChainRunRow) (now : Int) : Keeps o.rely o.guar o.Rest (denyRun worker run now) :=
  keeps_bind o.rest (o.opens run.id .denied _ now (by simp)) fun _ =>
    keeps_bind o.rest (keeps_markReview o.rest _ _ _) fun _ => keeps_pure o.rest _

theorem approveRun {run : ChainRunRow} (hseen : o.Seen run) (now : Int) (ids : Nat → ReviewIds) :
    Keeps o.rely o.guar o.Rest (approveRun codec worker run now ids) := by
  have hloaded (res : StoredPlan × Bool × String) : Stable o.rely (fun s => o.Rest s ∧ o.Loaded run.planId res.1) :=
    fun s s' hs hmove => ⟨o.rest.stable s s' hs.1 hmove, hs.2⟩
  unfold ToolChain.approveRun
  refine triple_bind o.rest (Triple.caught o.rest.refl hloaded (fun _ => o.rest.stable) (o.load run.planId))
    fun res => ?_
  cases res with
  | error e => exact o.refuseApproval run.id e e now
  | ok loaded =>
    obtain ⟨plan, hasExternalEffects, owner⟩ := loaded
    refine Triple.of_fact fun hplan => ?_
    dsimp only
    split
    · exact o.refuseApproval run.id _ _ now
    · next hhash =>
      have hknows := o.knows run plan hseen hplan (by simpa using hhash)
      refine triple_bind o.rest (o.begins run.id now) fun _ => ?_
      exact o.finish hknows now fun e => keeps_bind o.rest (keeps_markReview o.rest _ _ _) fun _ =>
        keeps_bind o.rest (keeps_report o.rest codec _ _ _ _) fun _ => keeps_pure o.rest _

theorem resolveChainApproval (approvalId : String) (decision : ChainApprovalDecision) (now : Int)
    (ids : Nat → ReviewIds) :
    Keeps o.rely o.guar o.Rest (resolveChainApproval codec worker approvalId decision now ids) := by
  unfold ToolChain.resolveChainApproval
  refine triple_bind o.rest (o.resolve approvalId) fun found => Triple.of_fact fun hseen => ?_
  cases found with
  | none => exact keeps_throw o.rest _
  | some run =>
    dsimp only
    split
    · exact keeps_pure o.rest _
    · cases decision with
      | deny => exact o.denyRun run now
      | approve => exact o.approveRun (hseen run rfl) now ids

theorem chainExecute (planId conversationId : String) (allowExternal : Bool) (runId approvalId : String) (now : Int)
    (ids : Nat → ReviewIds) : Keeps o.rely o.guar o.Rest
      (chainExecute codec worker planId conversationId allowExternal runId approvalId now ids) := by
  have hW := o.rest
  unfold ToolChain.chainExecute
  refine keeps_bind hW (keeps_loadPlan hW planId) fun loaded => ?_
  obtain ⟨plan, hasExternalEffects, owner⟩ := loaded
  refine keeps_unless hW ?_
  refine keeps_bind hW (keeps_previewPlan hW planId conversationId) fun ready => ?_
  refine keeps_unless hW ?_
  refine keeps_unless hW ?_
  refine triple_bind hW (triple_createRun hW _ _ _ _ _) fun created => Triple.of_fact fun hcreated => ?_
  obtain ⟨created, runSeq⟩ := created
  obtain ⟨hid, hnew⟩ := hcreated
  obtain rfl : created = runId := hid
  dsimp only
  split
  · exact keeps_bind hW (keeps_wait hW hnew _ _ _) fun _ => keeps_pure hW _
  · exact (o.finish (o.new created conversationId runSeq plan hnew) now fun e =>
      keeps_bind hW (keeps_report hW codec _ _ _ _) fun _ => keeps_pure hW _).weaken (o.new_exec created · hnew ·)
      (fun _ _ h => h) (fun _ _ h => h)

theorem ensures (c : ChainCall) {s : ChainState} (hs : o.Rest s) :
    (prog codec worker c).Ensures o.rely o.guar (fun _ _ => True) s := by
  cases c with
  | execute planId conversationId allowExternal runId approvalId now ids =>
    exact (o.chainExecute planId conversationId allowExternal runId approvalId now ids s hs).mono fun _ _ _ => trivial
  | resolve approvalId decision now ids =>
    exact (o.resolveChainApproval approvalId decision now ids s hs).mono fun _ _ _ => trivial

end Outline

end ToolChain

end Execlaw
