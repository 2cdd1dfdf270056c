import Execlaw.RelayRows
import Execlaw.NextAction
/-!
# Timeline — what the delivery history tells of a row

The outbox row and its delivery events are written in one transaction, by ten operations of three stores.  The last
event of a row gives its status and the counted events its attempts, as long as every row is stored pending, unattempted
and with its first event; the step that enqueues an effect of a run stores none.
-/
namespace Execlaw

open Steps

/-! ## The operations -/

inductive EffectCall
  | enqueue (row : OutboxRow) (now : Int)
  | enqueueIdempotent (row : OutboxRow) (now : Int)
  | enqueueIdempotentForAgent (row : OutboxRow) (scopeKey agentId : String) (generation : Nat) (now : Int)
  | enqueueOutboxAndCompleteStep (runId stepId leaseOwner : String) (row : OutboxRow) (outputRef : Option String)
      (completedAt : Int)
  | claimWithLease (id : Int) (owner : String) (nowTs leaseSecs : Int)
  | markDeliveredWithReceipt (id : Int) (receipt : Option String) (now : Int)
  | markUnknown (id : Int) (reason : String) (now : Int)
  | authorizeUnknownRetry (id : Int) (actor reason : String) (now : Int)
  | confirmUnknownDelivered (id : Int) (actor receipt : String) (now : Int)
  | recordFailure (id : Int) (error : String) (retryBudgetMax : Nat) (backoffSecs now : Int)
  | redriveDeadLetter (id : Int) (actor reason : String) (now : Int)
  | takeover (key conversationId : String) (now : Int)

def report {ε α : Type} : Except ε α × Db → Bool × Db
  | (.ok _, db) => (true, db)
  | (.error _, db) => (false, db)

def Db.call (db : Db) : EffectCall → Bool × Db
  | .enqueue row now => report (enqueue row now db)
  | .enqueueIdempotent row now => report (enqueueIdempotent row now db)
  | .enqueueIdempotentForAgent row scopeKey agentId generation now =>
    report (enqueueIdempotentForAgent row scopeKey agentId generation now db)
  | .enqueueOutboxAndCompleteStep runId stepId leaseOwner row outputRef completedAt =>
    report (enqueueOutboxAndCompleteStep runId stepId leaseOwner row outputRef completedAt db)
  | .claimWithLease id owner nowTs leaseSecs => report (claimWithLease id owner nowTs leaseSecs db)
  | .markDeliveredWithReceipt id receipt now => report (markDeliveredWithReceipt id receipt now db)
  | .markUnknown id reason now => report (markUnknown id reason now db)
  | .authorizeUnknownRetry id actor reason now => report (authorizeUnknownRetry id actor reason now db)
  | .confirmUnknownDelivered id actor receipt now => report (confirmUnknownDelivered id actor receipt now db)
  | .recordFailure id error retryBudgetMax backoffSecs now =>
    report (recordFailure id error retryBudgetMax backoffSecs now db)
  | .redriveDeadLetter id actor reason now => report (redriveDeadLetter id actor reason now db)
  | .takeover key conversationId now => report (takeover key conversationId now db)

def Db.EffectStep (db : Db) (c : Option EffectCall) (db' : Db) : Prop :=
  match c with
  | some c => (db.call c).2 = db'
  | none => db'.outbox = db.outbox ∧ db'.outboxSeq = db.outboxSeq ∧ db'.deliveryEvents = db.deliveryEvents

/-! ## The history of a row -/

def Db.timeline (db : Db) (i : Int) : List DeliveryEvent :=
  db.deliveryEvents.filter (fun e => decide (e.outboxId = i))

structure Told (history : List DeliveryEvent) (r : OutboxRec) : Prop where
  status : history.getLast?.map (fun e => e.transition.leaves) = some r.status
  attempts : r.attempts = history.countP (fun e => e.transition.counted)

/-- **Every row is told by its history.** -/
def Db.Timeline (db : Db) : Prop := ∀ i r, db.effect i = some r → Told (db.timeline i) r

/-- **A row that changed its status has exactly one event more.** -/
def Db.Logs (db db' : Db) : Prop :=
  ∀ i, (db'.effect i).map OutboxRec.status ≠ (db.effect i).map OutboxRec.status →
    ∃ e, db'.timeline i = db.timeline i ++ [e]

def Db.hasKey (db : Db) (row : OutboxRow) : Bool := db.outbox.any (fun r => r.idempotencyKey == row.idempotencyKey)

def Db.completes (db : Db) (runId stepId leaseOwner : String) (row : OutboxRow) : Bool :=
  (checkEnqueueStep runId stepId row db).toBool &&
    (db.step runId stepId).any (fun s => s.leasedTo leaseOwner || s.status == .completed)

def Db.stores (db : Db) : EffectCall → Option (OutboxRow × Bool)
  | .enqueue row _ | .enqueueIdempotent row _ => if db.hasKey row then none else some (row, true)
  | .enqueueIdempotentForAgent row scopeKey agentId generation _ =>
    if db.hasKey row || !(EffectOwner.current ⟨scopeKey, agentId, generation⟩ db) then none else some (row, true)
  | .enqueueOutboxAndCompleteStep runId stepId leaseOwner row _ _ =>
    if db.hasKey row || !db.completes runId stepId leaseOwner row then none else some (row, false)
  | _ => none

/-- **A row is stored pending, unattempted and with its event.** -/
def Db.tells (db : Db) : Option EffectCall → Bool
  | some c =>
    match db.stores c with
    | some (row, logged) => logged && decide (row.status = .pending ∧ row.attempts = 0)
    | none => true
  | none => true

/-! ## What a call does to the outbox -/

/-- The row an `INSERT` of `row` stores under the next id. -/
structure Db.Stores (db : Db) (row : OutboxRow) (logged : Bool) (r : OutboxRec) (db' : Db) : Prop where
  outbox : db'.outbox = db.outbox ++ [r]
  id : r.id = db.outboxSeq + 1
  seq : db'.outboxSeq = db.outboxSeq + 1
  status : r.status = row.status
  attempts : r.attempts = row.attempts
  silent : logged = false → db'.deliveryEvents = db.deliveryEvents
  logged : logged = true → ∃ e : DeliveryEvent, db'.deliveryEvents = db.deliveryEvents ++ [e] ∧ e.outboxId = r.id ∧
    e.transition = .enqueued

/-- **What a call does to the outbox and its history.** -/
inductive EffectMove (db : Db) : Option (OutboxRow × Bool) → Db → Prop
  | quiet {db' : Db} (outbox : db'.outbox = db.outbox) (seq : db'.outboxSeq = db.outboxSeq)
      (events : db'.deliveryEvents = db.deliveryEvents) : EffectMove db none db'
  | wrote {r r' : OutboxRec} {db' : Db} (writes : db.Writes r r' db') : EffectMove db none db'
  | withdrew {key : String} {generation : Nat} {now : Int} {db' : Db} (seq : db'.outboxSeq = db.outboxSeq)
      (ids : db'.outbox.map OutboxRec.id = db.outbox.map OutboxRec.id)
      (effect : ∀ j, db'.effect j = (db.effect j).map (fun r => if r.withdrawn key generation then r.withdraw else r))
      (events : db'.deliveryEvents = db.deliveryEvents ++ (db.outbox.filter (fun r => r.withdrawn key generation)).map
        (fun r =>
          { outboxId := r.id
            transition := if r.status = .pending then .cancelledByTakeover else .takeoverOutcomeUnknown
            occurredAt := now, attempt := r.attempts, detail := some "ownership_generation_changed" })) :
      EffectMove db none db'
  | stored {row : OutboxRow} {logged : Bool} {r : OutboxRec} {db' : Db} (stores : db.Stores row logged r db') :
      EffectMove db (some (row, logged)) db'

section Calls

variable {db : Db}

theorem snd_report {ε α : Type} (res : Except ε α × Db) : (report res).2 = res.2 := by
  obtain ⟨x, db⟩ := res
  cases x <;> rfl

theorem EffectMove.unchanged : EffectMove db none db := .quiet rfl rfl rfl

theorem enqueue_move (row : OutboxRow) (now : Int) :
    EffectMove db (if db.hasKey row then none else some (row, true)) (enqueue row now db).2 := by
  unfold enqueue transaction Db.hasKey
  by_cases hkey : db.outbox.any (fun r => r.idempotencyKey == row.idempotencyKey) = true
  · simp only [if_pos hkey]
    exact .unchanged
  · simp only [if_neg hkey]
    exact .stored ⟨rfl, rfl, rfl, rfl, rfl, by simp, fun _ => ⟨_, rfl, rfl, rfl⟩⟩

theorem find_eq_none_iff {row : OutboxRow} :
    db.outbox.find? (fun r => r.idempotencyKey == row.idempotencyKey) = none ↔ db.hasKey row = false := by
  unfold Db.hasKey
  rw [List.find?_eq_none, List.any_eq_false]

theorem enqueueIdempotentGuarded_move (row : OutboxRow) (owner : Option EffectOwner) (now : Int) :
    EffectMove db (if db.hasKey row || owner.any (fun o => !o.current db) then none else some (row, true))
      (enqueueIdempotentGuarded row owner now db).2 := by
  unfold enqueueIdempotentGuarded transaction
  by_cases hown : owner.any (fun o => !o.current db) = true
  · simp only [hown, Bool.or_true, if_true]
    exact .unchanged
  simp only [hown, Bool.or_false]
  cases hfind : db.outbox.find? (fun r => r.idempotencyKey == row.idempotencyKey) with
  | none =>
    rw [find_eq_none_iff.1 hfind]
    exact .stored ⟨rfl, rfl, rfl, rfl, rfl, by simp, fun _ => ⟨_, rfl, rfl, rfl⟩⟩
  | some r =>
    have hkey : db.hasKey row = true := by
      rw [← Bool.not_eq_false, ← find_eq_none_iff, hfind]
      simp
    simp only [hkey, if_true, Bool.false_eq_true, if_false]
    by_cases hsame : r.conversationId = row.conversationId ∧ r.effectKind = row.effectKind ∧ r.payload = row.payload
    · by_cases hstuck : r.status = .unknown ∨ r.status = .deadLetter ∨ r.status = .failed
      · simp only [if_pos hsame, if_pos hstuck]
        exact .unchanged
      · simp only [if_pos hsame, if_neg hstuck]
        exact .unchanged
    · simp only [if_neg hsame]
      exact .unchanged

/-! ### The step that enqueues an effect -/

/-- The row `INSERT OR IGNORE` stores for a step. -/
def Db.stepEffect (db : Db) (row : OutboxRow) : OutboxRec where
  id := db.outboxSeq + 1
  idempotencyKey := row.idempotencyKey
  conversationId := row.conversationId
  effectKind := row.effectKind
  payload := row.payload
  status := row.status
  attempts := row.attempts
  nextAttemptAt := row.nextAttemptAt
  lastError := row.lastError
  enqueuedSeq := row.enqueuedSeq

theorem insertOutbox_eq (row : OutboxRow) : db.insertOutbox row =
    if db.hasKey row then db else { db with outbox := db.outbox ++ [db.stepEffect row], outboxSeq := db.outboxSeq + 1 } :=
  rfl

theorem sameOutbox_insertOutbox {row : OutboxRow} (hkey : db.hasKey row = false) :
    (db.insertOutbox row).sameOutbox row = true := by
  rw [insertOutbox_eq, if_neg (by simp [hkey])]
  unfold Db.sameOutbox
  simp only [List.find?_append, find_eq_none_iff.2 hkey]
  simp [Db.stepEffect]

variable (db) in
theorem enqueueAndCompleteTx_eq (runId stepId leaseOwner : String) (row : OutboxRow) (outputRef : Option String)
    (completedAt : Int) :
    (∃ e, enqueueAndCompleteTx runId stepId leaseOwner row outputRef completedAt db = (.error e, db) ∧
      (db.hasKey row = true ∨
        (db.step runId stepId).any (fun s => s.leasedTo leaseOwner || s.status == .completed) = false)) ∨
    ∃ db', enqueueAndCompleteTx runId stepId leaseOwner row outputRef completedAt db = (.ok (), db') ∧
      (db.step runId stepId).any (fun s => s.leasedTo leaseOwner || s.status == .completed) = true ∧
      (db'.step runId stepId).isSome = true ∧ db'.outbox = (db.insertOutbox row).outbox ∧
      db'.outboxSeq = (db.insertOutbox row).outboxSeq ∧
      db'.deliveryEvents = (db.insertOutbox row).deliveryEvents := by
  unfold enqueueAndCompleteTx runTx transaction
  cases hsame : (db.insertOutbox row).sameOutbox row with
  | false =>
    left
    have hkey : db.hasKey row = true := by
      rw [← Bool.not_eq_false]
      intro hkey
      rw [sameOutbox_insertOutbox hkey] at hsame
      cases hsame
    simp only [hsame, Bool.not_false, if_true]
    exact ⟨_, rfl, .inl hkey⟩
  | true =>
    simp only [hsame, Bool.not_true, Bool.false_eq_true, if_false]
    have hstep : (db.insertOutbox row).step runId stepId = db.step runId stepId := by
      rw [insertOutbox_eq]
      split <;> rfl
    cases hs : db.step runId stepId with
    | none =>
      left
      rw [hs] at hstep
      simp only [moveStep, hstep]
      exact ⟨_, rfl, .inr rfl⟩
    | some s =>
      rw [hs] at hstep
      by_cases hleased : s.leasedTo leaseOwner = true
      · right
        simp only [moveStep, hstep, hleased, if_true]
        refine ⟨_, rfl, by simp [hleased], ?_, rfl, rfl, rfl⟩
        rw [step_updateStep (f := fun s => s.finish (.completed completedAt) outputRef) (fun _ => rfl), hstep]
        rfl
      · simp only [moveStep, hstep, if_neg hleased, Option.map_some, Option.some.injEq]
        by_cases hdone : s.status = .completed
        · right
          simp only [if_pos hdone]
          exact ⟨_, rfl, by simp [hdone], by rw [hstep]; rfl, rfl, rfl, rfl⟩
        · left
          simp only [if_neg hdone]
          exact ⟨_, rfl, .inr (by simp [hleased, hdone])⟩

variable (db) in
theorem stepEffect_eq (runId stepId leaseOwner : String) (row : OutboxRow) (outputRef : Option String)
    (completedAt : Int) :
    (∃ e, enqueueOutboxAndCompleteStep runId stepId leaseOwner row outputRef completedAt db = (.error e, db) ∧
      (db.hasKey row || !db.completes runId stepId leaseOwner row) = true) ∨
    ∃ s db', enqueueOutboxAndCompleteStep runId stepId leaseOwner row outputRef completedAt db = (.ok s, db') ∧
      db.completes runId stepId leaseOwner row = true ∧ db'.outbox = (db.insertOutbox row).outbox ∧
      db'.outboxSeq = (db.insertOutbox row).outboxSeq ∧
      db'.deliveryEvents = (db.insertOutbox row).deliveryEvents := by
  unfold enqueueOutboxAndCompleteStep Db.completes
  cases hcheck : checkEnqueueStep runId stepId row db with
  | error e => exact .inl ⟨e, rfl, by simp [Except.toBool]⟩
  | ok u =>
    rcases enqueueAndCompleteTx_eq db runId stepId leaseOwner row outputRef completedAt with
      ⟨e, htx, hno⟩ | ⟨db', htx, hyes, hstep, htables⟩
    · left
      simp only [htx]
      refine ⟨e, rfl, ?_⟩
      rcases hno with hkey | hno
      · rw [hkey, Bool.true_or]
      · rw [hno]
        simp
    · right
      obtain ⟨s, hs⟩ := Option.isSome_iff_exists.1 hstep
      simp only [htx, requiredStep, hs]
      exact ⟨s, db', rfl, by rw [hyes]; rfl, htables⟩

theorem stepEffect_move (runId stepId leaseOwner : String) (row : OutboxRow) (outputRef : Option String)
    (completedAt : Int) :
    EffectMove db (db.stores (.enqueueOutboxAndCompleteStep runId stepId leaseOwner row outputRef completedAt))
      (enqueueOutboxAndCompleteStep runId stepId leaseOwner row outputRef completedAt db).2 := by
  dsimp only [Db.stores]
  rcases stepEffect_eq db runId stepId leaseOwner row outputRef completedAt with
    ⟨e, hres, hno⟩ | ⟨s, db', hres, hyes, hout, hseq, hev⟩
  · rw [hres, if_pos hno]
    exact .unchanged
  · rw [hres, hyes]
    rw [insertOutbox_eq] at hout hseq hev
    by_cases hkey : db.hasKey row = true
    · rw [if_pos hkey] at hout hseq hev
      rw [if_pos (by simp [hkey])]
      exact .quiet hout hseq hev
    · rw [if_neg hkey] at hout hseq hev
      rw [if_neg (by simp [hkey])]
      exact .stored ⟨hout, rfl, hseq, rfl, rfl, fun _ => hev, by simp⟩

theorem takeover_move (key conversationId : String) (now : Int) :
    EffectMove db none (takeover key conversationId now db).2 := by
  cases hlog : db.takeoverLogged key with
  | true =>
    rw [takeover_refused conversationId now hlog]
    exact .unchanged
  | false =>
    have hev := takeover_events conversationId now hlog
    obtain ⟨db', hres, hhands, heff⟩ := takeover_ok conversationId now hlog
    rw [hres] at hev ⊢
    exact .withdrew hhands.seq hhands.ids heff hev

variable {res : Except DbError Unit × Db} {old new : OutboxStatus}

theorem DecidesEffect.move {id : Int} (h : DecidesEffect id db old new res) : EffectMove db none (report res).2 := by
  rw [snd_report]
  rcases h with ⟨e, rfl⟩ | ⟨r, r', db', rfl, -, hw, -⟩
  · exact .unchanged
  · exact .wrote hw

theorem DecidesEffect.failed {id : Int} (hres : DecidesEffect id db old new res) (h : (report res).1 = false) :
    (report res).2 = db := by
  rcases hres with ⟨e, rfl⟩ | ⟨r, r', db', rfl, -⟩
  · rfl
  · cases h

theorem call_move (c : EffectCall) : EffectMove db (db.stores c) (db.call c).2 := by
  cases c with
  | enqueue row now =>
    rw [Db.call, snd_report]
    exact enqueue_move row now
  | enqueueIdempotent row now =>
    rw [Db.call, snd_report]
    simpa [Db.stores, enqueueIdempotent] using enqueueIdempotentGuarded_move row none now
  | enqueueIdempotentForAgent row scopeKey agentId generation now =>
    rw [Db.call, snd_report]
    simpa [Db.stores, enqueueIdempotentForAgent] using enqueueIdempotentGuarded_move row (some ⟨scopeKey, agentId, generation⟩) now
  | enqueueOutboxAndCompleteStep runId stepId leaseOwner row outputRef completedAt =>
    rw [Db.call, snd_report]
    exact stepEffect_move runId stepId leaseOwner row outputRef completedAt
  | claimWithLease id owner nowTs leaseSecs =>
    rw [Db.call, snd_report]
    rcases claimWithLease_cases id owner nowTs leaseSecs db with hres | ⟨r, r', db', hres, -, hw, -⟩
    · rw [hres]
      exact .unchanged
    · rw [hres]
      exact .wrote hw
  | markDeliveredWithReceipt id receipt now =>
    rw [Db.call, snd_report]
    cases hr : db.effect id with
    | none =>
      simp only [markDeliveredWithReceipt, transaction, hr]
      exact .unchanged
    | some r =>
      obtain ⟨db', hres, hw⟩ := markDeliveredWithReceipt_eq hr receipt now
      rw [hres]
      exact .wrote hw
  | markUnknown id reason now =>
    rw [Db.call, snd_report]
    by_cases hst : (db.effect id).map OutboxRec.status = some .inFlight
    · obtain ⟨r, hr, hst⟩ := Option.map_eq_some_iff.1 hst
      obtain ⟨db', r', hres, hw, -⟩ := markUnknown_inFlight hr hst reason now
      rw [hres]
      exact .wrote hw
    · rw [markUnknown_settled hst reason now]
      exact .unchanged
  | authorizeUnknownRetry id actor reason now => exact (authorizeUnknownRetry_cases id actor reason now db).move
  | confirmUnknownDelivered id actor receipt now => exact (confirmUnknownDelivered_cases id actor receipt now db).move
  | recordFailure id error retryBudgetMax backoffSecs now =>
    rw [Db.call, snd_report]
    cases hr : db.effect id with
    | none =>
      simp only [recordFailure, transaction, hr]
      exact .unchanged
    | some r =>
      obtain ⟨db', hres, hw⟩ := recordFailure_eq hr error retryBudgetMax backoffSecs now
      rw [hres]
      exact .wrote hw
  | redriveDeadLetter id actor reason now => exact (redriveDeadLetter_cases id actor reason now db).move
  | takeover key conversationId now =>
    rw [Db.call, snd_report]
    exact takeover_move key conversationId now

theorem report_transaction {α : Type} (f : Db → Except DbError (α × Db)) (h : (report (transaction f db)).1 = false) :
    (transaction f db).2 = db := by
  rcases transaction_cases f db with ⟨e, hres⟩ | ⟨a, db', -, hres⟩
  · rw [hres]
  · rw [hres] at h
    cases h

theorem call_failed {c : EffectCall} (h : (db.call c).1 = false) : (db.call c).2 = db := by
  cases c with
  | enqueue | enqueueIdempotent | enqueueIdempotentForAgent | claimWithLease | markDeliveredWithReceipt | markUnknown
  | recordFailure =>
    rw [Db.call, snd_report]
    exact report_transaction _ h
  | enqueueOutboxAndCompleteStep runId stepId leaseOwner row outputRef completedAt =>
    rcases stepEffect_eq db runId stepId leaseOwner row outputRef completedAt with
      ⟨e, hres, -⟩ | ⟨s, db', hres, -⟩
    · rw [Db.call, hres]
      rfl
    · rw [Db.call, hres] at h
      cases h
  | authorizeUnknownRetry id actor reason now => exact (authorizeUnknownRetry_cases id actor reason now db).failed h
  | confirmUnknownDelivered id actor receipt now => exact (confirmUnknownDelivered_cases id actor receipt now db).failed h
  | redriveDeadLetter id actor reason now => exact (redriveDeadLetter_cases id actor reason now db).failed h
  | takeover key conversationId now =>
    cases hlog : db.takeoverLogged key with
    | true =>
      rw [Db.call, takeover_refused conversationId now hlog]
      rfl
    | false =>
      obtain ⟨db', hres, -⟩ := takeover_ok conversationId now hlog
      rw [Db.call, hres] at h
      cases h

end Calls

/-! ## The events of a call -/

def EffectCall.logs (c : EffectCall) (e : DeliveryEvent) : Bool :=
  match c with
  | .enqueue _ _ | .enqueueIdempotent _ _ | .enqueueIdempotentForAgent _ _ _ _ _ => e.transition == .enqueued
  | .enqueueOutboxAndCompleteStep _ _ _ _ _ _ => false
  | .claimWithLease id _ _ _ =>
    e.outboxId == id && (e.transition == .sendRequested || e.transition == .leaseReclaimed)
  | .markDeliveredWithReceipt id _ _ => e.outboxId == id && e.transition == .delivered
  | .markUnknown id _ _ => e.outboxId == id && e.transition == .outcomeUnknown
  | .authorizeUnknownRetry id _ _ _ => e.outboxId == id && e.transition == .retryAuthorized
  | .confirmUnknownDelivered id _ _ _ => e.outboxId == id && e.transition == .operatorConfirmedDelivered
  | .recordFailure id _ _ _ _ => e.outboxId == id && (e.transition == .retryScheduled || e.transition == .deadLetter)
  | .redriveDeadLetter id _ _ _ => e.outboxId == id && e.transition == .operatorRedrive
  | .takeover _ _ _ => e.transition == .cancelledByTakeover || e.transition == .takeoverOutcomeUnknown

section Events

variable {db : Db}

def Db.LogsOnly (db : Db) (logs : DeliveryEvent → Bool) (db' : Db) : Prop :=
  ∃ new, db'.deliveryEvents = db.deliveryEvents ++ new ∧ ∀ e ∈ new, logs e = true

theorem Db.LogsOnly.none {db' : Db} (logs : DeliveryEvent → Bool) (h : db'.deliveryEvents = db.deliveryEvents) :
    db.LogsOnly logs db' := ⟨[], by rw [h, List.append_nil], by simp⟩

variable {logs : DeliveryEvent → Bool}

theorem Db.LogsOnly.one {db' : Db} {e : DeliveryEvent} (h : db'.deliveryEvents = db.deliveryEvents ++ [e])
    (he : logs e = true) : db.LogsOnly logs db' :=
  ⟨[e], h, by simpa using he⟩

theorem enqueueIdempotentGuarded_events (row : OutboxRow) (owner : Option EffectOwner) (now : Int) :
    db.LogsOnly (fun e => e.transition == .enqueued) (enqueueIdempotentGuarded row owner now db).2 := by
  refine transaction_snd (P := fun db' => db.LogsOnly (fun e => e.transition == .enqueued) db') (.none _ rfl) ?_
  intro a db' h
  split at h
  · cases h
  split at h
  · repeat split at h
    all_goals cases h
    exact .none _ rfl
  · cases h
    exact .one rfl rfl

theorem decision_events {id : Int} {body : OutboxRec → Except DbError (Unit × Db)}
    (h : ∀ r db', body r = .ok ((), db') → db.LogsOnly logs db') :
    db.LogsOnly logs (transaction (fun db => match db.effect id with
      | none => .error noRows
      | some r => body r) db).2 := by
  refine transaction_snd (P := fun db' => db.LogsOnly logs db') (.none _ rfl) ?_
  rintro ⟨⟩ db' hf
  cases hr : db.effect id with
  | none =>
    rw [hr] at hf
    cases hf
  | some r =>
    rw [hr] at hf
    exact h r db' hf

theorem call_events (c : EffectCall) : db.LogsOnly c.logs (db.call c).2 := by
  cases c with
  | enqueue row now =>
    rw [Db.call, snd_report]
    unfold enqueue transaction
    by_cases hkey : db.outbox.any (fun r => r.idempotencyKey == row.idempotencyKey) = true
    · simp only [if_pos hkey]
      exact .none _ rfl
    · simp only [if_neg hkey]
      exact .one rfl (by simp [EffectCall.logs])
  | enqueueIdempotent row now =>
    rw [Db.call, snd_report]
    exact enqueueIdempotentGuarded_events row none now
  | enqueueIdempotentForAgent row scopeKey agentId generation now =>
    rw [Db.call, snd_report]
    exact enqueueIdempotentGuarded_events row (some ⟨scopeKey, agentId, generation⟩) now
  | enqueueOutboxAndCompleteStep runId stepId leaseOwner row outputRef completedAt =>
    rw [Db.call, snd_report]
    rcases stepEffect_eq db runId stepId leaseOwner row outputRef completedAt with
      ⟨e, hres, -⟩ | ⟨s, db', hres, -, -, -, hev⟩
    · rw [hres]
      exact .none _ rfl
    · rw [hres]
      refine .none _ (hev.trans ?_)
      rw [insertOutbox_eq]
      split <;> rfl
  | claimWithLease id owner nowTs leaseSecs =>
    rw [Db.call, snd_report]
    unfold claimWithLease transaction
    cases hr : db.effect id with
    | none =>
      simp only [hr]
      exact .none _ rfl
    | some r =>
      by_cases hc : r.claimable nowTs
      · simp only [hr, if_pos hc]
        refine .one rfl ?_
        simp only [EffectCall.logs]
        split <;> simp
      · simp only [hr, if_neg hc]
        exact .none _ rfl
  | markDeliveredWithReceipt id receipt now =>
    rw [Db.call, snd_report]
    unfold markDeliveredWithReceipt transaction
    cases hr : db.effect id with
    | none =>
      simp only [hr]
      exact .none _ rfl
    | some r =>
      simp only [hr]
      exact .one rfl (by simp [EffectCall.logs])
  | markUnknown id reason now =>
    rw [Db.call, snd_report]
    unfold markUnknown transaction
    cases hr : db.effect id with
    | none =>
      simp only [hr]
      exact .none _ rfl
    | some r =>
      by_cases hst : r.status = .inFlight
      · simp only [hr, if_pos hst]
        exact .one rfl (by simp [EffectCall.logs])
      · simp only [hr, if_neg hst]
        exact .none _ rfl
  | recordFailure id error retryBudgetMax backoffSecs now =>
    rw [Db.call, snd_report]
    unfold recordFailure transaction
    cases hr : db.effect id with
    | none =>
      simp only [hr]
      exact .none _ rfl
    | some r =>
      simp only [hr]
      refine .one rfl ?_
      simp only [EffectCall.logs]
      split <;> simp
  | authorizeUnknownRetry id actor reason now =>
    rw [Db.call, snd_report]
    unfold authorizeUnknownRetry
    split
    · exact .none _ rfl
    dsimp only
    split
    · exact .none _ rfl
    exact decision_events fun r db' h => by
      split at h
      · cases h
        exact .one rfl (by simp [EffectCall.logs])
      · cases h
  | confirmUnknownDelivered id actor receipt now =>
    rw [Db.call, snd_report]
    unfold confirmUnknownDelivered
    split
    · exact .none _ rfl
    dsimp only
    split
    · exact .none _ rfl
    exact decision_events fun r db' h => by
      split at h
      · cases h
        exact .one rfl (by simp [EffectCall.logs])
      · cases h
  | redriveDeadLetter id actor reason now =>
    rw [Db.call, snd_report]
    unfold redriveDeadLetter
    split
    · exact .none _ rfl
    refine transaction_snd
      (P := fun db' => db.LogsOnly (fun e => e.outboxId == id && e.transition == .operatorRedrive) db') (.none _ rfl) ?_
    rintro ⟨⟩ db' hf
    split at hf
    · cases hf
    split at hf
    · split at hf
      · cases hf
      · cases hf
        exact .one rfl (by simp)
    · cases hf
  | takeover key conversationId now =>
    rw [Db.call, snd_report]
    cases hlog : db.takeoverLogged key with
    | true =>
      rw [takeover_refused conversationId now hlog]
      exact .none _ rfl
    | false =>
      refine ⟨_, takeover_events conversationId now hlog, ?_⟩
      intro e he
      obtain ⟨r, -, rfl⟩ := List.mem_map.1 he
      simp only [EffectCall.logs]
      split <;> rfl

end Events

/-! ## What a call does to one row and its history -/

section Rows

variable {db db' : Db} {i : Int}

theorem timeline_append {new : List DeliveryEvent} (h : db'.deliveryEvents = db.deliveryEvents ++ new) (i : Int) :
    db'.timeline i = db.timeline i ++ new.filter (fun e => decide (e.outboxId = i)) := by
  unfold Db.timeline
  rw [h, List.filter_append]

theorem filter_withdrawals (hnd : (db.outbox.map OutboxRec.id).Nodup) (withdrawn : OutboxRec → Bool)
    (event : OutboxRec → DeliveryEvent) (hid : ∀ r, (event r).outboxId = r.id) (i : Int) :
    ((db.outbox.filter withdrawn).map event).filter (fun e => decide (e.outboxId = i)) =
      ((db.effect i).toList.filter withdrawn).map event := by
  rw [List.filter_map, List.filter_filter]
  have hrow : db.outbox.filter (fun r => decide (r.id = i)) = (db.effect i).toList := Table.filter_key_eq hnd i
  rw [← hrow, List.filter_filter]
  refine congrArg (List.map event) (List.filter_congr fun r _ => ?_)
  simp only [Function.comp, hid, Bool.and_comm]

theorem tells_withdraw {r : OutboxRec} {now : Int} (hst : r.status = .pending ∨ r.status = .inFlight) :
    DeliveryEvent.Tells
      { outboxId := r.id
        transition := if r.status = .pending then .cancelledByTakeover else .takeoverOutcomeUnknown
        occurredAt := now, attempt := r.attempts, detail := some "ownership_generation_changed" } r r.withdraw := by
  unfold OutboxRec.withdraw
  rcases hst with hst | hst <;>
    exact ⟨rfl, by simp [hst, Transition.follows], by simp [hst, Transition.leaves],
      by simp [hst, Transition.counted]⟩

theorem EffectMove.row (h : EffectMove db none db') (hnd : (db.outbox.map OutboxRec.id).Nodup) (i : Int) :
    (db'.effect i = db.effect i ∧ db'.timeline i = db.timeline i) ∨
    ∃ r r' e, db.effect i = some r ∧ db'.effect i = some r' ∧ db'.timeline i = db.timeline i ++ [e] ∧ e.Tells r r' := by
  cases h with
  | quiet hout hseq hev =>
    left
    unfold Db.effect Db.timeline
    rw [hout, hev]
    exact ⟨rfl, rfl⟩
  | @wrote r r' _ hw =>
    obtain ⟨e, hev, he⟩ := hw.logged
    have hline := timeline_append hev i
    by_cases hi : i = r.id
    · subst hi
      rw [List.filter_cons_of_pos (by simp [he.id])] at hline
      exact .inr ⟨r, r', e, hw.found, hw.written, hline, he⟩
    · have hne : ¬ e.outboxId = i := by
        rw [he.id]
        exact fun heq => hi heq.symm
      rw [List.filter_cons_of_neg (by simp [hne])] at hline
      exact .inl ⟨hw.others i hi, by simpa using hline⟩
  | @withdrew key generation now _ hseq hids heff hev =>
    have hline := timeline_append hev i
    rw [filter_withdrawals hnd _ _ (fun _ => rfl)] at hline
    rw [heff]
    cases hr : db.effect i with
    | none =>
      rw [hr] at hline
      exact .inl ⟨rfl, by simpa using hline⟩
    | some r =>
      rw [hr] at hline
      by_cases hwd : r.withdrawn key generation = true
      · obtain ⟨-, -, hst⟩ := withdrawn_iff.1 hwd
        exact .inr ⟨r, r.withdraw, _, rfl, by rw [Option.map_some, if_pos hwd], by simpa [hwd] using hline,
          tells_withdraw hst⟩
      · exact .inl ⟨by rw [Option.map_some, if_neg hwd], by simpa [hwd] using hline⟩

theorem Told.snoc {history : List DeliveryEvent} {r r' : OutboxRec} {e : DeliveryEvent} (h : Told history r)
    (he : e.Tells r r') : Told (history ++ [e]) r' where
  status := by
    rw [List.getLast?_concat, Option.map_some, he.status]
  attempts := by
    rw [he.attempts, h.attempts, List.countP_append, List.countP_singleton]
    split <;> simp

/-- **What every run keeps**: ids are unique and none is past the sequence, every row is told, and an id without a row
has no history. -/
structure Db.Ledger (db : Db) : Prop where
  nodup : (db.outbox.map OutboxRec.id).Nodup
  le_seq : ∀ id ∈ db.outbox.map OutboxRec.id, id ≤ db.outboxSeq
  told : db.Timeline
  unborn : ∀ i, db.effect i = none → db.timeline i = []

theorem EffectMove.ids (h : EffectMove db none db') :
    db'.outbox.map OutboxRec.id = db.outbox.map OutboxRec.id ∧ db'.outboxSeq = db.outboxSeq := by
  cases h with
  | quiet hout hseq _ => exact ⟨by rw [hout], hseq⟩
  | wrote hw => exact ⟨hw.ids, hw.seq⟩
  | withdrew hseq hids _ _ => exact ⟨hids, hseq⟩

theorem EffectMove.ledger (h : EffectMove db none db') (hl : db.Ledger) : db'.Ledger ∧ db.Logs db' := by
  obtain ⟨hids, hseq⟩ := h.ids
  have hrow := h.row hl.nodup
  refine ⟨⟨by rw [hids]; exact hl.nodup, by rw [hids, hseq]; exact hl.le_seq, ?_, ?_⟩, ?_⟩
  · intro i r hr
    rcases hrow i with ⟨heff, hline⟩ | ⟨r₀, r', e, hr₀, hr', hline, he⟩
    · rw [hline]
      exact hl.told i r (heff ▸ hr)
    · rw [hr', Option.some.injEq] at hr
      subst hr
      rw [hline]
      exact (hl.told i r₀ hr₀).snoc he
  · intro i hnone
    rcases hrow i with ⟨heff, hline⟩ | ⟨r₀, r', e, hr₀, hr', -⟩
    · rw [hline]
      exact hl.unborn i (heff ▸ hnone)
    · rw [hr'] at hnone
      cases hnone
  · intro i hne
    rcases hrow i with ⟨heff, -⟩ | ⟨r₀, r', e, -, -, hline, -⟩
    · exact absurd (by rw [heff]) hne
    · exact ⟨e, hline⟩

/-! ## Storing a row -/

variable {row : OutboxRow} {logged : Bool} {r : OutboxRec}

theorem Db.Stores.effect (h : db.Stores row logged r db') (hl : db.Ledger) (j : Int) :
    db'.effect j = if j = r.id then some r else db.effect j := effect_append h.outbox h.id hl.le_seq j

theorem Db.Stores.fresh (h : db.Stores row logged r db') (hl : db.Ledger) : db.timeline r.id = [] := by
  refine hl.unborn r.id (Table.byKey_eq_none.2 ?_)
  intro hmem
  have := hl.le_seq _ hmem
  have := h.id
  omega

theorem Db.Stores.ledger (h : db.Stores row true r db') (hl : db.Ledger) (hst : row.status = .pending)
    (hat : row.attempts = 0) : db'.Ledger ∧ db.Logs db' := by
  obtain ⟨e, hev, hid, htr⟩ := h.logged rfl
  have hown : db'.timeline r.id = [e] := by
    rw [timeline_append hev, h.fresh hl]
    simp [hid]
  have hother : ∀ j, j ≠ r.id → db'.timeline j = db.timeline j := by
    intro j hj
    rw [timeline_append hev]
    simp [hid, Ne.symm hj]
  obtain ⟨hnd, hle⟩ := nodup_append h.outbox h.id h.seq hl.le_seq hl.nodup
  refine ⟨⟨hnd, hle, ?_, ?_⟩, ?_⟩
  · intro j q hq
    rw [h.effect hl] at hq
    by_cases hj : j = r.id
    · rw [if_pos hj, Option.some.injEq] at hq
      subst hq hj
      rw [hown]
      exact ⟨by simp [htr, h.status, hst, Transition.leaves], by simp [htr, h.attempts, hat, Transition.counted]⟩
    · rw [if_neg hj] at hq
      rw [hother j hj]
      exact hl.told j q hq
  · intro j hnone
    rw [h.effect hl] at hnone
    by_cases hj : j = r.id
    · rw [if_pos hj] at hnone
      cases hnone
    · rw [if_neg hj] at hnone
      rw [hother j hj]
      exact hl.unborn j hnone
  · intro j hne
    by_cases hj : j = r.id
    · subst hj
      exact ⟨e, by rw [hown, h.fresh hl, List.nil_append]⟩
    · rw [h.effect hl, if_neg hj] at hne
      exact absurd rfl hne

theorem Db.Stores.untold (h : db.Stores row logged r db') (hl : db.Ledger)
    (hno : ¬ (logged = true ∧ row.status = .pending ∧ row.attempts = 0)) : ¬ db'.Timeline := by
  intro htold
  have hrow := htold r.id r (by rw [h.effect hl, if_pos rfl])
  cases logged with
  | false =>
    have hline : db'.timeline r.id = [] := by
      unfold Db.timeline
      rw [h.silent rfl]
      exact h.fresh hl
    have hst := hrow.status
    rw [hline] at hst
    cases hst
  | true =>
    obtain ⟨e, hev, hid, htr⟩ := h.logged rfl
    have hline : db'.timeline r.id = [e] := by
      rw [timeline_append hev, h.fresh hl]
      simp [hid]
    have hst := hrow.status
    have hat := hrow.attempts
    rw [hline] at hst hat
    simp only [List.getLast?_singleton, Option.map_some, htr, Transition.leaves, Option.some.injEq] at hst
    simp only [List.countP_singleton, htr, Transition.counted, Bool.false_eq_true, if_false] at hat
    exact hno ⟨rfl, by rw [← h.status, ← hst], by rw [← h.attempts, hat]; rfl⟩

variable {c : Option EffectCall}

theorem effectStep_move (h : db.EffectStep c db') :
    (∃ call row logged r, c = some call ∧ db.stores call = some (row, logged) ∧ db.Stores row logged r db') ∨
      (EffectMove db none db' ∧ db.tells c = true) := by
  cases c with
  | none =>
    obtain ⟨hout, hseq, hev⟩ := h
    exact .inr ⟨.quiet hout hseq hev, rfl⟩
  | some call =>
    obtain rfl : (db.call call).2 = db' := h
    have hmove : EffectMove db (db.stores call) (db.call call).2 := call_move call
    cases hst : db.stores call with
    | none =>
      rw [hst] at hmove
      exact .inr ⟨hmove, by simp [Db.tells, hst]⟩
    | some p =>
      obtain ⟨row, logged⟩ := p
      rw [hst] at hmove
      cases hmove with
      | stored hstores => exact .inl ⟨call, row, logged, _, rfl, hst, hstores⟩

theorem effectStep_ledger (hl : db.Ledger) (h : db.EffectStep c db') (htells : db.tells c = true) :
    db'.Ledger ∧ db.Logs db' := by
  rcases effectStep_move h with ⟨call, row, logged, r, rfl, hst, hstores⟩ | ⟨hmove, -⟩
  · simp only [Db.tells, hst, Bool.and_eq_true, decide_eq_true_eq] at htells
    obtain ⟨rfl, hpending, hzero⟩ := htells
    exact hstores.ledger hl hpending hzero
  · exact hmove.ledger hl

theorem effectStep_iff (hl : db.Ledger) (h : db.EffectStep c db') : db.tells c = true ↔ db'.Timeline ∧ db.Logs db' := by
  constructor
  · intro htells
    obtain ⟨hl', hlogs⟩ := effectStep_ledger hl h htells
    exact ⟨hl'.told, hlogs⟩
  · rintro ⟨htold, -⟩
    rcases effectStep_move h with ⟨call, row, logged, r, rfl, hst, hstores⟩ | ⟨-, htells⟩
    · by_contra hno
      refine hstores.untold hl ?_ htold
      simpa [Db.tells, hst] using hno
    · exact htells

end Rows

structure Db.NoEffects (db : Db) : Prop where
  outbox : db.outbox = []
  events : db.deliveryEvents = []

theorem Db.NoEffects.ledger {db : Db} (h : db.NoEffects) : db.Ledger where
  nodup := by rw [h.outbox]; exact List.nodup_nil
  le_seq := by rw [h.outbox]; intro id hid; cases hid
  told := by
    intro i r hr
    unfold Db.effect at hr
    rw [h.outbox] at hr
    cases hr
  unborn := by
    intro i _
    unfold Db.timeline
    rw [h.events]
    rfl

/-- **The delivery timeline is faithful** as long as every row is stored pending, unattempted and with its event, and no
longer.  A failed call changes nothing. -/
theorem delivery_timeline_faithful {db₀ db : Db} {calls : List (Option EffectCall)} (h₀ : db₀.NoEffects)
    (hrun : Run (fun db c db' => db.EffectStep c db' ∧ db.tells c = true) db₀ calls db) :
    db.Timeline ∧ (∀ c, (db.call c).1 = false → (db.call c).2 = db) ∧
      ∀ c db', db.EffectStep c db' → (db.tells c = true ↔ db'.Timeline ∧ db.Logs db') := by
  have hl : db.Ledger := run_invariant hrun h₀.ledger fun _ _ _ hl h => (effectStep_ledger hl h.1 h.2).1
  exact ⟨hl.told, fun c hfail => call_failed hfail, fun c db' h => effectStep_iff hl h⟩

def retriedOnce : List EffectCall :=
  [.enqueue sampleRow 0, .claimWithLease 1 "relay:0:0" 0 120, .recordFailure 1 "busy" 5 2 1,
    .claimWithLease 1 "relay:0:3" 3 120, .markDeliveredWithReceipt 1 (some "receipt") 4]

theorem delivery_timeline_faithful_retried : ∃ db : Db, db.Timeline ∧
    (db.effect 1).map (fun r => (r.status, r.attempts)) = some (.delivered, 1) ∧
    (db.timeline 1).map DeliveryEvent.transition =
      [.enqueued, .sendRequested, .retryScheduled, .sendRequested, .delivered] := by
  have hrun : Run (fun (db : Db) c db' => db.EffectStep c db' ∧ db.tells c = true) {} (retriedOnce.map some)
      (retriedOnce.foldl (fun db c => (Db.call db c).2) {}) := by
    refine ⟨_, ⟨rfl, by decide⟩, _, ⟨rfl, rfl⟩, _, ⟨rfl, rfl⟩, _, ⟨rfl, rfl⟩, _, ⟨rfl, rfl⟩, rfl⟩
  exact ⟨_, (delivery_timeline_faithful ⟨rfl, rfl⟩ hrun).1, by decide +kernel, by decide +kernel⟩

def effectStepCalls : List RunCall :=
  [.createRunWithId "r" { conversationId := "c", inputEventSeq := 1, startedAt := 0 },
    .addStep "r"
      { stepId := "s", ordinal := 0, kind := .toolDispatch, inputHash := "h", outboxIdempotencyKey := some "c:1:0" },
    .claimStep "r" "s" "w" 1 61]

def effectOfStep : EffectCall :=
  .enqueueOutboxAndCompleteStep "r" "s" "w"
    { idempotencyKey := "c:1:0", conversationId := "c", effectKind := "transport.send", payload := [1]
      enqueuedSeq := 1 } none 2

/-- **The effect of a step is pending, and nothing tells it.** -/
theorem step_effect_untold : (sampleEvents.execAll effectStepCalls).NoEffects ∧
    ((sampleEvents.execAll effectStepCalls).call effectOfStep).1 = true ∧
    ¬ ((sampleEvents.execAll effectStepCalls).call effectOfStep).2.Timeline ∧
    ¬ (sampleEvents.execAll effectStepCalls).Logs ((sampleEvents.execAll effectStepCalls).call effectOfStep).2 := by
  have hrow : (((sampleEvents.execAll effectStepCalls).call effectOfStep).2.effect 1).map OutboxRec.status =
      some .pending := by decide +kernel
  have hline : ((sampleEvents.execAll effectStepCalls).call effectOfStep).2.timeline 1 = [] := by decide +kernel
  obtain ⟨r, hr, -⟩ := Option.map_eq_some_iff.1 hrow
  refine ⟨⟨by decide +kernel, by decide +kernel⟩, by decide +kernel, ?_, ?_⟩
  · intro htold
    have hst := (htold 1 r hr).status
    rw [hline] at hst
    cases hst
  · intro hlogs
    obtain ⟨e, he⟩ := hlogs 1 (by rw [hrow]; decide +kernel)
    rw [hline] at he
    simp at he

end Execlaw
