import Execlaw.Db
/-!
# Outbox — the effect store (`core/src/outbox.rs`)

Every operation is one transaction on `state_outbox` and its delivery history.  A row is addressed by its id alone;
which relay leased it is a column no outcome write reads.  The clock is an argument wherever the source reads it.
-/
namespace Execlaw

/-! ## Text the operations bound -/

/-- `char::is_whitespace`: the Unicode `White_Space` property. -/
def isWhitespace (c : Char) : Bool :=
  let n := c.toNat
  (9 ≤ n && n ≤ 13) || n == 32 || n == 0x85 || n == 0xA0 || n == 0x1680 || (0x2000 ≤ n && n ≤ 0x200A) ||
    n == 0x2028 || n == 0x2029 || n == 0x202F || n == 0x205F || n == 0x3000

/-- `char::is_control`: the Unicode category `Cc`. -/
def isControl (c : Char) : Bool := c.toNat < 0x20 || (0x7F ≤ c.toNat && c.toNat ≤ 0x9F)

def trim (s : String) : String :=
  String.ofList (((s.toList.dropWhile isWhitespace).reverse.dropWhile isWhitespace).reverse)

def boundedReason (reason : String) : String := trim (String.ofList (reason.toList.take 1024))

def validateResolutionActor (actor : String) : Except DbError String :=
  let actor := trim actor
  if actor.isEmpty || 128 < actor.utf8ByteSize then
    .error (.invariant "unknown outcome resolution needs a bounded actor id")
  else .ok actor

/-- `validate_redrive_request` of `job_redrive.rs`. -/
def validateRedriveRequest (actor reason : String) : Except DbError (String × String) :=
  let actor := trim actor
  let reason := trim reason
  if actor.isEmpty || 128 < actor.utf8ByteSize || actor.toList.any isControl ||
      reason.isEmpty || 512 < reason.utf8ByteSize || reason.toList.any isControl then
    .error (.invariant "redrive requires a bounded operator identity and reason")
  else .ok (actor, reason)

/-- `OutboxRow`: what callers hand in, and what `ready_pending` hands out. -/
structure OutboxRow where
  id : Option Int := none
  idempotencyKey : String
  conversationId : String
  effectKind : String
  payload : List UInt8
  status : OutboxStatus := .pending
  attempts : Int := 0
  nextAttemptAt : Option Int := none
  lastError : Option String := none
  enqueuedSeq : Int
deriving DecidableEq

def rowToOutbox (r : OutboxRec) : OutboxRow where
  id := some r.id
  idempotencyKey := r.idempotencyKey
  conversationId := r.conversationId
  effectKind := r.effectKind
  payload := r.payload
  status := r.status
  attempts := r.attempts
  nextAttemptAt := r.nextAttemptAt
  lastError := r.lastError
  enqueuedSeq := r.enqueuedSeq

/-- The row `WHERE id = ?` selects. -/
def Db.effect (db : Db) (id : Int) : Option OutboxRec := Table.byKey OutboxRec.id id db.outbox

def Db.owner (db : Db) (key : String) : Option OwnershipRow := Table.byKey OwnershipRow.scopeKey key db.ownership

def noRows : DbError := .sqlite "Query returned no rows"

def Db.rewriteEffect (db : Db) (id : Int) (f : OutboxRec → OutboxRec) (event : DeliveryEvent) : Db :=
  { db with
    outbox := Table.updateKey OutboxRec.id id f db.outbox
    deliveryEvents := db.deliveryEvents ++ [event] }

/-- Store a row under the next id of the `AUTOINCREMENT` sequence, with its first delivery event. -/
def Db.insertEffect (db : Db) (row : OutboxRow) (scope : Option String) (generation : Option Nat) (now : Int) : Db :=
  let id := db.outboxSeq + 1
  { db with
    outbox := db.outbox ++ [{
      id := id, idempotencyKey := row.idempotencyKey, conversationId := row.conversationId,
      effectKind := row.effectKind, payload := row.payload, status := row.status, attempts := row.attempts,
      nextAttemptAt := row.nextAttemptAt, lastError := row.lastError, enqueuedSeq := row.enqueuedSeq,
      ownershipScopeKey := scope, ownershipGeneration := generation }]
    outboxSeq := id
    deliveryEvents := db.deliveryEvents ++
      [{ outboxId := id, transition := .enqueued, occurredAt := now, attempt := row.attempts }] }

/-! ## Enqueueing -/

def enqueue (row : OutboxRow) (now : Int) : Db → Except DbError Int × Db :=
  transaction fun db =>
    if db.outbox.any (fun r => r.idempotencyKey == row.idempotencyKey) then
      .error (.sqlite "UNIQUE constraint failed: state_outbox.idempotency_key")
    else .ok (db.outboxSeq + 1, db.insertEffect row none none now)

structure EffectOwner where
  scopeKey : String
  agentId : String
  generation : Nat

def EffectOwner.current (o : EffectOwner) (db : Db) : Bool :=
  match db.owner o.scopeKey with
  | some r => decide (r.ownerKind = .agent ∧ r.agentId = some o.agentId ∧ r.generation = o.generation)
  | none => false

def enqueueIdempotentGuarded (row : OutboxRow) (owner : Option EffectOwner) (now : Int) :
    Db → Except DbError (Int × Bool) × Db :=
  transaction fun db =>
    if owner.any (fun o => !o.current db) then .error (.invariant "automatic agent lost transport ownership")
    else
      match db.outbox.find? (fun r => r.idempotencyKey == row.idempotencyKey) with
      | some r =>
        if r.conversationId = row.conversationId ∧ r.effectKind = row.effectKind ∧ r.payload = row.payload then
          if r.status = .unknown ∨ r.status = .deadLetter ∨ r.status = .failed then
            .error (.invariant
              s!"outbox key '{row.idempotencyKey}' requires explicit outcome resolution before replay")
          else .ok ((r.id, false), db)
        else .error (.invariant
          s!"outbox idempotency key '{row.idempotencyKey}' was reused for a different effect")
      | none =>
        .ok ((db.outboxSeq + 1, true),
          db.insertEffect row (owner.map EffectOwner.scopeKey) (owner.map EffectOwner.generation) now)

def enqueueIdempotent (row : OutboxRow) (now : Int) : Db → Except DbError (Int × Bool) × Db :=
  enqueueIdempotentGuarded row none now

def enqueueIdempotentForAgent (row : OutboxRow) (scopeKey agentId : String) (generation : Nat) (now : Int) :
    Db → Except DbError (Int × Bool) × Db :=
  enqueueIdempotentGuarded row (some ⟨scopeKey, agentId, generation⟩) now

/-- `LIMIT ?`: a negative bound is none. -/
def limit {α : Type} (n : Int) (l : List α) : List α := if n < 0 then l else l.take n.toNat

def OutboxRec.ready (r : OutboxRec) (nowTs : Int) : Bool :=
  (r.status == .pending && (match r.nextAttemptAt with | none => true | some t => decide (t ≤ nowTs))) ||
    (r.status == .inFlight && (match r.leaseExpiresAt with | none => false | some t => decide (t ≤ nowTs)))

def readyPending (db : Db) (nowTs bound : Int) : List OutboxRow :=
  (limit bound (Table.orderBy OutboxRec.id (db.outbox.filter (fun r => r.ready nowTs)))).map rowToOutbox

def saturatingAdd (a b : Int) : Int := max (-2 ^ 63) (min (2 ^ 63 - 1) (a + b))

def saturatingSub (a b : Int) : Int := max (-2 ^ 63) (min (2 ^ 63 - 1) (a - b))

/-- The `WHERE` of the claim; an absent lease never expires. -/
def OutboxRec.claimable (r : OutboxRec) (nowTs : Int) : Bool :=
  r.status == .pending ||
    (r.status == .inFlight && (match r.leaseExpiresAt with | none => false | some t => decide (t ≤ nowTs)))

def OutboxRec.lease (r : OutboxRec) (owner : String) (nowTs leaseSecs : Int) : OutboxRec :=
  { r with
    status := .inFlight, leaseOwner := some owner, leaseExpiresAt := some (saturatingAdd nowTs (max leaseSecs 1)) }

def claimWithLease (id : Int) (owner : String) (nowTs leaseSecs : Int) : Db → Except DbError Bool × Db :=
  transaction fun db =>
    match db.effect id with
    | none => .ok (false, db)
    | some r =>
      if r.claimable nowTs then
        .ok (true, db.rewriteEffect id (fun r => r.lease owner nowTs leaseSecs)
          { outboxId := id, transition := if r.status = .inFlight then .leaseReclaimed else .sendRequested
            occurredAt := nowTs, attempt := r.attempts + 1 })
      else .ok (false, db)

/-! ## Outcomes -/

def OutboxRec.deliver (r : OutboxRec) : OutboxRec :=
  { r with status := .delivered, lastError := none, leaseOwner := none, leaseExpiresAt := none }

def markDeliveredWithReceipt (id : Int) (receipt : Option String) (now : Int) : Db → Except DbError Unit × Db :=
  transaction fun db =>
    match db.effect id with
    | none => .error noRows
    | some r =>
      .ok ((), db.rewriteEffect id OutboxRec.deliver
        { outboxId := id, transition := .delivered, occurredAt := now, attempt := r.attempts + 1
          externalReceipt := receipt })

def OutboxRec.doubt (r : OutboxRec) (detail : String) : OutboxRec :=
  { r with
    status := .unknown, lastError := some detail, attempts := r.attempts + 1, leaseOwner := none
    leaseExpiresAt := none }

def markUnknown (id : Int) (reason : String) (now : Int) : Db → Except DbError Unit × Db :=
  let detail := boundedReason reason
  transaction fun db =>
    match db.effect id with
    | none => .error noRows
    | some r =>
      if r.status = .inFlight then
        .ok ((), db.rewriteEffect id (fun r => r.doubt detail)
          { outboxId := id, transition := .outcomeUnknown, occurredAt := now, attempt := r.attempts + 1
            detail := some detail })
      else .error noRows

def OutboxRec.retrying (r : OutboxRec) (retryBudgetMax : Nat) : Bool :=
  decide (((r.attempts + 1) % 2 ^ 32).toNat < retryBudgetMax)

def OutboxRec.fail (r : OutboxRec) (error : String) (retryBudgetMax : Nat) (nextAttemptAt : Int) : OutboxRec :=
  if r.retrying retryBudgetMax then
    { r with
      status := .pending, lastError := some error, attempts := r.attempts + 1, nextAttemptAt := some nextAttemptAt
      leaseOwner := none, leaseExpiresAt := none }
  else
    { r with
      status := .deadLetter, lastError := some error, attempts := r.attempts + 1
      leaseOwner := none, leaseExpiresAt := none }

def recordFailure (id : Int) (error : String) (retryBudgetMax : Nat) (backoffSecs now : Int) :
    Db → Except DbError Bool × Db :=
  transaction fun db =>
    match db.effect id with
    | none => .error noRows
    | some r =>
      .ok (r.retrying retryBudgetMax,
        db.rewriteEffect id (fun r => r.fail error retryBudgetMax (now + backoffSecs))
          { outboxId := id, transition := if r.retrying retryBudgetMax then .retryScheduled else .deadLetter
            occurredAt := now, attempt := r.attempts + 1, detail := some error })

/-! ## Operator decisions -/

def OutboxRec.authorize (r : OutboxRec) (detail : String) : OutboxRec :=
  { r with status := .pending, lastError := some detail, nextAttemptAt := none }

def authorizeUnknownRetry (id : Int) (actor reason : String) (now : Int) (db : Db) : Except DbError Unit × Db :=
  match validateResolutionActor actor with
  | .error e => (.error e, db)
  | .ok actor =>
    let detail := boundedReason reason
    if detail.isEmpty then (.error (.invariant "unknown outcome retry requires an operator reason"), db)
    else
      transaction (fun db =>
        match db.effect id with
        | none => .error noRows
        | some r =>
          if r.status = .unknown then
            .ok ((), db.rewriteEffect id (fun r => r.authorize detail)
              { outboxId := id, transition := .retryAuthorized, occurredAt := now, attempt := r.attempts
                detail := some detail, actor := some actor })
          else .error noRows) db

def OutboxRec.confirm (r : OutboxRec) : OutboxRec := { r with status := .delivered, lastError := none }

def confirmUnknownDelivered (id : Int) (actor receipt : String) (now : Int) (db : Db) : Except DbError Unit × Db :=
  match validateResolutionActor actor with
  | .error e => (.error e, db)
  | .ok actor =>
    let receipt := boundedReason receipt
    if receipt.isEmpty then
      (.error (.invariant "unknown outcome confirmation requires a receipt reference"), db)
    else
      transaction (fun db =>
        match db.effect id with
        | none => .error noRows
        | some r =>
          if r.status = .unknown then
            .ok ((), db.rewriteEffect id OutboxRec.confirm
              { outboxId := id, transition := .operatorConfirmedDelivered, occurredAt := now, attempt := r.attempts
                detail := some receipt, externalReceipt := some receipt, actor := some actor })
          else .error noRows) db

def OutboxRec.redrive (r : OutboxRec) : OutboxRec :=
  { r with status := .pending, nextAttemptAt := none, leaseOwner := none, leaseExpiresAt := none }

/-- `redrive_dead_letter`, without its row of the job redrive journal. -/
def redriveDeadLetter (id : Int) (actor reason : String) (now : Int) (db : Db) : Except DbError Unit × Db :=
  match validateRedriveRequest actor reason with
  | .error e => (.error e, db)
  | .ok (actor, reason) =>
    transaction (fun db =>
      match db.effect id with
      | none => .error noRows
      | some r =>
        if r.status = .deadLetter then
          if (trim r.idempotencyKey).isEmpty then
            .error (.invariant "dead-lettered effect has no stable idempotency identity")
          else
            .ok ((), db.rewriteEffect id OutboxRec.redrive
              { outboxId := id, transition := .operatorRedrive, occurredAt := now, attempt := r.attempts
                detail := some reason, actor := some actor })
        else .error noRows) db

/-! ## What an operation does to the rows -/

def Transition.leaves : Transition → OutboxStatus
  | .enqueued | .retryScheduled | .retryAuthorized | .operatorRedrive => .pending
  | .sendRequested | .leaseReclaimed => .inFlight
  | .delivered | .operatorConfirmedDelivered => .delivered
  | .outcomeUnknown | .takeoverOutcomeUnknown => .unknown
  | .deadLetter => .deadLetter
  | .cancelledByTakeover => .failed

def Transition.counted : Transition → Bool
  | .retryScheduled | .deadLetter | .outcomeUnknown => true
  | _ => false

def Transition.follows : Transition → OutboxStatus → Bool
  | .enqueued, _ => false
  | .sendRequested, st | .cancelledByTakeover, st => st == .pending
  | .leaseReclaimed, st | .outcomeUnknown, st | .takeoverOutcomeUnknown, st => st == .inFlight
  | .retryAuthorized, st | .operatorConfirmedDelivered, st => st == .unknown
  | .operatorRedrive, st => st == .deadLetter
  | .delivered, _ | .retryScheduled, _ | .deadLetter, _ => true

/-- **The event tells what happened to its row.** -/
structure DeliveryEvent.Tells (e : DeliveryEvent) (r r' : OutboxRec) : Prop where
  id : e.outboxId = r.id
  follows : e.transition.follows r.status = true
  status : r'.status = e.transition.leaves
  attempts : r'.attempts = r.attempts + if e.transition.counted then 1 else 0

structure OutboxRec.SameEffect (r r' : OutboxRec) : Prop where
  id : r'.id = r.id
  kind : r'.effectKind = r.effectKind
  scope : r'.ownershipScopeKey = r.ownershipScopeKey
  generation : r'.ownershipGeneration = r.ownershipGeneration

theorem OutboxRec.SameEffect.refl (r : OutboxRec) : r.SameEffect r := ⟨rfl, rfl, rfl, rfl⟩

/-- **One row written**: `r` became `r'` under the same id, every other row and every other table the relays and the
ownership store read is as it was, and one event tells it. -/
structure Db.Writes (db : Db) (r r' : OutboxRec) (db' : Db) : Prop where
  found : db.effect r.id = some r
  written : db'.effect r.id = some r'
  same : r.SameEffect r'
  others : ∀ j, j ≠ r.id → db'.effect j = db.effect j
  ids : db'.outbox.map OutboxRec.id = db.outbox.map OutboxRec.id
  seq : db'.outboxSeq = db.outboxSeq
  ownership : db'.ownership = db.ownership
  handoffs : db'.handoffEvents = db.handoffEvents
  logged : ∃ e : DeliveryEvent, db'.deliveryEvents = db.deliveryEvents ++ [e] ∧ e.Tells r r'

theorem Db.Writes.ne {db db' : Db} {r r' : OutboxRec} (h : db.Writes r r' db') : db' ≠ db := by
  intro heq
  obtain ⟨e, he, -⟩ := h.logged
  simp [heq] at he

variable {r : OutboxRec}

theorem id_of_effect {db : Db} {id : Int} (h : db.effect id = some r) : r.id = id :=
  Table.key_of_byKey h

theorem rewriteEffect_writes {db : Db} {id : Int} (h : db.effect id = some r) (f : OutboxRec → OutboxRec)
    (hf : ∀ r : OutboxRec, r.SameEffect (f r)) {event : DeliveryEvent} (he : event.Tells r (f r)) :
    db.Writes r (f r) (db.rewriteEffect id f event) where
  found := by rw [id_of_effect h]; exact h
  written := by
    rw [id_of_effect h]
    unfold Db.effect at h ⊢
    simp only [Db.rewriteEffect]
    rw [Table.byKey_updateKey_self id f (fun r => (hf r).id), h]
    rfl
  same := hf r
  others := fun j hj => by
    rw [id_of_effect h] at hj
    exact Table.byKey_updateKey_of_ne hj f (fun r => (hf r).id) _
  ids := Table.keys_updateKey id f (fun r => (hf r).id) _
  seq := rfl
  ownership := rfl
  handoffs := rfl
  logged := ⟨event, rfl, he⟩

theorem status_of_claimable {nowTs : Int} (h : r.claimable nowTs) : r.status = .pending ∨ r.status = .inFlight := by
  simp only [OutboxRec.claimable, Bool.or_eq_true, Bool.and_eq_true, beq_iff_eq] at h
  exact h.imp_right And.left

theorem claimWithLease_cases (id : Int) (owner : String) (nowTs leaseSecs : Int) (db : Db) :
    claimWithLease id owner nowTs leaseSecs db = (.ok false, db) ∨
    ∃ r r' db', claimWithLease id owner nowTs leaseSecs db = (.ok true, db') ∧ r.id = id ∧ db.Writes r r' db' ∧
      r.claimable nowTs ∧ r'.status = .inFlight := by
  unfold claimWithLease transaction
  cases hr : db.effect id with
  | none => exact .inl (by simp only [hr])
  | some r =>
    by_cases hc : r.claimable nowTs
    · simp only [hr, if_pos hc]
      have he : DeliveryEvent.Tells
          { outboxId := id, transition := if r.status = .inFlight then .leaseReclaimed else .sendRequested
            occurredAt := nowTs, attempt := r.attempts + 1 } r (r.lease owner nowTs leaseSecs) := by
        have hst : r.status = .pending ∨ r.status = .inFlight := status_of_claimable hc
        refine ⟨(id_of_effect hr).symm, ?_, ?_, ?_⟩
        · rcases hst with hst | hst <;> simp [hst, Transition.follows]
        · rcases hst with hst | hst <;> simp [hst, Transition.leaves, OutboxRec.lease]
        · rcases hst with hst | hst <;> simp [hst, Transition.counted, OutboxRec.lease]
      exact .inr ⟨r, r.lease owner nowTs leaseSecs, _, rfl, id_of_effect hr,
        rewriteEffect_writes hr (fun r => r.lease owner nowTs leaseSecs) (fun r => ⟨rfl, rfl, rfl, rfl⟩) he, hc, rfl⟩
    · exact .inl (by simp only [hr, if_neg hc])

/-- **A fresh row stored**, under the next id, and its event. -/
structure Db.Inserts (db : Db) (r : OutboxRec) (db' : Db) : Prop where
  outbox : db'.outbox = db.outbox ++ [r]
  id : r.id = db.outboxSeq + 1
  seq : db'.outboxSeq = db.outboxSeq + 1
  ownership : db'.ownership = db.ownership
  handoffs : db'.handoffEvents = db.handoffEvents
  logged : ∃ e : DeliveryEvent, db'.deliveryEvents = db.deliveryEvents ++ [e] ∧ e.outboxId = r.id ∧
    e.transition = .enqueued

def OutboxRec.Owned (r : OutboxRec) (db : Db) : Prop :=
  (r.ownershipScopeKey = none ∧ r.ownershipGeneration = none) ∨
    ∃ own, db.owner own.scopeKey = some own ∧ r.ownershipScopeKey = some own.scopeKey ∧
      r.ownershipGeneration = some own.generation

theorem enqueue_cases (row : OutboxRow) (now : Int) (db : Db) :
    (enqueue row now db).2 = db ∨ ∃ r, db.Inserts r (enqueue row now db).2 ∧ r.Owned db := by
  unfold enqueue transaction
  by_cases hu : db.outbox.any (fun r => r.idempotencyKey == row.idempotencyKey)
  · exact .inl (by simp only [hu, if_true])
  · simp only [hu, Bool.false_eq_true, if_false]
    exact .inr ⟨_, ⟨rfl, rfl, rfl, rfl, rfl, _, rfl, rfl, rfl⟩, .inl ⟨rfl, rfl⟩⟩

theorem owned_of_current {o : EffectOwner} {db : Db} (h : o.current db = true) :
    ∃ own, db.owner own.scopeKey = some own ∧ own.scopeKey = o.scopeKey ∧ own.generation = o.generation := by
  unfold EffectOwner.current at h
  cases hown : db.owner o.scopeKey with
  | none => simp [hown] at h
  | some own =>
    simp only [hown, decide_eq_true_eq] at h
    have hkey : own.scopeKey = o.scopeKey := Table.key_of_byKey hown
    exact ⟨own, by rw [hkey, hown], hkey, h.2.2⟩

theorem enqueueIdempotentGuarded_cases (row : OutboxRow) (owner : Option EffectOwner) (now : Int) (db : Db) :
    (enqueueIdempotentGuarded row owner now db).2 = db ∨
      ∃ r, db.Inserts r (enqueueIdempotentGuarded row owner now db).2 ∧ r.Owned db := by
  refine transaction_snd (P := fun db' => db' = db ∨ ∃ r, db.Inserts r db' ∧ r.Owned db) (.inl rfl) ?_
  intro a db' h
  split at h
  · cases h
  rename_i hown
  split at h
  · -- a replayed key inserts nothing
    repeat split at h
    all_goals cases h
    exact .inl rfl
  · cases h
    refine .inr ⟨_, ⟨rfl, rfl, rfl, rfl, rfl, _, rfl, rfl, rfl⟩, ?_⟩
    cases owner with
    | none => exact .inl ⟨rfl, rfl⟩
    | some o =>
      have hcur : o.current db = true := by simpa using hown
      obtain ⟨own, hrow, hkey, hgen⟩ := owned_of_current hcur
      exact .inr ⟨own, hrow, by simp [hkey], by simp [hgen]⟩

section Outcomes

variable {id : Int} {db : Db} {r : OutboxRec}

theorem markDeliveredWithReceipt_eq (h : db.effect id = some r) (receipt : Option String) (now : Int) :
    ∃ db', markDeliveredWithReceipt id receipt now db = (.ok (), db') ∧ db.Writes r r.deliver db' := by
  simp only [markDeliveredWithReceipt, transaction, h]
  exact ⟨_, rfl, rewriteEffect_writes h OutboxRec.deliver (fun r => ⟨rfl, rfl, rfl, rfl⟩)
    ⟨(id_of_effect h).symm, rfl, rfl, (Int.add_zero _).symm⟩⟩

theorem sameEffect_fail (r : OutboxRec) (error : String) (budget : Nat) (next : Int) :
    r.SameEffect (r.fail error budget next) := by
  unfold OutboxRec.fail
  split <;> exact ⟨rfl, rfl, rfl, rfl⟩

def OutboxRec.afterFailure (r : OutboxRec) (budget : Nat) : OutboxStatus :=
  if r.retrying budget then .pending else .deadLetter

theorem status_fail (r : OutboxRec) (error : String) (budget : Nat) (next : Int) :
    (r.fail error budget next).status = r.afterFailure budget := by
  unfold OutboxRec.fail OutboxRec.afterFailure
  split <;> rfl

theorem tells_fail {error : String} {budget : Nat} {next : Int} {e : DeliveryEvent} (hid : e.outboxId = r.id)
    (he : e.transition = if r.retrying budget then .retryScheduled else .deadLetter) {r' : OutboxRec}
    (hr' : r' = r.fail error budget next) : e.Tells r r' := by
  subst hr'
  refine ⟨hid, ?_, ?_, ?_⟩
  · rw [he]
    split <;> rfl
  · rw [he]
    unfold OutboxRec.fail
    split <;> rfl
  · rw [he]
    unfold OutboxRec.fail
    split <;> rfl

theorem recordFailure_eq (h : db.effect id = some r) (error : String) (budget : Nat) (backoff now : Int) :
    ∃ db', recordFailure id error budget backoff now db = (.ok (r.retrying budget), db') ∧
      db.Writes r (r.fail error budget (now + backoff)) db' := by
  simp only [recordFailure, transaction, h]
  exact ⟨_, rfl, rewriteEffect_writes h (fun r => r.fail error budget (now + backoff))
    (fun r => sameEffect_fail r error budget _) (tells_fail (id_of_effect h).symm rfl rfl)⟩

theorem markUnknown_inFlight (h : db.effect id = some r) (hst : r.status = .inFlight) (reason : String) (now : Int) :
    ∃ db' r', markUnknown id reason now db = (.ok (), db') ∧ db.Writes r r' db' ∧ r'.status = .unknown := by
  simp only [markUnknown, transaction, h, if_pos hst]
  exact ⟨_, r.doubt (boundedReason reason), rfl,
    rewriteEffect_writes h (fun r => r.doubt (boundedReason reason)) (fun r => ⟨rfl, rfl, rfl, rfl⟩)
      ⟨(id_of_effect h).symm, by rw [hst]; rfl, rfl, rfl⟩, rfl⟩

theorem markUnknown_settled (hst : (db.effect id).map OutboxRec.status ≠ some .inFlight) (reason : String) (now : Int) :
    markUnknown id reason now db = (.error noRows, db) := by
  cases hr : db.effect id with
  | none => simp only [markUnknown, transaction, hr]
  | some r =>
    rw [hr, Option.map_some, ne_eq, Option.some.injEq] at hst
    simp [markUnknown, transaction, hr, if_neg hst]

end Outcomes

section Decisions

variable (id : Int) (actor text : String) (now : Int) (db : Db)

def DecidesEffect (old new : OutboxStatus) (res : Except DbError Unit × Db) : Prop :=
  (∃ e, res = (.error e, db)) ∨
    ∃ r r' db', res = (.ok (), db') ∧ r.id = id ∧ db.Writes r r' db' ∧ r.status = old ∧ r'.status = new

variable {id db} in
theorem decides_transaction {old new : OutboxStatus} {body : Db → OutboxRec → Except DbError (Unit × Db)}
    (h : ∀ r db', db.effect id = some r → body db r = .ok ((), db') →
      ∃ r', db.Writes r r' db' ∧ r.status = old ∧ r'.status = new) :
    DecidesEffect id db old new (transaction (fun db =>
      match db.effect id with
      | none => .error noRows
      | some r => body db r) db) := by
  refine (transaction_cases _ db).imp_right ?_
  rintro ⟨⟨⟩, db', hf, hres⟩
  cases hr : db.effect id with
  | none => simp [hr] at hf
  | some r =>
    obtain ⟨r', hw, hstatus⟩ := h r db' hr (by simpa only [hr] using hf)
    exact ⟨r, r', db', hres, id_of_effect hr, hw, hstatus⟩

theorem authorizeUnknownRetry_cases :
    DecidesEffect id db .unknown .pending (authorizeUnknownRetry id actor text now db) := by
  unfold authorizeUnknownRetry
  cases validateResolutionActor actor with
  | error e => exact .inl ⟨e, rfl⟩
  | ok actor =>
    simp only
    split
    · exact .inl ⟨_, rfl⟩
    refine decides_transaction fun r db' hr hbody => ?_
    split at hbody
    · rename_i hst
      cases hbody
      exact ⟨_, rewriteEffect_writes hr (fun r => r.authorize (boundedReason text)) (fun r => ⟨rfl, rfl, rfl, rfl⟩)
        ⟨(id_of_effect hr).symm, by rw [hst]; rfl, rfl, (Int.add_zero _).symm⟩, hst, rfl⟩
    · cases hbody

theorem confirmUnknownDelivered_cases :
    DecidesEffect id db .unknown .delivered (confirmUnknownDelivered id actor text now db) := by
  unfold confirmUnknownDelivered
  cases validateResolutionActor actor with
  | error e => exact .inl ⟨e, rfl⟩
  | ok actor =>
    simp only
    split
    · exact .inl ⟨_, rfl⟩
    refine decides_transaction fun r db' hr hbody => ?_
    split at hbody
    · rename_i hst
      cases hbody
      exact ⟨_, rewriteEffect_writes hr OutboxRec.confirm (fun r => ⟨rfl, rfl, rfl, rfl⟩)
        ⟨(id_of_effect hr).symm, by rw [hst]; rfl, rfl, (Int.add_zero _).symm⟩, hst, rfl⟩
    · cases hbody

theorem redriveDeadLetter_cases :
    DecidesEffect id db .deadLetter .pending (redriveDeadLetter id actor text now db) := by
  unfold redriveDeadLetter
  cases validateRedriveRequest actor text with
  | error e => exact .inl ⟨e, rfl⟩
  | ok p =>
    refine decides_transaction fun r db' hr hbody => ?_
    split at hbody
    · rename_i hst
      split at hbody
      · cases hbody
      · cases hbody
        exact ⟨_, rewriteEffect_writes hr OutboxRec.redrive (fun r => ⟨rfl, rfl, rfl, rfl⟩)
          ⟨(id_of_effect hr).symm, by rw [hst]; rfl, rfl, (Int.add_zero _).symm⟩, hst, rfl⟩
    · cases hbody

end Decisions

end Execlaw
