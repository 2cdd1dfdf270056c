import Execlaw.Outbox
import Mathlib.Data.Prod.Lex
import Mathlib.Data.String.Basic
/-!
# Ownership — who speaks in a scope (`core/src/agent_ownership.rs`)

A scope is one channel recipient of one conversation.  Its row names the agent that sends automatically, or the
controller after a takeover; the generation moves with every change of hands, and the handoff log is keyed by it.
A takeover also withdraws the effects queued under earlier generations.
-/
namespace Execlaw

/-- `serde_json`, as the store uses it: a value to text, a list of values to text, and back. -/
structure JsonCodec (J : Type) where
  toString : J → Except String String
  listToString : List J → Except String String
  fromStr : String → Option J
  null : J

def JsonCodec.read {J : Type} (json : JsonCodec J) (text : String) : J := (json.fromStr text).getD json.null

/-- A row of the primary key `(scope_key, generation, event_id)`. -/
def Db.hasHandoff (db : Db) (key : String) (generation : Nat) (eventId : String) : Bool :=
  db.handoffEvents.any (fun e => e.scopeKey == key && e.generation == generation && e.eventId == eventId)

def handoffUnique : DbError :=
  .sqlite ("UNIQUE constraint failed: state_agent_handoff_events.scope_key, " ++
    "state_agent_handoff_events.generation, state_agent_handoff_events.event_id")

def Db.insertHandoff (db : Db) (e : HandoffEvent) : Except DbError Db :=
  if db.hasHandoff e.scopeKey e.generation e.eventId then .error handoffUnique
  else .ok { db with handoffEvents := db.handoffEvents ++ [e] }

/-! ## Assignment -/

def agentRow (key conversationId agentId : String) (now : Int) : OwnershipRow :=
  { scopeKey := key, conversationId := conversationId, ownerKind := .agent, agentId := some agentId
    previousAgentId := none, generation := 1, updatedAt := now }

def assignAgent (key conversationId agentId : String) (now : Int) (db : Db) : Except DbError OwnershipRow × Db :=
  match db.owner key with
  | some r => (.ok r, db)
  | none =>
    (.ok (agentRow key conversationId agentId now),
      { db with ownership := db.ownership ++ [agentRow key conversationId agentId now] })

/-! ## Takeover -/

def OutboxRec.withdrawn (r : OutboxRec) (key : String) (nextGeneration : Nat) : Bool :=
  decide (r.ownershipScopeKey = some key) &&
    (match r.ownershipGeneration with | none => false | some g => decide (g < nextGeneration)) &&
    (r.status == .pending || r.status == .inFlight)

def OutboxRec.withdraw (r : OutboxRec) : OutboxRec :=
  { r with
    status := if r.status = .pending then .failed else .unknown
    lastError := some "operator takeover requires delivery reconciliation", leaseOwner := none, leaseExpiresAt := none }

def Db.withdrawEffects (db : Db) (key : String) (nextGeneration : Nat) (now : Int) : Db :=
  { db with
    outbox := db.outbox.map (fun r => if r.withdrawn key nextGeneration then r.withdraw else r)
    deliveryEvents := db.deliveryEvents ++ (db.outbox.filter (fun r => r.withdrawn key nextGeneration)).map (fun r =>
      { outboxId := r.id
        transition := if r.status = .pending then .cancelledByTakeover else .takeoverOutcomeUnknown
        occurredAt := now, attempt := r.attempts, detail := some "ownership_generation_changed" }) }

/-- `COALESCE(MAX(generation),0)+1` of the scope. -/
def Db.nextGeneration (db : Db) (key : String) : Nat := ((db.owner key).map OwnershipRow.generation).getD 0 + 1

def Db.upsertController (db : Db) (key conversationId : String) (generation : Nat) (now : Int) : Db :=
  match db.owner key with
  | none =>
    { db with ownership := db.ownership ++ [
      { scopeKey := key, conversationId := conversationId, ownerKind := .controller, agentId := none
        previousAgentId := none, generation := generation, updatedAt := now }] }
  | some _ =>
    { db with ownership := Table.updateKey OwnershipRow.scopeKey key (fun r =>
      { r with
        ownerKind := .controller, previousAgentId := r.agentId <|> r.previousAgentId, agentId := none
        generation := generation, updatedAt := now }) db.ownership }

def takeoverEvent (key : String) (generation : Nat) (now : Int) : HandoffEvent :=
  { scopeKey := key, generation := generation, eventKind := .takeover, eventId := s!"takeover:{generation}"
    conversationSeq := none, payloadJson := "\x7b\x7d", occurredAt := now }

def takeoverTx (key conversationId : String) (now : Int) (db : Db) : Except DbError (Unit × Db) :=
  let nextGeneration := db.nextGeneration key
  let db := db.upsertController key conversationId nextGeneration now
  match db.insertHandoff (takeoverEvent key nextGeneration now) with
  | .error e => .error e
  | .ok db => .ok ((), db.withdrawEffects key nextGeneration now)

def takeover (key conversationId : String) (now : Int) (db : Db) : Except DbError OwnershipRow × Db :=
  match transaction (takeoverTx key conversationId now) db with
  | (.error e, db) => (.error e, db)
  | (.ok (), db) =>
    match db.owner key with
    | some r => (.ok r, db)
    | none => (.error (.invariant "takeover disappeared"), db)

/-! ## Operator actions and handback -/

def recordOperatorAction {J : Type} (json : JsonCodec J) (key eventId : String) (conversationSeq : Int) (payload : J)
    (now : Int) (db : Db) : Except DbError Bool × Db :=
  match json.toString payload with
  | .error e => (.error (.invariant e), db)
  | .ok encoded =>
    match db.owner key with
    | none => (.ok false, db)
    | some r =>
      if r.ownerKind = .controller then
        match db.insertHandoff
          { scopeKey := key, generation := r.generation, eventKind := .operatorAction, eventId := eventId
            conversationSeq := some conversationSeq, payloadJson := encoded, occurredAt := now } with
        | .error _ => (.ok false, db)
        | .ok db => (.ok true, db)
      else (.ok false, db)

/-- The operator actions of one generation, `ORDER BY conversation_seq, event_id`. -/
def Db.operatorActions (db : Db) (key : String) (generation : Nat) : List HandoffEvent :=
  Table.orderBy (fun e => toLex (e.conversationSeq.getD 0, e.eventId))
    (db.handoffEvents.filter (fun e =>
      e.scopeKey == key && e.generation == generation && decide (e.eventKind = .operatorAction)))

def Db.controller (db : Db) (key : String) (generation : Nat) : Option OwnershipRow :=
  (db.owner key).filter (fun r => decide (r.ownerKind = .controller ∧ r.generation = generation))

def OwnershipRow.restored (own : OwnershipRow) (agentId : String) (now : Int) : OwnershipRow :=
  { own with
    ownerKind := .agent, agentId := some agentId, previousAgentId := none, generation := own.generation + 1
    updatedAt := now }

def Db.releaseScope (db : Db) (key : String) (now : Int) : Option String → Db
  | some agentId =>
    { db with ownership := Table.updateKey OwnershipRow.scopeKey key (fun r => r.restored agentId now) db.ownership }
  | none => { db with ownership := db.ownership.filter (fun r => decide (r.scopeKey ≠ key)) }

def handbackEvent (key : String) (generation : Nat) (payload : String) (now : Int) : HandoffEvent :=
  { scopeKey := key, generation := generation, eventKind := .handback, eventId := s!"handback:{generation}"
    conversationSeq := none, payloadJson := payload, occurredAt := now }

def handbackWithContext {J : Type} (json : JsonCodec J) (key : String) (generation : Nat) (now : Int) :
    Db → Except DbError (Option String × List J) × Db :=
  transaction fun db =>
    let previousAgent := (db.controller key generation).bind OwnershipRow.previousAgentId
    let actions := (db.operatorActions key generation).map (fun e => json.read e.payloadJson)
    -- neither the update nor the delete finds a row when the controller is not in charge at that generation
    if (db.controller key generation).isNone then .error (.invariant "ownership changed before handback")
    else
      match json.listToString actions with
      | .error e => .error (.invariant e)
      | .ok payload =>
        match (db.releaseScope key now previousAgent).insertHandoff (handbackEvent key generation payload now) with
        | .error e => .error e
        | .ok db => .ok ((previousAgent, actions), db)

/-! ## What an operation does -/

variable {key conversationId : String} {now : Int} {db : Db} {own : OwnershipRow}

theorem owner_append_self (hnone : db.owner key = none) (hkey : own.scopeKey = key) :
    Table.byKey OwnershipRow.scopeKey key (db.ownership ++ [own]) = some own := by
  unfold Db.owner at hnone
  rw [Table.byKey_append, hnone, Table.byKey_cons, if_pos hkey]
  rfl

theorem owner_append_of_ne {j : String} (hne : j ≠ own.scopeKey) :
    Table.byKey OwnershipRow.scopeKey j (db.ownership ++ [own]) = db.owner j := by
  rw [Table.byKey_append, Table.byKey_cons, if_neg (Ne.symm hne)]
  exact Option.or_none

theorem assignAgent_cases (key conversationId agentId : String) (now : Int) (db : Db) :
    (∃ own, db.owner key = some own ∧ assignAgent key conversationId agentId now db = (.ok own, db)) ∨
    (db.owner key = none ∧ assignAgent key conversationId agentId now db =
      (.ok (agentRow key conversationId agentId now),
        { db with ownership := db.ownership ++ [agentRow key conversationId agentId now] })) := by
  unfold assignAgent
  cases h : db.owner key with
  | none => exact .inr ⟨rfl, rfl⟩
  | some own => exact .inl ⟨own, rfl, rfl⟩

/-- **A scope changes hands**: `own` is its new row, if any; the other scopes keep theirs, and one event is logged. -/
structure Db.Hands (db : Db) (key : String) (own : Option OwnershipRow) (e : HandoffEvent) (db' : Db) : Prop where
  owner : db'.owner key = own
  others : ∀ j, j ≠ key → db'.owner j = db.owner j
  handoffs : db'.handoffEvents = db.handoffEvents ++ [e]
  seq : db'.outboxSeq = db.outboxSeq
  ids : db'.outbox.map OutboxRec.id = db.outbox.map OutboxRec.id

def controllerRow (key conversationId : String) (now : Int) : Option OwnershipRow → OwnershipRow
  | none =>
    { scopeKey := key, conversationId := conversationId, ownerKind := .controller, agentId := none
      previousAgentId := none, generation := 1, updatedAt := now }
  | some r =>
    { r with
      ownerKind := .controller, previousAgentId := r.agentId <|> r.previousAgentId, agentId := none
      generation := r.generation + 1, updatedAt := now }

theorem generation_controllerRow (key conversationId : String) (now : Int) (db : Db) :
    (controllerRow key conversationId now (db.owner key)).generation = db.nextGeneration key := by
  unfold Db.nextGeneration
  cases db.owner key <;> rfl

theorem owner_upsertController (key conversationId : String) (now : Int) (db : Db) :
    (db.upsertController key conversationId (db.nextGeneration key) now).owner key =
      some (controllerRow key conversationId now (db.owner key)) := by
  unfold Db.upsertController Db.nextGeneration
  cases h : db.owner key with
  | none => exact owner_append_self h rfl
  | some r =>
    show Table.byKey _ _ (Table.updateKey _ _ _ _) = _
    rw [Table.byKey_updateKey_self key _ (by intro r; rfl)]
    unfold Db.owner at h
    rw [h]
    rfl

theorem owner_upsertController_of_ne {j : String} (hne : j ≠ key) (generation : Nat) :
    (db.upsertController key conversationId generation now).owner j = db.owner j := by
  unfold Db.upsertController
  cases h : db.owner key with
  | none => exact owner_append_of_ne hne
  | some r => exact Table.byKey_updateKey_of_ne hne _ (by intro r; rfl) _

theorem upsertController_frame (key conversationId : String) (generation : Nat) (now : Int) (db : Db) :
    (db.upsertController key conversationId generation now).handoffEvents = db.handoffEvents ∧
    (db.upsertController key conversationId generation now).outbox = db.outbox ∧
    (db.upsertController key conversationId generation now).outboxSeq = db.outboxSeq := by
  unfold Db.upsertController
  cases db.owner key <;> exact ⟨rfl, rfl, rfl⟩

variable {generation : Nat}

theorem withdrawn_iff {rec : OutboxRec} : rec.withdrawn key generation = true ↔
    rec.ownershipScopeKey = some key ∧ (∃ g, rec.ownershipGeneration = some g ∧ g < generation) ∧
      (rec.status = .pending ∨ rec.status = .inFlight) := by
  unfold OutboxRec.withdrawn
  cases rec.ownershipGeneration <;> simp [and_assoc]

theorem effect_withdrawEffects (generation : Nat) (j : Int) :
    (db.withdrawEffects key generation now).effect j =
      (db.effect j).map (fun r => if r.withdrawn key generation then r.withdraw else r) := by
  apply Table.byKey_map
  intro r
  split <;> rfl

theorem ids_withdrawEffects (generation : Nat) :
    (db.withdrawEffects key generation now).outbox.map OutboxRec.id = db.outbox.map OutboxRec.id := by
  unfold Db.withdrawEffects
  rw [List.map_map]
  apply List.map_congr_left
  intro r _
  show (if r.withdrawn key generation then r.withdraw else r).id = r.id
  split <;> rfl

def Db.takeoverLogged (db : Db) (key : String) : Bool :=
  db.hasHandoff key (db.nextGeneration key) (takeoverEvent key (db.nextGeneration key) 0).eventId

theorem insertHandoff_refused {e : HandoffEvent} (h : db.hasHandoff e.scopeKey e.generation e.eventId = true) :
    db.insertHandoff e = .error handoffUnique := if_pos h

theorem insertHandoff_fresh {e : HandoffEvent} (h : db.hasHandoff e.scopeKey e.generation e.eventId = false) :
    db.insertHandoff e = .ok { db with handoffEvents := db.handoffEvents ++ [e] } :=
  if_neg (by rw [h]; decide)

theorem hasHandoff_upsertController (key conversationId : String) (generation : Nat) (now : Int) (db : Db) :
    (db.upsertController key conversationId generation now).hasHandoff = db.hasHandoff := by
  funext k g i
  unfold Db.hasHandoff
  rw [(upsertController_frame key conversationId generation now db).1]

theorem takeoverTx_refused (h : db.takeoverLogged key = true) :
    takeoverTx key conversationId now db = .error handoffUnique := by
  simp only [takeoverTx]
  rw [insertHandoff_refused (by rw [hasHandoff_upsertController]; exact h)]

theorem takeoverTx_ok (h : db.takeoverLogged key = false) :
    ∃ db', takeoverTx key conversationId now db = .ok ((), db') ∧
      db.Hands key (some (controllerRow key conversationId now (db.owner key)))
        (takeoverEvent key (db.nextGeneration key) now) db' ∧
      ∀ j, db'.effect j =
        (db.effect j).map (fun r => if r.withdrawn key (db.nextGeneration key) then r.withdraw else r) := by
  obtain ⟨hev, hout, hseq⟩ := upsertController_frame key conversationId (db.nextGeneration key) now db
  simp only [takeoverTx]
  rw [insertHandoff_fresh (by rw [hasHandoff_upsertController]; exact h)]
  refine ⟨_, rfl, ?_, ?_⟩
  · exact {
      owner := owner_upsertController key conversationId now db
      others := fun j hj => owner_upsertController_of_ne hj _
      handoffs := by simp only [Db.withdrawEffects, hev]
      seq := hseq
      ids := by rw [ids_withdrawEffects]; simp only [hout] }
  · intro j
    rw [effect_withdrawEffects]
    unfold Db.effect
    rw [hout]

theorem takeover_refused (conversationId : String) (now : Int) (h : db.takeoverLogged key = true) :
    takeover key conversationId now db = (.error handoffUnique, db) := by
  unfold takeover transaction
  rw [takeoverTx_refused h]

theorem takeover_ok (conversationId : String) (now : Int) (h : db.takeoverLogged key = false) :
    ∃ db', takeover key conversationId now db = (.ok (controllerRow key conversationId now (db.owner key)), db') ∧
      db.Hands key (some (controllerRow key conversationId now (db.owner key)))
        (takeoverEvent key (db.nextGeneration key) now) db' ∧
      ∀ j, db'.effect j =
        (db.effect j).map (fun r => if r.withdrawn key (db.nextGeneration key) then r.withdraw else r) := by
  obtain ⟨db', htx, hhands, heff⟩ := takeoverTx_ok h
  refine ⟨db', ?_, hhands, heff⟩
  unfold takeover transaction
  rw [htx]
  simp [hhands.owner]

theorem takeover_events (conversationId : String) (now : Int) (h : db.takeoverLogged key = false) :
    (takeover key conversationId now db).2.deliveryEvents =
      db.deliveryEvents ++ (db.outbox.filter (fun r => r.withdrawn key (db.nextGeneration key))).map (fun r =>
        { outboxId := r.id
          transition := if r.status = .pending then .cancelledByTakeover else .takeoverOutcomeUnknown
          occurredAt := now, attempt := r.attempts, detail := some "ownership_generation_changed" }) := by
  obtain ⟨-, hout, -⟩ := upsertController_frame key conversationId (db.nextGeneration key) now db
  have hev : (db.upsertController key conversationId (db.nextGeneration key) now).deliveryEvents =
      db.deliveryEvents := by
    unfold Db.upsertController
    cases db.owner key <;> rfl
  have hfresh : (db.upsertController key conversationId (db.nextGeneration key) now).hasHandoff key
      (db.nextGeneration key) (takeoverEvent key (db.nextGeneration key) now).eventId = false := by
    rw [hasHandoff_upsertController]
    exact h
  simp only [takeover, transaction, takeoverTx]
  rw [insertHandoff_fresh hfresh]
  simp only [Db.withdrawEffects, hev, hout]
  split <;> rfl

variable {J : Type}

theorem recordOperatorAction_cases (json : JsonCodec J) (key eventId : String) (conversationSeq : Int) (payload : J)
    (now : Int) (db : Db) :
    (∃ res, recordOperatorAction json key eventId conversationSeq payload now db = (res, db) ∧ res ≠ .ok true) ∨
    ∃ own encoded, json.toString payload = .ok encoded ∧ db.owner key = some own ∧ own.ownerKind = .controller ∧
      recordOperatorAction json key eventId conversationSeq payload now db =
        (.ok true, { db with handoffEvents := db.handoffEvents ++
          [{ scopeKey := key, generation := own.generation, eventKind := .operatorAction, eventId := eventId
             conversationSeq := some conversationSeq, payloadJson := encoded, occurredAt := now }] }) := by
  unfold recordOperatorAction
  cases henc : json.toString payload with
  | error e => exact .inl ⟨_, rfl, by simp⟩
  | ok encoded =>
    cases hown : db.owner key with
    | none => exact .inl ⟨.ok false, rfl, by simp⟩
    | some own =>
      by_cases hk : own.ownerKind = .controller
      · by_cases hdup : db.hasHandoff key own.generation eventId = true
        · left
          simp only [if_pos hk]
          rw [insertHandoff_refused hdup]
          exact ⟨_, rfl, by simp⟩
        · right
          refine ⟨own, encoded, rfl, rfl, hk, ?_⟩
          simp only [if_pos hk]
          rw [insertHandoff_fresh (Bool.eq_false_iff.2 hdup)]
      · exact .inl ⟨.ok false, by simp only [if_neg hk], by simp⟩

theorem controller_eq_some :
    db.controller key generation = some own ↔
      db.owner key = some own ∧ own.ownerKind = .controller ∧ own.generation = generation := by
  simp [Db.controller, Option.filter_eq_some_iff]

theorem releaseScope_owner (h : db.owner key = some own) (previous : Option String) :
    (db.releaseScope key now previous).owner key = previous.map (fun agentId => own.restored agentId now) := by
  cases previous with
  | none => exact (Table.byKey_deleteKey key key db.ownership).trans (if_pos rfl)
  | some agentId =>
    refine (Table.byKey_updateKey_self key _ (by intro r; rfl) db.ownership).trans ?_
    unfold Db.owner at h
    rw [h]
    rfl

theorem releaseScope_owner_of_ne {j : String} (hne : j ≠ key) (previous : Option String) :
    (db.releaseScope key now previous).owner j = db.owner j := by
  cases previous with
  | none => exact (Table.byKey_deleteKey key j db.ownership).trans (if_neg hne)
  | some agentId => exact Table.byKey_updateKey_of_ne hne _ (by intro r; rfl) db.ownership

theorem releaseScope_frame (key : String) (now : Int) (previous : Option String) (db : Db) :
    (db.releaseScope key now previous).handoffEvents = db.handoffEvents ∧
    (db.releaseScope key now previous).outbox = db.outbox ∧
    (db.releaseScope key now previous).outboxSeq = db.outboxSeq := by
  cases previous <;> exact ⟨rfl, rfl, rfl⟩

theorem handbackWithContext_ok {json : JsonCodec J} {res : Option String × List J} {db' : Db}
    (h : handbackWithContext json key generation now db = (.ok res, db')) :
    ∃ own payload, db.owner key = some own ∧ own.ownerKind = .controller ∧ own.generation = generation ∧
      res = (own.previousAgentId, (db.operatorActions key generation).map (fun e => json.read e.payloadJson)) ∧
      db.Hands key (own.previousAgentId.map (fun agentId => own.restored agentId now))
        (handbackEvent key generation payload now) db' ∧ db'.outbox = db.outbox := by
  unfold handbackWithContext at h
  rw [transaction_ok] at h
  cases hown : db.controller key generation with
  | none => simp [hown] at h
  | some own =>
    obtain ⟨howner, hkind, hgen⟩ := controller_eq_some.1 hown
    simp only [hown, Option.isNone_some, Bool.false_eq_true, if_false, Option.bind_some] at h
    split at h
    · cases h
    rename_i payload _
    split at h
    · cases h
    rename_i db₁ hins
    obtain ⟨hev, hout, hseq⟩ := releaseScope_frame key now own.previousAgentId db
    unfold Db.insertHandoff at hins
    split at hins
    · cases hins
    cases hins
    cases h
    refine ⟨own, payload, howner, hkind, hgen, rfl, ?_, hout⟩
    exact {
      owner := releaseScope_owner howner _
      others := fun j hj => releaseScope_owner_of_ne hj _
      handoffs := by simp only [hev]
      seq := hseq
      ids := by simp only [hout] }

theorem handbackWithContext_cases (json : JsonCodec J) (key : String) (generation : Nat) (now : Int) (db : Db) :
    (∃ e, handbackWithContext json key generation now db = (.error e, db)) ∨
      ∃ res db', handbackWithContext json key generation now db = (.ok res, db') := by
  refine (transaction_cases _ db).imp_right ?_
  rintro ⟨res, db', -, h⟩
  exact ⟨res, db', h⟩

theorem handbackWithContext_refused (json : JsonCodec J) (h : db.controller key generation = none) (now : Int) :
    handbackWithContext json key generation now db =
      (.error (.invariant "ownership changed before handback"), db) := by
  simp [handbackWithContext, transaction, h]

end Execlaw
