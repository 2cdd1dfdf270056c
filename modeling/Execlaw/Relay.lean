import Execlaw.Ownership
import Execlaw.Steps
/-!
# Relay — `drain_once` beside everyone else (`outbox/src/lib.rs`)

Any number of relays run `drain_once` over one outbox while callers enqueue, operators decide unknown outcomes and
controllers take scopes over.  A store call is one step; so is the start of a dispatch, its return, and a crash.
Between two steps of one relay anything may happen to the rows it read.
-/
namespace Execlaw

/-! ## What a relay is given -/

inductive DeliverySafety | idempotencyKey | statusLookup | noGuarantee
deriving DecidableEq

structure DispatchReceipt where
  externalReceipt : Option String := none

inductive DispatchResult
  | ok (receipt : DispatchReceipt)
  | notAccepted (error : String)
  | outcomeUnknown (error : String)

inductive ReconciliationResult
  | delivered (receipt : DispatchReceipt)
  | notDelivered
  | unknown (reason : String)

/-- One relay's process id, its registry of dispatchers (by what each declares) and its `DrainConfig`. -/
structure RelayConfig where
  pid : Nat
  registry : String → Option DeliverySafety
  batchSize : Int := 32
  maxAttempts : Nat := 5

def expBackoff (attempt : Nat) : Nat := min (1000 * 2 ^ min attempt 15) 600000

def backoffSecs (row : OutboxRow) : Int := (expBackoff ((row.attempts + 1) % 2 ^ 32).toNat / 1000 : Nat)

/-! ## Where a relay stands -/

inductive Outcome
  | delivered (receipt : Option String)
  | failure (error : String)
  | unknown (reason : String)
  | noDispatcher
deriving DecidableEq

inductive Phase
  | claimed
  | dispatching
  | reconciling (error : Option String)
  | settling (outcome : Outcome) (context : String)
deriving DecidableEq

/-- One iteration of the loop: the clock read at the start of the pass, the rows after this one, the count so far, and
the row as `ready_pending` returned it. -/
structure Job where
  nowTs : Int
  rest : List OutboxRow
  processed : Nat
  id : Int
  row : OutboxRow
deriving DecidableEq

inductive Relay
  | idle (result : Option (Except String Nat))
  | scanning (nowTs : Int) (rest : List OutboxRow) (processed : Nat)
  | working (job : Job) (phase : Phase)
deriving DecidableEq

inductive Entry (J : Type)
  | dispatch (relay : Nat) (id : Int)
  | notAccepted (relay : Nat) (id : Int)
  | released (id : Int)
  | assigned (key : String)
  | tookOver (key : String) (generation : Nat)
  | acted (key eventId : String) (conversationSeq : Int) (payload : J) (payloadJson : String)
  | handedBack (key : String) (generation : Nat) (previous : Option String)
deriving DecidableEq

structure System (J : Type) where
  db : Db
  clock : Int
  relays : Nat → Relay
  /-- The relay whose claim of a row succeeded last. -/
  claims : Int → Option Nat
  history : List (Entry J)

structure Env (J : Type) where
  relay : Nat → RelayConfig
  scopeKey : String → String → String → String
  json : JsonCodec J

inductive Action (J : Type)
  | setClock (now : Int)
  | beginDrain (r : Nat)
  | claimNext (r : Nat)
  | finishDrain (r : Nat)
  | proceed (r : Nat)
  | dispatchReturned (r : Nat) (result : DispatchResult)
  | reconcileReturned (r : Nat) (result : Except String ReconciliationResult)
  | settle (r : Nat)
  | crash (r : Nat)
  | enqueue (row : OutboxRow)
  | enqueueIdempotent (row : OutboxRow)
  | enqueueForAgent (row : OutboxRow) (scopeKey agentId : String) (generation : Nat)
  | authorizeUnknownRetry (id : Int) (actor reason : String)
  | confirmUnknownDelivered (id : Int) (actor receipt : String)
  | redriveDeadLetter (id : Int) (actor reason : String)
  | assignAgent (conversationId channel recipient agentId : String)
  | takeover (conversationId channel recipient : String)
  | recordOperatorAction (conversationId channel recipient eventId : String) (conversationSeq : Int) (payload : J)
  | handback (conversationId channel recipient : String) (generation : Nat)

/-! ## The steps of a relay -/

section Exec

variable {J : Type}

def System.setRelay (s : System J) (r : Nat) (x : Relay) : System J := { s with relays := Function.update s.relays r x }

/-- `dispatcher.dispatch(&row)` is called. -/
def System.startDispatch (s : System J) (r : Nat) (job : Job) : System J :=
  { s.setRelay r (.working job .dispatching) with history := .dispatch r job.id :: s.history }

def System.settled (s : System J) (r : Nat) (job : Job) (context : String) (counted : Nat) {α : Type} :
    Except DbError α × Db → System J
  | (.ok _, db) => { s.setRelay r (.scanning job.nowTs job.rest (job.processed + counted)) with db := db }
  | (.error e, db) => { s.setRelay r (.idle (some (.error (context ++ e.display)))) with db := db }

/-- `store.claim_with_lease(id, "relay:{pid}:{now_ts}", now_ts, 120)` on the next row. -/
def System.claimNext (env : Env J) (s : System J) (r : Nat) (nowTs : Int) (row : OutboxRow) (rest : List OutboxRow)
    (processed : Nat) : System J :=
  match row.id with
  | none => s.setRelay r (.scanning nowTs rest processed)
  | some id =>
    match claimWithLease id s!"relay:{(env.relay r).pid}:{nowTs}" nowTs 120 s.db with
    | (.error e, db) => { s.setRelay r (.idle (some (.error ("claim: " ++ e.display)))) with db := db }
    | (.ok false, db) => { s.setRelay r (.scanning nowTs rest processed) with db := db }
    | (.ok true, db) =>
      { s.setRelay r (.working ⟨nowTs, rest, processed, id, row⟩ .claimed) with
        db := db, claims := Function.update s.claims id (some r) }

def System.proceed (env : Env J) (s : System J) (r : Nat) (job : Job) : System J :=
  match (env.relay r).registry job.row.effectKind with
  | none => s.setRelay r (.working job (.settling .noDispatcher ""))
  | some safety =>
    if job.row.status = .inFlight then
      match safety with
      | .idempotencyKey => s.startDispatch r job
      | .noGuarantee =>
        s.setRelay r (.working job (.settling
          (.unknown ("relay restarted with an in-flight effect and the sink has no " ++ "deduplication or status lookup"))
          "mark expired no-guarantee effect unknown: "))
      | .statusLookup => s.setRelay r (.working job (.reconciling none))
    else s.startDispatch r job

def System.dispatchReturned (env : Env J) (s : System J) (r : Nat) (job : Job) : DispatchResult → System J
  | .ok receipt =>
    s.setRelay r (.working job (.settling (.delivered receipt.externalReceipt) "mark_delivered: "))
  | .notAccepted error =>
    { s.setRelay r (.working job (.settling (.failure error) "record_failure: ")) with
      history := .notAccepted r job.id :: s.history }
  | .outcomeUnknown error =>
    match (env.relay r).registry job.row.effectKind with
    | some .idempotencyKey => s.setRelay r (.working job (.settling (.failure error) "record_failure: "))
    | some .statusLookup => s.setRelay r (.working job (.reconciling (some error)))
    | _ => s.setRelay r (.working job (.settling (.unknown error) "mark_unknown: "))

def System.reconcileReturned (s : System J) (r : Nat) (job : Job) :
    Option String → Except String ReconciliationResult → System J
  | none, .ok (.delivered receipt) =>
    s.setRelay r (.working job (.settling (.delivered receipt.externalReceipt) "record reconciled delivery: "))
  | none, .ok .notDelivered => s.startDispatch r job
  | none, .ok (.unknown reason) | none, .error reason =>
    s.setRelay r (.working job (.settling (.unknown s!"expired in-flight effect reconciliation: {reason}")
      "mark unresolved expired effect unknown: "))
  | some _, .ok (.delivered receipt) =>
    s.setRelay r (.working job (.settling (.delivered receipt.externalReceipt) "mark_delivered: "))
  | some error, .ok .notDelivered => s.setRelay r (.working job (.settling (.failure error) "record_failure: "))
  | some error, .ok (.unknown reason) =>
    s.setRelay r (.working job (.settling (.unknown s!"{error}; reconciliation: {reason}") "mark_unknown: "))
  | some error, .error reason =>
    s.setRelay r (.working job (.settling (.unknown s!"{error}; reconciliation failed: {reason}") "mark_unknown: "))

def System.settle (env : Env J) (s : System J) (r : Nat) (job : Job) (context : String) : Outcome → System J
  | .delivered receipt => s.settled r job context 1 (markDeliveredWithReceipt job.id receipt s.clock s.db)
  | .failure error =>
    s.settled r job context 1
      (recordFailure job.id error (env.relay r).maxAttempts (backoffSecs job.row) s.clock s.db)
  | .unknown reason => s.settled r job context 1 (markUnknown job.id reason s.clock s.db)
  | .noDispatcher =>
    { s.setRelay r (.scanning job.nowTs job.rest job.processed) with
      db := (recordFailure job.id s!"no dispatcher for '{job.row.effectKind}'" 1 0 s.clock s.db).2 }

/-! ## Everyone else -/

def System.call (s : System J) {α : Type} (note : α → List (Entry J)) : Except DbError α × Db → System J
  | (.ok a, db) => { s with db := db, history := note a ++ s.history }
  | (.error _, db) => { s with db := db }

def System.recordOperatorAction (env : Env J) (s : System J) (key eventId : String) (conversationSeq : Int)
    (payload : J) : System J :=
  s.call (fun inserted =>
      if inserted then [.acted key eventId conversationSeq payload ((env.json.toString payload).toOption.getD "")] else [])
    (Execlaw.recordOperatorAction env.json key eventId conversationSeq payload s.clock s.db)

/-- One step of the system; `none` when the action is not the relay's next. -/
def System.exec (env : Env J) (s : System J) : Action J → Option (System J)
  | .setClock now => some { s with clock := now }
  | .beginDrain r =>
    match s.relays r with
    | .idle _ => some (s.setRelay r (.scanning s.clock (readyPending s.db s.clock (env.relay r).batchSize) 0))
    | _ => none
  | .claimNext r =>
    match s.relays r with
    | .scanning nowTs (row :: rest) n => some (s.claimNext env r nowTs row rest n)
    | _ => none
  | .finishDrain r =>
    match s.relays r with
    | .scanning _ [] n => some (s.setRelay r (.idle (some (.ok n))))
    | _ => none
  | .proceed r =>
    match s.relays r with
    | .working job .claimed => some (s.proceed env r job)
    | _ => none
  | .dispatchReturned r result =>
    match s.relays r with
    | .working job .dispatching => some (s.dispatchReturned env r job result)
    | _ => none
  | .reconcileReturned r result =>
    match s.relays r with
    | .working job (.reconciling error) => some (s.reconcileReturned r job error result)
    | _ => none
  | .settle r =>
    match s.relays r with
    | .working job (.settling outcome context) => some (s.settle env r job context outcome)
    | _ => none
  | .crash r => some (s.setRelay r (.idle none))
  | .enqueue row => some (s.call (fun _ => []) (Execlaw.enqueue row s.clock s.db))
  | .enqueueIdempotent row => some (s.call (fun _ => []) (Execlaw.enqueueIdempotent row s.clock s.db))
  | .enqueueForAgent row key agentId generation =>
    some (s.call (fun _ => []) (enqueueIdempotentForAgent row key agentId generation s.clock s.db))
  | .authorizeUnknownRetry id actor reason =>
    some (s.call (fun _ => [.released id]) (Execlaw.authorizeUnknownRetry id actor reason s.clock s.db))
  | .confirmUnknownDelivered id actor receipt =>
    some (s.call (fun _ => []) (Execlaw.confirmUnknownDelivered id actor receipt s.clock s.db))
  | .redriveDeadLetter id actor reason =>
    some (s.call (fun _ => [.released id]) (Execlaw.redriveDeadLetter id actor reason s.clock s.db))
  | .assignAgent conversationId channel recipient agentId =>
    let key := env.scopeKey conversationId channel recipient
    some (s.call (fun _ => if (s.db.owner key).isNone then [.assigned key] else [])
      (Execlaw.assignAgent key conversationId agentId s.clock s.db))
  | .takeover conversationId channel recipient =>
    let key := env.scopeKey conversationId channel recipient
    some (s.call (fun own => [.tookOver key own.generation]) (Execlaw.takeover key conversationId s.clock s.db))
  | .recordOperatorAction conversationId channel recipient eventId seq payload =>
    some (s.recordOperatorAction env (env.scopeKey conversationId channel recipient) eventId seq payload)
  | .handback conversationId channel recipient generation =>
    let key := env.scopeKey conversationId channel recipient
    some (s.call (fun res => [.handedBack key generation res.1])
      (handbackWithContext env.json key generation s.clock s.db))

def System.Step (env : Env J) (s : System J) (a : Action J) (s' : System J) : Prop := s.exec env a = some s'

structure System.Start (s : System J) : Prop where
  outbox : s.db.outbox = []
  owners : s.db.ownership = []
  handoffs : s.db.handoffEvents = []
  idle : ∀ r, ∃ result, s.relays r = .idle result
  history : s.history = []

end Exec

/-! ## Whose step it is -/

section Inversion

variable {J : Type} {env : Env J} {s s' : System J} {a : Action J}

def Action.relay? : Action J → Option Nat
  | .beginDrain r | .claimNext r | .finishDrain r | .proceed r | .dispatchReturned r _ | .reconcileReturned r _
  | .settle r | .crash r => some r
  | _ => none

/-- **The steps of a relay**, each from where the relay must stand to take it. -/
inductive RelayStep (env : Env J) (s : System J) (r : Nat) : Action J → System J → Prop
  | beginDrain {result : Option (Except String Nat)} (stands : s.relays r = .idle result) :
      RelayStep env s r (.beginDrain r)
        (s.setRelay r (.scanning s.clock (readyPending s.db s.clock (env.relay r).batchSize) 0))
  | claimNext {nowTs : Int} {row : OutboxRow} {rest : List OutboxRow} {n : Nat}
      (stands : s.relays r = .scanning nowTs (row :: rest) n) :
      RelayStep env s r (.claimNext r) (s.claimNext env r nowTs row rest n)
  | finishDrain {nowTs : Int} {n : Nat} (stands : s.relays r = .scanning nowTs [] n) :
      RelayStep env s r (.finishDrain r) (s.setRelay r (.idle (some (.ok n))))
  | proceed {job : Job} (stands : s.relays r = .working job .claimed) :
      RelayStep env s r (.proceed r) (s.proceed env r job)
  | dispatchReturned {job : Job} (stands : s.relays r = .working job .dispatching) (result : DispatchResult) :
      RelayStep env s r (.dispatchReturned r result) (s.dispatchReturned env r job result)
  | reconcileReturned {job : Job} {error : Option String} (stands : s.relays r = .working job (.reconciling error))
      (result : Except String ReconciliationResult) :
      RelayStep env s r (.reconcileReturned r result) (s.reconcileReturned r job error result)
  | settle {job : Job} {outcome : Outcome} {context : String}
      (stands : s.relays r = .working job (.settling outcome context)) :
      RelayStep env s r (.settle r) (s.settle env r job context outcome)
  | crash : RelayStep env s r (.crash r) (s.setRelay r (.idle none))

theorem exec_relay {q : Nat} (ha : a.relay? = some q) (h : s.exec env a = some s') : RelayStep env s q a s' := by
  cases a with
  | crash r =>
    cases ha
    cases h
    exact .crash
  | beginDrain r | claimNext r | finishDrain r | proceed r | dispatchReturned r result | reconcileReturned r result
  | settle r =>
    cases ha
    simp only [System.exec] at h
    split at h <;> cases h
    constructor
    assumption
  | _ => cases ha

end Inversion

/-! ## Running a list of steps -/

section Run

variable {J : Type} {env : Env J}

def System.execAll (env : Env J) (ok : System J → Action J → Bool) : System J → List (Action J) → Option (System J)
  | s, [] => some s
  | s, a :: as => if ok s a then (s.exec env a).bind (fun m => m.execAll env ok as) else none

theorem run_of_execAll {ok : System J → Action J → Bool} : ∀ {as : List (Action J)} {s s' : System J},
    s.execAll env ok as = some s' → Steps.Run (fun s a s' => s.Step env a s' ∧ ok s a = true) s as s'
  | [], _, _, h => Option.some.inj h
  | a :: as, s, s', h => by
    unfold System.execAll at h
    split at h
    · rename_i hok
      obtain ⟨m, hm, hrest⟩ := Option.bind_eq_some_iff.1 h
      exact ⟨m, ⟨hm, hok⟩, run_of_execAll hrest⟩
    · cases h

end Run

/-! ## A small system -/

def textJson : JsonCodec String where
  toString := .ok
  listToString := fun texts => .ok ("[" ++ ",".intercalate texts ++ "]")
  fromStr := some
  null := "null"

def sampleEnv : Env String where
  relay := fun r => { pid := r, registry := fun kind => if kind = "transport.send" then some .noGuarantee else none }
  scopeKey := fun conversationId channel recipient => conversationId ++ "/" ++ channel ++ "/" ++ recipient
  json := textJson

def emptySystem : System String where
  db := {}
  clock := 0
  relays := fun _ => .idle none
  claims := fun _ => none
  history := []

theorem emptySystem_start : emptySystem.Start := ⟨rfl, rfl, rfl, fun _ => ⟨none, rfl⟩, rfl⟩

def sampleRow : OutboxRow where
  idempotencyKey := "c1:1:0"
  conversationId := "c1"
  effectKind := "transport.send"
  payload := [1]
  enqueuedSeq := 1

end Execlaw
