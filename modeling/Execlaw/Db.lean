import Execlaw.EventRecord
import Execlaw.Table
/-!
# Db — the tables the stores share (`core/migrations`, `core/src/db.rs`)

One record holds every table the modelled stores read or write; a store operation is a function on it.  Columns keep
the types the Rust side reads them at: `INTEGER` is `Int`, `TEXT` is `String` (an enumerated text column is an
inductive type), `BLOB` is `List UInt8`.  A transaction that fails leaves the record as it was.
-/
namespace Execlaw

structure EventRow where
  conversationId : String
  seq : Int
  kind : String
  payload : List UInt8
  committedAt : Int
  actor : Option String
  tag : Option (List UInt8) := none
  keyId : Int := 0
  integrityVersion : Int := 1
  prevTag : Option (List UInt8) := none
deriving DecidableEq

/-- `state_event_integrity_heads`, without its key and its clock column. -/
structure IntegrityHead where
  chainStartSeq : Int
  headSeq : Int
  headTag : List UInt8
  genesisKeyId : Int
  keyId : Int
  checkpointTag : List UInt8
deriving DecidableEq

/-- `state_conversations`, the columns the sweepers read and write. -/
structure ConversationRow where
  conversationId : String
  isPinned : Bool
  isEphemeral : Bool
  ephemeralExpiresAt : Option Int
  lastActivityAt : Int
  lastSeq : Int
  snapshotBlob : Option (List UInt8)
  snapshotSeq : Option Int
deriving DecidableEq

inductive RunStatus | pending | running | waiting | completed | failed | cancelled
deriving DecidableEq

structure RunRow where
  runId : String
  conversationId : String
  status : RunStatus
  inputEventSeq : Int
  startedAt : Int
  parentRunId : Option String := none
  cursor : Int := 0
  deadlineAt : Option Int := none
deriving DecidableEq

inductive RunStepKind
  | modelRequest | deterministicCompute | toolDispatch | approvalWait | outboxEnqueue | childRunSpawn | childRunJoin
  | artifactPublish
deriving DecidableEq

inductive RunStepStatus | pending | running | waiting | completed | failed
deriving DecidableEq

/-- The columns `status`, `lease_owner`, `lease_expires_at` and `completed_at` of `state_run_steps`.  The table's
`CHECK` constraints allow a lease on a running step alone, and a completion time on a finished one alone. -/
inductive StepState
  | pending
  | running (leaseOwner : String) (leaseExpiresAt : Int)
  | waiting
  | completed (completedAt : Int)
  | failed (completedAt : Int)
deriving DecidableEq

structure RunStepRecord where
  runId : String
  stepId : String
  ordinal : Int
  kind : RunStepKind
  state : StepState := .pending
  attempt : Int := 0
  inputHash : String
  outputRef : Option String := none
  approvalId : Option String := none
  outboxIdempotencyKey : Option String := none
  startedAt : Option Int := none
deriving DecidableEq

structure ExecutionBudgetRow where
  runId : String
  timeLimitMs : Int
  deadlineAtMs : Int
  retryLimit : Nat
  retriesUsed : Nat := 0
  effectLimit : Nat
  effectsUsed : Nat := 0
  updatedAtMs : Int
deriving DecidableEq

inductive OutboxStatus | pending | inFlight | delivered | failed | deadLetter | unknown
deriving DecidableEq

structure OutboxRec where
  id : Int
  idempotencyKey : String
  conversationId : String
  effectKind : String
  payload : List UInt8
  status : OutboxStatus
  attempts : Int
  nextAttemptAt : Option Int
  lastError : Option String
  enqueuedSeq : Int
  leaseOwner : Option String := none
  leaseExpiresAt : Option Int := none
  ownershipScopeKey : Option String := none
  ownershipGeneration : Option Nat := none
deriving DecidableEq

/-- The `transition` column of `state_outbox_delivery_events`. -/
inductive Transition
  | enqueued | sendRequested | leaseReclaimed | delivered | outcomeUnknown | retryAuthorized
  | operatorConfirmedDelivered | retryScheduled | deadLetter | operatorRedrive | cancelledByTakeover
  | takeoverOutcomeUnknown
deriving DecidableEq

structure DeliveryEvent where
  outboxId : Int
  transition : Transition
  occurredAt : Int
  attempt : Int
  detail : Option String := none
  externalReceipt : Option String := none
  actor : Option String := none
deriving DecidableEq

inductive OwnerKind | controller | agent
deriving DecidableEq

structure OwnershipRow where
  scopeKey : String
  conversationId : String
  ownerKind : OwnerKind
  agentId : Option String
  previousAgentId : Option String
  generation : Nat
  updatedAt : Int
deriving DecidableEq

inductive HandoffKind | takeover | operatorAction | handback
deriving DecidableEq

structure HandoffEvent where
  scopeKey : String
  generation : Nat
  eventKind : HandoffKind
  eventId : String
  conversationSeq : Option Int
  payloadJson : String
  occurredAt : Int
deriving DecidableEq

structure Db where
  events : List EventRow := []
  /-- The `(conversation_id, seq)` pairs that rows of other tables hold under a foreign key without `ON DELETE`. -/
  eventRefs : List (String × Int) := []
  heads : List (String × IntegrityHead) := []
  conversations : List ConversationRow := []
  /-- The conversations `state_compaction_receipts` holds under a foreign key without `ON DELETE`. -/
  conversationRefs : List String := []
  runs : List RunRow := []
  steps : List RunStepRecord := []
  budgets : List ExecutionBudgetRow := []
  outbox : List OutboxRec := []
  /-- `sqlite_sequence` of `state_outbox`: the largest id ever assigned. -/
  outboxSeq : Int := 0
  deliveryEvents : List DeliveryEvent := []
  ownership : List OwnershipRow := []
  handoffEvents : List HandoffEvent := []
deriving DecidableEq

/-- `Database::transaction`: commit what the body did, or nothing. -/
def transaction {α : Type} (f : Db → Except DbError (α × Db)) (db : Db) : Except DbError α × Db :=
  match f db with
  | .ok (a, db') => (.ok a, db')
  | .error e => (.error e, db)

variable {α : Type} {f : Db → Except DbError (α × Db)}

theorem transaction_ok {db : Db} {a : α} {db' : Db} : transaction f db = (.ok a, db') ↔ f db = .ok (a, db') := by
  unfold transaction
  cases f db with
  | error e => simp
  | ok p => cases p; simp

theorem transaction_error {db : Db} {e : DbError} (h : (transaction f db).1 = .error e) :
    (transaction f db).2 = db := by
  unfold transaction at h ⊢
  cases hf : f db with
  | error e => rfl
  | ok p => rw [hf] at h; cases h

theorem transaction_cases (f : Db → Except DbError (α × Db)) (db : Db) :
    (∃ e, transaction f db = (.error e, db)) ∨ ∃ a db', f db = .ok (a, db') ∧ transaction f db = (.ok a, db') := by
  unfold transaction
  cases f db with
  | error e => exact .inl ⟨e, rfl⟩
  | ok p => exact .inr ⟨p.1, p.2, rfl, rfl⟩

theorem transaction_snd {db : Db} {P : Db → Prop} (h₀ : P db) (h : ∀ a db', f db = .ok (a, db') → P db') :
    P (transaction f db).2 := by
  unfold transaction
  cases hf : f db with
  | error e => exact h₀
  | ok p => exact h p.1 p.2 hf

theorem bind_eq_ok {ε α β : Type} {x : Except ε α} {f : α → Except ε β} {b : β} :
    (x >>= f) = .ok b ↔ ∃ a, x = .ok a ∧ f a = .ok b := by
  cases x with
  | error e | ok a => simp [bind, Except.bind]

end Execlaw
