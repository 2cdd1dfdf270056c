import Execlaw.Calls
import Execlaw.Keyed
import Execlaw.EventRecord
import Execlaw.JsonText
/-!
# TurnControls — steering and stop controls (`core/src/turn_controls.rs`)

A control is a row with a status, and a history of transitions with ordinals of its own; each writer updates the row
and appends to the history in one transaction.  A client's request key is bound to the hash of the kind and the payload
it first came with.
-/
namespace Execlaw

open Table

inductive TurnControlKind | queueNextTurn | steer | pause | resume | cancel
deriving DecidableEq

def TurnControlKind.asStr : TurnControlKind → String
  | .queueNextTurn => "queue_next_turn"
  | .steer => "steer"
  | .pause => "pause"
  | .resume => "resume"
  | .cancel => "cancel"

inductive TurnControlStatus | accepted | delivered | applied | acknowledged | cancelled | failed
deriving DecidableEq

def TurnControlStatus.asStr : TurnControlStatus → String
  | .accepted => "accepted"
  | .delivered => "delivered"
  | .applied => "applied"
  | .acknowledged => "acknowledged"
  | .cancelled => "cancelled"
  | .failed => "failed"

def TurnControlStatus.terminal : TurnControlStatus → Bool
  | .acknowledged | .cancelled | .failed => true
  | .accepted | .delivered | .applied => false

/-- The transitions `transition_in_transaction` allows. -/
def TurnControlStatus.allows : TurnControlStatus → TurnControlStatus → Bool
  | .accepted, .delivered | .accepted, .applied | .accepted, .acknowledged | .accepted, .cancelled
  | .accepted, .failed => true
  | .delivered, .applied | .delivered, .acknowledged | .delivered, .cancelled | .delivered, .failed => true
  | .applied, .acknowledged | .applied, .cancelled | .applied, .failed => true
  | _, _ => false

structure TurnControlRow where
  controlId : String
  conversationId : String
  turnId : Option String
  kind : TurnControlKind
  payloadJson : String
  status : TurnControlStatus
  acknowledgementJson : Option String
  createdAt : Int
  updatedAt : Int
  acknowledgedAt : Option Int
  clientRequestId : Option String
  requestBodySha256 : Option String
deriving DecidableEq

structure ControlTransition where
  controlId : String
  ordinal : Int
  status : TurnControlStatus
  detailJson : Option String
  occurredAt : Int
deriving DecidableEq

structure TurnControlRecord (V : Type) where
  controlId : String
  conversationId : String
  turnId : Option String
  kind : TurnControlKind
  payload : V
  status : TurnControlStatus
  acknowledgement : Option V
  createdAt : Int
  updatedAt : Int
  acknowledgedAt : Option Int

/-- `map_record`; a payload that cannot be read fails the row, an acknowledgement reads as `Null`. -/
def TurnControlRow.record {V : Type} (json : JsonColumn V) (r : TurnControlRow) : Option (TurnControlRecord V) :=
  (json.fromStr r.payloadJson).map fun payload =>
    { controlId := r.controlId, conversationId := r.conversationId, turnId := r.turnId, kind := r.kind
      payload := payload, status := r.status
      acknowledgement := r.acknowledgementJson.map (fun text => (json.fromStr text).getD json.null)
      createdAt := r.createdAt, updatedAt := r.updatedAt, acknowledgedAt := r.acknowledgedAt }

inductive TurnControlError
  | db (error : DbError)
  | idempotencyConflict
  | transition (msg : String)

structure TurnControls where
  controls : Keyed TurnControlRow.controlId (fun _ => True)
  transitions : List ControlTransition
  transcript : List (String × Int)

namespace TurnControlStore

abbrev ControlChange := Change TurnControlRow.controlId (fun _ => True)

def history (t : TurnControls) (controlId : String) : List ControlTransition :=
  t.transitions.filter (fun h => h.controlId == controlId)

def nextOrdinal (h : List ControlTransition) : Int := (h.map ControlTransition.ordinal).foldl max (-1) + 1

def insertTransition (h : ControlTransition) (t : TurnControls) : Except DbError TurnControls :=
  if t.transitions.any (fun g => g.controlId == h.controlId && g.ordinal == h.ordinal) then
    .error (.sqlite ("UNIQUE constraint failed: state_turn_control_transitions.control_id, " ++
      "state_turn_control_transitions.ordinal"))
  else .ok { t with transitions := t.transitions ++ [h] }

def requested (t : TurnControls) (conversationId clientRequestId : String) : Option (TurnControlRow) :=
  t.controls.rows.find? (fun r => r.conversationId == conversationId && r.clientRequestId == some clientRequestId)

section Json

variable {V : Type} (json : JsonColumn V)

/-- `rusqlite::Error::InvalidQuery`, what `map_record` makes of a payload it cannot read. -/
def unreadable : DbError := .sqlite "Query is not read-only"

def get (controlId : String) (t : TurnControls) : Except DbError (Option (TurnControlRecord V)) :=
  match t.controls.row controlId with
  | none => .ok none
  | some r =>
    match r.record json with
    | none => .error unreadable
    | some record => .ok (some record)

/-- The read behind a commit: an error of it is the call's, and the commit stands. -/
def readBack (controlId written : String) (t : TurnControls) : Except TurnControlError (TurnControlRecord V) :=
  match get json controlId t with
  | .error e => .error (.db e)
  | .ok none => .error (.transition s!"control disappeared after {written}")
  | .ok (some record) => .ok record

end Json

/-! ## `enqueue` -/

def insertControl (row : TurnControlRow) (t : TurnControls) : Except DbError TurnControls :=
  if row.clientRequestId.any (fun key => (requested t row.conversationId key).isSome) then
    .error (.sqlite ("UNIQUE constraint failed: state_turn_controls.conversation_id, " ++
      "state_turn_controls.client_request_id"))
  else
    match t.controls.insert? row trivial with
    | none => .error (.sqlite "UNIQUE constraint failed: state_turn_controls.control_id")
    | some controls =>
      insertTransition ⟨row.controlId, 0, .accepted, none, row.createdAt⟩ { t with controls := controls }

def newControl (controlId conversationId : String) (turnId : Option String) (kind : TurnControlKind)
    (payloadJson : String) (now : Int) (request : Option (String × String)) : TurnControlRow where
  controlId := controlId
  conversationId := conversationId
  turnId := turnId
  kind := kind
  payloadJson := payloadJson
  status := .accepted
  acknowledgementJson := none
  createdAt := now
  updatedAt := now
  acknowledgedAt := none
  clientRequestId := request.map Prod.fst
  requestBodySha256 := request.map Prod.snd

def malformedTurnId (turnId : Option String) : Bool :=
  turnId.any (fun value => value.isEmpty || 128 < value.utf8ByteSize)

def oversized (conversationId payloadJson : String) : Bool :=
  conversationId.isEmpty || 128 < conversationId.utf8ByteSize || 64 * 1024 < payloadJson.utf8ByteSize

section Enqueue

variable {V : Type} (json : JsonColumn V)

/-- `enqueue`; `controlId` is the fresh identifier. -/
def enqueue (conversationId : String) (turnId : Option String) (kind : TurnControlKind) (payload : V) (now : Int)
    (controlId : String) (t : TurnControls) :
    Except TurnControlError (TurnControlRecord V) × TurnControls :=
  match json.toString payload with
  | .error e => (.error (.transition s!"encode payload: {e}"), t)
  | .ok payloadJson =>
    if oversized conversationId payloadJson then
      (.error (.transition "conversation or payload exceeds its bounds"), t)
    else if malformedTurnId turnId then (.error (.transition "turn id is empty or oversized"), t)
    else
      match insertControl (newControl controlId conversationId turnId kind payloadJson now none) t with
      | .error e => (.error (.db e), t)
      | .ok t => (readBack json controlId "insertion" t, t)

/-! ## `enqueue_idempotent` -/

def reusedMessage : String := "turn-control idempotency key was reused with a different intent"

def malformedRequestId (clientRequestId : String) : Bool :=
  clientRequestId.isEmpty || 128 < clientRequestId.utf8ByteSize ||
    !clientRequestId.toList.all (fun c => 0x21 ≤ c.toNat && c.toNat ≤ 0x7e)

def requestText (kind : TurnControlKind) (payloadJson : String) : String :=
  kind.asStr ++ "\x00" ++ payloadJson

/-- The transaction of `enqueue_idempotent`: the control of the key, and whether it is new. -/
def enqueueIdempotentTx (row : TurnControlRow) (clientRequestId requestHash : String) (t : TurnControls) :
    Except DbError ((String × Bool) × TurnControls) :=
  match requested t row.conversationId clientRequestId with
  | some stored =>
    if stored.requestBodySha256 ≠ some requestHash then .error (.invariant reusedMessage)
    else .ok ((stored.controlId, false), t)
  | none => (insertControl row t).map (fun t => ((row.controlId, true), t))

/-- `enqueue_idempotent`; `controlId` is the fresh identifier, `sha256` the digest in hexadecimal. -/
def enqueueIdempotent (sha256 : String → String) (conversationId : String) (turnId : Option String)
    (kind : TurnControlKind) (payload : V) (clientRequestId : String) (now : Int) (controlId : String)
    (t : TurnControls) : Except TurnControlError (TurnControlRecord V × Bool) × TurnControls :=
  match json.toString payload with
  | .error e => (.error (.transition s!"encode payload: {e}"), t)
  | .ok payloadJson =>
    if oversized conversationId payloadJson || malformedRequestId clientRequestId then
      (.error (.transition "conversation, payload, or idempotency key exceeds its bounds"), t)
    else if malformedTurnId turnId then (.error (.transition "turn id is empty or oversized"), t)
    else
      let requestHash := sha256 (requestText kind payloadJson)
      let row := newControl controlId conversationId turnId kind payloadJson now (some (clientRequestId, requestHash))
      match Calls.transact (enqueueIdempotentTx row clientRequestId requestHash) t with
      | (.error (.invariant msg), t) =>
        (.error (if msg = reusedMessage then .idempotencyConflict else .db (.invariant msg)), t)
      | (.error e, t) => (.error (.db e), t)
      | (.ok (controlId, isNew), t) => ((readBack json controlId "insertion" t).map (fun control => (control, isNew)), t)

end Enqueue

/-! ## Transitions -/

def moveChange (next : TurnControlStatus) (ackJson : Option String) (now : Int) : ControlChange where
  takes := fun _ => true
  set := fun r =>
    { r with
      status := next, acknowledgementJson := ackJson.or r.acknowledgementJson, updatedAt := now
      acknowledgedAt := if next = .acknowledged then some now else r.acknowledgedAt }
  key_set := fun _ => rfl
  keeps_ok := fun _ h _ => h

section Transitions

variable {V : Type} (json : JsonColumn V)

/-- `transition_in_transaction`; a status that stands is no transition. -/
def transitionInTransaction (controlId : String) (next : TurnControlStatus) (acknowledgement : Option V) (now : Int)
    (t : TurnControls) : Except DbError TurnControls :=
  match acknowledgement.mapM json.toString with
  | .error e => .error (.serde s!"encode acknowledgement: {e}")
  | .ok ackJson =>
    if ackJson.any (fun value => 16 * 1024 < value.utf8ByteSize) then
      .error (.invariant "turn-control acknowledgement exceeds 16 KiB")
    else
      match t.controls.row controlId with
      | none => .error (.invariant "turn control was not found")
      | some r =>
        if r.status = next then .ok t
        else if r.status.terminal then
          .error (.invariant s!"terminal control state '{r.status.asStr}' cannot transition")
        else if !r.status.allows next then
          .error (.invariant s!"invalid control transition {r.status.asStr} -> {next.asStr}")
        else
          insertTransition ⟨controlId, nextOrdinal (history t controlId), next, ackJson, now⟩
            { t with controls := t.controls.update controlId (moveChange next ackJson now) }

def transition (controlId : String) (next : TurnControlStatus) (acknowledgement : Option V) (now : Int)
    (t : TurnControls) : Except TurnControlError (TurnControlRecord V) × TurnControls :=
  match transitionInTransaction json controlId next acknowledgement now t with
  | .error e => (.error (.db e), t)
  | .ok t => (readBack json controlId "transition" t, t)

end Transitions

def deliverChange (now : Int) : ControlChange where
  takes := fun r => r.status == .accepted
  set := fun r => { r with status := .delivered, updatedAt := now }
  key_set := fun _ => rfl
  keeps_ok := fun _ h _ => h

def claimDeliveryTx (controlId : String) (now : Int) (t : TurnControls) : Except DbError (Bool × TurnControls) :=
  if t.controls.changed controlId (deliverChange now) then
    (insertTransition
      ⟨controlId, nextOrdinal (history t controlId), .delivered, some "\x7b\"dispatch_claimed\":true\x7d", now⟩
      { t with controls := t.controls.update controlId (deliverChange now) }).map (fun t => (true, t))
  else .ok (false, t)

def claimDelivery (controlId : String) (now : Int) (t : TurnControls) :
    Except TurnControlError Bool × TurnControls :=
  match Calls.transact (claimDeliveryTx controlId now) t with
  | (.error e, t) => (.error (.db e), t)
  | (.ok claimed, t) => (.ok claimed, t)

/-! ## Queued messages -/

section Queued

variable {V : Type} (json : JsonColumn V)

/-- `apply_queued_message_in_transaction`; `event` is the JSON `{"event_seq": …}`. -/
def applyQueuedMessageInTransaction (controlId conversationId : String) (event : V) (now : Int)
    (t : TurnControls) : Except DbError TurnControls :=
  match t.controls.row controlId with
  | none => .error (.invariant "queued turn control was not found")
  | some r =>
    if r.conversationId ≠ conversationId ∨ r.kind ≠ .queueNextTurn then
      .error (.invariant "queued turn control scope mismatch")
    else if r.status ≠ .accepted ∧ r.status ≠ .delivered then
      .error (.invariant s!"queued turn control is already {r.status.asStr}")
    else transitionInTransaction json controlId .applied (some event) now t

/-- The transaction of `append_queued_turn_message`: the user event, and the control it came from. -/
def appendQueuedTurnMessage (controlId conversationId : String) (eventSeq : Int) (event : V) (now : Int) :
    TurnControls → Except DbError Unit × TurnControls :=
  Calls.transact fun t =>
    (applyQueuedMessageInTransaction json controlId conversationId event now
      { t with transcript := t.transcript ++ [(controlId, eventSeq)] }).map (fun t => ((), t))

end Queued

inductive Call (V : Type)
  | enqueue (conversationId : String) (turnId : Option String) (kind : TurnControlKind) (payload : V) (now : Int)
      (controlId : String)
  | enqueueIdempotent (conversationId : String) (turnId : Option String) (kind : TurnControlKind) (payload : V)
      (clientRequestId : String) (now : Int) (controlId : String)
  | transition (controlId : String) (next : TurnControlStatus) (acknowledgement : Option V) (now : Int)
  | claimDelivery (controlId : String) (now : Int)
  | appendQueuedTurnMessage (controlId conversationId : String) (eventSeq : Int) (event : V) (now : Int)

inductive Reply (V : Type)
  | control (record : TurnControlRecord V)
  | enqueued (record : TurnControlRecord V) (isNew : Bool)
  | claimed (claimed : Bool)
  | applied

def answer {α V : Type} (f : α → Reply V) :
    Except TurnControlError α × TurnControls → Except TurnControlError (Reply V) × TurnControls
  | (.ok a, t) => (.ok (f a), t)
  | (.error e, t) => (.error e, t)

def exec {V : Type} (json : JsonColumn V) (sha256 : String → String) (t : TurnControls) :
    Call V → Except TurnControlError (Reply V) × TurnControls
  | .enqueue conversationId turnId kind payload now controlId =>
    answer .control (enqueue json conversationId turnId kind payload now controlId t)
  | .enqueueIdempotent conversationId turnId kind payload clientRequestId now controlId =>
    answer (fun p => .enqueued p.1 p.2)
      (enqueueIdempotent json sha256 conversationId turnId kind payload clientRequestId now controlId t)
  | .transition controlId next acknowledgement now =>
    answer .control (transition json controlId next acknowledgement now t)
  | .claimDelivery controlId now => answer .claimed (claimDelivery controlId now t)
  | .appendQueuedTurnMessage controlId conversationId eventSeq event now =>
    match appendQueuedTurnMessage json controlId conversationId eventSeq event now t with
    | (.ok (), t) => (.ok .applied, t)
    | (.error e, t) => (.error (.db e), t)

def noControls : TurnControls := ⟨.empty, [], []⟩

end TurnControlStore

end Execlaw
