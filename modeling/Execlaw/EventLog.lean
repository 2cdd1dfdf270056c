import Execlaw.Db
/-!
# EventLog — the signed, append-only event log (`core/src/events.rs`)

`EventLog` is a database and an optional key ring; here both are arguments.  The MAC is the parameter `mac`, the
MessagePack codec the parameter `codec`, and `now` is what `chrono::Utc::now()` returned.  Reads load the conversation's
rows in sequence order and its integrity head; `verifyIntegrity` walks them.  Writes are transactions: the two keyed
writers, `append` and `commitTurnWithProjection`, verify what is there, sign, insert and move the head.
-/
namespace Execlaw

open Wire EventHmac

/-! ## The key ring -/

/-- `keys` is the map from key id to key bytes. -/
structure KeyRing where
  keys : List (Int × List UInt8)
  currentId : Int

namespace KeyRing

def single (id : Int) (key : List UInt8) : KeyRing := ⟨[(id, key)], id⟩

def add (ring : KeyRing) (id : Int) (key : List UInt8) : KeyRing := { ring with keys := Table.upsert id key ring.keys }

def keyFor (ring : KeyRing) (id : Int) : Option (List UInt8) := Table.get id ring.keys

def setCurrent (ring : KeyRing) (id : Int) : Except DbError KeyRing :=
  match ring.keyFor id with
  | none => .error (.config s!"key_ring: key_id {id} is not registered")
  | some _ => .ok { ring with currentId := id }

def rotate (ring : KeyRing) (newId : Int) (newKey : List UInt8) : Int × KeyRing :=
  (ring.currentId, ⟨Table.upsert newId newKey ring.keys, newId⟩)

def currentKey (ring : KeyRing) : Option (List UInt8) := ring.keyFor ring.currentId

end KeyRing

/-! ## Rows and heads as the log reads them -/

structure IntegrityRow where
  event : EventRecord
  tag : Option (List UInt8)
  keyId : Int
  integrityVersion : Int
  prevTag : Option (List UInt8)

def EventRow.toIntegrityRow (r : EventRow) : IntegrityRow :=
  { event := { conversationId := r.conversationId, seq := r.seq, kind := EventKind.parse r.kind, payload := r.payload,
               committedAt := r.committedAt, actor := r.actor }
    tag := r.tag, keyId := r.keyId, integrityVersion := r.integrityVersion, prevTag := r.prevTag }

def loadIntegrityRows (db : Db) (cid : String) : List IntegrityRow :=
  (Table.orderBy EventRow.seq (db.events.filter (fun r => decide (r.conversationId = cid)))).map
    EventRow.toIntegrityRow

def loadIntegrityHead (db : Db) (cid : String) : Option IntegrityHead := Table.get cid db.heads

def fixedTag (bytes : List UInt8) (context : String) : Except DbError Tag :=
  if h : bytes.length = 32 then .ok ⟨bytes, h⟩
  else
    let len := bytes.length
    .error (.tamperDetected s!"{context} has malformed tag (len {len})")

/-- `ok_or_else(missing)` and then `fixed_tag`. -/
def requiredTag (stored : Option (List UInt8)) (missing context : String) : Except DbError Tag :=
  match stored with
  | none => .error (.tamperDetected missing)
  | some bytes => fixedTag bytes context

def v1Canonical (ev : EventRecord) : List UInt8 :=
  canonicalBytes ev.conversationId ev.seq ev.kind.asStr ev.committedAt ev.actor ev.payload

def legacyRowBytes (row : IntegrityRow) : List UInt8 :=
  v1Canonical row.event ++ (leI64 row.keyId ++
    match row.tag with
    | some tag => leU64 tag.length ++ tag
    | none => leU64 0)

def IntegrityRow.isLegacy (row : IntegrityRow) : Bool := decide (row.integrityVersion = 1)

def IntegrityRow.isChained (row : IntegrityRow) : Bool := decide (row.integrityVersion = 2)

def legacyGenesisCanonical (cid : String) (chainStartSeq : Int) (rows : List IntegrityRow) : List UInt8 :=
  canonicalGenesis cid chainStartSeq ((rows.filter IntegrityRow.isLegacy).map legacyRowBytes)

/-! ## Verification -/

/-- `EventLog::verify`: a legacy row's own tag, if it has one. -/
def verify (mac : Mac) (ring : Option KeyRing) (ev : EventRecord) (tag : Option (List UInt8)) (keyId : Int) :
    Except DbError Unit :=
  let cid := ev.conversationId
  let seq := ev.seq
  match ring, tag with
  | none, _ => .ok ()
  | some _, none => .ok ()
  | some ring, some tagBytes =>
    match ring.keyFor keyId with
    | none => .error (.tamperDetected s!"event {cid}:{seq} signed with key_id {keyId} that isn't in the ring")
    | some key =>
      if h : tagBytes.length = 32 then
        if verifyEvent mac key (v1Canonical ev) ⟨tagBytes, h⟩ then .ok ()
        else .error (.tamperDetected s!"event {cid}:{seq} failed HMAC verification")
      else
        let len := tagBytes.length
        .error (.tamperDetected s!"event {cid}:{seq} has malformed tag (len {len})")

def verifyLegacyRows (mac : Mac) (ring : KeyRing) : List IntegrityRow → Except DbError Unit
  | [] => .ok ()
  | row :: rows => do
    verify mac (some ring) row.event row.tag row.keyId
    verifyLegacyRows mac ring rows

def verifyChainRow (mac : Mac) (ring : KeyRing) (cid : String) (expectedPrev : Tag) (expectedSeq : Int)
    (row : IntegrityRow) : Except DbError Tag := do
  let seq := row.event.seq
  if seq ≠ expectedSeq then
    .error (.tamperDetected s!"conversation {cid} v2 sequence expected {expectedSeq}, found {seq}")
  else
    let storedPrev ← requiredTag row.prevTag s!"event {cid}:{seq} is v2 but has no prev_tag" "event prev_tag"
    if storedPrev ≠ expectedPrev then
      .error (.tamperDetected s!"event {cid}:{seq} breaks the v2 predecessor chain")
    else
      let tag ← requiredTag row.tag s!"event {cid}:{seq} is v2 but has no tag" "event tag"
      let keyId := row.keyId
      match ring.keyFor keyId with
      | none => .error (.tamperDetected s!"event {cid}:{seq} signed with unknown key_id {keyId}")
      | some key =>
        if verifyEvent mac key (canonicalChainEvent (v1Canonical row.event) keyId storedPrev) tag then .ok tag
        else .error (.tamperDetected s!"event {cid}:{seq} failed v2 HMAC verification")

def verifyChain (mac : Mac) (ring : KeyRing) (cid : String) : List IntegrityRow → Tag → Int → Except DbError (Tag × Int)
  | [], expectedPrev, expectedSeq => .ok (expectedPrev, expectedSeq)
  | row :: rows, expectedPrev, expectedSeq => do
    let tag ← verifyChainRow mac ring cid expectedPrev expectedSeq row
    verifyChain mac ring cid rows tag (expectedSeq + 1)

def verifyCheckpoint (mac : Mac) (ring : KeyRing) (cid : String) (head : IntegrityHead) (expectedPrev : Tag)
    (expectedHeadSeq : Int) : Except DbError Unit := do
  let storedHead ← fixedTag head.headTag "integrity head"
  if head.headSeq ≠ expectedHeadSeq ∨ storedHead ≠ expectedPrev then
    .error (.tamperDetected s!"conversation {cid} terminal checkpoint does not match event tail")
  else
    let keyId := head.keyId
    match ring.keyFor keyId with
    | none => .error (.tamperDetected s!"conversation {cid} checkpoint uses unknown key_id {keyId}")
    | some checkpointKey =>
      let checkpoint ← fixedTag head.checkpointTag "checkpoint tag"
      if verifyEvent mac checkpointKey
          (canonicalCheckpoint cid head.chainStartSeq head.headSeq storedHead head.genesisKeyId keyId) checkpoint then
        .ok ()
      else .error (.tamperDetected s!"conversation {cid} checkpoint signature is invalid")

def verifyIntegrity (mac : Mac) (ring : Option KeyRing) (cid : String) (rows : List IntegrityRow)
    (head : Option IntegrityHead) : Except DbError Unit :=
  match ring with
  | none => .ok ()
  | some ring => do
    verifyLegacyRows mac ring (rows.filter IntegrityRow.isLegacy)
    let v2Rows := rows.filter IntegrityRow.isChained
    match head with
    | none =>
      if v2Rows.isEmpty then .ok ()
      else .error (.tamperDetected s!"conversation {cid} has v2 events but no integrity checkpoint")
    | some head =>
      let start := head.chainStartSeq
      if start < 1 then .error (.tamperDetected s!"conversation {cid} has invalid chain start {start}")
      else
        let genesisKeyId := head.genesisKeyId
        match ring.keyFor genesisKeyId with
        | none => .error (.tamperDetected s!"conversation {cid} genesis uses unknown key_id {genesisKeyId}")
        | some genesisKey =>
          let genesis := signEvent mac genesisKey (legacyGenesisCanonical cid start rows)
          let (tail, nextSeq) ← verifyChain mac ring cid v2Rows genesis start
          verifyCheckpoint mac ring cid head tail (nextSeq - 1)

/-! ## Heads -/

def initialIntegrityHead (mac : Mac) (ring : Option KeyRing) (cid : String) (rows : List IntegrityRow) :
    Except DbError IntegrityHead :=
  match ring with
  | none => .error (.config "v2 integrity checkpoints require a KeyRing")
  | some ring =>
    match ring.currentKey with
    | none => .error (.config "KeyRing has no current key")
    | some key =>
      if rows.any (fun row => !row.isLegacy) then
        .error (.tamperDetected s!"conversation {cid} has v2 rows without a checkpoint")
      else
        let legacyMax := (rows.getLast?.map (fun row => row.event.seq)).getD 0
        let chainStartSeq := legacyMax + 1
        let headTag := signEvent mac key (legacyGenesisCanonical cid chainStartSeq rows)
        let checkpointTag := signEvent mac key
          (canonicalCheckpoint cid chainStartSeq legacyMax headTag ring.currentId ring.currentId)
        .ok { chainStartSeq := chainStartSeq, headSeq := legacyMax, headTag := headTag.bytes,
              genesisKeyId := ring.currentId, keyId := ring.currentId, checkpointTag := checkpointTag.bytes }

def writeIntegrityHead (db : Db) (cid : String) (head : IntegrityHead) : Db :=
  { db with heads := Table.upsert cid head db.heads }

def advanceIntegrityHead (mac : Mac) (ring : Option KeyRing) (cid : String) (chainStartSeq genesisKeyId headSeq : Int)
    (headTag : Tag) : Except DbError IntegrityHead :=
  match ring with
  | none => .error (.config "v2 integrity checkpoints require a KeyRing")
  | some ring =>
    match ring.currentKey with
    | none => .error (.config "KeyRing has no current key")
    | some key =>
      let checkpointTag := signEvent mac key
        (canonicalCheckpoint cid chainStartSeq headSeq headTag genesisKeyId ring.currentId)
      .ok { chainStartSeq := chainStartSeq, headSeq := headSeq, headTag := headTag.bytes,
            genesisKeyId := genesisKeyId, keyId := ring.currentId, checkpointTag := checkpointTag.bytes }

def openIntegrityHead (mac : Mac) (ring : KeyRing) (db : Db) (cid : String) (rows : List IntegrityRow) :
    Except DbError IntegrityHead :=
  match loadIntegrityHead db cid with
  | some head => do
    verifyIntegrity mac (some ring) cid rows (some head)
    return head
  | none => initialIntegrityHead mac (some ring) cid rows

def establishV2Checkpoint (mac : Mac) (ring : Option KeyRing) (cid : String) : Db → Except DbError Bool × Db :=
  transaction fun db => do
    let rows := loadIntegrityRows db cid
    match loadIntegrityHead db cid with
    | some head =>
      verifyIntegrity mac ring cid rows (some head)
      return (false, db)
    | none =>
      let head ← initialIntegrityHead mac ring cid rows
      return (true, writeIntegrityHead db cid head)

/-! ## Reads -/

def replaySince (mac : Mac) (ring : Option KeyRing) (db : Db) (cid : String) (afterSeq : Int) :
    Except DbError (List EventRecord) := do
  let rows := loadIntegrityRows db cid
  verifyIntegrity mac ring cid rows (loadIntegrityHead db cid)
  return (rows.filter (fun row => decide (afterSeq < row.event.seq))).map IntegrityRow.event

/-- `SELECT MAX(seq)`, 0 on an empty conversation. -/
def lastSeq (db : Db) (cid : String) : Int :=
  (((db.events.filter (fun r => decide (r.conversationId = cid))).map EventRow.seq).max?).getD 0

def Db.addEvent (db : Db) (row : EventRow) : Db := { db with events := row :: db.events }

/-- `INSERT INTO state_events`, under the primary key `(conversation_id, seq)`. -/
def insertEvent (row : EventRow) (db : Db) : Except DbError Db :=
  if db.events.any (fun r => decide (r.conversationId = row.conversationId ∧ r.seq = row.seq)) then
    .error (.sqlite "UNIQUE constraint failed: state_events.conversation_id, state_events.seq")
  else .ok (db.addEvent row)

def plainRow (ev : EventRecord) : EventRow :=
  { conversationId := ev.conversationId, seq := ev.seq, kind := ev.kind.asStr, payload := ev.payload,
    committedAt := ev.committedAt, actor := ev.actor }

def chainedRow (ev : EventRecord) (tag : Tag) (keyId : Int) (prevTag : Tag) : EventRow :=
  { plainRow ev with tag := some tag.bytes, keyId := keyId, integrityVersion := 2, prevTag := some prevTag.bytes }

/-- Sign one event behind `head`, insert it and move the head, as the two keyed writers both do. -/
def signAndInsert (mac : Mac) (ring : KeyRing) (cid : String) (key : List UInt8) (ev : EventRecord)
    (head : IntegrityHead) (db : Db) : Except DbError (IntegrityHead × Db) := do
  let prevTag ← fixedTag head.headTag "integrity head"
  let tag := signEvent mac key (canonicalChainEvent (v1Canonical ev) ring.currentId prevTag)
  let db ← insertEvent (chainedRow ev tag ring.currentId prevTag) db
  let head ← advanceIntegrityHead mac (some ring) cid head.chainStartSeq head.genesisKeyId ev.seq tag
  return (head, db)

def append (mac : Mac) (ring : Option KeyRing) (ev : EventRecord) : Db → Except DbError Unit × Db :=
  transaction fun db =>
    let cid := ev.conversationId
    match ring with
    | none =>
      if (loadIntegrityHead db cid).isSome then
        .error (.config "a v2 conversation requires an event HMAC key for append")
      else do
        let db ← insertEvent (plainRow ev) db
        return ((), db)
    | some ring => do
      let rows := loadIntegrityRows db cid
      let head ← openIntegrityHead mac ring db cid rows
      let expected := head.headSeq + 1
      let seq := ev.seq
      if seq ≠ expected then .error (.invariant s!"v2 append for {cid} expected seq {expected}, got {seq}")
      else
        match ring.currentKey with
        | none => .error (.config "KeyRing has no key registered for current_id")
        | some key =>
          let (head, db) ← signAndInsert mac ring cid key ev head db
          return ((), writeIntegrityHead db cid head)

/-! ### Tool pairing -/

def resultOrdinals (codec : Codec) : List PendingEvent → Except DbError (List UInt32)
  | [] => .ok []
  | ev :: evs =>
    if ev.kind = .toolResult then
      match decodePayloadBytes codec.decodeToolResult ev.kind ev.payload with
      | .error e =>
        let shown := e.display
        .error (.serde s!"decoding tool_result: {shown}")
      | .ok ordinal => do
        let rest ← resultOrdinals codec evs
        return ordinal :: rest
    else resultOrdinals codec evs

/-- The cancellation `enforceToolPairing` writes behind an unanswered tool use. -/
def syntheticResult (codec : Codec) (cid : String) (seq : Int) (ordinal : UInt32) (now : Int) :
    Except DbError EventRecord :=
  let reason := s!"cancelled: no tool_result in same commit for ordinal {ordinal}"
  match encodeVersionedPayload .toolResult (codec.encodeToolResult ordinal reason) with
  | .error e =>
    let shown := e.display
    .error (.serde s!"encoding synthetic tool_result: {shown}")
  | .ok payload =>
    .ok { conversationId := cid, seq := seq, kind := .toolResult, payload := payload, committedAt := now,
          actor := some "system" }

/-- The batch as records numbered from `nextSeq`. -/
def pairEvents (codec : Codec) (cid : String) (results : List UInt32) (now : Int) :
    List PendingEvent → Int → Except DbError (List EventRecord)
  | [], _ => .ok []
  | ev :: evs, nextSeq => do
    let record : EventRecord := { conversationId := cid, seq := nextSeq, kind := ev.kind, payload := ev.payload,
                                  committedAt := now, actor := ev.actor }
    if ev.kind = .toolUse then
      match decodePayloadBytes codec.decodeToolUse ev.kind ev.payload with
      | .error e =>
        let shown := e.display
        .error (.serde s!"decoding tool_use: {shown}")
      | .ok ordinal =>
        if results.contains ordinal then
          let rest ← pairEvents codec cid results now evs (nextSeq + 1)
          return record :: rest
        else
          let synthetic ← syntheticResult codec cid (nextSeq + 1) ordinal now
          let rest ← pairEvents codec cid results now evs (nextSeq + 2)
          return record :: synthetic :: rest
    else
      let rest ← pairEvents codec cid results now evs (nextSeq + 1)
      return record :: rest

def enforceToolPairing (codec : Codec) (cid : String) (baseSeq : Int) (events : List PendingEvent) (now : Int) :
    Except DbError (List EventRecord) := do
  let results ← resultOrdinals codec events
  pairEvents codec cid results now events (baseSeq + 1)

/-- `i64::MAX` in `next_attempt_at` marks a staged send. -/
def stagedAt : Int := 9223372036854775807

/-- The newest active run's input event, by `ORDER BY started_at DESC, run_id LIMIT 1`. -/
def activeRunSource (db : Db) (cid : String) : Option Int :=
  ((db.runs.filter (fun r => decide (r.conversationId = cid ∧ (r.status = .pending ∨ r.status = .running ∨
      r.status = .waiting)))).insertionSort
    (fun a b => b.startedAt < a.startedAt ∨ (b.startedAt = a.startedAt ∧ a.runId ≤ b.runId))).head?.map
    RunRow.inputEventSeq

def latestUserSeq (db : Db) (cid : String) : Option Int :=
  ((db.events.filter (fun r => decide (r.conversationId = cid ∧ r.kind = "user_msg"))).map EventRow.seq).max?

def decodedOrdinals (kind : EventKind) (fromSlice : List UInt8 → Except String UInt32) (committed : List EventRecord) :
    List UInt32 :=
  (committed.filter (fun ev => decide (ev.kind = kind))).filterMap
    (fun ev => (decodePayloadBytes fromSlice ev.kind ev.payload).toOption)

def releaseOne (key : String) (db : Db) : Db :=
  { db with outbox := db.outbox.map (fun r =>
      if r.idempotencyKey = key ∧ (r.effectKind = "transport.send" ∨ r.effectKind = "transport.send_attachments") ∧
          r.status = .pending ∧ r.nextAttemptAt = some stagedAt then { r with nextAttemptAt := none } else r) }

def releaseStagedTransportEffects (codec : Codec) (cid : String) (committed : List EventRecord) (db : Db) : Db :=
  match (activeRunSource db cid).or (latestUserSeq db cid) with
  | none => db
  | some sourceSeq =>
    let toolResults := decodedOrdinals .toolResult codec.decodeToolResult committed
    ((decodedOrdinals .toolUse codec.decodeToolUse committed).filter (fun o => toolResults.contains o)).foldl
      (fun db ordinal => releaseOne s!"{cid}:{sourceSeq}:{ordinal}" db) db

/-! ### Committing a turn -/

structure Projection where
  run : Db → List EventRecord → Except DbError Db
  keeps : ∀ db evs db', run db evs = .ok db' → db'.events = db.events ∧ db'.heads = db.heads

def Projection.none : Projection := ⟨fun db _ => .ok db, fun _ _ _ h => by cases h; exact ⟨rfl, rfl⟩⟩

def insertPlain : List EventRecord → Db → Except DbError Db
  | [], db => .ok db
  | ev :: evs, db => do
    let db ← insertEvent (plainRow ev) db
    insertPlain evs db

/-- The signing loop of `commit_turn`. -/
def insertChained (mac : Mac) (ring : KeyRing) (cid : String) (key : List UInt8) :
    List EventRecord → IntegrityHead → Db → Except DbError (IntegrityHead × Db)
  | [], head, db => .ok (head, db)
  | ev :: evs, head, db => do
    let expected := head.headSeq + 1
    let seq := ev.seq
    if seq ≠ expected then .error (.invariant s!"v2 commit for {cid} expected seq {expected}, got {seq}")
    else
      let (head, db) ← signAndInsert mac ring cid key ev head db
      insertChained mac ring cid key evs head db

def rebase (materialized : List EventRecord) (delta : Int) : List EventRecord :=
  if 0 < delta then materialized.map (fun ev => { ev with seq := ev.seq + delta }) else materialized

def hasToolResult (materialized : List EventRecord) : Bool :=
  materialized.any (fun ev => decide (ev.kind = .toolResult))

def finishCommit (codec : Codec) (cid : String) (projection : Projection) (materialized : List EventRecord) (db : Db) :
    Except DbError (List EventRecord × Db) := do
  let db ← projection.run db materialized
  return (materialized, if hasToolResult materialized then releaseStagedTransportEffects codec cid materialized db
    else db)

def commitMaterialized (mac : Mac) (codec : Codec) (ring : Option KeyRing) (cid : String) (baseSeq : Int)
    (projection : Projection) (batch : List EventRecord) (db : Db) : Except DbError (List EventRecord × Db) :=
  let existingRows := loadIntegrityRows db cid
  let actualMax := (existingRows.getLast?.map (fun row => row.event.seq)).getD 0
  let materialized := rebase batch (actualMax - baseSeq)
  match ring with
  | none =>
    if (loadIntegrityHead db cid).isSome then
      .error (.config "a v2 conversation requires an event HMAC key for commit")
    else do
      let db ← insertPlain materialized db
      finishCommit codec cid projection materialized db
  | some ring => do
    let head ← openIntegrityHead mac ring db cid existingRows
    match ring.currentKey with
    | none => .error (.config "KeyRing has no key registered for current_id")
    | some key =>
      let (head, db) ← insertChained mac ring cid key materialized head db
      finishCommit codec cid projection materialized (writeIntegrityHead db cid head)

def commitTurnWithProjection (mac : Mac) (codec : Codec) (ring : Option KeyRing) (cid : String) (baseSeq : Int)
    (events : List PendingEvent) (projection : Projection) (now : Int) (db : Db) :
    Except DbError (List EventRecord) × Db :=
  match enforceToolPairing codec cid baseSeq events now with
  | .error e => (.error e, db)
  | .ok batch => transaction (commitMaterialized mac codec ring cid baseSeq projection batch) db

def commitTurn (mac : Mac) (codec : Codec) (ring : Option KeyRing) (cid : String) (baseSeq : Int)
    (events : List PendingEvent) (now : Int) : Db → Except DbError (List EventRecord) × Db :=
  commitTurnWithProjection mac codec ring cid baseSeq events Projection.none now

end Execlaw
