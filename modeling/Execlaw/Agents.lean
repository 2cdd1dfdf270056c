import Execlaw.Calendar
import Execlaw.Calls
import Execlaw.Keyed
import Mathlib.Data.Prod.Lex
import Mathlib.Data.String.Basic
/-!
# Agents — mailbox, runs and schedule of always-on agents (`core/src/agents.rs`)

An agent has a mailbox of messages, runs that take messages from it, and a schedule that puts messages into it.  A run
is claimed on the agent's row, inserted some time later, and acknowledges its messages as it completes.  Identifiers
the source draws at random are arguments.
-/
namespace Execlaw

open Table

/-! ## Schedules (`core/src/agent_contract.rs`) -/

inductive AgentOverlapPolicy | skip | bufferOne

structure AgentQuietHours where
  start : String
  finish : String

structure AgentScheduleSpec where
  cron : String
  timezone : String
  overlap : AgentOverlapPolicy
  catchupSecs : UInt32
  quietHours : Option AgentQuietHours
  targetConversationId : Option String

def parseU16 (s : String) : Option Nat :=
  let digits := if s.toList.head? = some '+' then s.toList.drop 1 else s.toList
  if digits.isEmpty || !digits.all (fun c => '0' ≤ c && c ≤ '9') then none
  else
    let n := digits.foldl (fun n c => 10 * n + (c.toNat - '0'.toNat)) 0
    if n < 2 ^ 16 then some n else none

def splitOnceColon (s : String) : Option (String × String) :=
  if s.toList.contains ':' then
    some (String.ofList (s.toList.takeWhile (· != ':')), String.ofList ((s.toList.dropWhile (· != ':')).drop 1))
  else none

def parseLocalMinute (value : String) : Except String Nat :=
  match splitOnceColon value with
  | none => .error "quiet hours must use HH:MM"
  | some (hourText, minuteText) =>
    match parseU16 hourText with
    | none => .error "invalid quiet-hours hour"
    | some hour =>
      match parseU16 minuteText with
      | none => .error "invalid quiet-hours minute"
      | some minute =>
        if 23 < hour || 59 < minute || hourText.utf8ByteSize ≠ 2 || minuteText.utf8ByteSize ≠ 2 then
          .error "quiet hours must use HH:MM"
        else .ok (hour * 60 + minute)

namespace AgentScheduleSpec

def validate (cal : Calendar) (s : AgentScheduleSpec) : Except String Unit := do
  (parseCron cal s.cron).mapError invalidRoutine
  (parseTimezone cal s.timezone).mapError invalidRoutine
  if 7 * 24 * 3600 < s.catchupSecs.toNat then throw "agent schedule catchup_secs exceeds seven days"
  match s.quietHours with
  | none => pure ()
  | some hours => do
    let _ ← parseLocalMinute hours.start
    let _ ← parseLocalMinute hours.finish
    pure ()

def nextFireAfter (cal : Calendar) (s : AgentScheduleSpec) (after : Int) : Except String (Option Int) := do
  s.validate cal
  if cal.valid after then pure (cal.nextFire s.cron s.timezone after)
  else throw "invalid agent schedule timestamp"

def isQuietAt (cal : Calendar) (s : AgentScheduleSpec) (at_ : Int) : Except String Bool :=
  match s.quietHours with
  | none => .ok false
  | some hours => do
    (parseTimezone cal s.timezone).mapError invalidRoutine
    if cal.valid at_ then
      let minute := (cal.localTime s.timezone at_).1 * 60 + (cal.localTime s.timezone at_).2
      let start ← parseLocalMinute hours.start
      let finish ← parseLocalMinute hours.finish
      pure (if start < finish then decide (start ≤ minute) && decide (minute < finish)
        else if finish < start then decide (start ≤ minute) || decide (minute < finish)
        else false)
    else throw "invalid agent schedule timestamp"

def isStale (s : AgentScheduleSpec) (due now : Int) : Bool := decide ((s.catchupSecs.toNat : Int) < saturatingSub now due)

end AgentScheduleSpec

inductive CompletedStatus | success | needsInput | notApplicable | failed
deriving DecidableEq

inductive AgentRunStatus
  | running
  | interrupted
  | completed (status : CompletedStatus)
deriving DecidableEq

/-- A row of `config_agents`; `trigger` is what `AgentTriggerSpec::from_value` reads of its trigger: the schedule. -/
structure AgentRow where
  id : String
  trigger : Except String (Option AgentScheduleSpec)
  enabled : Bool
  paused : Bool
  nextRunAt : Option Int
  lastRunAt : Option Int
  lastRunStatus : Option AgentRunStatus
  lastError : Option String
  updatedAt : Int
  definitionVersion : Nat
  scheduleNextAt : Option Int

structure AgentRunRow where
  id : String
  agentId : String
  status : AgentRunStatus
  startedAt : Int
  finishedAt : Option Int
  tokensUsed : Option Nat
  checkpointJson : String
  outputText : Option String
  error : Option String
  mailboxId : Option String
  definitionVersion : Option Nat
  outcomeKind : Option String
deriving DecidableEq

structure AgentMessageRow where
  id : String
  agentId : String
  content : String
  createdAt : Int
  deliveredAt : Option Int
  resultRunId : Option String
  sourceKind : String
  sourceEventId : Option String
  sourceOccurredAt : Option Int
  conversationId : Option String
  recipient : Option String
  definitionVersion : Option Nat
  availableAt : Int
  supersededBy : Option String
deriving DecidableEq

def AgentMessageRow.waiting (m : AgentMessageRow) : Bool := m.deliveredAt.isNone && m.supersededBy.isNone

structure AgentMessageRow.Ok (m : AgentMessageRow) : Prop where
  acknowledged : m.deliveredAt.isSome = m.resultRunId.isSome

inductive FireStatus | queued | skipped
deriving DecidableEq

inductive SkipReason | catchupExpired | quietHours | overlap
deriving DecidableEq

structure AgentScheduleFireRow where
  agentId : String
  dueAt : Int
  status : FireStatus
  reason : Option SkipReason
  mailboxId : Option String
  recordedAt : Int
deriving DecidableEq

def AgentScheduleFireRow.key (f : AgentScheduleFireRow) : String × Int := (f.agentId, f.dueAt)

structure AgentTables where
  agents : Keyed AgentRow.id (fun _ => True)
  runs : Keyed AgentRunRow.id (fun _ => True)
  messages : Keyed AgentMessageRow.id AgentMessageRow.Ok
  fires : Keyed AgentScheduleFireRow.key (fun _ => True)

inductive AgentError
  | db (error : DbError)
  | invalid (msg : String)
  | encoding (msg : String)

structure AgentSourceEvent where
  sourceKind : String
  sourceEventId : String
  occurredAt : Int
  conversationId : String
  recipient : String
  content : String

/-- `AgentRunCompletion`; `checkpoint` is the text of its JSON, or the error of writing it. -/
structure AgentRunCompletion where
  agentId : String
  runId : String
  status : CompletedStatus
  outcomeKind : Option String
  now : Int
  nextRunAt : Option Int
  tokens : Option Nat
  output : Option String
  error : Option String
  checkpoint : Except String String
  mailboxIds : List String

namespace AgentStore

abbrev AgentChange := Change AgentRow.id (fun _ => True)
abbrev RunChange := Change AgentRunRow.id (fun _ => True)
abbrev MessageChange := Change AgentMessageRow.id AgentMessageRow.Ok

def running (t : AgentTables) (agentId : String) : Bool :=
  t.runs.rows.any (fun r => r.agentId == agentId && r.status == .running)

/-! ## Mailbox -/

def sourced (t : AgentTables) (agentId kind eventId : String) : Option AgentMessageRow :=
  t.messages.rows.find? (fun m => m.agentId == agentId && m.sourceKind == kind && m.sourceEventId == some eventId)

def sourceTaken (t : AgentTables) (m : AgentMessageRow) : Bool :=
  m.sourceEventId.any (fun eventId => (sourced t m.agentId m.sourceKind eventId).isSome)

def newMessage (id agentId : String) (event : AgentSourceEvent) (version : Nat) (availableAt now : Int) :
    AgentMessageRow where
  id := id
  agentId := agentId
  content := event.content
  createdAt := now
  deliveredAt := none
  resultRunId := none
  sourceKind := event.sourceKind
  sourceEventId := some event.sourceEventId
  sourceOccurredAt := some event.occurredAt
  conversationId := some event.conversationId
  recipient := some event.recipient
  definitionVersion := some version
  availableAt := max availableAt now
  supersededBy := none

/-- `INSERT`; `none` where a key or the source is taken. -/
def insertMessage? (m : AgentMessageRow) (hm : m.Ok) (t : AgentTables) : Option AgentTables :=
  if sourceTaken t m then none else (t.messages.insert? m hm).map (fun messages => { t with messages := messages })

def earlier (nextRunAt : Option Int) (available : Int) : Option Int :=
  match nextRunAt with
  | none => some available
  | some next => if available < next then some available else some next

def wakeChange (available now : Int) : AgentChange where
  takes := fun _ => true
  set := fun a => { a with nextRunAt := earlier a.nextRunAt available, updatedAt := now }
  key_set := fun _ => rfl
  keeps_ok := fun _ h _ => h

def identifiedEvent (event : AgentSourceEvent) : Bool :=
  !((trim event.sourceKind).isEmpty || (trim event.sourceEventId).isEmpty || (trim event.conversationId).isEmpty ||
    (trim event.recipient).isEmpty || (trim event.content).isEmpty)

def originalMessage (t : AgentTables) (agentId : String) (event : AgentSourceEvent) : Except DbError String :=
  match sourced t agentId event.sourceKind event.sourceEventId with
  | none => .error noRows
  | some m => .ok m.id

def enqueueTx (agentId : String) (event : AgentSourceEvent) (availableAt now : Int) (newId : String)
    (t : AgentTables) : Except DbError ((String × Bool) × AgentTables) :=
  match t.agents.row agentId with
  | none => .error noRows
  | some a =>
    match insertMessage? (newMessage newId agentId event a.definitionVersion availableAt now) ⟨rfl⟩ t with
    | none => (originalMessage t agentId event).map (fun id => ((id, false), t))
    | some t =>
      .ok ((newId, true), { t with agents := t.agents.update agentId (wakeChange (max availableAt now) now) })

def dbResult {α : Type} : Except DbError α × AgentTables → Except AgentError α × AgentTables
  | (.error e, t) => (.error (.db e), t)
  | (.ok a, t) => (.ok a, t)

def enqueueTriggeredEventAt (agentId : String) (event : AgentSourceEvent) (availableAt now : Int) (newId : String)
    (t : AgentTables) : Except AgentError (String × Bool) × AgentTables :=
  if !identifiedEvent event then
    (.error (.invalid "source, event ID, conversation, recipient, and content are required"), t)
  else dbResult (Calls.transact (enqueueTx agentId event availableAt now newId) t)

def supersedeChange (agentId kind eventId newId : String) : MessageChange where
  takes := fun m =>
    m.agentId == agentId && m.sourceKind == kind && m.sourceEventId == some eventId && m.waiting
  set := fun m => { m with supersededBy := some newId }
  key_set := fun _ => rfl
  keeps_ok := fun _ h _ => ⟨h.acknowledged⟩

def correctTx (agentId : String) (event : AgentSourceEvent) (supersedesEventId : String) (availableAt now : Int)
    (newId : String) (t : AgentTables) : Except DbError ((String × Bool) × AgentTables) :=
  match t.agents.row agentId with
  | none => .error noRows
  | some a =>
    match insertMessage? (newMessage newId agentId event a.definitionVersion availableAt now) ⟨rfl⟩ t with
    | none => (originalMessage t agentId event).map (fun id => ((id, false), t))
    | some t =>
      .ok ((newId, true),
        { t with
          messages := t.messages.updateAll (supersedeChange agentId event.sourceKind supersedesEventId newId)
          agents := t.agents.update agentId (wakeChange (max availableAt now) now) })

def enqueueTriggeredCorrection (agentId : String) (event : AgentSourceEvent) (supersedesEventId : String)
    (availableAt now : Int) (newId : String) (t : AgentTables) : Except AgentError (String × Bool) × AgentTables :=
  if !identifiedEvent event || (trim supersedesEventId).isEmpty then
    (.error (.invalid "correction identity and content are required"), t)
  else dbResult (Calls.transact (correctTx agentId event supersedesEventId availableAt now newId) t)

def pendingMessagesAt (agentId : String) (bound : Nat) (now : Int) (t : AgentTables) : List AgentMessageRow :=
  (orderBy (fun m => toLex (m.createdAt, m.id))
    (t.messages.rows.filter (fun m => m.agentId == agentId && m.waiting && decide (m.availableAt ≤ now)))).take bound

/-- `UPDATE … SET delivered_at=?1, result_run_id=?2`, under a `WHERE`. -/
def deliverChange (runId : String) (now : Int) (takes : AgentMessageRow → Bool) : MessageChange where
  takes := takes
  set := fun m => { m with deliveredAt := some now, resultRunId := some runId }
  key_set := fun _ => rfl
  keeps_ok := fun _ _ _ => ⟨rfl⟩

def deliver (ids : List String) (runId : String) (now : Int) (t : AgentTables) : AgentTables :=
  { t with messages := ids.foldl (fun ms id => ms.update id (deliverChange runId now fun _ => true)) t.messages }

/-- `… SET next_run_at=?1, last_run_status='running' WHERE enabled=1 AND paused=0 AND (next_run_at IS NULL OR …)`;
`?1` is the second after the claim. -/
def claimChange (now : Int) : AgentChange where
  takes := fun a => a.enabled && !a.paused && a.nextRunAt.all (fun next => decide (next ≤ saturatingAdd now 1))
  set := fun a =>
    { a with
      nextRunAt := some (saturatingAdd now 1), lastRunStatus := some .running, lastError := none
      updatedAt := saturatingAdd now 1 }
  key_set := fun _ => rfl
  keeps_ok := fun _ h _ => h

def claimDue (id : String) (now : Int) (t : AgentTables) : Option AgentRow × AgentTables :=
  if !running t id && t.agents.changed id (claimChange now) then
    let agents := t.agents.update id (claimChange now)
    (agents.row id, { t with agents := agents })
  else (none, t)

def newRun (id agentId : String) (mailboxId : Option String) (version : Option Nat) (now : Int)
    (checkpointJson : String) : AgentRunRow where
  id := id
  agentId := agentId
  status := .running
  startedAt := now
  finishedAt := none
  tokensUsed := none
  checkpointJson := checkpointJson
  outputText := none
  error := none
  mailboxId := mailboxId
  definitionVersion := version
  outcomeKind := none

def insertRunForMailbox (agentId : String) (mailboxId : Option String) (version : Option Nat) (now : Int)
    (checkpoint : Except String String) (id : String) (t : AgentTables) : Except AgentError String × AgentTables :=
  match checkpoint with
  | .error e => (.error (.encoding e), t)
  | .ok checkpointJson =>
    match t.runs.insert? (newRun id agentId mailboxId version now checkpointJson) trivial with
    | none => (.error (.db (.sqlite "UNIQUE constraint failed: state_agent_runs.id")), t)
    | some runs => (.ok id, { t with runs := runs })

def finishChange (c : AgentRunCompletion) (checkpointJson : String) : RunChange where
  takes := fun r => r.agentId == c.agentId && r.status == .running
  set := fun r =>
    { r with
      status := .completed c.status, finishedAt := some c.now, tokensUsed := c.tokens, outputText := c.output
      error := c.error, checkpointJson := checkpointJson, outcomeKind := c.outcomeKind }
  key_set := fun _ => rfl
  keeps_ok := fun _ h _ => h

def acknowledges (agentId : String) (m : AgentMessageRow) : Bool := m.agentId == agentId && m.deliveredAt.isNone

def acknowledge (agentId runId : String) (now : Int) :
    List String → Keyed AgentMessageRow.id AgentMessageRow.Ok →
      Except DbError (Keyed AgentMessageRow.id AgentMessageRow.Ok)
  | [], ms => .ok ms
  | id :: ids, ms =>
    if ms.changed id (deliverChange runId now (acknowledges agentId)) then
      acknowledge agentId runId now ids (ms.update id (deliverChange runId now (acknowledges agentId)))
    else .error (.invariant s!"agent mailbox item was already consumed: {id}")

def earliestWaiting (ms : Keyed AgentMessageRow.id AgentMessageRow.Ok) (agentId : String) : Option Int :=
  ((ms.rows.filter (fun m => m.agentId == agentId && m.waiting)).map AgentMessageRow.availableAt).min?

def settleChange (c : AgentRunCompletion) (next : Option Int) : AgentChange where
  takes := fun _ => true
  set := fun a =>
    { a with
      lastRunAt := some c.now, lastRunStatus := some (.completed c.status), lastError := c.error
      nextRunAt := c.nextRunAt.or next, updatedAt := c.now }
  key_set := fun _ => rfl
  keeps_ok := fun _ h _ => h

def completeTx (c : AgentRunCompletion) (checkpointJson : String) (t : AgentTables) :
    Except DbError (Unit × AgentTables) :=
  if t.runs.changed c.runId (finishChange c checkpointJson) then
    match acknowledge c.agentId c.runId c.now c.mailboxIds t.messages with
    | .error e => .error e
    | .ok messages =>
      .ok ((),
        { t with
          runs := t.runs.update c.runId (finishChange c checkpointJson), messages := messages
          agents := t.agents.update c.agentId (settleChange c (earliestWaiting messages c.agentId)) })
  else .error (.invariant "agent run is no longer running")

def completeMailboxRun (c : AgentRunCompletion) (t : AgentTables) : Except AgentError Unit × AgentTables :=
  match c.checkpoint with
  | .error e => (.error (.encoding e), t)
  | .ok checkpointJson => dbResult (Calls.transact (completeTx c checkpointJson) t)

def interruptChange (now : Int) : RunChange where
  takes := fun r => r.status == .running
  set := fun r =>
    { r with
      status := .interrupted, finishedAt := some now
      error := r.error.or (some "server restarted during agent execution") }
  key_set := fun _ => rfl
  keeps_ok := fun _ h _ => h

def restartChange (now : Int) (interrupted : String → Bool) : AgentChange where
  takes := fun a => interrupted a.id
  set := fun a =>
    { a with
      lastRunStatus := some .interrupted, lastError := some "server restarted during agent execution"
      nextRunAt := if a.enabled && !a.paused then some now else a.nextRunAt, updatedAt := now }
  key_set := fun _ => rfl
  keeps_ok := fun _ h _ => h

def reconcileInterruptedRuns (now : Int) (t : AgentTables) : Nat × AgentTables :=
  let runs := t.runs.updateAll (interruptChange now)
  let interrupted := fun id =>
    runs.rows.any (fun r => r.agentId == id && r.status == .interrupted && r.finishedAt == some now)
  (t.runs.rows.countP (interruptChange now).takes,
    { t with runs := runs, agents := t.agents.updateAll (restartChange now interrupted) })

/-! ## Schedule -/

def scheduledFor (agentId : String) (m : AgentMessageRow) : Bool :=
  m.agentId == agentId && m.sourceKind == "schedule" && m.waiting

def scheduledWaiting (t : AgentTables) (agentId : String) : Nat := t.messages.rows.countP (scheduledFor agentId)

/-- The `overlap` of a policy. -/
def overlaps (t : AgentTables) (agentId : String) : AgentOverlapPolicy → Bool
  | .skip => running t agentId || decide (0 < scheduledWaiting t agentId)
  | .bufferOne => decide (0 < scheduledWaiting t agentId)

def skipReason (stale quiet overlap : Bool) : Option SkipReason :=
  if stale then some .catchupExpired else if quiet then some .quietHours else if overlap then some .overlap else none

def scheduledMessage (cal : Calendar) (a : AgentRow) (s : AgentScheduleSpec) (due now : Int) (id : String) :
    AgentMessageRow where
  id := id
  agentId := a.id
  content := cal.content due a.definitionVersion s.targetConversationId
  createdAt := now
  deliveredAt := none
  resultRunId := none
  sourceKind := "schedule"
  sourceEventId := some (toString due)
  sourceOccurredAt := some due
  conversationId := s.targetConversationId
  recipient := some "controller"
  definitionVersion := some a.definitionVersion
  availableAt := now
  supersededBy := none

def newFire (agentId : String) (due : Int) (reason : Option SkipReason) (id : String) (now : Int) :
    AgentScheduleFireRow where
  agentId := agentId
  dueAt := due
  status := if reason.isNone then .queued else .skipped
  reason := reason
  mailboxId := if reason.isNone then some id else none
  recordedAt := now

def advanceChange (due : Int) (next : Option Int) (queued : Bool) (now : Int) : AgentChange where
  takes := fun a => a.scheduleNextAt == some due
  set := fun a =>
    { a with scheduleNextAt := next, nextRunAt := if queued then some now else a.nextRunAt, updatedAt := now }
  key_set := fun _ => rfl
  keeps_ok := fun _ h _ => h

/-- The transaction of `fire_due_schedule`; `a` is the agent as its caller read it. -/
def fireTx (cal : Calendar) (a : AgentRow) (s : AgentScheduleSpec) (due : Int) (next : Option Int)
    (stale quiet : Bool) (now : Int) (id : String) (t : AgentTables) :
    Except DbError (Option String × AgentTables) :=
  let current := ((t.agents.row a.id).filter (fun b => b.enabled && !b.paused)).bind AgentRow.scheduleNextAt
  if current ≠ some due then .ok (none, t)
  else
    let reason := skipReason stale quiet (overlaps t a.id s.overlap)
    let queued := reason.isNone
    match if queued then insertMessage? (scheduledMessage cal a s due now id) ⟨rfl⟩ t else some t with
    | none => .error (.sqlite "UNIQUE constraint failed: state_agent_messages")
    | some t =>
      match t.fires.insert? (newFire a.id due reason id now) trivial with
      | none => .error (.sqlite ("UNIQUE constraint failed: state_agent_schedule_fires.agent_id, " ++
          "state_agent_schedule_fires.due_at"))
      | some fires =>
        .ok (if queued then some id else none,
          { t with fires := fires, agents := t.agents.update a.id (advanceChange due next queued now) })

def fireDueSchedule (cal : Calendar) (a : AgentRow) (now : Int) (id : String) (t : AgentTables) :
    Except AgentError (Option String) × AgentTables :=
  match a.trigger with
  | .error e => (.error (.invalid e), t)
  | .ok none => (.ok none, t)
  | .ok (some s) =>
    match a.scheduleNextAt.filter (fun due => decide (due ≤ now)) with
    | none => (.ok none, t)
    | some due =>
      match s.nextFireAfter cal due with
      | .error e => (.error (.invalid e), t)
      | .ok next =>
        match s.isQuietAt cal due with
        | .error e => (.error (.invalid e), t)
        | .ok quiet => dbResult (Calls.transact (fireTx cal a s due next (s.isStale due now) quiet now id) t)

end AgentStore

end Execlaw
