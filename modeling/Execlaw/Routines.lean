import Execlaw.Calendar
import Execlaw.Calls
import Execlaw.Keyed
import Mathlib.Data.Prod.Lex
import Mathlib.Data.String.Basic
/-!
# Routines — cron routines and their runs (`core/src/routines.rs`)

A routine has the instant it is due next, and one run for each occurrence.  A run is pending until it is finished or
skipped; a pending run with a start time is claimed by a runner.  Identifiers the source draws at random are arguments.
-/
namespace Execlaw

open Table

inductive RoutineRunStatus | pending | success | failed | skipped
deriving DecidableEq

inductive MissedRunPolicy | skip | coalesce | catchUp
deriving DecidableEq

inductive RoutineOverlapPolicy | forbid | queue | replace

structure RoutineRow where
  id : String
  name : String
  scheduleCron : String
  timezone : String
  prompt : String
  targetConversationId : Option String
  enabled : Bool
  lastRunAt : Option Int
  lastRunStatus : Option RoutineRunStatus
  nextRunAt : Option Int
  createdAt : Int
  updatedAt : Int
  completionContract : Option String
  missedRunPolicy : MissedRunPolicy
  missedRunLimit : Nat
  overlapPolicy : RoutineOverlapPolicy

structure RoutineRow.Ok (r : RoutineRow) : Prop where
  limit : 1 ≤ r.missedRunLimit ∧ r.missedRunLimit ≤ 100

/-- `RoutineUpsert`; a completion contract is its JSON, or the error of checking it. -/
structure RoutineUpsert where
  id : Option String
  name : String
  scheduleCron : String
  timezone : String
  prompt : String
  targetConversationId : Option String
  enabled : Bool
  completionContract : Option (Except String String)
  missedRunPolicy : MissedRunPolicy
  missedRunLimit : UInt32
  overlapPolicy : RoutineOverlapPolicy

structure RoutineRunRow where
  id : String
  routineId : String
  firedAt : Int
  startedAt : Option Int
  finishedAt : Option Int
  status : RoutineRunStatus
  error : Option String
  conversationId : Option String
  completionContract : Option String
  occurrenceAt : Option Int

def RoutineRunRow.active (r : RoutineRunRow) : Bool := r.status == .pending && r.startedAt.isSome

inductive RoutineError
  | db (error : DbError)
  | invalid (msg : String)
  | notFound (id : String)

structure RoutineTables where
  routines : Keyed RoutineRow.id RoutineRow.Ok
  runs : Keyed RoutineRunRow.id (fun _ => True)

/-! ## Due occurrences -/

structure DueOccurrencePlan where
  execute : List Int
  skip : List Int

def ordinary (now at_ : Int) : Bool := decide (saturatingSub now at_ < 60)

def clampLimit (limit : Nat) : Nat := max 1 (min limit 100)

def planDueOccurrences (policy : MissedRunPolicy) (missedRunLimit : Nat) (now : Int) (occurrences : List Int) :
    DueOccurrencePlan :=
  let due := occurrences.filter (fun at_ => decide (at_ ≤ now))
  let ordinaries := due.filter (ordinary now)
  let missed := due.filter (fun at_ => !ordinary now at_)
  match policy with
  | .skip => ⟨orderBy id ordinaries, orderBy id missed⟩
  | .coalesce =>
    match missed, due.getLast? with
    | [], _ => ⟨orderBy id ordinaries, []⟩
    | _ :: _, none => ⟨[], []⟩
    | _ :: _, some latest => ⟨[latest], orderBy id (due.takeWhile (· ≠ latest))⟩
  | .catchUp =>
    ⟨orderBy id (missed.take (clampLimit missedRunLimit) ++ ordinaries), orderBy id (missed.drop (clampLimit missedRunLimit))⟩

namespace RoutineStore

abbrev RoutineChange := Change RoutineRow.id RoutineRow.Ok
abbrev RunChange := Change RoutineRunRow.id (fun _ => True)

/-! ## Routines -/

def yearSecs : Int := 366 * 24 * 60 * 60

/-- `next_run_at` of a definition saved at a clock. -/
def firstRunAt (cal : Calendar) (p : RoutineUpsert) (now : Int) : Except RoutineError (Option Int) := do
  (parseCron cal p.scheduleCron).mapError .invalid
  (parseTimezone cal p.timezone).mapError .invalid
  if !cal.valid now then throw (.invalid s!"invalid `now` timestamp: {now}")
  let next := cal.nextFire p.scheduleCron p.timezone now
  if next.any (fun next => decide (yearSecs < next - now)) then
    throw (.invalid (s!"schedule's next fire is over a year out (cron '{p.scheduleCron}' tz '{p.timezone}'); " ++
      "reject as likely typo"))
  pure next

def contractJson : Option (Except String String) → Except String (Option String)
  | none => .ok none
  | some contract => contract.map some

def newRoutine (id : String) (p : RoutineUpsert) (contract : Option String) (next : Option Int) (now : Int) :
    RoutineRow where
  id := id
  name := p.name
  scheduleCron := p.scheduleCron
  timezone := p.timezone
  prompt := p.prompt
  targetConversationId := p.targetConversationId
  enabled := p.enabled
  lastRunAt := none
  lastRunStatus := none
  nextRunAt := next
  createdAt := now
  updatedAt := now
  completionContract := contract
  missedRunPolicy := p.missedRunPolicy
  missedRunLimit := p.missedRunLimit.toNat
  overlapPolicy := p.overlapPolicy

def redefineChange (p : RoutineUpsert) (contract : Option String) (next : Option Int) (now : Int)
    (h : 1 ≤ p.missedRunLimit.toNat ∧ p.missedRunLimit.toNat ≤ 100) : RoutineChange where
  takes := fun _ => true
  set := fun r =>
    { r with
      name := p.name, scheduleCron := p.scheduleCron, timezone := p.timezone, prompt := p.prompt
      targetConversationId := p.targetConversationId, enabled := p.enabled, nextRunAt := next
      completionContract := contract, missedRunPolicy := p.missedRunPolicy
      missedRunLimit := p.missedRunLimit.toNat, overlapPolicy := p.overlapPolicy, updatedAt := now }
  key_set := fun _ => rfl
  keeps_ok := fun _ _ _ => ⟨h⟩

def queued (routineId : String) (r : RoutineRunRow) : Bool :=
  r.routineId == routineId && r.status == .pending && r.startedAt.isNone

/-- `… SET status='Skipped', finished_at=…, error=…`, under a `WHERE` that takes pending runs. -/
def skipChange (takes : RoutineRunRow → Bool) (at_ : Int) (reason : String) : RunChange where
  takes := takes
  set := fun r => { r with status := .skipped, finishedAt := some at_, error := some reason }
  key_set := fun _ => rfl
  keeps_ok := fun _ h _ => h

def redefinedReason : String := "routine definition changed before this queued occurrence started"

def upsert (cal : Calendar) (p : RoutineUpsert) (now : Int) (newId : String) (t : RoutineTables) :
    Except RoutineError RoutineRow × RoutineTables :=
  if (trim p.name).isEmpty then (.error (.invalid "routine name is required"), t)
  else
    match contractJson p.completionContract with
    | .error e => (.error (.invalid e), t)
    | .ok contract =>
      match firstRunAt cal p now with
      | .error e => (.error e, t)
      | .ok next =>
        if h : 1 ≤ p.missedRunLimit.toNat ∧ p.missedRunLimit.toNat ≤ 100 then
          let id := p.id.getD newId
          let routines :=
            if (t.routines.row id).isSome then t.routines.update id (redefineChange p contract next now h)
            else t.routines.insertOrIgnore (newRoutine id p contract next now) ⟨h⟩
          let runs := if p.id.isSome then t.runs.updateAll (skipChange (queued id) now redefinedReason) else t.runs
          match routines.row id with
          | none => (.error (.notFound id), ⟨routines, runs⟩)
          | some r => (.ok r, ⟨routines, runs⟩)
        else (.error (.invalid "missed_run_limit must be between 1 and 100"), t)

def listDue (now : Int) (t : RoutineTables) : List RoutineRow :=
  orderBy (fun r => r.nextRunAt.getD 0)
    (t.routines.rows.filter (fun r => r.enabled && r.nextRunAt.any (fun next => decide (next ≤ now))))

def recordChange (status : RoutineRunStatus) (lastRunAt : Int) (nextRunAt : Option Int) : RoutineChange where
  takes := fun _ => true
  set := fun r =>
    { r with lastRunAt := some lastRunAt, lastRunStatus := some status, nextRunAt := nextRunAt, updatedAt := lastRunAt }
  key_set := fun _ => rfl
  keeps_ok := fun _ h _ => ⟨h.limit⟩

def recordRun (id : String) (status : RoutineRunStatus) (lastRunAt : Int) (nextRunAt : Option Int)
    (t : RoutineTables) : RoutineTables :=
  { t with routines := t.routines.update id (recordChange status lastRunAt nextRunAt) }

def advanceChange (now : Int) (nextRunAt : Option Int) : RoutineChange where
  takes := fun _ => true
  set := fun r => { r with nextRunAt := nextRunAt, updatedAt := now }
  key_set := fun _ => rfl
  keeps_ok := fun _ h _ => ⟨h.limit⟩

def advanceSchedule (id : String) (now : Int) (nextRunAt : Option Int) (t : RoutineTables) : RoutineTables :=
  { t with routines := t.routines.update id (advanceChange now nextRunAt) }

def newRun (id : String) (r : RoutineRow) (occurrenceAt firedAt : Int) : RoutineRunRow where
  id := id
  routineId := r.id
  firedAt := firedAt
  startedAt := none
  finishedAt := none
  status := .pending
  error := none
  conversationId := none
  completionContract := r.completionContract
  occurrenceAt := some occurrenceAt

def ofOccurrence (t : RoutineTables) (routineId : String) (occurrenceAt : Int) : Option RoutineRunRow :=
  t.runs.rows.find? (fun r => r.routineId == routineId && r.occurrenceAt == some occurrenceAt)

/-- `INSERT OR IGNORE`, for the id and for the index on the occurrence. -/
def insertRunForOccurrence (routineId : String) (occurrenceAt firedAt : Int) (newId : String) (t : RoutineTables) :
    Except RoutineError String × RoutineTables :=
  match ofOccurrence t routineId occurrenceAt, t.routines.row routineId with
  | some existing, _ => (.ok existing.id, t)
  | none, none => (.error (.db (.invariant s!"routine not found: {routineId}")), t)
  | none, some r =>
    match t.runs.insert? (newRun newId r occurrenceAt firedAt) trivial with
    | none => (.error (.db (.invariant s!"routine not found: {routineId}")), t)
    | some runs => (.ok newId, { t with runs := runs })

def listPendingRunIds (limit : Nat) (t : RoutineTables) : List (String × String) :=
  ((orderBy (fun r : RoutineRunRow => toLex (r.firedAt, r.id))
    (t.runs.rows.filter (fun r : RoutineRunRow => r.status == .pending && r.startedAt.isNone))).take (max 1 (min limit 500))).map
      (fun r : RoutineRunRow => (r.id, r.routineId))

def hasActiveRun (routineId : String) (t : RoutineTables) : Bool :=
  t.runs.rows.any (fun r => r.routineId == routineId && r.active)

def replacedReason : String := "replaced by a newer queued occurrence"

def supersedeQueuedRuns (routineId : String) (keepOccurrence at_ : Int) (t : RoutineTables) : RoutineTables :=
  { t with
    runs := t.runs.updateAll (skipChange
      (fun r => queued routineId r && r.occurrenceAt.any (fun o => o != keepOccurrence)) at_ replacedReason) }

def skipRun (runId : String) (at_ : Int) (reason : String) (t : RoutineTables) : RoutineTables :=
  { t with runs := t.runs.update runId (skipChange (fun r => r.status == .pending) at_ reason) }

def resetChange : RunChange where
  takes := RoutineRunRow.active
  set := fun r => { r with startedAt := none }
  key_set := fun _ => rfl
  keeps_ok := fun _ h _ => h

def resetPendingRunClaims (t : RoutineTables) : RoutineTables := { t with runs := t.runs.updateAll resetChange }

def claimChange (t : RoutineTables) (startedAt : Int) : RunChange where
  takes := fun r =>
    r.status == .pending && r.startedAt.isNone &&
      !t.runs.rows.any (fun q => q.routineId == r.routineId && q.active && q.id != r.id)
  set := fun r => { r with startedAt := some startedAt }
  key_set := fun _ => rfl
  keeps_ok := fun _ h _ => h

def claimPendingRun (runId : String) (startedAt : Int) (t : RoutineTables) : Bool × RoutineTables :=
  (t.runs.changed runId (claimChange t startedAt), { t with runs := t.runs.update runId (claimChange t startedAt) })

def finishChange (status : RoutineRunStatus) (finishedAt : Int) (error conversationId : Option String) : RunChange where
  takes := fun _ => true
  set := fun r =>
    { r with status := status, finishedAt := some finishedAt, error := error, conversationId := conversationId }
  key_set := fun _ => rfl
  keeps_ok := fun _ h _ => h

def finishRun (runId : String) (status : RoutineRunStatus) (finishedAt : Int) (error conversationId : Option String)
    (t : RoutineTables) : RoutineTables :=
  { t with runs := t.runs.update runId (finishChange status finishedAt error conversationId) }

end RoutineStore

end Execlaw
