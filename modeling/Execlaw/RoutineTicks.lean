import Execlaw.Interleave
import Execlaw.Recurrence
import Execlaw.RoutineRuns
/-!
# RoutineTicks — the scheduler's ticks (`server/src/routine_runner.rs`)

A tick is a program over the store; it may be cut off between any two of its calls, and the server then restarts.
-/
namespace Execlaw

open Table RoutineStore Interleave

/-! ## What a tick computes -/

namespace RoutineRow

variable (cal : Calendar) (r : RoutineRow)

def parses : Bool := (parseCron cal r.scheduleCron).toBool && (parseTimezone cal r.timezone).toBool

def nextFire (after : Int) : Option Int := cal.nextFire r.scheduleCron r.timezone after

def nextRunAfter (now : Int) : Option Int := if r.parses cal && cal.valid now then r.nextFire cal now else none

/-- The loop of `due_occurrences`, at most this many more times. -/
def dueFrom (now : Int) : Nat → Int → List Int
  | 0, _ => []
  | limit + 1, cursor =>
    if cursor ≤ now then
      if cal.valid cursor then
        match r.nextFire cal cursor with
        | none => [cursor]
        | some next => if next ≤ cursor then [cursor] else cursor :: dueFrom now limit next
      else [cursor]
    else []

def dueOccurrences (now : Int) : List Int :=
  match r.nextRunAt with
  | none => []
  | some cursor =>
    if r.missedRunPolicy = .coalesce ∧ cursor ≤ now then [cursor]
    else if r.parses cal then r.dueFrom cal now 1000 cursor
    else [cursor]

def plan (now : Int) : DueOccurrencePlan :=
  planDueOccurrences r.missedRunPolicy r.missedRunLimit now (r.dueOccurrences cal now)

end RoutineRow

structure RunIds where
  id : String → Int → String
  injective : ∀ r d r' d', id r d = id r' d' → r = r' ∧ d = d'

structure Dispatch where
  status : DispatchStatus
  finishedAt : Int
  error : Option String
  conversationId : Option String

structure TickEnv where
  cal : Calendar
  ids : RunIds
  dispatch : String → Dispatch
  now : Int

namespace Tick

abbrev TickProg := Prog RoutineTables

variable (env : TickEnv)

def act (f : RoutineTables → RoutineTables) : TickProg Unit := .atomic (fun t => ((), f t))

def fireRun (routine : RoutineRow) (nextRunAt : Option Int) (runId : String) : TickProg Unit := do
  if ← .atomic (claimPendingRun runId env.now) then
    let dispatch := env.dispatch runId
    act (finishRun runId dispatch.status.status dispatch.finishedAt dispatch.error dispatch.conversationId)
    act (recordRun routine.id dispatch.status.status env.now nextRunAt)

def insertRun (routine : RoutineRow) (occurrenceAt : Int) : TickProg (Except RoutineError String) :=
  .atomic (insertRunForOccurrence routine.id occurrenceAt env.now (env.ids.id routine.id occurrenceAt))

def fireOne (routine : RoutineRow) (occurrenceAt : Int) (nextRunAt : Option Int) :
    Option String → TickProg (Except RoutineError Unit)
  | some runId => do
    fireRun env routine nextRunAt runId
    pure (.ok ())
  | none => do
    match ← insertRun env routine occurrenceAt with
    | .error e => pure (.error e)
    | .ok runId =>
      fireRun env routine nextRunAt runId
      pure (.ok ())

def recoverRuns : List (String × String) → TickProg Unit
  | [] => pure ()
  | (runId, routineId) :: rest => do
    match ← .read (fun t => t.routines.row routineId) with
    | none => recoverRuns rest
    | some routine =>
      if routine.enabled then
        let occurrenceAt ← .read (fun t => ((t.runs.row runId).bind RoutineRunRow.occurrenceAt).getD env.now)
        let _ ← fireOne env routine occurrenceAt (routine.nextRunAfter env.cal env.now) (some runId)
        recoverRuns rest
      else recoverRuns rest

def recordSkipped (routine : RoutineRow) (occurrenceAt : Int) (reason : String) : TickProg (Except RoutineError Unit) := do
  match ← insertRun env routine occurrenceAt with
  | .error e => pure (.error e)
  | .ok runId =>
    act (skipRun runId env.now reason)
    pure (.ok ())

def missedReason : String := "missed-run policy skipped this occurrence"

def overlapReason : String := "overlap policy skipped this occurrence while another run is active"

def skipAll (routine : RoutineRow) : List Int → TickProg (Except RoutineError Unit)
  | [] => pure (.ok ())
  | occurrenceAt :: rest => do
    match ← recordSkipped env routine occurrenceAt missedReason with
    | .error e => pure (.error e)
    | .ok () => skipAll routine rest

def executeOne (routine : RoutineRow) (active : Bool) (occurrenceAt : Int) : TickProg (Except RoutineError Unit) :=
  if active then
    match routine.overlapPolicy with
    | .forbid => recordSkipped env routine occurrenceAt overlapReason
    | .replace => do
      act (supersedeQueuedRuns routine.id occurrenceAt env.now)
      let inserted ← insertRun env routine occurrenceAt
      pure (inserted.map fun _ => ())
    | .queue => do
      let inserted ← insertRun env routine occurrenceAt
      pure (inserted.map fun _ => ())
  else do
    -- an error is logged
    let _ ← fireOne env routine occurrenceAt (routine.nextRunAfter env.cal env.now) none
    pure (.ok ())

def executeAll (routine : RoutineRow) (active : Bool) : List Int → TickProg (Except RoutineError Unit)
  | [] => pure (.ok ())
  | occurrenceAt :: rest => do
    match ← executeOne env routine active occurrenceAt with
    | .error e => pure (.error e)
    | .ok () => executeAll routine active rest

def tickRoutine (routine : RoutineRow) : TickProg (Except RoutineError Unit) := do
  let active ← .read (hasActiveRun routine.id)
  match ← skipAll env routine (routine.plan env.cal env.now).skip with
  | .error e => pure (.error e)
  | .ok () =>
    match ← executeAll env routine active (routine.plan env.cal env.now).execute with
    | .error e => pure (.error e)
    | .ok () =>
      act (advanceSchedule routine.id env.now (routine.nextRunAfter env.cal env.now))
      pure (.ok ())

def tickAll : List RoutineRow → TickProg (Except RoutineError Unit)
  | [] => pure (.ok ())
  | routine :: rest => do
    match ← tickRoutine env routine with
    | .error e => pure (.error e)
    | .ok () => tickAll rest

def tickOnceAt : TickProg (Except RoutineError Unit) := do
  let pending ← .read (listPendingRunIds 500)
  recoverRuns env pending
  let due ← .read (listDue env.now)
  tickAll env due

end Tick

/-! ## Sessions -/

/-- One tick, at a time the calendar library has; `crash` is the number of store calls before the server stops. -/
structure TickEvent (cal : Calendar) where
  now : Int
  valid : cal.valid now = true
  dispatch : String → Dispatch
  crash : Option Nat

namespace Ticks

open Tick

variable (cal : Calendar) (ids : RunIds)

def env {cal : Calendar} (e : TickEvent cal) : TickEnv := ⟨cal, ids, e.dispatch, e.now⟩

def left {cal : Calendar} (t : RoutineTables) (e : TickEvent cal) : Bool × RoutineTables :=
  match e.crash with
  | none => (true, ((tickOnceAt (env ids e)).alone t).2)
  | some steps => ((((tickOnceAt (env ids e)).cut steps t).1).isSome, ((tickOnceAt (env ids e)).cut steps t).2)

/-- **One tick**; a crash restarts the server. -/
def exec {cal : Calendar} (t : RoutineTables) (e : TickEvent cal) : Bool × RoutineTables :=
  ((left ids t e).1, if e.crash.isSome then resetPendingRunClaims (left ids t e).2 else (left ids t e).2)

def run {cal : Calendar} (routines : Keyed RoutineRow.id RoutineRow.Ok) (events : List (TickEvent cal)) : RoutineTables :=
  Calls.after (exec ids) ⟨routines, .empty⟩ events

def RunOf (t : RoutineTables) (routineId : String) (d : Int) (q : RoutineRunRow) : Prop :=
  q ∈ t.runs.rows ∧ q.routineId = routineId ∧ q.occurrenceAt = some d

def Scheduled (r : RoutineRow) (first d : Int) : Prop := Recurrence.Instant (r.nextFire cal) (some first) d

def Skips (t : RoutineTables) (r : RoutineRow) (now d : Int) : Prop :=
  d ∈ (r.plan cal now).skip ∨
    (hasActiveRun r.id t = true ∧ r.overlapPolicy = .forbid ∧ d ∈ (r.plan cal now).execute)

/-! ## What should hold -/

/-- **No occurrence is lost**: what is before the next run has a run, and what a finished tick found due has one that
is executed or skipped; an occurrence has one run, decided by the tick that made it, and a coalesced window one. -/
structure Lossless (routines : Keyed RoutineRow.id RoutineRow.Ok) (r : RoutineRow) (first : Int)
    (events : List (TickEvent cal)) : Prop where
  covered : r.missedRunPolicy ≠ .coalesce → ∀ pre post, events = pre ++ post → ∀ d, Scheduled cal r first d →
    (∀ r' n, (run ids routines pre).routines.row r.id = some r' → r'.nextRunAt = some n → d < n) →
      ∃ q, RunOf (run ids routines pre) r.id d q
  handled : r.missedRunPolicy ≠ .coalesce → ∀ pre e mid post, events = pre ++ e :: (mid ++ post) →
    (exec ids (run ids routines pre) e).1 = true → ∀ d, Scheduled cal r first d → d ≤ e.now →
      ∃ q, RunOf (run ids routines (pre ++ e :: mid)) r.id d q ∧ q.status ≠ .pending
  unique : ∀ pre post, events = pre ++ post → ∀ d q q', RunOf (run ids routines pre) r.id d q →
    RunOf (run ids routines pre) r.id d q' → q = q'
  decided : ∀ pre e post, events = pre ++ e :: post → ∀ d q', RunOf (run ids routines (pre ++ [e])) r.id d q' →
    (∀ q, ¬ RunOf (run ids routines pre) r.id d q) → ∃ r', (run ids routines pre).routines.row r.id = some r' ∧
      d ∈ r'.dueOccurrences cal e.now ∧ (q'.status = .skipped ↔ Skips cal (run ids routines pre) r' e.now d)
  kept : ∀ pre e post, events = pre ++ e :: post → ∀ d q, RunOf (run ids routines pre) r.id d q →
    ∃ q', RunOf (run ids routines (pre ++ [e])) r.id d q' ∧ (q'.status = .skipped ↔ q.status = .skipped) ∧
      (q.status ≠ .pending → q' = q)
  window : r.missedRunPolicy = .coalesce → ∀ pre e post, events = pre ++ e :: post → ∀ r' c,
    (run ids routines pre).routines.row r.id = some r' → r'.nextRunAt = some c → c ≤ e.now →
      ((exec ids (run ids routines pre) e).1 = true ∨ ∀ r'', (run ids routines (pre ++ [e])).routines.row r.id =
        some r'' → r''.nextRunAt ≠ some c) →
        ∃ q, RunOf (run ids routines (pre ++ [e])) r.id c q ∧ (q.status = .success ∨ q.status = .failed) ∧
          ∀ d q', RunOf (run ids routines (pre ++ [e])) r.id d q' → c ≤ d → d ≤ e.now → d = c

/-! ## When it holds -/

/-- **The ticks that lose nothing**, by the state they find and the one a crash leaves. -/
structure Spares {cal : Calendar} (r : RoutineRow) (t : RoutineTables) (e : TickEvent cal) : Prop where
  few : t.runs.rows.countP (fun q => q.status == .pending) ≤ 500
  due : r.missedRunPolicy ≠ .coalesce → ∀ r' c ds tip, t.routines.row r.id = some r' → r'.nextRunAt = some c →
    Recurrence.Follows (r.nextFire cal) (some c) ds tip → (∀ d ∈ ds, d ≤ e.now) → ds.length ≤ 1000
  recovered : r.missedRunPolicy ≠ .coalesce → ∀ d q, RunOf t r.id d q → q.status = .pending → ∀ r' c d',
    t.routines.row r.id = some r' → r'.nextRunAt = some c → Scheduled cal r c d' → d' ≤ e.now →
      ∃ q', RunOf t r.id d' q'
  skipped : (left ids t e).1 = false → ∀ d q, RunOf (left ids t e).2 r.id d q → q.status = .pending →
    (∀ q, ¬ RunOf t r.id d q) → ∀ r', t.routines.row r.id = some r' → ¬ Skips cal t r' e.now d
  inserted : (left ids t e).1 = false → r.missedRunPolicy ≠ .coalesce → ∀ r' r'' c d', t.routines.row r.id = some r' →
    r'.nextRunAt = some c → (left ids t e).2.routines.row r.id = some r'' → r''.nextRunAt ≠ some c →
      Scheduled cal r c d' → d' ≤ e.now → ∃ q', RunOf (left ids t e).2 r.id d' q'

end Ticks

end Execlaw
