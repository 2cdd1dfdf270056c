import Execlaw.Routines
/-!
# RoutineRuns — a run is dispatched once

Overlapping ticks insert the runs of occurrences, claim them, dispatch what they claimed and finish it; others skip or
supersede runs, or redefine their routine.  `RoutineSystem` runs the tables beside the runners at work.
-/
namespace Execlaw

open Table

inductive DispatchStatus | success | failed

def DispatchStatus.status : DispatchStatus → RoutineRunStatus
  | .success => .success
  | .failed => .failed

inductive RoutineCall
  | upsert (payload : RoutineUpsert) (now : Int) (newId : String)
  | insert (routineId : String) (occurrenceAt firedAt : Int) (newId : String)
  | skip (runId : String) (at_ : Int) (reason : String)
  | supersede (routineId : String) (keepOccurrence at_ : Int)
  | claim (runId : String) (startedAt : Int)
  | finish (runId : String) (dispatch : DispatchStatus) (finishedAt : Int) (error conversationId : Option String)
  | recordRun (id : String) (dispatch : DispatchStatus) (lastRunAt : Int) (nextRunAt : Option Int)
  | advance (id : String) (now : Int) (nextRunAt : Option Int)
  | restart

inductive RoutineReply
  | saved (routine : Except RoutineError RoutineRow)
  | inserted (runId : Except RoutineError String)
  | claimed (taken : Bool)
  | done

structure RoutineSystem where
  tables : RoutineTables
  dispatching : List String
  claimed : List String

namespace RoutineSystem

open RoutineStore

variable (cal : Calendar) (routines : Keyed RoutineRow.id RoutineRow.Ok)

def start : RoutineSystem := ⟨⟨routines, .empty⟩, [], []⟩

/-- **One call**; a run is finished by the runner whose claim of it succeeded, and a restart, which begins with
`reset_pending_run_claims`, leaves no runner. -/
def exec (s : RoutineSystem) : RoutineCall → RoutineReply × RoutineSystem
  | .upsert payload now newId =>
    let called := upsert cal payload now newId s.tables
    (.saved called.1, { s with tables := called.2 })
  | .insert routineId occurrenceAt firedAt newId =>
    let called := insertRunForOccurrence routineId occurrenceAt firedAt newId s.tables
    (.inserted called.1, { s with tables := called.2 })
  | .skip runId at_ reason => (.done, { s with tables := skipRun runId at_ reason s.tables })
  | .supersede routineId keepOccurrence at_ =>
    (.done, { s with tables := supersedeQueuedRuns routineId keepOccurrence at_ s.tables })
  | .claim runId startedAt =>
    let called := claimPendingRun runId startedAt s.tables
    if called.1 then (.claimed true, ⟨called.2, runId :: s.dispatching, runId :: s.claimed⟩)
    else (.claimed false, { s with tables := called.2 })
  | .finish runId dispatch finishedAt error conversationId =>
    if runId ∈ s.dispatching then
      (.done, { s with
        tables := finishRun runId dispatch.status finishedAt error conversationId s.tables
        dispatching := s.dispatching.filter (· ≠ runId) })
    else (.done, s)
  | .recordRun id dispatch lastRunAt nextRunAt =>
    (.done, { s with tables := recordRun id dispatch.status lastRunAt nextRunAt s.tables })
  | .advance id now nextRunAt => (.done, { s with tables := advanceSchedule id now nextRunAt s.tables })
  | .restart => (.done, { s with tables := resetPendingRunClaims s.tables, dispatching := [] })

def run (calls : List RoutineCall) : RoutineSystem := Calls.after (exec cal) (start routines) calls

def claims (runId : String) (s : RoutineSystem) : RoutineCall → Bool
  | .claim id startedAt => decide (id = runId) && (claimPendingRun id startedAt s.tables).1
  | _ => false

/-! ## What should hold -/

structure Orderly (s : RoutineSystem) : Prop where
  once : ∀ r ∈ s.tables.runs.rows, ∀ r' ∈ s.tables.runs.rows, r.routineId = r'.routineId →
    r.occurrenceAt = r'.occurrenceAt → r.occurrenceAt.isSome = true → r = r'
  active : ∀ r ∈ s.tables.runs.rows, ∀ r' ∈ s.tables.runs.rows, r.active = true → r'.active = true →
    r.routineId = r'.routineId → r = r'
  held : ∀ runId ∈ s.dispatching, ∃ r, s.tables.runs.row runId = some r ∧ r.active = true
  skipped : ∀ r ∈ s.tables.runs.rows, r.status = .skipped → r.startedAt = none

/-- **Runs are dispatched once**: orderly in every state, claimed once between two restarts, only while pending, and
left as they are once they are finished or skipped. -/
structure Dispatched (calls : List RoutineCall) : Prop where
  orderly : ∀ pre post, calls = pre ++ post → Orderly (run cal routines pre)
  single : ∀ pre mid post, calls = pre ++ mid ++ post → .restart ∉ mid →
    ∀ runId, Calls.count (exec cal) (claims runId) (run cal routines pre) mid ≤ 1
  pending : ∀ pre c post, calls = pre ++ c :: post → ∀ runId, claims runId (run cal routines pre) c = true →
    ∃ r, (run cal routines pre).tables.runs.row runId = some r ∧ r.status = .pending
  final : ∀ pre mid post, calls = pre ++ mid ++ post → ∀ runId r,
    (run cal routines pre).tables.runs.row runId = some r → r.status ≠ .pending →
      (run cal routines (pre ++ mid)).tables.runs.row runId = some r

/-- **A skipped run was never claimed**, by a runner of an earlier process either. -/
def NeverExecuted (calls : List RoutineCall) : Prop :=
  ∀ pre post, calls = pre ++ post → ∀ r ∈ (run cal routines pre).tables.runs.rows, r.status = .skipped →
    r.id ∉ (run cal routines pre).claimed

/-! ## When it holds -/

/-- **A call the code does not check**: a run is skipped while no runner has claimed it. -/
def Unclaimed (s : RoutineSystem) : RoutineCall → Prop
  | .skip runId _ _ => ∀ r, s.tables.runs.row runId = some r → r.active = false
  | _ => True

structure Accepted (p : RoutineUpsert) (now : Int) : Prop where
  name : (trim p.name).isEmpty = false
  contract : ∃ contract, contractJson p.completionContract = .ok contract
  next : ∃ next, firstRunAt cal p now = .ok next
  limit : 1 ≤ p.missedRunLimit.toNat ∧ p.missedRunLimit.toNat ≤ 100

def Untouched (s : RoutineSystem) : RoutineCall → Prop
  | .skip runId _ _ => ∀ r, s.tables.runs.row runId = some r → r.status = .pending → runId ∉ s.claimed
  | .supersede routineId keepOccurrence _ => ∀ i r, s.tables.runs.row i = some r → queued routineId r = true →
      r.occurrenceAt.any (fun o => o != keepOccurrence) = true → i ∉ s.claimed
  | .upsert payload now _ => Accepted cal payload now → ∀ routineId, payload.id = some routineId →
      ∀ i r, s.tables.runs.row i = some r → queued routineId r = true → i ∉ s.claimed
  | _ => True

variable {cal routines} {s : RoutineSystem}

/-! ## What a call does to the runs -/

structure Retired (r r' : RoutineRunRow) : Prop where
  pending : r.status = .pending
  routineId : r'.routineId = r.routineId
  occurrenceAt : r'.occurrenceAt = r.occurrenceAt
  inactive : r'.active = false
  skipped : r'.status = .skipped → r'.startedAt = none

def Retires (runs runs' : Keyed RoutineRunRow.id (fun _ => True)) : Prop :=
  ∀ i, runs'.row i = runs.row i ∨
    ∃ r r', runs.row i = some r ∧ runs'.row i = some r' ∧ Retired r r'

variable {runs runs' : Keyed RoutineRunRow.id (fun _ => True)}

theorem Retires.of_eq (h : runs' = runs) : Retires runs runs' :=
  fun _ => .inl (by rw [h])

variable {r : RoutineRunRow} {routineId : String}

theorem queued_iff :
    queued routineId r = true ↔ r.routineId = routineId ∧ r.status = .pending ∧ r.startedAt = none := by
  simp [queued, and_assoc]

theorem active_iff : r.active = true ↔ r.status = .pending ∧ r.startedAt.isSome = true := by
  simp [RoutineRunRow.active]

theorem active_of_pending (h : r.status = .pending) : r.active = r.startedAt.isSome := by
  simp [RoutineRunRow.active, h]

theorem inactive_of_status (h : r.status ≠ .pending) : r.active = false := by
  simp [RoutineRunRow.active, h]

theorem retired_skip (takes : RoutineRunRow → Bool) (at_ : Int) (reason : String) (hpending : r.status = .pending)
    (hstarted : r.startedAt = none) : Retired r ((skipChange takes at_ reason).set r) :=
  ⟨hpending, rfl, rfl, inactive_of_status nofun, fun _ => hstarted⟩

variable {takes : RoutineRunRow → Bool}

theorem retires_skipAll (runs : Keyed RoutineRunRow.id (fun _ => True))
    (htakes : ∀ r, takes r = true → queued routineId r = true) (at_ : Int) (reason : String) :
    Retires runs (runs.updateAll (skipChange takes at_ reason)) := by
  intro i
  rcases runs.row_updateAll_cases (skipChange takes at_ reason) i with heq | ⟨r, hr, hr', hset⟩
  · exact .inl heq
  · obtain ⟨-, hpending, hstarted⟩ := queued_iff.1 (htakes r hr')
    exact .inr ⟨r, _, hr, hset, retired_skip takes at_ reason hpending hstarted⟩

theorem retires_skip (runs : Keyed RoutineRunRow.id (fun _ => True)) {runId : String} (at_ : Int) (reason : String)
    (h : ∀ r, runs.row runId = some r → r.active = false) :
    Retires runs (runs.update runId (skipChange (fun r => r.status == .pending) at_ reason)) := by
  intro i
  cases hr : runs.row i with
  | none => exact .inl (Keyed.row_update_eq_none hr)
  | some r =>
    rcases Keyed.row_update_cases (k := runId) (c := skipChange (fun r => r.status == .pending) at_ reason) hr with
      heq | ⟨rfl, htakes, hset⟩
    · exact .inl heq
    · have hpending : r.status = .pending := eq_of_beq htakes
      have hinactive := h r hr
      rw [active_of_pending hpending, Option.isSome_eq_false_iff, Option.isNone_iff_eq_none] at hinactive
      exact .inr ⟨r, _, rfl, hset, retired_skip _ at_ reason hpending hinactive⟩

theorem retires_finish (runs : Keyed RoutineRunRow.id (fun _ => True)) {runId : String} (dispatch : DispatchStatus)
    (finishedAt : Int) (error conversationId : Option String) (h : ∃ r, runs.row runId = some r ∧ r.active = true) :
    Retires runs (runs.update runId (finishChange dispatch.status finishedAt error conversationId)) := by
  obtain ⟨r, hr, hactive⟩ := h
  intro i
  by_cases hi : i = runId
  · subst hi
    have hset := Keyed.row_update_of_changed (c := finishChange dispatch.status finishedAt error conversationId) hr rfl
    have hstatus : dispatch.status ≠ .pending ∧ dispatch.status ≠ .skipped := by
      cases dispatch <;> exact ⟨nofun, nofun⟩
    exact .inr ⟨r, _, hr, hset, (active_iff.1 hactive).1, rfl, rfl, inactive_of_status hstatus.1,
      fun h => absurd h hstatus.2⟩
  · exact .inl (Keyed.row_update_of_ne _ hi _)

theorem retires_reset (runs : Keyed RoutineRunRow.id (fun _ => True)) : Retires runs (runs.updateAll resetChange) := by
  intro i
  rcases runs.row_updateAll_cases resetChange i with heq | ⟨r, hr, hactive, hset⟩
  · exact .inl heq
  · obtain ⟨hpending, -⟩ := active_iff.1 hactive
    refine .inr ⟨r, _, hr, hset, hpending, rfl, rfl, ?_, fun _ => rfl⟩
    simp [RoutineRunRow.active, resetChange]

/-- **What a definition does to the runs**: nothing, or where it is saved under an id it skips the queued ones. -/
theorem runs_upsert (cal : Calendar) (p : RoutineUpsert) (now : Int) (newId : String) (t : RoutineTables) :
    (upsert cal p now newId t).2.runs = t.runs ∨ ∃ routineId, p.id = some routineId ∧ Accepted cal p now ∧
      (upsert cal p now newId t).2.runs = t.runs.updateAll (skipChange (queued routineId) now redefinedReason) := by
  unfold RoutineStore.upsert
  split
  · exact .inl rfl
  · next hname =>
    split
    · exact .inl rfl
    · next contract hcontract =>
      split
      · exact .inl rfl
      · next next hnext =>
        split
        · next hlimit =>
          rcases Option.eq_none_or_eq_some p.id with hid | ⟨routineId, hid⟩
          · simp only [hid, Option.isSome_none, Bool.false_eq_true, if_false]
            split <;> exact .inl rfl
          · have haccepted : Accepted cal p now := ⟨by simpa using hname, ⟨contract, hcontract⟩, ⟨next, hnext⟩, hlimit⟩
            simp only [hid, Option.getD_some, Option.isSome_some, if_true]
            split <;> exact .inr ⟨routineId, rfl, haccepted, rfl⟩
        · exact .inl rfl

theorem runs_upsert_of_accepted {p : RoutineUpsert} {now : Int} (newId : String) (t : RoutineTables)
    (h : Accepted cal p now) (hid : p.id = some routineId) :
    (upsert cal p now newId t).2.runs = t.runs.updateAll (skipChange (queued routineId) now redefinedReason) := by
  obtain ⟨contract, hcontract⟩ := h.contract
  obtain ⟨next, hnext⟩ := h.next
  simp only [RoutineStore.upsert, h.name, Bool.false_eq_true, if_false, hcontract, hnext, dif_pos h.limit, hid, Option.isSome_some,
    if_true]
  split <;> rfl

/-! ## The invariant -/

structure Inv (s : RoutineSystem) : Prop where
  once : ∀ i j r r', s.tables.runs.row i = some r → s.tables.runs.row j = some r' → r.routineId = r'.routineId →
    r.occurrenceAt = r'.occurrenceAt → r.occurrenceAt.isSome = true → i = j
  active : ∀ i j r r', s.tables.runs.row i = some r → s.tables.runs.row j = some r' → r.active = true →
    r'.active = true → r.routineId = r'.routineId → i = j
  held : ∀ runId ∈ s.dispatching, ∃ r, s.tables.runs.row runId = some r ∧ r.active = true
  skipped : ∀ i r, s.tables.runs.row i = some r → r.status = .skipped → r.startedAt = none

theorem inv_start : Inv (start routines) := by
  constructor
  · intro i j r r' hr
    cases hr
  · intro i j r r' hr
    cases hr
  · intro runId hrun
    cases hrun
  · intro i r hr
    cases hr

theorem Inv.orderly (h : Inv s) : Orderly s := by
  have hrow : ∀ r ∈ s.tables.runs.rows, s.tables.runs.row r.id = some r := fun r hr => Keyed.row_iff.2 ⟨hr, rfl⟩
  have heq : ∀ r ∈ s.tables.runs.rows, ∀ r' ∈ s.tables.runs.rows, r.id = r'.id → r = r' := by
    intro r hr r' hr' hid
    have hr₁ := hrow r hr
    rw [hid, hrow r' hr'] at hr₁
    exact (Option.some.inj hr₁).symm
  constructor
  · intro r hr r' hr' hroutine hoccurrence hsome
    exact heq r hr r' hr' (h.once _ _ r r' (hrow r hr) (hrow r' hr') hroutine hoccurrence hsome)
  · intro r hr r' hr' hactive hactive' hroutine
    exact heq r hr r' hr' (h.active _ _ r r' (hrow r hr) (hrow r' hr') hactive hactive' hroutine)
  · exact h.held
  · intro r hr hskipped
    exact h.skipped r.id r (hrow r hr) hskipped

variable {i : String}

theorem Retires.back (h : Retires runs runs') {r' : RoutineRunRow} (hr' : runs'.row i = some r') :
    ∃ r, runs.row i = some r ∧ (r' = r ∨ Retired r r') := by
  rcases h i with heq | ⟨r, r₁, hr, hr₁, hretired⟩
  · exact ⟨r', heq ▸ hr', .inl rfl⟩
  · rw [hr'] at hr₁
    cases hr₁
    exact ⟨r, hr, .inr hretired⟩

theorem Retires.kept (h : Retires runs runs') (hr : runs.row i = some r) (hstatus : r.status ≠ .pending) :
    runs'.row i = some r := by
  rcases h i with heq | ⟨r₀, r', hr₀, -, hretired⟩
  · rw [heq, hr]
  · rw [hr] at hr₀
    cases hr₀
    exact absurd hretired.pending hstatus

theorem Inv.retired {s' : RoutineSystem} (h : Inv s) (hruns : Retires s.tables.runs s'.tables.runs)
    (hheld : ∀ runId ∈ s'.dispatching, runId ∈ s.dispatching ∧
      s'.tables.runs.row runId = s.tables.runs.row runId) : Inv s' := by
  have hsame : ∀ {i r'}, s'.tables.runs.row i = some r' → ∃ r, s.tables.runs.row i = some r ∧
      r'.routineId = r.routineId ∧ r'.occurrenceAt = r.occurrenceAt ∧ (r'.active = true → r.active = true) := by
    intro i r' hr'
    obtain ⟨r, hr, rfl | hretired⟩ := hruns.back hr'
    · exact ⟨r', hr, rfl, rfl, id⟩
    · exact ⟨r, hr, hretired.routineId, hretired.occurrenceAt,
        fun hactive => absurd hactive (Bool.eq_false_iff.1 hretired.inactive)⟩
  constructor
  · intro i j r r' hr hr' hroutine hoccurrence hsome
    obtain ⟨q, hq, hqroutine, hqoccurrence, -⟩ := hsame hr
    obtain ⟨q', hq', hqroutine', hqoccurrence', -⟩ := hsame hr'
    refine h.once i j q q' hq hq' ?_ ?_ ?_
    · rw [← hqroutine, ← hqroutine', hroutine]
    · rw [← hqoccurrence, ← hqoccurrence', hoccurrence]
    · rw [← hqoccurrence, hsome]
  · intro i j r r' hr hr' hactive hactive' hroutine
    obtain ⟨q, hq, hqroutine, -, hqactive⟩ := hsame hr
    obtain ⟨q', hq', hqroutine', -, hqactive'⟩ := hsame hr'
    exact h.active i j q q' hq hq' (hqactive hactive) (hqactive' hactive') (by rw [← hqroutine, ← hqroutine', hroutine])
  · intro runId hrun
    obtain ⟨hold, hrow⟩ := hheld runId hrun
    rw [hrow]
    exact h.held runId hold
  · intro i r' hr' hskipped
    obtain ⟨r, hr, rfl | hretired⟩ := hruns.back hr'
    · exact h.skipped i r' hr hskipped
    · exact hretired.skipped hskipped

variable {runs : Keyed RoutineRunRow.id (fun _ => True)}

theorem row_skipAll_of_active (htakes : ∀ r, takes r = true → queued routineId r = true) (at_ : Int) (reason : String)
    {runId : String} (h : ∃ r, runs.row runId = some r ∧ r.active = true) :
    (runs.updateAll (skipChange takes at_ reason)).row runId = runs.row runId := by
  obtain ⟨r, hr, hactive⟩ := h
  rcases runs.row_updateAll_cases (skipChange takes at_ reason) runId with heq | ⟨r₁, hr₁, htaken, -⟩
  · exact heq
  · rw [hr] at hr₁
    cases hr₁
    obtain ⟨-, -, hstarted⟩ := queued_iff.1 (htakes r htaken)
    rw [active_iff, hstarted] at hactive
    cases hactive.2

theorem ofOccurrence_eq_none {t : RoutineTables} {occurrenceAt : Int} (h : ofOccurrence t routineId occurrenceAt = none)
    (hr : t.runs.row i = some r) (hroutine : r.routineId = routineId) : r.occurrenceAt ≠ some occurrenceAt := by
  intro hoccurrence
  have hnot := List.find?_eq_none.1 h r (Keyed.row_iff.1 hr).1
  simp [hroutine, hoccurrence] at hnot

theorem insert_cases (routineId : String) (occurrenceAt firedAt : Int) (newId : String) (t : RoutineTables) :
    (insertRunForOccurrence routineId occurrenceAt firedAt newId t).2 = t ∨
      ∃ q, t.routines.row routineId = some q ∧ ofOccurrence t routineId occurrenceAt = none ∧
        t.runs.insert? (RoutineStore.newRun newId q occurrenceAt firedAt) trivial =
          some (insertRunForOccurrence routineId occurrenceAt firedAt newId t).2.runs ∧
        (insertRunForOccurrence routineId occurrenceAt firedAt newId t).2.routines = t.routines := by
  unfold insertRunForOccurrence
  split
  · exact .inl rfl
  · exact .inl rfl
  · next q hnone hq =>
    split
    · exact .inl rfl
    · next runs hinsert => exact .inr ⟨q, hq, hnone, hinsert, rfl⟩

theorem Inv.inserted {s' : RoutineSystem} (h : Inv s) {q : RoutineRow} {routineId newId : String}
    {occurrenceAt firedAt : Int} (hq : s.tables.routines.row routineId = some q)
    (hnone : ofOccurrence s.tables routineId occurrenceAt = none)
    (hinsert : s.tables.runs.insert? (RoutineStore.newRun newId q occurrenceAt firedAt) trivial = some s'.tables.runs)
    (hdispatching : s'.dispatching = s.dispatching) : Inv s' := by
  obtain rfl : q.id = routineId := Keyed.key_of_row hq
  obtain ⟨hfresh, hrow⟩ := Keyed.insert?_eq_some hinsert
  have hback : ∀ {i r}, s'.tables.runs.row i = some r → s.tables.runs.row i = some r ∨
      i = newId ∧ r = RoutineStore.newRun newId q occurrenceAt firedAt := by
    intro i r hr
    rw [hrow] at hr
    rcases Option.or_eq_some_iff.1 hr with hold | ⟨-, hnew⟩
    · exact .inl hold
    · split at hnew
      · next hid => exact .inr ⟨hid.symm, (Option.some.inj hnew).symm⟩
      · cases hnew
  constructor
  · intro i j r r' hr hr' hroutine hoccurrence hsome
    rcases hback hr with hr | ⟨rfl, rfl⟩ <;> rcases hback hr' with hr' | ⟨rfl, rfl⟩
    · exact h.once i j r r' hr hr' hroutine hoccurrence hsome
    · exact absurd hoccurrence (ofOccurrence_eq_none hnone hr hroutine)
    · exact absurd hoccurrence.symm (ofOccurrence_eq_none hnone hr' hroutine.symm)
    · rfl
  · intro i j r r' hr hr' hactive hactive' hroutine
    rcases hback hr with hr | ⟨rfl, rfl⟩
    · rcases hback hr' with hr' | ⟨rfl, rfl⟩
      · exact h.active i j r r' hr hr' hactive hactive' hroutine
      · cases hactive'
    · cases hactive
  · intro runId hrun
    rw [hdispatching] at hrun
    obtain ⟨r, hr, hactive⟩ := h.held runId hrun
    exact ⟨r, by rw [hrow, hr, Option.some_or], hactive⟩
  · intro i r hr hskipped
    rcases hback hr with hr | ⟨rfl, rfl⟩
    · exact h.skipped i r hr hskipped
    · cases hskipped

theorem claim_cases (runId : String) (startedAt : Int) (t : RoutineTables) :
    claimPendingRun runId startedAt t = (false, t) ∨
      ∃ r, t.runs.row runId = some r ∧ r.status = .pending ∧ r.startedAt = none ∧
        (∀ i q, t.runs.row i = some q → q.active = true → q.routineId ≠ r.routineId) ∧
        claimPendingRun runId startedAt t = (true, { t with runs := t.runs.update runId (claimChange t startedAt) }) ∧
        (t.runs.update runId (claimChange t startedAt)).row runId = some { r with startedAt := some startedAt } := by
  unfold claimPendingRun
  rcases t.runs.update_cases runId (claimChange t startedAt) with ⟨hchanged, heq⟩ | ⟨r, hr, htakes, hchanged, hset, -⟩
  · exact .inl (by rw [hchanged, heq])
  · refine .inr ⟨r, hr, ?_⟩
    simp only [claimChange, Bool.and_eq_true, beq_iff_eq, Option.isNone_iff_eq_none, Bool.not_eq_true',
      List.any_eq_false] at htakes
    obtain ⟨⟨hpending, hstarted⟩, hnone⟩ := htakes
    refine ⟨hpending, hstarted, fun i q hq hactive hroutine => ?_, by rw [hchanged], hset⟩
    have hid : q.id ≠ r.id := by
      rw [Keyed.key_of_row hq, Keyed.key_of_row hr]
      rintro rfl
      rw [hr] at hq
      cases hq
      rw [active_iff, hstarted] at hactive
      cases hactive.2
    exact hnone q (Keyed.row_iff.1 hq).1 (by simp [hroutine, hactive, hid])

theorem Inv.claimed {s' : RoutineSystem} (h : Inv s) {runId : String} {startedAt : Int}
    (hr : s.tables.runs.row runId = some r) (hpending : r.status = .pending)
    (hidle : ∀ i q, s.tables.runs.row i = some q → q.active = true → q.routineId ≠ r.routineId)
    (hset : s'.tables.runs.row runId = some { r with startedAt := some startedAt })
    (hframe : ∀ i, i ≠ runId → s'.tables.runs.row i = s.tables.runs.row i)
    (hdispatching : s'.dispatching = runId :: s.dispatching) : Inv s' := by
  have hback : ∀ {i q'}, s'.tables.runs.row i = some q' → ∃ q, s.tables.runs.row i = some q ∧
      q'.routineId = q.routineId ∧ q'.occurrenceAt = q.occurrenceAt ∧ q'.status = q.status ∧
      (i = runId ∨ q' = q) := by
    intro i q' hq'
    by_cases hi : i = runId
    · subst hi
      rw [hset] at hq'
      cases hq'
      exact ⟨r, hr, rfl, rfl, rfl, .inl rfl⟩
    · rw [hframe i hi] at hq'
      exact ⟨q', hq', rfl, rfl, rfl, .inr rfl⟩
  have hother : ∀ {i q q'}, s'.tables.runs.row i = some q → s'.tables.runs.row runId = some q' → i ≠ runId →
      q.active = true → q.routineId ≠ q'.routineId := by
    intro i q q' hq hq' hi hactive
    rw [hset] at hq'
    cases hq'
    rw [hframe i hi] at hq
    exact hidle i q hq hactive
  constructor
  · intro i j q q' hq hq' hroutine hoccurrence hsome
    obtain ⟨p, hp, hproutine, hpoccurrence, -⟩ := hback hq
    obtain ⟨p', hp', hproutine', hpoccurrence', -⟩ := hback hq'
    refine h.once i j p p' hp hp' ?_ ?_ ?_
    · rw [← hproutine, ← hproutine', hroutine]
    · rw [← hpoccurrence, ← hpoccurrence', hoccurrence]
    · rw [← hpoccurrence, hsome]
  · intro i j q q' hq hq' hactive hactive' hroutine
    by_cases hi : i = runId <;> by_cases hj : j = runId
    · rw [hi, hj]
    · exact absurd hroutine.symm (hother hq' (hi ▸ hq) hj hactive')
    · exact absurd hroutine (hother hq (hj ▸ hq') hi hactive)
    · rw [hframe i hi] at hq
      rw [hframe j hj] at hq'
      exact h.active i j q q' hq hq' hactive hactive' hroutine
  · rw [hdispatching]
    intro id hid
    by_cases heq : id = runId
    · subst heq
      exact ⟨_, hset, by simp [RoutineRunRow.active, hpending]⟩
    · obtain ⟨q, hq, hactive⟩ := h.held id ((List.mem_cons.1 hid).resolve_left heq)
      exact ⟨q, (hframe id heq).trans hq, hactive⟩
  · intro i q' hq' hskipped
    obtain ⟨q, hq, -, -, hstatus, rfl | rfl⟩ := hback hq'
    · rw [hr] at hq
      cases hq
      rw [hstatus, hpending] at hskipped
      cases hskipped
    · exact h.skipped i q' hq hskipped

def Kept (runs runs' : Keyed RoutineRunRow.id (fun _ => True)) : Prop :=
  ∀ i r, runs.row i = some r → r.status ≠ .pending → runs'.row i = some r

theorem exec_upsert (cal : Calendar) (s : RoutineSystem) (p : RoutineUpsert) (now : Int) (newId : String) :
    (exec cal s (.upsert p now newId)).2 = { s with tables := (RoutineStore.upsert cal p now newId s.tables).2 } := rfl

theorem Inv.upsert (h : Inv s) (p : RoutineUpsert) (now : Int) (newId : String) :
    Inv (exec cal s (.upsert p now newId)).2 ∧
      Kept s.tables.runs (exec cal s (.upsert p now newId)).2.tables.runs := by
  have hcases := runs_upsert cal p now newId s.tables
  rw [exec_upsert]
  generalize (RoutineStore.upsert cal p now newId s.tables).2 = t at hcases
  rcases hcases with heq | ⟨routineId, -, -, heq⟩
  · exact ⟨h.retired (.of_eq heq) (fun runId hrun => ⟨hrun, congrArg (·.row runId) heq⟩),
      fun i r hr _ => (congrArg (·.row i) heq).trans hr⟩
  · have hretires : Retires s.tables.runs t.runs :=
      heq ▸ retires_skipAll s.tables.runs (fun _ htakes => htakes) now redefinedReason
    refine ⟨h.retired hretires fun runId hrun => ⟨hrun, ?_⟩, fun i r hr hstatus => hretires.kept hr hstatus⟩
    exact (congrArg (·.row runId) heq).trans
      (row_skipAll_of_active (fun _ htakes => htakes) now redefinedReason (h.held runId hrun))

theorem Inv.supersede (h : Inv s) (routineId : String) (keepOccurrence at_ : Int) :
    Inv (exec cal s (.supersede routineId keepOccurrence at_)).2 ∧
      Kept s.tables.runs (exec cal s (.supersede routineId keepOccurrence at_)).2.tables.runs := by
  have htakes : ∀ r : RoutineRunRow, (queued routineId r && r.occurrenceAt.any (fun o => o != keepOccurrence)) = true →
      queued routineId r = true := fun r hr => (Bool.and_eq_true_iff.1 hr).1
  have hretires := retires_skipAll s.tables.runs htakes at_ replacedReason
  refine ⟨h.retired hretires fun runId hrun => ⟨hrun, ?_⟩, fun i r hr hstatus => hretires.kept hr hstatus⟩
  exact row_skipAll_of_active htakes at_ replacedReason (h.held runId hrun)

theorem Inv.skip (h : Inv s) {runId : String} (at_ : Int) (reason : String)
    (hc : ∀ r, s.tables.runs.row runId = some r → r.active = false) :
    Inv (exec cal s (.skip runId at_ reason)).2 ∧
      Kept s.tables.runs (exec cal s (.skip runId at_ reason)).2.tables.runs := by
  have hretires := retires_skip s.tables.runs at_ reason hc
  refine ⟨h.retired hretires fun id hid => ⟨hid, ?_⟩, fun i r hr hstatus => hretires.kept hr hstatus⟩
  obtain ⟨r, hr, hactive⟩ := h.held id hid
  refine Keyed.row_update_of_ne _ ?_ _
  rintro rfl
  rw [hc r hr] at hactive
  cases hactive

theorem Inv.finish (h : Inv s) (runId : String) (dispatch : DispatchStatus) (finishedAt : Int)
    (error conversationId : Option String) :
    Inv (exec cal s (.finish runId dispatch finishedAt error conversationId)).2 ∧
      Kept s.tables.runs (exec cal s (.finish runId dispatch finishedAt error conversationId)).2.tables.runs := by
  by_cases hmem : runId ∈ s.dispatching
  · have hretires := retires_finish s.tables.runs dispatch finishedAt error conversationId (h.held runId hmem)
    simp only [exec, if_pos hmem]
    refine ⟨h.retired hretires fun id hid => ?_, fun i r hr hstatus => hretires.kept hr hstatus⟩
    obtain ⟨hold, hne⟩ := List.mem_filter.1 hid
    exact ⟨hold, Keyed.row_update_of_ne _ (of_decide_eq_true hne) _⟩
  · simp only [exec, if_neg hmem]
    exact ⟨h, fun i r hr _ => hr⟩

theorem Inv.claim (h : Inv s) (runId : String) (startedAt : Int) :
    Inv (exec cal s (.claim runId startedAt)).2 ∧
      Kept s.tables.runs (exec cal s (.claim runId startedAt)).2.tables.runs := by
  rcases claim_cases runId startedAt s.tables with heq | ⟨r, hr, hpending, -, hidle, heq, hset⟩
  · simp only [exec, heq]
    exact ⟨h, fun i r hr _ => hr⟩
  · simp only [exec, heq, if_true]
    refine ⟨h.claimed hr hpending hidle hset (fun i hi => Keyed.row_update_of_ne _ hi _) rfl, fun i q hq hstatus => ?_⟩
    refine (Keyed.row_update_of_ne _ ?_ _).trans hq
    rintro rfl
    rw [hr] at hq
    cases hq
    exact hstatus hpending

theorem exec_insert (cal : Calendar) (s : RoutineSystem) (routineId : String) (occurrenceAt firedAt : Int)
    (newId : String) : (exec cal s (.insert routineId occurrenceAt firedAt newId)).2 =
      { s with tables := (insertRunForOccurrence routineId occurrenceAt firedAt newId s.tables).2 } := rfl

theorem Inv.insert (h : Inv s) (routineId : String) (occurrenceAt firedAt : Int) (newId : String) :
    Inv (exec cal s (.insert routineId occurrenceAt firedAt newId)).2 ∧
      Kept s.tables.runs (exec cal s (.insert routineId occurrenceAt firedAt newId)).2.tables.runs := by
  rw [exec_insert]
  rcases insert_cases routineId occurrenceAt firedAt newId s.tables with heq | ⟨q, hq, hnone, hinsert, -⟩
  · rw [heq]
    exact ⟨h, fun i r hr _ => hr⟩
  · obtain ⟨-, hrow⟩ := Keyed.insert?_eq_some hinsert
    exact ⟨h.inserted hq hnone hinsert rfl, fun i r hr _ => by rw [hrow, hr, Option.some_or]⟩

variable {c : RoutineCall}

/-- **Every call that skips no claimed run keeps the invariant**, and the runs that are finished or skipped. -/
theorem Inv.exec (h : Inv s) (hc : Unclaimed s c) :
    Inv (exec cal s c).2 ∧ Kept s.tables.runs (exec cal s c).2.tables.runs := by
  cases c with
  | upsert p now newId => exact h.upsert p now newId
  | insert routineId occurrenceAt firedAt newId => exact h.insert routineId occurrenceAt firedAt newId
  | skip runId at_ reason => exact h.skip at_ reason hc
  | supersede routineId keepOccurrence at_ => exact h.supersede routineId keepOccurrence at_
  | claim runId startedAt => exact h.claim runId startedAt
  | finish runId dispatch finishedAt error conversationId =>
    exact h.finish runId dispatch finishedAt error conversationId
  | recordRun id dispatch lastRunAt nextRunAt =>
    exact ⟨h.retired (.of_eq rfl) fun _ hrun => ⟨hrun, rfl⟩, fun i r hr _ => hr⟩
  | advance id now nextRunAt => exact ⟨h.retired (.of_eq rfl) fun _ hrun => ⟨hrun, rfl⟩, fun i r hr _ => hr⟩
  | restart =>
    have hretires := retires_reset s.tables.runs
    exact ⟨h.retired hretires fun runId hrun => absurd hrun List.not_mem_nil, fun i r hr hstatus => hretires.kept hr hstatus⟩

def Started (runId : String) (s : RoutineSystem) : Prop :=
  ∃ r, s.tables.runs.row runId = some r ∧ r.startedAt.isSome = true

theorem claims_iff (cal : Calendar) {runId : String} (h : claims runId s c = true) :
    ∃ startedAt r, c = .claim runId startedAt ∧ s.tables.runs.row runId = some r ∧ r.status = .pending ∧
      r.startedAt = none ∧ Started runId (exec cal s c).2 := by
  cases c with
  | claim id startedAt =>
    obtain ⟨hid, htaken⟩ := Bool.and_eq_true_iff.1 h
    obtain rfl : id = runId := of_decide_eq_true hid
    rcases claim_cases id startedAt s.tables with heq | ⟨r, hr, hpending, hstarted, -, heq, hset⟩
    · rw [heq] at htaken
      cases htaken
    · refine ⟨startedAt, r, rfl, hr, hpending, hstarted, { r with startedAt := some startedAt }, ?_, rfl⟩
      simp only [exec, heq, if_true]
      exact hset
  | _ => cases h

theorem started_exec {runId : String} (hc : c ≠ .restart) (h : Started runId s) : Started runId (exec cal s c).2 := by
  obtain ⟨r, hr, hstarted⟩ := h
  -- what an update does to the start time of the run
  have hupdate : ∀ (k : String) (change : RunChange), (∀ q, (change.set q).startedAt = q.startedAt) →
      ∃ q, (s.tables.runs.update k change).row runId = some q ∧ q.startedAt.isSome = true := by
    intro k change hset
    have hmap := s.tables.runs.map_row_update k runId change (f := RoutineRunRow.startedAt) hset
    rw [hr, Option.map_some] at hmap
    obtain ⟨q, hq, heq⟩ := Option.map_eq_some_iff.1 hmap
    exact ⟨q, hq, by rw [heq, hstarted]⟩
  have hupdateAll : ∀ change : RunChange, (∀ q, (change.set q).startedAt = q.startedAt) →
      ∃ q, (s.tables.runs.updateAll change).row runId = some q ∧ q.startedAt.isSome = true := by
    intro change hset
    have hmap := s.tables.runs.map_row_updateAll runId change (f := RoutineRunRow.startedAt) hset
    rw [hr, Option.map_some] at hmap
    obtain ⟨q, hq, heq⟩ := Option.map_eq_some_iff.1 hmap
    exact ⟨q, hq, by rw [heq, hstarted]⟩
  cases c with
  | upsert p now newId =>
    rw [Started, exec_upsert]
    rcases runs_upsert cal p now newId s.tables with heq | ⟨routineId, -, -, heq⟩
    · exact ⟨r, by rw [heq, hr], hstarted⟩
    · rw [heq]
      exact hupdateAll _ fun _ => rfl
  | insert routineId occurrenceAt firedAt newId =>
    rw [Started, exec_insert]
    rcases insert_cases routineId occurrenceAt firedAt newId s.tables with heq | ⟨q, -, -, hinsert, -⟩
    · exact ⟨r, by rw [heq, hr], hstarted⟩
    · exact ⟨r, by rw [(Keyed.insert?_eq_some hinsert).2, hr, Option.some_or], hstarted⟩
  | skip id at_ reason => exact hupdate id _ fun _ => rfl
  | supersede routineId keepOccurrence at_ => exact hupdateAll _ fun _ => rfl
  | claim id startedAt =>
    rcases claim_cases id startedAt s.tables with heq | ⟨q, hq, -, -, -, heq, hset⟩
    · simp only [exec, heq]
      exact ⟨r, hr, hstarted⟩
    · simp only [exec, heq, if_true]
      by_cases hid : runId = id
      · subst hid
        exact ⟨_, hset, rfl⟩
      · exact ⟨r, (Keyed.row_update_of_ne _ hid _).trans hr, hstarted⟩
  | finish id dispatch finishedAt error conversationId =>
    by_cases hmem : id ∈ s.dispatching
    · simp only [exec, if_pos hmem]
      exact hupdate id _ fun _ => rfl
    · simp only [exec, if_neg hmem]
      exact ⟨r, hr, hstarted⟩
  | recordRun id dispatch lastRunAt nextRunAt | advance id now nextRunAt => exact ⟨r, hr, hstarted⟩
  | restart => exact absurd rfl hc

theorem claims_le_one (calls : List RoutineCall) (h : .restart ∉ calls) (runId : String) (s : RoutineSystem) :
    Calls.count (exec cal) (claims runId) s calls ≤ 1 := by
  have hkeeps : ∀ s c, True → c ≠ .restart → Started runId s → Started runId (exec cal s c).2 :=
    fun _ _ _ hc hs => started_exec hc hs
  refine Calls.count_le_one_among (fun _ _ _ _ => trivial) hkeeps ?_ ?_ trivial calls (fun c hc heq => h (heq ▸ hc))
  · rintro s c - ⟨r, hr, hstarted⟩
    refine Bool.eq_false_iff.2 fun hclaims => ?_
    obtain ⟨-, q, -, hq, -, hnone, -⟩ := claims_iff cal hclaims
    rw [hr] at hq
    cases hq
    rw [hnone] at hstarted
    cases hstarted
  · rintro s c - hclaims
    obtain ⟨-, -, -, -, -, -, hstarted⟩ := claims_iff cal hclaims
    exact hstarted

/-! ## Skipped runs -/

def Unexecuted (s : RoutineSystem) : Prop :=
  ∀ i r, s.tables.runs.row i = some r → r.status = .skipped → i ∉ s.claimed

theorem Unexecuted.moved {s' : RoutineSystem} (h : Unexecuted s) (hclaimed : s'.claimed = s.claimed)
    (hruns : ∀ i r', s'.tables.runs.row i = some r' → r'.status = .skipped →
      (∃ r, s.tables.runs.row i = some r ∧ r.status = .skipped) ∨ i ∉ s.claimed) : Unexecuted s' := by
  intro i r' hr' hskipped
  rw [hclaimed]
  rcases hruns i r' hr' hskipped with ⟨r, hr, hold⟩ | hnot
  · exact h i r hr hold
  · exact hnot

theorem Unexecuted.skipAll {s' : RoutineSystem} (h : Unexecuted s) (hclaimed : s'.claimed = s.claimed) {at_ : Int}
    {reason : String} (hruns : s'.tables.runs = s.tables.runs.updateAll (skipChange takes at_ reason))
    (htakes : ∀ i r, s.tables.runs.row i = some r → takes r = true → i ∉ s.claimed) : Unexecuted s' := by
  refine h.moved hclaimed fun i r' hr' hskipped => ?_
  rw [hruns] at hr'
  rcases s.tables.runs.row_updateAll_cases (skipChange takes at_ reason) i with heq | ⟨r, hr, htaken, -⟩
  · exact .inl ⟨r', heq ▸ hr', hskipped⟩
  · exact .inr (htakes i r hr htaken)

theorem Unexecuted.update {s' : RoutineSystem} (h : Unexecuted s) (hclaimed : s'.claimed = s.claimed) {runId : String}
    {change : RunChange} (hruns : s'.tables.runs = s.tables.runs.update runId change)
    (htakes : ∀ r, s.tables.runs.row runId = some r → change.takes r = true → (change.set r).status = .skipped →
      runId ∉ s.claimed) : Unexecuted s' := by
  refine h.moved hclaimed fun i r' hr' hskipped => ?_
  rw [hruns] at hr'
  rcases s.tables.runs.update_cases runId change with ⟨-, heq⟩ | ⟨r, hr, htaken, -, hset, hframe⟩
  · rw [heq] at hr'
    exact .inl ⟨r', hr', hskipped⟩
  · by_cases hi : i = runId
    · subst hi
      rw [hset] at hr'
      cases hr'
      exact .inr (htakes r hr htaken hskipped)
    · rw [hframe i hi] at hr'
      exact .inl ⟨r', hr', hskipped⟩

theorem Unexecuted.upsert (h : Unexecuted s) {p : RoutineUpsert} {now : Int} {newId : String}
    (hc : Untouched cal s (.upsert p now newId)) : Unexecuted (exec cal s (.upsert p now newId)).2 := by
  have hcases := runs_upsert cal p now newId s.tables
  rw [exec_upsert]
  generalize (RoutineStore.upsert cal p now newId s.tables).2 = t at hcases
  rcases hcases with heq | ⟨routineId, hid, haccepted, heq⟩
  · exact h.moved rfl fun i r hr hskipped => .inl ⟨r, (congrArg (·.row i) heq).symm.trans hr, hskipped⟩
  · exact h.skipAll rfl heq (hc haccepted routineId hid)

theorem Unexecuted.insert (h : Unexecuted s) (routineId : String) (occurrenceAt firedAt : Int) (newId : String) :
    Unexecuted (exec cal s (.insert routineId occurrenceAt firedAt newId)).2 := by
  rw [exec_insert]
  rcases insert_cases routineId occurrenceAt firedAt newId s.tables with heq | ⟨q, -, -, hinsert, -⟩
  · rw [heq]
    exact h
  · refine h.moved rfl fun i r hr hskipped => .inl ?_
    rw [(Keyed.insert?_eq_some hinsert).2] at hr
    rcases Option.or_eq_some_iff.1 hr with hold | ⟨-, hnew⟩
    · exact ⟨r, hold, hskipped⟩
    · split at hnew
      · cases hnew
        cases hskipped
      · cases hnew

theorem Unexecuted.claim (h : Unexecuted s) (runId : String) (startedAt : Int) :
    Unexecuted (exec cal s (.claim runId startedAt)).2 := by
  rcases claim_cases runId startedAt s.tables with heq | ⟨r, hr, hpending, -, -, heq, hset⟩
  · simp only [exec, heq]
    exact h
  · simp only [exec, heq, if_true]
    intro i r' hr' hskipped
    by_cases hi : i = runId
    · -- the claimed run is pending
      subst hi
      rw [hset] at hr'
      cases hr'
      rw [hpending] at hskipped
      cases hskipped
    · rw [Keyed.row_update_of_ne _ hi] at hr'
      exact List.not_mem_cons_of_ne_of_not_mem hi (h i r' hr' hskipped)

theorem Unexecuted.exec (h : Unexecuted s) (hc : Untouched cal s c) : Unexecuted (exec cal s c).2 := by
  cases c with
  | upsert p now newId => exact h.upsert hc
  | insert routineId occurrenceAt firedAt newId => exact h.insert routineId occurrenceAt firedAt newId
  | skip runId at_ reason =>
    exact h.update rfl rfl fun r hr htakes _ => hc r hr (eq_of_beq htakes)
  | supersede routineId keepOccurrence at_ =>
    refine h.skipAll rfl rfl fun i r hr htakes => ?_
    obtain ⟨hqueued, hoccurrence⟩ := Bool.and_eq_true_iff.1 htakes
    exact hc i r hr hqueued hoccurrence
  | claim runId startedAt => exact h.claim runId startedAt
  | finish runId dispatch finishedAt error conversationId =>
    by_cases hmem : runId ∈ s.dispatching
    · simp only [RoutineSystem.exec, if_pos hmem]
      refine h.update rfl rfl fun r _ _ hskipped => ?_
      cases dispatch <;> cases hskipped
    · simp only [RoutineSystem.exec, if_neg hmem]
      exact h
  | recordRun id dispatch lastRunAt nextRunAt | advance id now nextRunAt => exact h
  | restart =>
    refine h.moved rfl fun i r' hr' hskipped => .inl ?_
    rcases s.tables.runs.row_updateAll_cases resetChange i with heq | ⟨r, hr, -, hset⟩
    · exact ⟨r', heq.symm.trans hr', hskipped⟩
    · cases hset.symm.trans hr'
      exact ⟨r, hr, hskipped⟩

theorem skipped_of_updateAll (at_ : Int) (reason : String) (hr : runs.row i = some r) (htakes : takes r = true) :
    (runs.updateAll (skipChange takes at_ reason)).row i = some ((skipChange takes at_ reason).set r) := by
  have htaken : (skipChange takes at_ reason).takes r = true := htakes
  rw [Keyed.row_updateAll, hr, Option.map_some, Change.apply, if_pos htaken]

theorem untouched_of_unexecuted (h : Unexecuted (exec cal s c).2) : Untouched cal s c := by
  cases c with
  | upsert p now newId =>
    intro haccepted routineId hid i r hr hqueued
    have hruns := runs_upsert_of_accepted newId s.tables haccepted hid
    rw [exec_upsert] at h
    generalize (RoutineStore.upsert cal p now newId s.tables).2 = t at h hruns
    have hrow : t.runs.row i = _ := (congrArg (·.row i) hruns).trans (skipped_of_updateAll now redefinedReason hr hqueued)
    exact h i _ hrow rfl
  | skip runId at_ reason =>
    intro r hr hpending
    exact h runId _ (Keyed.row_update_of_changed hr (by simp [skipChange, hpending])) rfl
  | supersede routineId keepOccurrence at_ =>
    intro i r hr hqueued hoccurrence
    exact h i _ (skipped_of_updateAll at_ replacedReason hr (by rw [hqueued, hoccurrence]; rfl)) rfl
  | _ => trivial

theorem run_snoc (calls : List RoutineCall) (c : RoutineCall) :
    run cal routines (calls ++ [c]) = (exec cal (run cal routines calls) c).2 :=
  Calls.after_snoc _ _ _ _

theorem dispatched_iff (calls : List RoutineCall) :
    Dispatched cal routines calls ↔ Calls.Guarded (exec cal) Unclaimed (start routines) calls := by
  constructor
  · rintro h pre c post rfl
    cases c with
    | skip runId at_ reason =>
      intro r hr
      refine Bool.eq_false_iff.2 fun hactive => ?_
      obtain ⟨hpending, hstarted⟩ := active_iff.1 hactive
      -- the run would be skipped with its start time
      have hskipped := (h.orderly (pre ++ [.skip runId at_ reason]) post (by simp)).skipped
        ((skipChange (fun r => r.status == .pending) at_ reason).set r) (by
          rw [run_snoc]
          refine (Keyed.row_iff.1 (Keyed.row_update_of_changed (k := runId) hr ?_)).1
          simp [skipChange, hpending]) rfl
      have hnone : r.startedAt = none := hskipped
      rw [hnone] at hstarted
      cases hstarted
    | _ => trivial
  · intro h
    have hinv : ∀ {pre post}, calls = pre ++ post → Inv (run cal routines pre) := by
      rintro pre post rfl
      exact h.of_append.invariant (fun _ _ hs hc => (hs.exec hc).1) inv_start
    constructor
    · intro pre post hcalls
      exact (hinv hcalls).orderly
    · intro pre mid post _ hmid runId
      exact claims_le_one mid hmid runId _
    · intro pre c post _ runId hclaims
      obtain ⟨-, r, -, hr, hpending, -⟩ := claims_iff cal hclaims
      exact ⟨r, hr, hpending⟩
    · rintro pre mid post rfl runId r hr hstatus
      have hmid : Calls.Guarded (exec cal) Unclaimed (run cal routines pre) mid := h.of_append.later
      have hkept := hmid.invariant (I := fun s => Inv s ∧ s.tables.runs.row runId = some r)
        (fun s c hs hc => ⟨(hs.1.exec hc).1, (hs.1.exec hc).2 runId r hs.2 hstatus⟩)
        ⟨hinv (List.append_assoc pre mid post), hr⟩
      rw [run, Calls.after_append]
      exact hkept.2

theorem neverExecuted_iff (calls : List RoutineCall) :
    NeverExecuted cal routines calls ↔ Calls.Guarded (exec cal) (Untouched cal) (start routines) calls := by
  have hunexecuted : ∀ s : RoutineSystem, (∀ r ∈ s.tables.runs.rows, r.status = .skipped → r.id ∉ s.claimed) ↔
      Unexecuted s := by
    intro s
    constructor
    · intro h i r hr hskipped
      obtain ⟨hmem, rfl⟩ := Keyed.row_iff.1 hr
      exact h r hmem hskipped
    · intro h r hr hskipped
      exact h r.id r (Keyed.row_iff.2 ⟨hr, rfl⟩) hskipped
  constructor
  · rintro h pre c post rfl
    have hnext := (hunexecuted _).1 (h (pre ++ [c]) post (by simp))
    rw [run_snoc] at hnext
    exact untouched_of_unexecuted hnext
  · rintro h pre post rfl
    have hstart : Unexecuted (start routines) := fun i r hr => by cases hr
    exact (hunexecuted _).2 (h.of_append.invariant (fun _ _ hs hc => hs.exec hc) hstart)

/-- **Runs are dispatched once exactly where no claimed run is skipped**, and skipped runs were never claimed, before a
restart either, exactly where moreover none is superseded or redefined that was. -/
theorem runs_dispatched_once (cal : Calendar) (routines : Keyed RoutineRow.id RoutineRow.Ok)
    (calls : List RoutineCall) :
    (Dispatched cal routines calls ↔ Calls.Guarded (exec cal) Unclaimed (start routines) calls) ∧
      (NeverExecuted cal routines calls ↔ Calls.Guarded (exec cal) (Untouched cal) (start routines) calls) :=
  ⟨dispatched_iff calls, neverExecuted_iff calls⟩

/-! ## A run skipped as it executes -/

def sampleRoutine : RoutineRow where
  id := "a"
  name := "report"
  scheduleCron := "* * * * *"
  timezone := "UTC"
  prompt := "Report"
  targetConversationId := none
  enabled := true
  lastRunAt := none
  lastRunStatus := none
  nextRunAt := some 0
  createdAt := 0
  updatedAt := 0
  completionContract := none
  missedRunPolicy := .skip
  missedRunLimit := 1
  overlapPolicy := .forbid

def sampleRoutines : Keyed RoutineRow.id RoutineRow.Ok :=
  ⟨[sampleRoutine], by simp, fun r hr => by rw [List.mem_singleton.1 hr]; exact ⟨by decide⟩⟩

def skippedCalls : List RoutineCall :=
  [.insert "a" 0 30 "r", .claim "r" 30, .insert "a" 0 59 "r'",
    .skip "r" 59 "overlap policy skipped this occurrence while another run is active",
    .finish "r" .success 70 none (some "c")]

theorem executing_run_skipped :
    ((run minuteCalendar sampleRoutines (skippedCalls.take 4)).tables.runs.row "r").map RoutineRunRow.status = some .skipped ∧
      ((run minuteCalendar sampleRoutines skippedCalls).tables.runs.row "r").map RoutineRunRow.status = some .success ∧
      ¬ Dispatched minuteCalendar sampleRoutines skippedCalls := by
  have hskipped : (run minuteCalendar sampleRoutines (skippedCalls.take 4)).tables.runs.row "r" =
      some ⟨"r", "a", 30, some 30, some 59, .skipped,
        some "overlap policy skipped this occurrence while another run is active", none, none, some 0⟩ := rfl
  refine ⟨by rw [hskipped]; rfl, rfl, fun h => ?_⟩
  have hnone := (h.orderly (skippedCalls.take 4) (skippedCalls.drop 4) rfl).skipped _ (Keyed.row_iff.1 hskipped).1 rfl
  cases hnone

end RoutineSystem

end Execlaw
