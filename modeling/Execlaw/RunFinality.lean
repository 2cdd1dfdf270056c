import Execlaw.RunTables
/-!
# RunFinality — final runs, ordered steps

Over every sequence of store calls: a final status stays, the cursor passes completed steps one at a time, only the
step at the cursor of an active run is held, and only its lease holder finishes or parks it.
-/
namespace Execlaw

open Steps

def RunCall.finishes? : RunCall → Option (String × String × String)
  | .completeStep runId stepId leaseOwner _ _ | .enqueueOutboxAndCompleteStep runId stepId leaseOwner _ _ _
  | .failStep runId stepId leaseOwner _ _ | .waitStep runId stepId leaseOwner _ => some (runId, stepId, leaseOwner)
  | _ => none

theorem leaseOwner_of_leased {s : RunStepRecord} {leaseOwner : String} (h : s.leasedTo leaseOwner = true) :
    s.leaseOwner = some leaseOwner := by
  simpa [RunStepRecord.leasedTo] using h

section Runs

variable {db db' : Db} {calls : List RunCall} {runId : String}

theorem run_final (hok : db.RunsOk) (hrun : Run RunCall.Step db calls db') {r : RunRow} (hr : db.run runId = some r)
    (hfinal : r.status.active = false) : ∃ r', db'.run runId = some r' ∧ r'.status = r.status := by
  have hinv : db'.RunsOk ∧ ∃ r', db'.run runId = some r' ∧ r'.status = r.status := by
    refine run_invariant (P := fun db => db.RunsOk ∧ ∃ r', db.run runId = some r' ∧ r'.status = r.status) hrun
      ⟨hok, r, hr, rfl⟩ ?_
    rintro m c m' ⟨hm, q, hq, hst⟩ rfl
    obtain ⟨q', hq', hafter⟩ := (exec_move m c).run_after hm hq
    refine ⟨(exec_move m c).ok hm, q', hq', ?_⟩
    rw [(hafter.final (by rw [hst, hfinal])).1, hst]
  exact hinv.2

theorem cursor_mono (hok : db.RunsOk) (hrun : Run RunCall.Step db calls db') {r : RunRow}
    (hr : db.run runId = some r) : ∃ r', db'.run runId = some r' ∧ r.cursor ≤ r'.cursor := by
  have hinv : db'.RunsOk ∧ ∃ r', db'.run runId = some r' ∧ r.cursor ≤ r'.cursor := by
    refine run_invariant (P := fun db => db.RunsOk ∧ ∃ r', db.run runId = some r' ∧ r.cursor ≤ r'.cursor) hrun
      ⟨hok, r, hr, le_refl _⟩ ?_
    rintro m c m' ⟨hm, q, hq, hle⟩ rfl
    obtain ⟨q', hq', hafter⟩ := (exec_move m c).run_after hm hq
    refine ⟨(exec_move m c).ok hm, q', hq', ?_⟩
    rcases hafter.cursor with h | h <;> omega
  exact hinv.2

theorem step_completed (hok : db.RunsOk) (hrun : Run RunCall.Step db calls db') {stepId : String} {s : RunStepRecord}
    (hs : db.step runId stepId = some s) (hdone : s.status = .completed) : db'.step runId stepId = some s := by
  have hinv : db'.RunsOk ∧ db'.step runId stepId = some s := by
    refine run_invariant (P := fun db => db.RunsOk ∧ db.step runId stepId = some s) hrun ⟨hok, hs⟩ ?_
    rintro m c m' ⟨hm, hs⟩ rfl
    obtain ⟨s', hs', hafter⟩ := (exec_move m c).step_after hm hs
    rw [hafter.completed hdone] at hs'
    exact ⟨(exec_move m c).ok hm, hs'⟩
  exact hinv.2

end Runs

theorem StepAfter.finisher {db : Db} {c : RunCall} {s s' : RunStepRecord} (h : StepAfter db c s s')
    (hne : s'.status ≠ s.status) (hst : s'.status = .completed ∨ s'.status = .failed ∨ s'.status = .waiting) :
    (∃ worker, c.finishes? = some (s.runId, s.stepId, worker) ∧ s.status = .running ∧ s.leaseOwner = some worker) ∨
      ∃ ids status, Ends db c ids status ∧ s.runId ∈ ids ∧ s'.status = .failed := by
  cases h with
  | kept => exact absurd rfl hne
  | moved hmove =>
    cases hmove with
    | claimed _ _ => simp [RunStepRecord.status, RunStepRecord.claim, StepState.status] at hst
    | resumed _ => simp [RunStepRecord.status, StepState.status] at hst
    | completed hleased | enqueued hleased | failed hleased | parked hleased =>
      exact .inl ⟨_, rfl, (held_of_leased hleased).2, leaseOwner_of_leased hleased⟩
  | closed hends hmem output closedAt =>
    refine .inr ⟨_, _, hends, hmem, ?_⟩
    unfold RunStepRecord.close at hne ⊢
    split at hne
    · rw [if_pos (by assumption)]
      rfl
    · exact absurd rfl hne

/-- **Terminal runs are final and steps execute in cursor order**, in every state the store reaches from empty run
tables. -/
structure Db.RunsOrdered (db : Db) : Prop where
  final : ∀ later db', Run RunCall.Step db later db' → ∀ runId r, db.run runId = some r →
    r.status.active = false → ∃ r', db'.run runId = some r' ∧ r'.status = r.status
  cursor : ∀ c runId r, db.run runId = some r →
    ∃ r', (db.exec c).run runId = some r' ∧ (r'.cursor = r.cursor ∨ r'.cursor = r.cursor + 1)
  monotone : ∀ later db', Run RunCall.Step db later db' → ∀ runId r, db.run runId = some r →
    ∃ r', db'.run runId = some r' ∧ r.cursor ≤ r'.cursor
  passed : ∀ runId r, db.run runId = some r → ∀ i, 0 ≤ i → i < r.cursor →
    ∃ s, db.stepAt runId i = some s ∧ s.status = .completed
  held : ∀ runId stepId s, db.step runId stepId = some s → s.status = .running ∨ s.status = .waiting →
    ∃ r, db.run runId = some r ∧ r.status.active = true ∧ s.ordinal = r.cursor
  completed : ∀ later db', Run RunCall.Step db later db' → ∀ runId stepId s, db.step runId stepId = some s →
    s.status = .completed → ∃ s', db'.step runId stepId = some s' ∧ s'.status = .completed ∧
      s'.outputRef = s.outputRef
  finisher : ∀ c runId stepId s s', db.step runId stepId = some s → (db.exec c).step runId stepId = some s' →
    s'.status ≠ s.status → s'.status = .completed ∨ s'.status = .failed ∨ s'.status = .waiting →
    (∃ worker, c.finishes? = some (runId, stepId, worker) ∧ s.status = .running ∧ s.leaseOwner = some worker) ∨
      ∃ ids status, Ends db c ids status ∧ runId ∈ ids ∧ s'.status = .failed

theorem terminal_runs_final_and_ordered {db₀ db : Db} {calls : List RunCall} (h₀ : db₀.NoRuns)
    (hrun : Run RunCall.Step db₀ calls db) : db.RunsOrdered := by
  have hok := run_runsOk h₀.ok hrun
  constructor
  · intro later db' hlater runId r hr hfinal
    exact run_final hok hlater hr hfinal
  · intro c runId r hr
    obtain ⟨r', hr', hafter⟩ := (exec_move db c).run_after hok hr
    exact ⟨r', hr', hafter.cursor⟩
  · intro later db' hlater runId r hr
    exact cursor_mono hok hlater hr
  · intro runId r hr i h0 hi
    obtain ⟨hmem, rfl⟩ := hok.run_iff.1 hr
    obtain ⟨s, hs, hslot, hdone⟩ := hok.passed r hmem i h0 hi
    exact ⟨s, hok.stepAt_iff.2 ⟨hs, Prod.mk.inj hslot⟩, hdone⟩
  · intro runId stepId s hs hst
    obtain ⟨hmem, rfl, -⟩ := hok.step_iff.1 hs
    exact hok.of_held hmem (by simpa [RunStepRecord.held] using hst)
  · intro later db' hlater runId stepId s hs hdone
    exact ⟨s, step_completed hok hlater hs hdone, hdone, rfl⟩
  · intro c runId stepId s s' hs hs' hne hst
    obtain ⟨-, rfl, rfl⟩ := hok.step_iff.1 hs
    obtain ⟨t, ht, hafter⟩ := (exec_move db c).step_after hok hs
    rw [hs'] at ht
    cases ht
    exact hafter.finisher hne hst

def sampleCalls : List RunCall :=
  [.createRunWithId "r" { conversationId := "c", inputEventSeq := 1, startedAt := 0 },
    .addStep "r" { stepId := "s", ordinal := 0, kind := .deterministicCompute, inputHash := "h" },
    .claimStep "r" "s" "w" 1 61, .completeStep "r" "s" "w" (some "json:1") 2, .advanceCursor "r" 0,
    .completeRun "r" 1]

theorem terminal_runs_final_and_ordered_sample :
    (sampleEvents.execAll sampleCalls).RunsOrdered ∧
      ((sampleEvents.execAll sampleCalls).run "r").map RunRow.status = some .completed :=
  ⟨terminal_runs_final_and_ordered ⟨rfl, rfl⟩ (run_execAll sampleEvents sampleCalls), by decide⟩

end Execlaw
