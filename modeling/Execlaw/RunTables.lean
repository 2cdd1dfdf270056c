import Execlaw.RunMoves
/-!
# RunTables — what the run tables always satisfy

The updates that finish, park or resume a step overwrite the status of its run without reading it.  That no final
status is lost rests on `Db.RunsOk`: a step that is running or waiting is the one at the cursor of an active run.
-/
namespace Execlaw

/-- Claimed or parked: `status IN ('running', 'waiting')`. -/
def RunStepRecord.held (s : RunStepRecord) : Bool := s.status == .running || s.status == .waiting

structure RunRow.Fits (r : RunRow) (s : RunStepRecord) : Prop where
  held : s.held = true → r.status.active = true ∧ s.ordinal = r.cursor
  failed : s.status = .failed → r.status.active = false

/-- **The invariant of the run tables.** -/
structure Db.RunsOk (db : Db) : Prop where
  runIds : (db.runs.map RunRow.runId).Nodup
  keys : (db.steps.map RunStepRecord.key).Nodup
  slots : (db.steps.map RunStepRecord.slot).Nodup
  owned : ∀ s ∈ db.steps, s.runId ∈ db.runs.map RunRow.runId
  ordinals : ∀ s ∈ db.steps, 0 ≤ s.ordinal
  fits : ∀ r ∈ db.runs, ∀ s ∈ db.steps, s.runId = r.runId → r.Fits s
  cursors : ∀ r ∈ db.runs, 0 ≤ r.cursor
  passed : ∀ r ∈ db.runs, ∀ i, 0 ≤ i → i < r.cursor →
    ∃ s ∈ db.steps, s.slot = (r.runId, i) ∧ s.status = .completed

structure Db.NoRuns (db : Db) : Prop where
  runs : db.runs = []
  steps : db.steps = []

theorem Db.NoRuns.ok {db : Db} (h : db.NoRuns) : db.RunsOk := by
  constructor <;> simp [h.runs, h.steps]

/-! ## Reading the tables -/

section Reading

variable {db : Db} (hok : db.RunsOk)
include hok

theorem Db.RunsOk.run_iff {runId : String} {r : RunRow} : db.run runId = some r ↔ r ∈ db.runs ∧ r.runId = runId :=
  Table.byKey_iff hok.runIds

variable {s : RunStepRecord}

theorem Db.RunsOk.step_iff {runId stepId : String} :
    db.step runId stepId = some s ↔ s ∈ db.steps ∧ s.runId = runId ∧ s.stepId = stepId := by
  unfold Db.step
  rw [Table.byKey_iff hok.keys, RunStepRecord.key, Prod.mk.injEq]

theorem Db.RunsOk.stepAt_iff {runId : String} {ordinal : Int} :
    db.stepAt runId ordinal = some s ↔ s ∈ db.steps ∧ s.runId = runId ∧ s.ordinal = ordinal := by
  unfold Db.stepAt
  rw [Table.byKey_iff hok.slots, RunStepRecord.slot, Prod.mk.injEq]

theorem Db.RunsOk.run_of_step (hs : s ∈ db.steps) : ∃ r, db.run s.runId = some r := by
  obtain ⟨r, hr, hid⟩ := List.mem_map.1 (hok.owned s hs)
  exact ⟨r, hok.run_iff.2 ⟨hr, hid⟩⟩

theorem Db.RunsOk.of_held (hs : s ∈ db.steps) (hheld : s.held = true) :
    ∃ r, db.run s.runId = some r ∧ r.status.active = true ∧ s.ordinal = r.cursor := by
  obtain ⟨r, hr⟩ := hok.run_of_step hs
  have hfit := hok.fits r (hok.run_iff.1 hr).1 s hs (run_id hr).symm
  exact ⟨r, hr, hfit.held hheld⟩

theorem Db.RunsOk.eq_of_slot {s t : RunStepRecord} (hs : s ∈ db.steps) (ht : t ∈ db.steps) (hrun : s.runId = t.runId)
    (hord : s.ordinal = t.ordinal) : s = t :=
  Table.eq_of_key hok.slots hs ht (by simp only [RunStepRecord.slot, hrun, hord])

end Reading

/-! ## What a move does to a step -/

theorem held_of_leased {s : RunStepRecord} {leaseOwner : String} (h : s.leasedTo leaseOwner = true) :
    s.held = true ∧ s.status = .running := by
  unfold RunStepRecord.leasedTo RunStepRecord.leaseOwner at h
  unfold RunStepRecord.held RunStepRecord.status
  cases hst : s.state <;> simp_all [StepState.status]

theorem held_of_resumable {s : RunStepRecord} {approvalId : Option String} (h : s.resumable approvalId = true) :
    s.held = true ∧ s.status = .waiting := by
  simp only [RunStepRecord.resumable, Bool.and_eq_true, beq_iff_eq] at h
  exact ⟨by simp [RunStepRecord.held, h.1], h.1⟩

structure RunStepRecord.SameStep (s s' : RunStepRecord) : Prop where
  runId : s'.runId = s.runId
  stepId : s'.stepId = s.stepId
  ordinal : s'.ordinal = s.ordinal
  kind : s'.kind = s.kind
  inputHash : s'.inputHash = s.inputHash
  outboxKey : s'.outboxIdempotencyKey = s.outboxIdempotencyKey

theorem RunStepRecord.SameStep.refl (s : RunStepRecord) : s.SameStep s := ⟨rfl, rfl, rfl, rfl, rfl, rfl⟩

section Moves

variable {db : Db} {c : RunCall} {s s' : RunStepRecord} {status : RunStatus}

theorem StepMove.same (h : StepMove db s c s' status) : s.SameStep s' := by
  cases h <;> exact ⟨rfl, rfl, rfl, rfl, rfl, rfl⟩

theorem StepMove.live (h : StepMove db s c s' status) (hok : db.RunsOk) (hs : s ∈ db.steps) :
    ∃ r, db.run s.runId = some r ∧ r.status.active = true ∧ s.ordinal = r.cursor := by
  cases h with
  | claimed _ hcursor =>
    unfold Db.atCursor at hcursor
    cases hr : db.run s.runId with
    | none => simp [hr] at hcursor
    | some r =>
      simp only [hr, Bool.and_eq_true, decide_eq_true_eq] at hcursor
      exact ⟨r, rfl, hcursor⟩
  | completed hleased | enqueued hleased | failed hleased | parked hleased =>
    exact hok.of_held hs (held_of_leased hleased).1
  | resumed hparked => exact hok.of_held hs (held_of_resumable hparked).1

theorem StepMove.fits (h : StepMove db s c s' status) {r : RunRow} (hst : r.status = status)
    (hord : s.ordinal = r.cursor) : r.Fits s' := by
  cases h <;> constructor <;>
    simp_all [RunStepRecord.held, RunStepRecord.status, RunStepRecord.claim, RunStepRecord.finish, RunStepRecord.park,
      StepState.status, RunStatus.active]

theorem StepMove.not_completed (h : StepMove db s c s' status) : s.status ≠ .completed := by
  cases h with
  | claimed hfree _ =>
    unfold RunStepRecord.status
    cases hst : s.state <;> simp_all [StepState.claimable, StepState.status]
  | completed hleased | enqueued hleased | failed hleased | parked hleased => simp [(held_of_leased hleased).2]
  | resumed hparked => simp [(held_of_resumable hparked).2]

end Moves

/-! ## Every move keeps the invariant -/

section Preservation

variable {db db' : Db}

theorem Db.RunsOk.of_map (hok : db.RunsOk) (f : RunRow → RunRow) (hid : ∀ r, (f r).runId = r.runId)
    (hact : ∀ r, (f r).status.active = r.status.active) (hcur : ∀ r, (f r).cursor = r.cursor)
    (hruns : db'.runs = db.runs.map f) (hsteps : db'.steps = db.steps) : db'.RunsOk := by
  have hids : db'.runs.map RunRow.runId = db.runs.map RunRow.runId := by
    rw [hruns, List.map_map]
    exact List.map_congr_left fun r _ => hid r
  constructor
  · rw [hids]
    exact hok.runIds
  · rw [hsteps]
    exact hok.keys
  · rw [hsteps]
    exact hok.slots
  · rw [hsteps, hids]
    exact hok.owned
  · rw [hsteps]
    exact hok.ordinals
  · rw [hsteps, hruns]
    intro r' hr' s hs hrun
    obtain ⟨r, hr, rfl⟩ := List.mem_map.1 hr'
    have hfit := hok.fits r hr s hs (hrun.trans (hid r))
    exact ⟨by rw [hact, hcur]; exact hfit.held, by rw [hact]; exact hfit.failed⟩
  · rw [hruns]
    intro r' hr'
    obtain ⟨r, hr, rfl⟩ := List.mem_map.1 hr'
    rw [hcur]
    exact hok.cursors r hr
  · rw [hsteps, hruns]
    intro r' hr' i h0 hi
    obtain ⟨r, hr, rfl⟩ := List.mem_map.1 hr'
    rw [hcur] at hi
    rw [hid]
    exact hok.passed r hr i h0 hi

theorem Db.RunsOk.of_same (hok : db.RunsOk) (hruns : db'.runs = db.runs) (hsteps : db'.steps = db.steps) : db'.RunsOk :=
  hok.of_map id (fun _ => rfl) (fun _ => rfl) (fun _ => rfl) (by rw [hruns, List.map_id]) hsteps

variable {r : RunRow}

theorem Db.RunsOk.created (hok : db.RunsOk) (hfresh : db.run r.runId = none) (hcur : r.cursor = 0)
    (hruns : db'.runs = db.runs ++ [r]) (hsteps : db'.steps = db.steps) : db'.RunsOk := by
  have hnew : r.runId ∉ db.runs.map RunRow.runId := Table.byKey_eq_none.1 hfresh
  constructor
  · rw [hruns, List.map_append]
    refine hok.runIds.append (List.nodup_singleton _) ?_
    intro id hid hr
    exact hnew (List.mem_singleton.1 hr ▸ hid)
  · rw [hsteps]
    exact hok.keys
  · rw [hsteps]
    exact hok.slots
  · rw [hsteps, hruns, List.map_append]
    intro s hs
    exact List.mem_append_left _ (hok.owned s hs)
  · rw [hsteps]
    exact hok.ordinals
  · rw [hsteps, hruns]
    intro r' hr' s hs hrun
    rcases List.mem_append.1 hr' with hr' | hr'
    · exact hok.fits r' hr' s hs hrun
    · -- no step belongs to the new run
      obtain rfl := List.mem_singleton.1 hr'
      exact absurd (hrun ▸ hok.owned s hs) hnew
  · rw [hruns]
    intro r' hr'
    rcases List.mem_append.1 hr' with hr' | hr'
    · exact hok.cursors r' hr'
    · obtain rfl := List.mem_singleton.1 hr'
      exact le_of_eq hcur.symm
  · rw [hsteps, hruns]
    intro r' hr' i h0 hi
    rcases List.mem_append.1 hr' with hr' | hr'
    · exact hok.passed r' hr' i h0 hi
    · obtain rfl := List.mem_singleton.1 hr'
      omega

variable {s : RunStepRecord}

theorem free_of_not_collides (h : db.stepCollides s = false) :
    0 ≤ s.ordinal ∧ ∀ t ∈ db.steps, t.key ≠ s.key ∧ t.slot ≠ s.slot := by
  simp only [Db.stepCollides, Bool.or_eq_false_iff, decide_eq_false_iff_not, not_lt, List.any_eq_false,
    Bool.not_eq_true, beq_eq_false_iff_ne] at h
  exact ⟨h.1, fun t ht => ⟨(h.2 t ht).1.1.1, (h.2 t ht).1.1.2⟩⟩

theorem Db.RunsOk.defined (hok : db.RunsOk) (hrun : s.runId ∈ db.runs.map RunRow.runId)
    (hfree : db.stepCollides s = false) (hpending : s.status = .pending) (hruns : db'.runs = db.runs)
    (hsteps : db'.steps = db.steps ++ [s]) : db'.RunsOk := by
  obtain ⟨hord, hnew⟩ := free_of_not_collides hfree
  constructor
  · rw [hruns]
    exact hok.runIds
  · rw [hsteps, List.map_append]
    refine hok.keys.append (List.nodup_singleton _) ?_
    intro k hk hs
    obtain ⟨t, ht, rfl⟩ := List.mem_map.1 hk
    exact (hnew t ht).1 (List.mem_singleton.1 hs)
  · rw [hsteps, List.map_append]
    refine hok.slots.append (List.nodup_singleton _) ?_
    intro k hk hs
    obtain ⟨t, ht, rfl⟩ := List.mem_map.1 hk
    exact (hnew t ht).2 (List.mem_singleton.1 hs)
  · rw [hsteps, hruns]
    intro t ht
    rcases List.mem_append.1 ht with ht | ht
    · exact hok.owned t ht
    · obtain rfl := List.mem_singleton.1 ht
      exact hrun
  · rw [hsteps]
    intro t ht
    rcases List.mem_append.1 ht with ht | ht
    · exact hok.ordinals t ht
    · obtain rfl := List.mem_singleton.1 ht
      exact hord
  · rw [hsteps, hruns]
    intro r hr t ht hrun
    rcases List.mem_append.1 ht with ht | ht
    · exact hok.fits r hr t ht hrun
    · obtain rfl := List.mem_singleton.1 ht
      constructor <;> simp [RunStepRecord.held, hpending]
  · rw [hruns]
    exact hok.cursors
  · rw [hsteps, hruns]
    intro r hr i h0 hi
    obtain ⟨t, ht, hdone⟩ := hok.passed r hr i h0 hi
    exact ⟨t, List.mem_append_left _ ht, hdone⟩

variable {f : RunStepRecord → RunStepRecord}

theorem mem_moved {s s' : RunStepRecord} (hok : db.RunsOk) (hs : s ∈ db.steps) (hf : f s = s') {t' : RunStepRecord}
    (ht' : t' ∈ Table.updateKey RunStepRecord.key s.key f db.steps) : t' = s' ∨ (t' ∈ db.steps ∧ t' ≠ s) := by
  obtain ⟨t, ht, rfl⟩ := Table.mem_updateKey.1 ht'
  by_cases hkey : t.key = s.key
  · rw [if_pos hkey, Table.eq_of_key hok.keys ht hs hkey, hf]
    exact .inl rfl
  · rw [if_neg hkey]
    exact .inr ⟨ht, fun h => hkey (by rw [h])⟩

theorem mem_moved_of_ne {s t : RunStepRecord} (f : RunStepRecord → RunStepRecord) (hok : db.RunsOk) (hs : s ∈ db.steps)
    (ht : t ∈ db.steps) (hne : t ≠ s) : t ∈ Table.updateKey RunStepRecord.key s.key f db.steps :=
  Table.mem_updateKey.2 ⟨t, ht, if_neg fun hkey => hne (Table.eq_of_key hok.keys ht hs hkey)⟩

variable {status : RunStatus} {c : RunCall}

theorem Db.RunsOk.moved (hok : db.RunsOk) {s s' : RunStepRecord} (hs : s ∈ db.steps) (hmove : StepMove db s c s' status)
    (hf : f s = s')
    (hruns : db'.runs = Table.updateKey RunRow.runId s.runId (fun r => { r with status := status }) db.runs)
    (hsteps : db'.steps = Table.updateKey RunStepRecord.key s.key f db.steps) : db'.RunsOk := by
  obtain ⟨r₀, hr₀, hact, hord⟩ := hmove.live hok hs
  obtain ⟨hr₀, hid₀⟩ := hok.run_iff.1 hr₀
  have hsame := hmove.same
  have hids : db'.runs.map RunRow.runId = db.runs.map RunRow.runId := by
    rw [hruns]
    exact Table.keys_updateKey s.runId (fun r : RunRow => { r with status := status }) (fun _ => rfl) _
  -- the columns of the keys are those of the rows before
  have hcols : db'.steps.map (fun t => (t.key, t.slot)) = db.steps.map (fun t => (t.key, t.slot)) := by
    rw [hsteps]
    unfold Table.updateKey
    rw [List.map_map]
    refine List.map_congr_left fun t ht => ?_
    show (fun t : RunStepRecord => (t.key, t.slot)) (if t.key = s.key then f t else t) = _
    split
    · rename_i hkey
      rw [Table.eq_of_key hok.keys ht hs hkey, hf]
      simp only [RunStepRecord.key, RunStepRecord.slot, hsame.runId, hsame.stepId, hsame.ordinal]
    · rfl
  have hkeys : db'.steps.map RunStepRecord.key = db.steps.map RunStepRecord.key := by
    simpa only [List.map_map, Function.comp_def] using congrArg (List.map Prod.fst) hcols
  have hslots : db'.steps.map RunStepRecord.slot = db.steps.map RunStepRecord.slot := by
    simpa only [List.map_map, Function.comp_def] using congrArg (List.map Prod.snd) hcols
  constructor
  · rw [hids]
    exact hok.runIds
  · rw [hkeys]
    exact hok.keys
  · rw [hslots]
    exact hok.slots
  · rw [hids, hsteps]
    intro t ht
    rcases mem_moved hok hs hf ht with rfl | ⟨ht, -⟩
    · rw [hsame.runId]
      exact hok.owned s hs
    · exact hok.owned t ht
  · rw [hsteps]
    intro t ht
    rcases mem_moved hok hs hf ht with rfl | ⟨ht, -⟩
    · rw [hsame.ordinal]
      exact hok.ordinals s hs
    · exact hok.ordinals t ht
  · rw [hsteps, hruns]
    intro r' hr' t ht hrun
    obtain ⟨r, hr, rfl⟩ := Table.mem_updateKey.1 hr'
    by_cases hid : r.runId = s.runId
    · obtain rfl : r = r₀ := Table.eq_of_key hok.runIds hr hr₀ (hid.trans hid₀.symm)
      rw [if_pos hid] at hrun ⊢
      rcases mem_moved hok hs hf ht with rfl | ⟨ht, hne⟩
      · exact hmove.fits rfl hord
      · -- another step of the run is neither held nor failed
        have hfit := hok.fits r hr t ht hrun
        constructor
        · intro hheld
          exact absurd (hok.eq_of_slot ht hs (hrun.trans hid) ((hfit.held hheld).2.trans hord.symm)) hne
        · intro hfailed
          rw [hfit.failed hfailed] at hact
          cases hact
    · rw [if_neg hid] at hrun ⊢
      rcases mem_moved hok hs hf ht with rfl | ⟨ht, -⟩
      · exact absurd (hrun.symm.trans hsame.runId) hid
      · exact hok.fits r hr t ht hrun
  · rw [hruns]
    intro r' hr'
    obtain ⟨r, hr, rfl⟩ := Table.mem_updateKey.1 hr'
    split <;> exact hok.cursors r hr
  · rw [hsteps, hruns]
    intro r' hr' i h0 hi
    obtain ⟨r, hr, rfl⟩ := Table.mem_updateKey.1 hr'
    have hi : i < r.cursor := by
      split at hi <;> exact hi
    obtain ⟨t, ht, hslot, hdone⟩ := hok.passed r hr i h0 hi
    have hne : t ≠ s := by
      rintro rfl
      exact hmove.not_completed hdone
    refine ⟨t, mem_moved_of_ne f hok hs ht hne, ?_, hdone⟩
    split <;> exact hslot

theorem Db.RunsOk.advanced (hok : db.RunsOk) (hr : r ∈ db.runs) (hs : s ∈ db.steps) (hrun : s.runId = r.runId)
    (hord : s.ordinal = r.cursor) (hdone : s.status = .completed) (hact : r.status.active = true)
    (hruns : db'.runs =
      Table.updateKey RunRow.runId r.runId (fun r => { r with cursor := r.cursor + 1, status := .pending }) db.runs)
    (hsteps : db'.steps = db.steps) : db'.RunsOk := by
  have hids : db'.runs.map RunRow.runId = db.runs.map RunRow.runId := by
    rw [hruns]
    exact Table.keys_updateKey r.runId (fun r : RunRow => { r with cursor := r.cursor + 1, status := .pending })
      (fun _ => rfl) _
  constructor
  · rw [hids]
    exact hok.runIds
  · rw [hsteps]
    exact hok.keys
  · rw [hsteps]
    exact hok.slots
  · rw [hids, hsteps]
    exact hok.owned
  · rw [hsteps]
    exact hok.ordinals
  · rw [hsteps, hruns]
    intro r' hr' t ht hrun'
    obtain ⟨q, hq, rfl⟩ := Table.mem_updateKey.1 hr'
    by_cases hid : q.runId = r.runId
    · obtain rfl := Table.eq_of_key hok.runIds hq hr hid
      rw [if_pos rfl] at hrun' ⊢
      have hfit := hok.fits q hq t ht hrun'
      constructor
      · -- the step at the old cursor is completed, so no step of the run is held
        intro hheld
        obtain rfl := hok.eq_of_slot ht hs (hrun'.trans hrun.symm) ((hfit.held hheld).2.trans hord.symm)
        simp [RunStepRecord.held, hdone] at hheld
      · intro hfailed
        rw [hfit.failed hfailed] at hact
        cases hact
    · rw [if_neg hid] at hrun' ⊢
      exact hok.fits q hq t ht hrun'
  · rw [hruns]
    intro r' hr'
    obtain ⟨q, hq, rfl⟩ := Table.mem_updateKey.1 hr'
    have := hok.cursors q hq
    split <;> simp <;> omega
  · rw [hsteps, hruns]
    intro r' hr' i h0 hi
    obtain ⟨q, hq, rfl⟩ := Table.mem_updateKey.1 hr'
    by_cases hid : q.runId = r.runId
    · obtain rfl := Table.eq_of_key hok.runIds hq hr hid
      rw [if_pos rfl] at hi ⊢
      dsimp only at hi ⊢
      by_cases hlast : i = q.cursor
      · exact ⟨s, hs, by rw [RunStepRecord.slot, hrun, hord, hlast], hdone⟩
      · exact hok.passed q hq i h0 (by omega)
    · rw [if_neg hid] at hi ⊢
      exact hok.passed q hq i h0 hi

theorem Db.RunsOk.completed (hok : db.RunsOk) (hr : r ∈ db.runs) (hempty : db.stepAt r.runId r.cursor = none)
    (hruns : db'.runs = Table.updateKey RunRow.runId r.runId (fun r => { r with status := .completed }) db.runs)
    (hsteps : db'.steps = db.steps) : db'.RunsOk := by
  have hids : db'.runs.map RunRow.runId = db.runs.map RunRow.runId := by
    rw [hruns]
    exact Table.keys_updateKey r.runId (fun r : RunRow => { r with status := .completed }) (fun _ => rfl) _
  constructor
  · rw [hids]
    exact hok.runIds
  · rw [hsteps]
    exact hok.keys
  · rw [hsteps]
    exact hok.slots
  · rw [hids, hsteps]
    exact hok.owned
  · rw [hsteps]
    exact hok.ordinals
  · rw [hsteps, hruns]
    intro r' hr' t ht hrun
    obtain ⟨q, hq, rfl⟩ := Table.mem_updateKey.1 hr'
    by_cases hid : q.runId = r.runId
    · obtain rfl := Table.eq_of_key hok.runIds hq hr hid
      rw [if_pos rfl] at hrun ⊢
      constructor
      · intro hheld
        have hat := hok.stepAt_iff.2 ⟨ht, hrun, ((hok.fits q hq t ht hrun).held hheld).2⟩
        rw [hempty] at hat
        cases hat
      · intro _
        rfl
    · rw [if_neg hid] at hrun ⊢
      exact hok.fits q hq t ht hrun
  · rw [hruns]
    intro r' hr'
    obtain ⟨q, hq, rfl⟩ := Table.mem_updateKey.1 hr'
    split <;> exact hok.cursors q hq
  · rw [hsteps, hruns]
    intro r' hr' i h0 hi
    obtain ⟨q, hq, rfl⟩ := Table.mem_updateKey.1 hr'
    have hi : i < q.cursor := by
      split at hi <;> exact hi
    obtain ⟨t, ht, hslot, hdone⟩ := hok.passed q hq i h0 hi
    refine ⟨t, ht, ?_, hdone⟩
    split <;> exact hslot

/-! ### Ending runs -/

theorem RunRow.terminate_spec (r : RunRow) (hfinal : status.active = false) :
    (r.terminate status).runId = r.runId ∧ (r.terminate status).cursor = r.cursor ∧
      (r.terminate status).status.active = false ∧ (r.status.active = false → r.terminate status = r) := by
  unfold RunRow.terminate
  by_cases h : r.status.active
  · simp [h, hfinal]
  · simp [h]

theorem RunStepRecord.close_spec (s : RunStepRecord) (output : Option String → Option String) (closedAt : Int) :
    s.SameStep (s.close output closedAt) ∧ (s.close output closedAt).held = false ∧
      (s.status = .completed → s.close output closedAt = s) := by
  unfold RunStepRecord.close
  by_cases h : s.unfinished
  · rw [if_pos h]
    refine ⟨⟨rfl, rfl, rfl, rfl, rfl, rfl⟩, rfl, ?_⟩
    intro hdone
    simp [RunStepRecord.unfinished, hdone] at h
  · rw [if_neg h]
    refine ⟨.refl s, ?_, fun _ => rfl⟩
    simp only [RunStepRecord.unfinished, Bool.or_eq_true, not_or, Bool.not_eq_true] at h
    simp [RunStepRecord.held, h.1.2, h.2]

theorem Ends.final {ids : List String} (h : Ends db c ids status) : status.active = false := by
  cases h <;> rfl

theorem Db.RunsOk.terminated (hok : db.RunsOk) (ids : List String) (hfinal : status.active = false)
    (output : Option String → Option String) (closedAt : Int) : (db.terminate ids status output closedAt).RunsOk := by
  have hclose : ∀ s : RunStepRecord, s.SameStep (if ids.contains s.runId then s.close output closedAt else s) := by
    intro s
    split
    · exact (s.close_spec output closedAt).1
    · exact .refl s
  have hids : (db.terminate ids status output closedAt).runs.map RunRow.runId = db.runs.map RunRow.runId := by
    simp only [Db.terminate, List.map_map]
    refine List.map_congr_left fun r _ => ?_
    show RunRow.runId (if ids.contains r.runId then r.terminate status else r) = r.runId
    split
    · exact (r.terminate_spec hfinal).1
    · rfl
  constructor
  · rw [hids]
    exact hok.runIds
  · have hkeys : (db.terminate ids status output closedAt).steps.map RunStepRecord.key =
        db.steps.map RunStepRecord.key := by
      simp only [Db.terminate, List.map_map]
      refine List.map_congr_left fun s _ => ?_
      simp only [Function.comp, RunStepRecord.key, (hclose s).runId, (hclose s).stepId]
    rw [hkeys]
    exact hok.keys
  · have hslots : (db.terminate ids status output closedAt).steps.map RunStepRecord.slot =
        db.steps.map RunStepRecord.slot := by
      simp only [Db.terminate, List.map_map]
      refine List.map_congr_left fun s _ => ?_
      simp only [Function.comp, RunStepRecord.slot, (hclose s).runId, (hclose s).ordinal]
    rw [hslots]
    exact hok.slots
  · rw [hids]
    intro s' hs'
    obtain ⟨s, hs, rfl⟩ := List.mem_map.1 hs'
    rw [(hclose s).runId]
    exact hok.owned s hs
  · intro s' hs'
    obtain ⟨s, hs, rfl⟩ := List.mem_map.1 hs'
    rw [(hclose s).ordinal]
    exact hok.ordinals s hs
  · intro r' hr' s' hs' hrun
    obtain ⟨r, hr, rfl⟩ := List.mem_map.1 hr'
    obtain ⟨s, hs, rfl⟩ := List.mem_map.1 hs'
    rw [(hclose s).runId] at hrun
    by_cases hin : ids.contains r.runId
    · rw [if_pos hin, (r.terminate_spec hfinal).1] at hrun
      rw [if_pos hin, hrun, if_pos hin]
      constructor
      · intro hheld
        rw [(s.close_spec output closedAt).2.1] at hheld
        cases hheld
      · intro _
        exact (r.terminate_spec hfinal).2.2.1
    · rw [if_neg hin] at hrun
      rw [if_neg hin, hrun, if_neg hin]
      exact hok.fits r hr s hs hrun
  · intro r' hr'
    obtain ⟨r, hr, rfl⟩ := List.mem_map.1 hr'
    have hcur := hok.cursors r hr
    split
    · rw [(r.terminate_spec hfinal).2.1]
      exact hcur
    · exact hcur
  · intro r' hr' i h0 hi
    obtain ⟨r, hr, rfl⟩ := List.mem_map.1 hr'
    have hkeep : (if ids.contains r.runId then r.terminate status else r).cursor = r.cursor ∧
        (if ids.contains r.runId then r.terminate status else r).runId = r.runId := by
      split
      · exact ⟨(r.terminate_spec hfinal).2.1, (r.terminate_spec hfinal).1⟩
      · exact ⟨rfl, rfl⟩
    rw [hkeep.1] at hi
    rw [hkeep.2]
    obtain ⟨s, hs, hslot, hdone⟩ := hok.passed r hr i h0 hi
    refine ⟨s, List.mem_map.2 ⟨s, hs, ?_⟩, hslot, hdone⟩
    split
    · exact (s.close_spec output closedAt).2.2 hdone
    · rfl

theorem RunMove.ok (h : RunMove db c db') (hok : db.RunsOk) : db'.RunsOk := by
  cases h with
  | quiet hruns hsteps => exact hok.of_same hruns hsteps
  | bounded hruns hsteps =>
    refine hok.of_map _ ?_ ?_ ?_ hruns hsteps <;>
    · intro r
      split <;> rfl
  | created hfresh _ hcur _ hruns hsteps _ => exact hok.created hfresh hcur hruns hsteps
  | @defined new r _ hfound _ hfree hruns hsteps =>
    exact hok.defined (s := new.record r.runId) (List.mem_map_of_mem (hok.run_iff.1 hfound).1) hfree rfl hruns hsteps
  | moved hfound hmove hwritten hruns hsteps =>
    exact hok.moved (hok.step_iff.1 hfound).1 hmove hwritten hruns hsteps
  | advanced hfound hact hstep hdone hruns hsteps =>
    obtain ⟨hs, hrun, hord⟩ := hok.stepAt_iff.1 hstep
    exact hok.advanced (hok.run_iff.1 hfound).1 hs hrun hord hdone hact hruns hsteps
  | completed hfound _ hempty hruns hsteps => exact hok.completed (hok.run_iff.1 hfound).1 hempty hruns hsteps
  | ended hends hruns hsteps => exact (hok.terminated _ hends.final _ _).of_same hruns hsteps

end Preservation

/-! ## One row, one call -/

/-- **What a call makes of a step.** -/
inductive StepAfter (db : Db) (c : RunCall) (s : RunStepRecord) : RunStepRecord → Prop
  | kept : StepAfter db c s s
  | moved {s' : RunStepRecord} {status : RunStatus} (move : StepMove db s c s' status) : StepAfter db c s s'
  | closed {ids : List String} {status : RunStatus} (ends : Ends db c ids status) (mem : s.runId ∈ ids)
      (output : Option String → Option String) (closedAt : Int) : StepAfter db c s (s.close output closedAt)

/-- **What a call makes of a run.** -/
inductive RunAfter (db : Db) (c : RunCall) (r : RunRow) : RunRow → Prop
  | kept (deadlineAt : Option Int) : RunAfter db c r { r with deadlineAt := deadlineAt }
  | moved {s s' : RunStepRecord} {status : RunStatus} (found : db.step r.runId s.stepId = some s)
      (active : r.status.active = true) (move : StepMove db s c s' status) : RunAfter db c r { r with status := status }
  | advanced {s : RunStepRecord} (active : r.status.active = true) (step : db.stepAt r.runId r.cursor = some s)
      (done : s.status = .completed) : RunAfter db c r { r with cursor := r.cursor + 1, status := .pending }
  | completed (active : r.status.active = true) (empty : db.stepAt r.runId r.cursor = none)
      (call : c = .completeRun r.runId r.cursor) : RunAfter db c r { r with status := .completed }
  | ended {ids : List String} {status : RunStatus} (ends : Ends db c ids status) (mem : r.runId ∈ ids) :
      RunAfter db c r (r.terminate status)

section Rows

variable {db db' : Db} {c : RunCall}

theorem RunMove.step_after (h : RunMove db c db') (hok : db.RunsOk) {runId stepId : String} {s : RunStepRecord}
    (hs : db.step runId stepId = some s) : ∃ s', db'.step runId stepId = some s' ∧ StepAfter db c s s' := by
  obtain ⟨hmem, hrun, hid⟩ := hok.step_iff.1 hs
  have hsame : db'.steps = db.steps → ∃ s', db'.step runId stepId = some s' ∧ StepAfter db c s s' := by
    intro hsteps
    refine ⟨s, ?_, .kept⟩
    unfold Db.step
    rw [hsteps]
    exact hs
  have hok' := h.ok hok
  cases h with
  | quiet _ hsteps | bounded _ hsteps | created _ _ _ _ _ hsteps _ | advanced _ _ _ _ _ hsteps
  | completed _ _ _ _ hsteps => exact hsame hsteps
  | defined _ _ _ _ hsteps =>
    refine ⟨s, ?_, .kept⟩
    rw [hok'.step_iff, hsteps]
    exact ⟨List.mem_append_left _ hmem, hrun, hid⟩
  | @moved _ t t' status f _ hfound hmove hwritten _ hsteps =>
    by_cases hst : s = t
    · subst hst
      refine ⟨t', ?_, .moved hmove⟩
      rw [hok'.step_iff, hsteps]
      exact ⟨Table.mem_updateKey.2 ⟨s, hmem, by rw [if_pos rfl, hwritten]⟩, hmove.same.runId.trans hrun,
        hmove.same.stepId.trans hid⟩
    · refine ⟨s, ?_, .kept⟩
      rw [hok'.step_iff, hsteps]
      exact ⟨mem_moved_of_ne f hok (hok.step_iff.1 hfound).1 hmem hst, hrun, hid⟩
  | @ended _ ids status output closedAt _ hends _ hsteps =>
    by_cases hin : ids.contains s.runId
    · refine ⟨s.close output closedAt, ?_, .closed hends (List.contains_iff_mem.1 hin) output closedAt⟩
      have hclosed := (s.close_spec output closedAt).1
      rw [hok'.step_iff, hsteps]
      exact ⟨List.mem_map.2 ⟨s, hmem, if_pos hin⟩, hclosed.runId.trans hrun, hclosed.stepId.trans hid⟩
    · refine ⟨s, ?_, .kept⟩
      rw [hok'.step_iff, hsteps]
      exact ⟨List.mem_map.2 ⟨s, hmem, if_neg hin⟩, hrun, hid⟩

theorem RunMove.run_after (h : RunMove db c db') (hok : db.RunsOk) {runId : String} {r : RunRow}
    (hr : db.run runId = some r) : ∃ r', db'.run runId = some r' ∧ RunAfter db c r r' := by
  obtain ⟨hmem, rfl⟩ := hok.run_iff.1 hr
  have hkept : RunAfter db c r r := .kept r.deadlineAt
  have hok' := h.ok hok
  have hother : ∀ {q : RunRow} {f : RunRow → RunRow}, q.runId ≠ r.runId →
      db'.runs = Table.updateKey RunRow.runId q.runId f db.runs → db'.run r.runId = some r := by
    intro q f hne hruns
    rw [hok'.run_iff, hruns]
    exact ⟨Table.mem_updateKey.2 ⟨r, hmem, if_neg (Ne.symm hne)⟩, rfl⟩
  cases h with
  | quiet hruns _ | defined _ _ _ hruns _ =>
    refine ⟨r, ?_, hkept⟩
    rw [hok'.run_iff, hruns]
    exact ⟨hmem, rfl⟩
  | @bounded id _ _ _ _ deadline _ hruns _ =>
    by_cases hid : r.runId = id
    · refine ⟨_, ?_, .kept (r.deadlineAt.or (some deadline))⟩
      rw [hok'.run_iff, hruns]
      exact ⟨Table.mem_updateKey.2 ⟨r, hmem, if_pos hid⟩, rfl⟩
    · refine ⟨r, ?_, hkept⟩
      rw [hok'.run_iff, hruns]
      exact ⟨Table.mem_updateKey.2 ⟨r, hmem, if_neg hid⟩, rfl⟩
  | created _ _ _ _ hruns _ _ =>
    refine ⟨r, ?_, hkept⟩
    rw [hok'.run_iff, hruns]
    exact ⟨List.mem_append_left _ hmem, rfl⟩
  | @moved _ s s' status _ _ hfound hmove _ hruns _ =>
    obtain ⟨q, hq, hact, -⟩ := hmove.live hok (hok.step_iff.1 hfound).1
    by_cases hid : s.runId = r.runId
    · rw [hid, hr] at hq
      cases hq
      refine ⟨{ r with status := status }, ?_, .moved (by rw [← hid]; exact hfound) hact hmove⟩
      rw [hok'.run_iff, hruns]
      exact ⟨Table.mem_updateKey.2 ⟨r, hmem, if_pos hid.symm⟩, rfl⟩
    · refine ⟨r, ?_, hkept⟩
      rw [hok'.run_iff, hruns]
      exact ⟨Table.mem_updateKey.2 ⟨r, hmem, if_neg fun h => hid h.symm⟩, rfl⟩
  | @advanced s q _ hfound hact hstep hdone hruns _ =>
    by_cases hid : q.runId = r.runId
    · rw [hid, hr] at hfound
      cases hfound
      refine ⟨_, ?_, .advanced hact hstep hdone⟩
      rw [hok'.run_iff, hruns]
      exact ⟨Table.mem_updateKey.2 ⟨r, hmem, if_pos rfl⟩, rfl⟩
    · exact ⟨r, hother hid hruns, hkept⟩
  | @completed q _ hfound hact hempty hruns _ =>
    by_cases hid : q.runId = r.runId
    · rw [hid, hr] at hfound
      cases hfound
      refine ⟨_, ?_, .completed hact hempty rfl⟩
      rw [hok'.run_iff, hruns]
      exact ⟨Table.mem_updateKey.2 ⟨r, hmem, if_pos rfl⟩, rfl⟩
    · exact ⟨r, hother hid hruns, hkept⟩
  | @ended _ ids status _ _ _ hends hruns _ =>
    by_cases hin : ids.contains r.runId
    · refine ⟨r.terminate status, ?_, .ended hends (List.contains_iff_mem.1 hin)⟩
      rw [hok'.run_iff, hruns]
      exact ⟨List.mem_map.2 ⟨r, hmem, if_pos hin⟩, (r.terminate_spec hends.final).1⟩
    · refine ⟨r, ?_, hkept⟩
      rw [hok'.run_iff, hruns]
      exact ⟨List.mem_map.2 ⟨r, hmem, if_neg hin⟩, rfl⟩

theorem RunAfter.final {r r' : RunRow} (h : RunAfter db c r r') (hfinal : r.status.active = false) :
    r'.status = r.status ∧ r'.cursor = r.cursor := by
  cases h with
  | kept => exact ⟨rfl, rfl⟩
  | moved _ hact _ | advanced hact _ _ | completed hact _ _ =>
    rw [hfinal] at hact
    cases hact
  | ended hends _ =>
    rw [(r.terminate_spec hends.final).2.2.2 hfinal]
    exact ⟨rfl, rfl⟩

theorem RunAfter.cursor {r r' : RunRow} (h : RunAfter db c r r') : r'.cursor = r.cursor ∨ r'.cursor = r.cursor + 1 := by
  cases h with
  | kept | moved | completed => exact .inl rfl
  | advanced => exact .inr rfl
  | ended hends _ => exact .inl (r.terminate_spec hends.final).2.1

theorem StepAfter.completed {s s' : RunStepRecord} (h : StepAfter db c s s') (hdone : s.status = .completed) :
    s' = s := by
  cases h with
  | kept => rfl
  | moved hmove => exact absurd hdone hmove.not_completed
  | closed _ _ output closedAt => exact (s.close_spec output closedAt).2.2 hdone

end Rows

open Steps

theorem run_runsOk {db db' : Db} {calls : List RunCall} (hok : db.RunsOk) (hrun : Run RunCall.Step db calls db') :
    db'.RunsOk := by
  refine run_invariant hrun hok ?_
  rintro m c m' hm rfl
  exact (exec_move m c).ok hm

end Execlaw
