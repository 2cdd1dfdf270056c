import Execlaw.ToolChainWatch
/-!
# ToolChainApprovals — approvals decide once (`resolve_chain_approval`)

The outline of the watch on one approval: a resolution opens the run with its first status write, and only the worker
that opened it as running executes it and closes it.
-/
namespace Execlaw

open Table Interleave ToolChain

namespace Approval

variable {codec : ChainCodec} {ap : Approval} {worker : Nat} {s s' : ChainState}

/-! ## Quiet statements -/

theorem quiet_same (hruns : s'.runs = s.runs) (hplans : s'.plans = s.plans) (hdb : s'.db = s.db)
    (hlog : s'.log = s.log) : ap.Quiet codec s s' := by
  intro h
  refine ⟨?_, [], by simp, by rw [hlog, List.append_nil], by simp⟩
  constructor
  · rw [hruns, hlog]
    exact h.row
  · rw [hruns]
    exact h.unique
  · rw [hplans]
    exact h.plan
  · rw [hlog]
    exact h.once
  · rw [hlog, hdb]
    exact h.queued
  · rw [hlog]
    exact h.phase

theorem quiet_noted {e : ChainEvent} (hother : ap.concerns e = false) (hruns : s'.runs = s.runs)
    (hplans : s'.plans = s.plans) (hdb : s'.db = s.db) (hlog : s'.log = s.log ++ [e]) : ap.Quiet codec s s' := by
  intro h
  have hne : ∀ step, e ≠ .enqueued ap.run.id step := by
    rintro step rfl
    simp [concerns] at hother
  obtain ⟨row, hrow, h₁, h₂, h₃, h₄, h₅, hstatus⟩ := h.row
  refine ⟨?_, [e], by simp, hlog, by simpa using hother⟩
  constructor
  · rw [hruns, hlog, statusAfter_snoc_of_not hother]
    exact ⟨row, hrow, h₁, h₂, h₃, h₄, h₅, hstatus⟩
  · rw [hruns]
    exact h.unique
  · rw [hplans]
    exact h.plan
  · intro step
    rw [hlog, List.count_append, List.count_singleton, if_neg (by simpa using hne step)]
    exact h.once step
  · intro step hmem
    rw [hlog] at hmem
    rw [hdb]
    exact h.queued step ((List.mem_append.1 hmem).resolve_right fun hin => hne step (List.mem_singleton.1 hin).symm)
  · rw [hlog]
    exact fun htimely => (h.phase htimely.of_append).other hother

variable {runId : String} {now : Int} {step : StoredStep} {a : Unit}

theorem quiet_recordStep {key : Option String} (h : recordStep runId step key now s = .ok (a, s')) :
    ap.Quiet codec s s' := by
  unfold recordStep at h
  split at h
  · cases h
  · cases h
    exact quiet_noted rfl rfl rfl rfl rfl

variable {plan : StoredPlan}

theorem quiet_insertPlan {id conversationId : String} (h : insertPlan id conversationId plan s = .ok (a, s')) :
    ap.Quiet codec s s' := by
  unfold insertPlan at h
  cases hinsert : s.plans.insert? ⟨id, conversationId, .ok plan, true⟩ trivial with
  | none => rw [hinsert] at h; cases h
  | some plans =>
    rw [hinsert] at h
    cases h
    intro hs
    obtain ⟨-, hrows⟩ := Keyed.insert?_eq_some hinsert
    refine ⟨⟨hs.row, hs.unique, ?_, hs.once, hs.queued, hs.phase⟩, [], by simp, by simp, by simp⟩
    rw [hrows, hs.plan, Option.some_or]

theorem quiet_insertCompensation {row : ChainCompensationRow} (h : insertCompensation row s = .ok (a, s')) :
    ap.Quiet codec s s' := by
  unfold insertCompensation at h
  split at h
  · cases h
  · cases h
    exact quiet_same rfl rfl rfl rfl

theorem quiet_insertRun {runId planId conversationId : String} {status : ChainRunStatus} {a : String × Int}
    (h : insertRun runId planId conversationId status now s = .ok (a, s')) :
    ap.Quiet codec s s' ∧ (ap.Watch codec s → runId ≠ ap.run.id) := by
  unfold insertRun at h
  dsimp only at h
  split at h
  · cases h
  · next runs hinsert =>
    split at h
    · cases h
    · cases h
      obtain ⟨hnone, hrows⟩ := Keyed.insert?_eq_some hinsert
      have hnew : ap.Watch codec s → runId ≠ ap.run.id := by
        rintro hs rfl
        obtain ⟨row, hrow, -⟩ := hs.row
        cases hnone.symm.trans hrow
      refine ⟨fun hs => ?_, hnew⟩
      obtain ⟨row, hrow, hfields⟩ := hs.row
      refine ⟨⟨⟨row, ?_, hfields⟩, ?_, hs.plan, hs.once, hs.queued, hs.phase⟩, [], by simp, by simp, by simp⟩
      · rw [hrows, hrow, Option.some_or]
      · intro q hq hwaits
        rw [Keyed.rows_insert? hinsert, List.mem_append, List.mem_singleton] at hq
        rcases hq with hq | rfl
        · exact hs.unique q hq hwaits
        · cases hwaits

variable {change : ChainRunChange}

theorem Watch.of_update (h : ap.Watch codec s) {log : List ChainEvent} (hid : runId ≠ ap.run.id)
    (happroval : ∀ r, s.runs.row runId = some r → (change.set r).approvalId = some ap.approvalId →
    r.approvalId = some ap.approvalId) (hlog : log = [] ∨ ∃ e, log = [e] ∧ ap.concerns e = false) :
    ap.Watch codec { s with runs := s.runs.update runId change, log := s.log ++ log } := by
  obtain ⟨row, hrow, h₁, h₂, h₃, h₄, h₅, hstatus⟩ := h.row
  have hrow' : (s.runs.update runId change).row ap.run.id = some row :=
    (Keyed.row_update_of_ne _ (Ne.symm hid) _).trans hrow
  have hunique : ∀ q ∈ (s.runs.update runId change).rows, q.approvalId = some ap.approvalId → q.id = ap.run.id := by
    intro q hq hwaits
    obtain ⟨p, hp, hkey, ⟨-, rfl⟩ | ⟨hkey', rfl⟩⟩ := Keyed.mem_update hq
    · exact h.unique q hp hwaits
    · refine hkey.symm.trans (h.unique p hp ?_)
      unfold Change.apply at hwaits
      split at hwaits
      · exact happroval p (Keyed.row_iff.2 ⟨hp, hkey.trans hkey'⟩) hwaits
      · exact hwaits
  rcases hlog with rfl | ⟨e, rfl, hother⟩
  · rw [List.append_nil]
    exact ⟨⟨row, hrow', h₁, h₂, h₃, h₄, h₅, hstatus⟩, hunique, h.plan, h.once, h.queued, h.phase⟩
  · have hne : ∀ step, e ≠ .enqueued ap.run.id step := by
      rintro step rfl
      simp [concerns] at hother
    refine ⟨⟨row, hrow', h₁, h₂, h₃, h₄, h₅, ?_⟩, hunique, h.plan, fun step => ?_, fun step hmem => ?_, fun htimely => ?_⟩
    · rw [statusAfter_snoc_of_not hother]
      exact hstatus
    · rw [List.count_append, List.count_singleton, if_neg (by simpa using hne step)]
      exact h.once step
    · exact h.queued step ((List.mem_append.1 hmem).resolve_right fun hin => hne step (List.mem_singleton.1 hin).symm)
    · exact (h.phase htimely.of_append).other hother

theorem quiet_waitRun {runId approvalId effectHash a : String} (hid : runId ≠ ap.run.id)
    (h : waitRun runId approvalId effectHash now s = .ok (a, s')) : ap.Quiet codec s s' := by
  unfold waitRun at h
  split at h
  · cases h
  · next hfree =>
    cases h
    intro hs
    refine ⟨?_, [], by simp, by simp, by simp⟩
    have hwatch : ap.Watch codec
        { s with runs := s.runs.update runId (waitingChange approvalId effectHash now), log := s.log ++ [] } :=
      hs.of_update hid (fun r _ hwaits => ?_) (.inl rfl)
    · simpa using hwatch
    · -- the watched run has its approval id to itself
      exfalso
      obtain ⟨row, hrow, happroval, -⟩ := hs.row
      obtain ⟨hmem, hkey⟩ := Keyed.row_iff.1 hrow
      refine hfree (List.any_eq_true.2 ⟨row, hmem, ?_⟩)
      have hsame : some approvalId = some ap.approvalId := hwaits
      simp [happroval, hsame.symm, show row.id ≠ runId from fun heq => hid (heq.symm.trans hkey)]

theorem quiet_of_calm (h : Calm (fun runId => runId ≠ ap.run.id) s s') : ap.Quiet codec s s' := by
  cases h with
  | read | marked => exact quiet_same rfl rfl rfl rfl
  | planned h => exact quiet_insertPlan h
  | created h => exact (quiet_insertRun h).1
  | waits hnew h => exact quiet_waitRun hnew h
  | reviewed h => exact quiet_insertCompensation h

theorem frame_of_quiet {A : ChainState → Prop} (hwatch : ∀ s, A s → ap.Watch codec s)
    (hstable : Stable (ap.Rely codec worker) A) (hquiet : ∀ s s', A s → ap.Quiet codec s s' → A s') :
    Frame (ap.Rely codec worker) (ap.Guar codec worker) (fun runId => runId ≠ ap.run.id) A where
  refl := Rely.refl worker
  stable := hstable
  calm := fun s s' hs h => ⟨(quiet_of_calm h).guar worker, hquiet s s' hs (quiet_of_calm h)⟩
  new := fun _ _ _ _ _ s _ _ hs h => (quiet_insertRun h).2 (hwatch s hs)

theorem frame_watch (worker : Nat) :
    Frame (ap.Rely codec worker) (ap.Guar codec worker) (fun runId => runId ≠ ap.run.id) (ap.Watch codec) :=
  frame_of_quiet (fun _ h => h) (stable_watch worker) fun _ _ h hmove => (hmove h).1

theorem frame_has (worker : Nat) (runId : String) :
    Frame (ap.Rely codec worker) (ap.Guar codec worker) (fun runId => runId ≠ ap.run.id) (ap.Has codec worker runId) :=
  frame_of_quiet (fun _ h => h.1) (stable_has worker runId) fun _ _ h hmove => h.quiet hmove

/-! ## Writing a status -/

structure Writes (runId : String) (change : ChainRunChange) (note : ChainRunStatus → ChainEvent)
    (written : ChainRunStatus) : Prop where
  takes : ∀ r, change.takes r = true
  sets : ∀ r, change.set r = { r with
    status := written, errorText := (change.set r).errorText, finishedAt := (change.set r).finishedAt
    updatedAt := (change.set r).updatedAt }
  status : ∀ found log, runId = ap.run.id → ap.statusAfter (log ++ [note found]) = written
  concerns : ∀ found, ap.concerns (note found) = (runId == ap.run.id)
  enqueues : ∀ found step, note found ≠ .enqueued ap.run.id step

theorem writes_openTerminal (worker : Nat) (runId : String) (status : ChainRunStatus) (errorText : Option String)
    (now : Int) : ap.Writes runId (terminalChange status errorText now) (fun found => .opened worker runId found status)
      status := by
  constructor <;> simp +contextual [terminalChange, concerns, statusAfter]

theorem writes_closeTerminal (worker : Nat) (runId : String) (status : ChainRunStatus) (errorText : Option String)
    (now : Int) : ap.Writes runId (terminalChange status errorText now) (fun found => .closed worker runId found status)
      status := by
  constructor <;> simp +contextual [terminalChange, concerns, statusAfter]

theorem writes_markRunStatus (worker : Nat) (runId : String) (status : ChainRunStatus) (now : Int) :
    ap.Writes runId (statusChange status now) (fun found => .opened worker runId found status) status := by
  constructor <;> simp +contextual [statusChange, concerns, statusAfter]

variable {written : ChainRunStatus}

theorem Watch.of_write (h : ap.Watch codec s) {note : ChainRunStatus → ChainEvent}
    (hwrites : ap.Writes ap.run.id change note written) (hallowed : ap.Timely (s.log ++ [note (ap.statusAfter s.log)]) →
    ap.Allowed codec worker s.log (note (ap.statusAfter s.log))) :
    ap.Watch codec { s with runs := s.runs.update ap.run.id change, log := s.log ++ [note (ap.statusAfter s.log)] } :=
      by
  obtain ⟨row, hrow, h₁, h₂, h₃, h₄, h₅, -⟩ := h.row
  have hset := hwrites.sets
  refine ⟨⟨change.set row, ?_, ?_⟩, ?_, h.plan, fun step => ?_, fun step hmem => ?_, fun htimely => ?_⟩
  · simp [hrow, Change.apply, hwrites.takes]
  · rw [hset row]
    exact ⟨h₁, h₂, h₃, h₄, h₅, (hwrites.status _ _ rfl).symm⟩
  · intro q hq hwaits
    obtain ⟨p, hp, hkey, ⟨-, rfl⟩ | ⟨-, rfl⟩⟩ := Keyed.mem_update hq
    · exact h.unique q hp hwaits
    · refine hkey.symm.trans (h.unique p hp ?_)
      rw [Change.apply, if_pos (hwrites.takes p), hset p] at hwaits
      exact hwaits
  · rw [List.count_append, List.count_singleton, if_neg (by simpa using hwrites.enqueues _ step)]
    exact h.once step
  · exact h.queued step ((List.mem_append.1 hmem).resolve_right fun hin =>
      hwrites.enqueues _ step (List.mem_singleton.1 hin).symm)
  · exact (h.phase htimely.of_append).snoc htimely (by simp [hwrites.concerns]) (hallowed htimely)

theorem guar_writeStatus {note : ChainRunStatus → ChainEvent} (hwrites : ap.Writes runId change note written)
    (hallowed : runId = ap.run.id → ap.Timely (s.log ++ [note (ap.statusAfter s.log)]) →
    ap.Allowed codec worker s.log (note (ap.statusAfter s.log))) :
    ap.Guar codec worker s (Calls.transact (writeStatus runId change note) s).2 := by
  intro hs
  rw [Calls.transact_of_ok rfl]
  by_cases hid : runId = ap.run.id
  · subst hid
    obtain ⟨row, hrow, -, -, -, -, -, hstatus⟩ := hs.row
    simp only [hrow, Option.map_some, Option.toList_some, hstatus]
    refine ⟨hs.of_write hwrites (hallowed rfl), _, by simp, rfl, fun htimely e he _ => ?_⟩
    obtain rfl := List.mem_singleton.1 he
    exact hallowed rfl htimely
  · have hother (found : ChainRunStatus) : ap.concerns (note found) = false := by
      rw [hwrites.concerns, beq_eq_false_iff_ne]
      exact hid
    refine ⟨hs.of_update hid (fun r _ hwaits => ?_) ?_, _, ?_, rfl, ?_⟩
    · rw [hwrites.sets r] at hwaits
      exact hwaits
    · cases s.runs.row runId with
      | none => exact .inl rfl
      | some r => exact .inr ⟨_, rfl, hother _⟩
    · cases s.runs.row runId <;> simp
    · intro _ e he hconcerns
      cases hrow : s.runs.row runId with
      | none => simp [hrow] at he
      | some r =>
        simp only [hrow, Option.map_some, Option.toList_some, List.mem_singleton] at he
        rw [he, hother] at hconcerns
        cases hconcerns

theorem guar_open (hwrites : ap.Writes runId change (fun found => .opened worker runId found written) written)
    (hwritten : written = .denied ∨ written = .failed ∨ written = .running) (s : ChainState) :
    ap.Guar codec worker s
      (Calls.transact (writeStatus runId change (fun found => .opened worker runId found written)) s).2 :=
  guar_writeStatus hwrites fun _ _ => ⟨rfl, rfl, hwritten⟩

theorem keeps_openTerminal (runId : String) {status : ChainRunStatus} (hstatus : status = .denied ∨ status = .failed)
    (errorText : Option String) (now : Int) :
    Keeps (ap.Rely codec worker) (ap.Guar codec worker) (ap.Watch codec)
      (openTerminal worker runId status errorText now) := by
  have hguar (s : ChainState) := @guar_open codec ap worker runId _ _
    (writes_openTerminal worker runId status errorText now) (by rcases hstatus with rfl | rfl <;> simp) s
  have hstable := (@frame_watch codec ap worker).stable
  exact Triple.atomic hstable (fun s _ => hguar s) (fun _ => hstable) (fun _ => hstable) fun s hs => (hguar s hs).1

theorem triple_markRunning (runId : String) (now : Int) :
    Triple (ap.Rely codec worker) (ap.Guar codec worker) (ap.Watch codec) (markRunStatus worker runId .running now)
      (fun _ => ap.Has codec worker runId) (fun _ => ap.Watch codec) := by
  have hguar (s : ChainState) := @guar_open codec ap worker runId _ _
    (writes_markRunStatus worker runId .running now) (by simp) s
  refine Triple.atomic (frame_watch worker).stable (fun s _ => hguar s) (fun _ => (frame_has worker runId).stable)
    (fun _ => (frame_watch worker).stable) fun s hs => ⟨(hguar s hs).1, ?_⟩
  rintro - rfl
  obtain ⟨row, hrow, -⟩ := hs.row
  simp [Calls.transact_of_ok (f := writeStatus ap.run.id _ _) rfl, hrow, owner]

theorem triple_closeTerminal (runId : String) {status : ChainRunStatus}
    (hstatus : status = .completed ∨ status = .failed) (errorText : Option String) (now : Int) :
    Triple (ap.Rely codec worker) (ap.Guar codec worker) (ap.Has codec worker runId)
      (closeTerminal worker runId status errorText now) (fun _ => ap.Watch codec) (fun _ => ap.Watch codec) := by
  have hguar (s : ChainState) (hs : ap.Has codec worker runId s) : ap.Guar codec worker s
      (Calls.transact (writeStatus runId (terminalChange status errorText now)
        (fun found => .closed worker runId found status)) s).2 :=
    guar_writeStatus (writes_closeTerminal worker runId status errorText now) fun hid htimely =>
      ⟨hs.2 htimely.of_append hid, rfl, hstatus⟩
  have hstable := (@frame_watch codec ap worker).stable
  exact Triple.atomic (frame_has worker runId).stable hguar (fun _ => hstable) (fun _ => hstable) fun s hs =>
    (hguar s hs hs.1).1

/-! ## Executing the steps -/

structure Knows (codec : ChainCodec) (ap : Approval) (conversationId : String) (runSeq : Int) (plan : StoredPlan) :
    Prop where
  conversationId : conversationId = ap.run.conversationId
  runSeq : runSeq = ap.run.runSeq
  stored : ap.plan.plan = .ok plan
  hash : ap.run.approvalEffectHash = some (approvalEffectHash codec plan)

theorem guar_enqueueStep {row : OutboxRow} {conversationId : String} {runSeq : Int}
    (hkey : row.idempotencyKey = step.key conversationId runSeq)
    (hknows : runId = ap.run.id → Knows codec ap conversationId runSeq plan) (hstep : step ∈ plan.steps)
    (heffect : step.effectKind.isSome = true) (hs : ap.Has codec worker runId s)
    (h : enqueueStep row runId step now s = .ok (a, s')) : ap.Guar codec worker s s' := by
  obtain ⟨db, rfl, hfree, ⟨o, hqueued, -⟩, hkept⟩ := enqueueStep_ok h
  obtain ⟨hwatch, hhas⟩ := hs
  intro _
  have hallowed (hid : runId = ap.run.id) (htimely : ap.Timely (s.log ++ [.enqueued runId step])) :
      ap.Allowed codec worker s.log (.enqueued runId step) :=
    ⟨hhas htimely.of_append hid, plan, (hknows hid).stored, (hknows hid).hash, hstep, heffect⟩
  have hrows (key : String) (hrow : (outboxRow key s.db).isSome = true) : (outboxRow key db).isSome = true := by
    obtain ⟨r, hr⟩ := Option.isSome_iff_exists.1 hrow
    rw [hkept key r hr]
    rfl
  have hown (hid : runId = ap.run.id) : row.idempotencyKey = step.key ap.run.conversationId ap.run.runSeq := by
    rw [hkey, (hknows hid).conversationId, (hknows hid).runSeq]
  refine ⟨⟨?_, hwatch.unique, hwatch.plan, fun other => ?_, fun other hmem => ?_, fun htimely => ?_⟩, _, by simp, rfl,
    fun htimely e he hconcerns => ?_⟩
  · obtain ⟨q, hq, h₁, h₂, h₃, h₄, h₅, hstatus⟩ := hwatch.row
    exact ⟨q, hq, h₁, h₂, h₃, h₄, h₅, by simpa [statusAfter] using hstatus⟩
  · -- a step that is logged has its key in the outbox
    rw [List.count_append, List.count_singleton]
    by_cases hsame : runId = ap.run.id ∧ step = other
    · obtain ⟨hid, rfl⟩ := hsame
      have hnone : ChainEvent.enqueued ap.run.id step ∉ s.log := by
        intro hmem
        have hrow := hwatch.queued step hmem
        rw [← hown hid, hfree] at hrow
        cases hrow
      rw [List.count_eq_zero.2 hnone]
      split <;> omega
    · rw [if_neg (by simpa using hsame)]
      exact hwatch.once other
  · rcases List.mem_append.1 hmem with hmem | hmem
    · exact hrows _ (hwatch.queued other hmem)
    · obtain ⟨hid, rfl⟩ := ChainEvent.enqueued.inj (List.mem_singleton.1 hmem)
      rw [← hown hid.symm, hqueued]
      rfl
  · by_cases hid : runId = ap.run.id
    · exact (hwatch.phase htimely.of_append).snoc htimely (by simp [concerns, hid]) (hallowed hid htimely)
    · exact (hwatch.phase htimely.of_append).other (by simpa [concerns] using hid)
  · obtain rfl := List.mem_singleton.1 he
    exact hallowed (by simpa [concerns] using hconcerns) htimely


/-! ## The outline -/

theorem keeps_quiet {α : Type} {f : ChainState → Except String (α × ChainState)}
    (hquiet : ∀ s a s', f s = .ok (a, s') → ap.Quiet codec s s') :
    Keeps (ap.Rely codec worker) (ap.Guar codec worker) (ap.Has codec worker runId) (stmt f) := by
  have hstable := @stable_has codec ap worker runId
  exact triple_stmt hstable (fun _ => hstable) hstable
    (fun s hs => ⟨(quiet_same rfl rfl rfl rfl : ap.Quiet codec s s).guar worker, hs⟩)
    fun s a s' hs h => ⟨(hquiet s a s' h).guar worker, hs.quiet (hquiet s a s' h)⟩

theorem keeps_enqueueStep {runId conversationId : String} {runSeq : Int} {row : OutboxRow}
    (hknows : runId = ap.run.id → Knows codec ap conversationId runSeq plan)
    (hkey : row.idempotencyKey = step.key conversationId runSeq) (hstep : step ∈ plan.steps)
    (heffect : step.effectKind.isSome = true) :
    Keeps (ap.Rely codec worker) (ap.Guar codec worker) (ap.Has codec worker runId)
      (stmt (enqueueStep row runId step now)) := by
  have hstable := @stable_has codec ap worker runId
  refine triple_stmt hstable (fun _ => hstable) hstable
    (fun s hs => ⟨(quiet_same rfl rfl rfl rfl : ap.Quiet codec s s).guar worker, hs⟩) fun s a s' hs h => ?_
  have hguar := guar_enqueueStep hkey hknows hstep heffect hs h
  refine ⟨hguar, (hguar hs.1).1, fun htimely hid => ?_⟩
  obtain ⟨db, rfl, -⟩ := enqueueStep_ok h
  have howner := hs.2 htimely.of_append hid
  simpa [owner] using howner

def Seen (ap : Approval) (run : ChainRunRow) : Prop :=
  run.id = ap.run.id → run.planId = ap.run.planId ∧ run.conversationId = ap.run.conversationId ∧
    run.runSeq = ap.run.runSeq ∧ run.approvalEffectHash = ap.run.approvalEffectHash

theorem triple_resolve (approvalId : String) :
    Triple (ap.Rely codec worker) (ap.Guar codec worker) (ap.Watch codec) (resolveRunForApproval approvalId)
      (fun found s => ap.Watch codec s ∧ ∀ run, found = some run → ap.Seen run) (fun _ => ap.Watch codec) := by
  have hstable := @stable_watch codec ap worker
  refine Triple.atomic hstable (fun s _ hs => ⟨hs, [], by simp, by simp, by simp⟩)
    (fun found s s' hs hmove => ⟨hstable s s' hs.1 hmove, hs.2⟩) (fun _ => hstable) fun s hs => ⟨hs, ?_⟩
  intro run hfound hid
  obtain ⟨row, hrow, -, h₂, h₃, h₄, h₅, -⟩ := hs.row
  have hrun : s.runs.row ap.run.id = some run := Keyed.row_iff.2 ⟨List.mem_of_find?_eq_some hfound, hid⟩
  cases hrow.symm.trans hrun
  exact ⟨h₂, h₃, h₄, h₅⟩

theorem triple_load (planId : String) :
    Triple (ap.Rely codec worker) (ap.Guar codec worker) (ap.Watch codec) (loadPlan planId)
      (fun res s => ap.Watch codec s ∧ (planId = ap.run.planId → ap.plan.plan = .ok res.1)) (fun _ => ap.Watch codec) := by
  have hW := @frame_watch codec ap worker
  have hread : Triple (ap.Rely codec worker) (ap.Guar codec worker) (ap.Watch codec) (query (fun s => s.plans.row planId))
      (fun found s => ap.Watch codec s ∧ (planId = ap.run.planId → found = some ap.plan)) (fun _ => ap.Watch codec) :=
    Triple.atomic hW.stable (fun s _ hs => ⟨hs, [], by simp, by simp, by simp⟩)
      (fun _ s s' hs hmove => ⟨hW.stable s s' hs.1 hmove, hs.2⟩) (fun _ => hW.stable) fun s hs => ⟨hs, fun hid => hid ▸ hs.plan⟩
  unfold loadPlan
  refine triple_bind hW hread fun found => Triple.of_fact fun hfound => ?_
  cases found with
  | none => exact Triple.throw hW.stable fun _ h => h
  | some row =>
    dsimp only
    split
    · exact Triple.throw hW.stable fun _ h => h
    · next plan hplan =>
      refine Triple.pure hW.stable fun s hs => ⟨hs, fun hid => ?_⟩
      rw [← Option.some.inj (hfound hid)]
      exact hplan

/-- **The watch on one approval, call by call.** -/
def outline (codec : ChainCodec) (ap : Approval) (worker : Nat) : Outline codec worker where
  rely := ap.Rely codec worker
  guar := ap.Guar codec worker
  New runId := runId ≠ ap.run.id
  Rest := ap.Watch codec
  Exec := ap.Has codec worker
  Ready runId _ _ := ap.Has codec worker runId
  Seen := ap.Seen
  Loaded planId plan := planId = ap.run.planId → ap.plan.plan = .ok plan
  Knows runId conversationId runSeq plan := runId = ap.run.id → Knows codec ap conversationId runSeq plan
  rest := frame_watch worker
  exec := frame_has worker
  ready runId _ _ := stable_has worker runId
  exec_rest _ _ h := h.1
  resolve := triple_resolve
  load := triple_load
  knows := by
    intro run plan hseen hloaded hhash hid
    obtain ⟨hplanId, hconversation, hseq, heffects⟩ := hseen hid
    exact ⟨hconversation, hseq, hloaded hplanId, heffects ▸ hhash⟩
  new _ _ _ _ hnew hid := absurd hid hnew
  new_exec _ _ hnew hs := ⟨hs, fun _ hid => absurd hid hnew⟩
  opens runId _ errorText now hstatus := keeps_openTerminal runId hstatus errorText now
  begins := triple_markRunning
  closes runId _ errorText now hstatus := triple_closeTerminal runId hstatus errorText now
  looks runId step key := (keeps_quiet fun s a s' h => by
    cases h
    exact quiet_noted rfl rfl rfl rfl rfl).weaken (fun _ h => h) (fun found _ h => by split <;> exact h) (fun _ _ h => h)
  enqueues _ _ _ _ _ _ _ hknows hstep heffect hkey _ := keeps_enqueueStep hknows hkey hstep heffect
  records _ _ _ _ := keeps_quiet fun _ _ _ h => quiet_recordStep h
  notes _ _ _ _ := keeps_quiet fun _ _ _ h => quiet_recordStep h

structure Waits (ap : Approval) (p : ChainPool) : Prop where
  row : p.shared.runs.row ap.run.id = some ap.run
  status : ap.run.status = .awaitingApproval
  approval : ap.run.approvalId = some ap.approvalId
  unique : ∀ row ∈ p.shared.runs.rows, row.approvalId = some ap.approvalId → row.id = ap.run.id
  plan : p.shared.plans.row ap.run.planId = some ap.plan
  fresh : p.shared.log = []
  idle : ∀ i, p.procs i = none

theorem Waits.watch {p : ChainPool} (h : ap.Waits p) : ap.Watch codec p.shared where
  row := ⟨ap.run, h.row, h.approval, rfl, rfl, rfl, rfl, by rw [h.fresh, h.status]; rfl⟩
  unique := h.unique
  plan := h.plan
  once := by simp [h.fresh]
  queued := by simp [h.fresh]
  phase := fun _ => h.fresh ▸ Phase.nil

theorem quiet_env (o : ChainEnv) : ap.Quiet codec s (env s o) := by
  cases o with
  | observed version => exact quiet_same rfl rfl rfl rfl
  | planned row =>
    exact fun hs => ⟨⟨hs.row, hs.unique, Keyed.row_insertOrIgnore_of_row trivial hs.plan, hs.once, hs.queued, hs.phase⟩, [],
      by simp, by simp [env], by simp⟩
  | queued row now =>
    intro hs
    have hkept (key : String) (hrow : (outboxRow key s.db).isSome = true) :
        (outboxRow key (enqueueIdempotent row now s.db).2).isSome = true := by
      rcases enqueueIdempotentGuarded_cases row none now s.db with h | ⟨r, h, -⟩
      · rw [enqueueIdempotent, h]
        exact hrow
      · obtain ⟨q, hq⟩ := Option.isSome_iff_exists.1 hrow
        unfold outboxRow at hq
        simp [outboxRow, enqueueIdempotent, h.outbox, List.find?_append, hq]
    have hother : ap.concerns (.sent row.idempotencyKey row.payload) = false := rfl
    simp only [env]
    split
    · next db henqueue =>
      rw [henqueue] at hkept
      obtain ⟨q, hq, h₁, h₂, h₃, h₄, h₅, hstatus⟩ := hs.row
      refine ⟨⟨⟨q, hq, h₁, h₂, h₃, h₄, h₅, ?_⟩, hs.unique, hs.plan, fun step => ?_, fun step hmem => ?_, fun htimely => ?_⟩,
        [_], by simp, rfl, by simp [hother]⟩
      · rw [statusAfter_snoc_of_not hother]
        exact hstatus
      · rw [List.count_append, List.count_singleton, if_neg (by simp)]
        exact hs.once step
      · exact hkept _ (hs.queued step (by simpa using hmem))
      · exact (hs.phase htimely.of_append).other hother
    · next db henqueue =>
      rw [henqueue] at hkept
      exact ⟨⟨hs.row, hs.unique, hs.plan, hs.once, fun step hmem => hkept _ (hs.queued step hmem), hs.phase⟩, [], by simp,
        by simp, by simp⟩
  | marked key status =>
    intro hs
    refine ⟨⟨hs.row, hs.unique, hs.plan, hs.once, fun step hmem => ?_, hs.phase⟩, [], by simp, by simp [env], by simp⟩
    have hrow := hs.queued step hmem
    unfold outboxRow at hrow ⊢
    rw [List.find?_isSome] at hrow ⊢
    obtain ⟨r, hr, hkey⟩ := hrow
    refine ⟨if r.idempotencyKey = key then { r with status := status } else r, List.mem_map_of_mem hr, ?_⟩
    split <;> exact hkey

def Minds (codec : ChainCodec) (ap : Approval) (p : ChainPool) : Prop :=
  ∀ i c q, p.procs i = some (c, q) → q.Ensures (ap.Rely codec i) (ap.Guar codec i) (fun _ _ => True) p.shared

theorem watch_run {p p' : ChainPool} {es : List (Event ChainCall (Except String ChainResult) ChainEnv)}
    (hrun : ChainRun codec p es p') (hwatch : ap.Watch codec p.shared) (hminds : ap.Minds codec p) :
    ap.Watch codec p'.shared ∧ p.shared.log <+: p'.shared.log ∧ ap.Minds codec p' := by
  have hgrows {s s' : ChainState} {l : List ChainEvent} (h : p.shared.log <+: s.log) (hl : s'.log = s.log ++ l) :
      p.shared.log <+: s'.log :=
    hl ▸ h.trans (List.prefix_append ..)
  have hstep (i : Nat) (s s' : ChainState) (hs : ap.Watch codec s ∧ p.shared.log <+: s.log)
      (hmove : ap.Guar codec i s s') : ap.Watch codec s' ∧ p.shared.log <+: s'.log := by
    obtain ⟨hs', l, -, hl, -⟩ := hmove hs.1
    exact ⟨hs', hgrows hs.2 hl⟩
  have henv (s : ChainState) (o : ChainEnv) (hs : ap.Watch codec s ∧ p.shared.log <+: s.log) :
      ap.Watch codec (env s o) ∧ p.shared.log <+: (env s o).log := by
    obtain ⟨hs', l, -, hl, -⟩ := quiet_env o hs.1
    exact ⟨hs', hgrows hs.2 hl⟩
  obtain ⟨hend, hminds'⟩ := Pool.together_run Rely.refl Rely.trans
    (fun i j s s' hij _ h => h.rely hij) (fun j s o _ => (quiet_env o).rely j) hstep henv
    (fun i c s hs => (outline codec ap i).ensures c hs.1) hrun ⟨hwatch, List.prefix_rfl⟩ hminds
  exact ⟨hend.1, hend.2, hminds'⟩

def status (ap : Approval) (s : ChainState) : Option ChainRunStatus := (s.runs.row ap.run.id).map ChainRunRow.status

theorem Watch.status_eq (h : ap.Watch codec s) (htimely : ap.Timely s.log) :
    ap.status s = some ((ap.changes s.log).getLastD .awaitingApproval) := by
  obtain ⟨row, hrow, -, -, -, -, -, hstatus⟩ := h.row
  rw [status, hrow, Option.map_some, hstatus, (h.phase htimely).status]

structure DecidesOnce (codec : ChainCodec) (ap : Approval) (p : ChainPool)
    (es : List (Event ChainCall (Except String ChainResult) ChainEnv)) (p' : ChainPool) : Prop where
  approved : ∀ step, .enqueued ap.run.id step ∈ p'.shared.log →
    (∃ worker, .opened worker ap.run.id .awaitingApproval .running ∈ p'.shared.log) ∧ ap.Approves codec step
  denied : ∀ worker found, .opened worker ap.run.id found .denied ∈ p'.shared.log →
    (∀ step, .enqueued ap.run.id step ∉ p'.shared.log) ∧ ap.status p'.shared = some .denied
  resolved : ∀ pre post m, es = pre ++ post → ChainRun codec p pre m → ChainRun codec m post p' →
    ap.status m.shared = some .running → ap.status p'.shared ∈ [some .running, some .completed, some .failed]
  terminal : ∀ pre post m, es = pre ++ post → ChainRun codec p pre m → ChainRun codec m post p' →
    ap.status m.shared ∈ [some .denied, some .completed, some .failed] → ap.status p'.shared = ap.status m.shared
  once : ∀ step, p'.shared.log.count (.enqueued ap.run.id step) ≤ 1
  reviews : ∀ origin, p'.shared.compensations.rows.countP (fun r => decide (r.origin = origin)) ≤ 1

theorem changes_prefix {log log' : List ChainEvent} (h : log <+: log') : ap.changes log <+: ap.changes log' := by
  obtain ⟨l, rfl⟩ := h
  rw [changes, changes, List.flatMap_append]
  exact List.prefix_append ..

/-- **An approval decides once**, if no first write to its run is late. -/
theorem decidesOnce (codec : ChainCodec) (ap : Approval) (p p' : ChainPool)
    (es : List (Event ChainCall (Except String ChainResult) ChainEnv)) (hstart : ap.Waits p)
    (hrun : ChainRun codec p es p') (htimely : ap.Timely p'.shared.log) : ap.DecidesOnce codec p es p' := by
  have hminds : ap.Minds codec p := fun i c q hi => by rw [hstart.idle i] at hi; cases hi
  obtain ⟨hwatch, -, -⟩ := watch_run hrun hstart.watch hminds
  have hphase := hwatch.phase htimely
  have hend := hwatch.status_eq htimely
  -- a state on the way stands at a prefix of the statuses
  have hway {pre post m} (hpre : ChainRun codec p pre m) (hpost : ChainRun codec m post p') :
      ap.Phase codec m.shared.log ∧ ap.status m.shared = some ((ap.changes m.shared.log).getLastD .awaitingApproval) ∧
        ap.changes m.shared.log <+: ap.changes p'.shared.log := by
    obtain ⟨hm, -, hmindsm⟩ := watch_run hpre hstart.watch hminds
    obtain ⟨-, hlog, -⟩ := watch_run hpost hm hmindsm
    have htimelym : ap.Timely m.shared.log := by
      obtain ⟨l, hl⟩ := hlog
      rw [← hl] at htimely
      exact htimely.of_append
    exact ⟨hm.phase htimelym, hm.status_eq htimelym, changes_prefix hlog⟩
  refine { approved := ?_, denied := ?_, resolved := ?_, terminal := ?_, once := hwatch.once, reviews := ?_ }
  · intro step hmem
    obtain ⟨hrunning, happroves⟩ := hphase.effects step hmem
    exact ⟨hphase.began hrunning, happroves⟩
  · intro worker found hmem
    have hchanges := hphase.denied worker found hmem
    refine ⟨fun step hqueued => ?_, by rw [hend, hchanges]; rfl⟩
    have hrunning := (hphase.effects step hqueued).1
    rw [hchanges] at hrunning
    cases List.mem_singleton.1 hrunning
  · rintro pre post m - hpre hpost hstatus
    obtain ⟨hm, hstatusm, hfront⟩ := hway hpre hpost
    have hcourses : ∀ a ∈ courses, ∀ b ∈ courses, a <+: b → a.getLastD .awaitingApproval = .running →
        b.getLastD .awaitingApproval ∈ [.running, .completed, .failed] := by decide
    have hlast := hcourses _ hm.changes _ hphase.changes hfront (Option.mem_unique hstatusm hstatus)
    rw [hend]
    simpa using hlast
  · rintro pre post m - hpre hpost hstatus
    obtain ⟨hm, hstatusm, hfront⟩ := hway hpre hpost
    have hcourses : ∀ a ∈ courses, ∀ b ∈ courses, a <+: b →
        a.getLastD .awaitingApproval ∈ [.denied, .completed, .failed] → b = a := by decide
    rw [hstatusm] at hstatus
    rw [hend, hstatusm, hcourses _ hm.changes _ hphase.changes hfront (by simpa using hstatus)]
  · exact fun origin => Keyed.countP_key_le_one _ origin

/-! ## A run waiting for its approval -/

def sampleChainStep : StoredStep where
  stepIndex := 0
  label := "send"
  effectKind := some "send_text"
  payload := "hello"

def sampleCodec : ChainCodec where
  hash steps := String.join (steps.map StoredStep.label)
  encode e := if e = sampleChainStep.effect "r" then .ok [0x85] else .error "unsupported"

def samplePlan : StoredPlan where
  objective := "greet"
  constraints := []
  steps := [sampleChainStep]

def sampleApproval : Approval where
  run := ⟨"r", "p", "c", 1, .awaitingApproval, some "a", some "send", none, 0, none⟩
  approvalId := "a"
  plan := ⟨"p", "c", .ok samplePlan, true⟩

def samplePool : ChainPool where
  shared := {
    db := {}, versions := Keyed.empty, steps := Keyed.empty, compensations := Keyed.empty, log := []
    plans := Keyed.empty.insertOrIgnore sampleApproval.plan trivial
    runs := Keyed.empty.insertOrIgnore sampleApproval.run trivial }
  procs := fun _ => none

def resolving (decision : ChainApprovalDecision) : ChainCall :=
  .resolve "a" decision 1 (fun _ => ⟨"plan", "run", "approval", "compensation"⟩)

theorem waits_sample : sampleApproval.Waits samplePool where
  row := by decide
  status := rfl
  approval := rfl
  unique := by decide
  plan := rfl
  fresh := rfl
  idle := fun _ => rfl

def granted : List (Turn ChainCall ChainEnv) :=
  .call 0 (resolving .approve) :: List.replicate 8 (.step 0)

/-- **The hypotheses can be met**: a granted approval. -/
theorem decidesOnce_granted : ∃ es p', ChainRun sampleCodec samplePool es p' ∧
    sampleApproval.status p'.shared = some .completed ∧ sampleApproval.DecidesOnce sampleCodec samplePool es p' := by
  have hplay : (samplePool.play (prog sampleCodec) env granted).map
      (fun p => (p.shared.log, sampleApproval.status p.shared)) =
      some ([.opened 0 "r" .awaitingApproval .running, .looked "r" sampleChainStep none, .enqueued "r" sampleChainStep,
        .recorded "r" sampleChainStep (some "c:1:0"), .closed 0 "r" .running .completed], some .completed) := by decide +kernel
  obtain ⟨p', hp', hend⟩ := Option.map_eq_some_iff.1 hplay
  obtain ⟨hlog, hstatus⟩ := Prod.mk.inj hend
  obtain ⟨es, hes⟩ := Pool.run_of_play hp'
  refine ⟨es, p', hes, hstatus, decidesOnce sampleCodec sampleApproval samplePool p' es waits_sample hes ?_⟩
  intro worker found written hmem
  rw [hlog] at hmem
  have hopened : worker = 0 ∧ found = .awaitingApproval ∧ written = .running := by simpa [sampleApproval] using hmem
  exact .inl hopened.2.1

def lateDenial : List (Turn ChainCall ChainEnv) :=
  [.call 0 (resolving .deny), .step 0, .call 1 (resolving .approve)] ++ List.replicate 8 (.step 1) ++ [.step 0]

/-- **A denial comes late**: the run ends denied, with its effect enqueued. -/
theorem lateDenial_enqueued : ∃ es p', sampleApproval.Waits samplePool ∧ ChainRun sampleCodec samplePool es p' ∧
    ¬ sampleApproval.DecidesOnce sampleCodec samplePool es p' := by
  have hplay : (samplePool.play (prog sampleCodec) env lateDenial).map (fun p => p.shared.log) =
      some [.opened 1 "r" .awaitingApproval .running, .looked "r" sampleChainStep none, .enqueued "r" sampleChainStep,
        .recorded "r" sampleChainStep (some "c:1:0"), .closed 1 "r" .running .completed, .opened 0 "r" .completed .denied] := by decide +kernel
  obtain ⟨p', hp', hlog⟩ := Option.map_eq_some_iff.1 hplay
  obtain ⟨es, hes⟩ := Pool.run_of_play hp'
  refine ⟨es, p', waits_sample, hes, fun h => ?_⟩
  refine (h.denied 0 .completed ?_).1 sampleChainStep ?_ <;> rw [hlog] <;> simp [sampleApproval]

end Approval

end Execlaw
