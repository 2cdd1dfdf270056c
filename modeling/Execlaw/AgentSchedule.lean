import Execlaw.AgentMailbox
import Execlaw.Recurrence
import Mathlib
/-!
# AgentSchedule — every due instant fires once (`AgentStore::fire_due_schedule`)

The supervisor reads an agent and fires its schedule some time later; in between another tick may have fired it, a
run may have been inserted for the message of a fire, or have completed.
-/
namespace Execlaw

open Table

/-- Fires of the schedules, and the calls a supervisor makes for the messages; `seen` is the due instant its caller
read off the agent. -/
inductive ScheduleCall
  | fire (agentId : String) (seen : Option Int) (now : Int) (id : String)
  | claimDue (id : String) (now : Int)
  | insertRun (agentId : String) (items : List String) (version : Option Nat) (now : Int)
      (checkpoint : Except String String) (id : String)
  | complete (completion : AgentRunCompletion)
  | reconcile (now : Int)

def AgentScheduleSpec.next (cal : Calendar) (s : AgentScheduleSpec) (due : Int) : Option Int :=
  match s.nextFireAfter cal due with
  | .error _ => none
  | .ok next => next

namespace Schedules

open AgentStore AgentSystem

variable (cal : Calendar) (agents : Keyed AgentRow.id (fun _ => True))

/-- **One call**; the caller of a fire has the agent's row, with the due instant it read. -/
def exec (s : AgentSystem) : ScheduleCall → Except AgentError AgentReply × AgentSystem
  | .fire agentId seen now id =>
    match s.tables.agents.row agentId with
    | none => (.ok .done, s)
    | some a =>
      let called := fireDueSchedule cal { a with scheduleNextAt := seen } now id s.tables
      (called.1.map .fired, { s with tables := called.2 })
  | .claimDue id now => AgentSystem.exec s (.claimDue id now)
  | .insertRun agentId items version now checkpoint id =>
    AgentSystem.exec s (.insertRun agentId items version now checkpoint id)
  | .complete completion => AgentSystem.exec s (.complete completion)
  | .reconcile now => AgentSystem.exec s (.reconcile now)

def run (calls : List ScheduleCall) : AgentSystem := Calls.after (exec cal) (start agents) calls

def dues (t : AgentTables) (agentId : String) : List Int :=
  (t.fires.rows.filter (fun f => f.agentId == agentId)).map AgentScheduleFireRow.dueAt

structure Ready (s : AgentSystem) (agentId : String) (seen : Option Int) (now : Int) (a : AgentRow)
    (spec : AgentScheduleSpec) (due : Int) (quiet : Bool) : Prop where
  row : s.tables.agents.row agentId = some a
  trigger : a.trigger = .ok (some spec)
  active : (a.enabled && !a.paused) = true
  current : a.scheduleNextAt = some due
  seen : seen = some due
  come : due ≤ now
  next : spec.nextFireAfter cal due = .ok (spec.next cal due)
  quiet : spec.isQuietAt cal due = .ok quiet

/-! ## What should hold -/

/-- **What an overlap policy excludes**: of an agent at work, or with a scheduled message; of an agent with a scheduled
message that no running run executes. -/
def Excluded (s : AgentSystem) (agentId : String) : AgentOverlapPolicy → Prop
  | .skip => running s.tables agentId = true ∨ ∃ m ∈ s.tables.messages.rows, scheduledFor agentId m = true
  | .bufferOne => ∃ m ∈ s.tables.messages.rows, scheduledFor agentId m = true ∧ Free s m.id

def Queued (s : AgentSystem) (f : AgentScheduleFireRow) : Prop :=
  f.status = .queued ∧ ∃ m, f.mailboxId = some m.id ∧ s.tables.messages.row m.id = some m ∧
    scheduledFor f.agentId m = true ∧ m.sourceOccurredAt = some f.dueAt

def Skipped (f : AgentScheduleFireRow) : Prop := f.status = .skipped ∧ f.mailboxId = none

/-- **One fire**: the due instant is recorded, and queued unless it is stale, in quiet hours or excluded. -/
def Fired (s s' : AgentSystem) (agentId : String) (spec : AgentScheduleSpec) (due now : Int) (quiet : Bool) : Prop :=
  ∃ f, s'.tables.fires.rows = s.tables.fires.rows ++ [f] ∧ f.agentId = agentId ∧ f.dueAt = due ∧
    (Queued s' f ∨ Skipped f ∧ s'.tables.messages = s.tables.messages) ∧
    (f.status = .queued ↔ spec.isStale due now = false ∧ quiet = false ∧ ¬ Excluded s agentId spec.overlap)

/-- **A schedule over a run**: what is recorded is consecutive from the first due instant, every fire that is ready is
recorded and decided by the policies, no other call records one, and one scheduled message is undelivered at most. -/
structure Punctual (calls : List ScheduleCall) : Prop where
  consecutive : ∀ pre post, calls = pre ++ post → ∀ i a a' spec, agents.row i = some a →
    (run cal agents pre).tables.agents.row i = some a' → a.trigger = .ok (some spec) →
      Recurrence.Follows (spec.next cal) a.scheduleNextAt (dues (run cal agents pre).tables i) a'.scheduleNextAt ∧
      (dues (run cal agents pre).tables i).Pairwise (· < ·)
  fired : ∀ pre agentId seen now id post, calls = pre ++ .fire agentId seen now id :: post →
    (run cal agents pre).tables.messages.row id = none → ∀ a spec due quiet,
      Ready cal (run cal agents pre) agentId seen now a spec due quiet →
        Fired (run cal agents pre) (run cal agents (pre ++ [.fire agentId seen now id])) agentId spec due now quiet
  unfired : ∀ pre c post, calls = pre ++ c :: post →
    (∀ agentId seen now id, c = .fire agentId seen now id → ∀ a spec due quiet,
      ¬ Ready cal (run cal agents pre) agentId seen now a spec due quiet) →
    (run cal agents (pre ++ [c])).tables.fires = (run cal agents pre).tables.fires
  single : ∀ pre post, calls = pre ++ post → ∀ i, scheduledWaiting (run cal agents pre).tables i ≤ 1

/-! ## When it holds -/

/-- **A fire the code drops**: a buffering schedule is due, neither stale nor in quiet hours, while the message of its
last fire is executing. -/
def Unbuffered (s : AgentSystem) : ScheduleCall → Prop
  | .fire agentId seen now id => s.tables.messages.row id = none → ∀ a spec due m,
      Ready cal s agentId seen now a spec due false → spec.isStale due now = false → spec.overlap = .bufferOne →
        m ∈ s.tables.messages.rows → scheduledFor agentId m = true → Free s m.id
  | .claimDue .. | .insertRun .. | .complete .. | .reconcile .. => True

/-! ## One fire -/

def decision (t : AgentTables) (agentId : String) (spec : AgentScheduleSpec) (due now : Int) (quiet : Bool) :
    Option SkipReason :=
  skipReason (spec.isStale due now) quiet (overlaps t agentId spec.overlap)

theorem skipReason_eq_none {stale quiet overlap : Bool} :
    skipReason stale quiet overlap = none ↔ stale = false ∧ quiet = false ∧ overlap = false := by
  cases stale <;> cases quiet <;> cases overlap <;> simp [skipReason]

/-- **What a fire writes**: the record, the next due instant, and the message where nothing speaks against it. -/
structure Written (s s' : AgentSystem) (a : AgentRow) (spec : AgentScheduleSpec) (due now : Int) (quiet : Bool)
    (id : String) : Prop where
  taken : s'.taken = s.taken
  runs : s'.tables.runs = s.tables.runs
  agents : s'.tables.agents = s.tables.agents.update a.id (advanceChange due (spec.next cal due)
    (decision s.tables a.id spec due now quiet).isNone now)
  fires : s.tables.fires.insert? (newFire a.id due (decision s.tables a.id spec due now quiet) id now) trivial =
    some s'.tables.fires
  messages : (decision s.tables a.id spec due now quiet = none ∧
      sourceTaken s.tables (scheduledMessage cal a spec due now id) = false ∧
      s.tables.messages.insert? (scheduledMessage cal a spec due now id) ⟨rfl⟩ = some s'.tables.messages) ∨
    (decision s.tables a.id spec due now quiet ≠ none ∧ s'.tables.messages = s.tables.messages)

variable {cal agents} {s : AgentSystem} {agentId : String} {seen : Option Int} {now : Int} {a : AgentRow}
  {spec : AgentScheduleSpec} {due : Int} {quiet : Bool}

theorem next_of_ok {next : Option Int} (h : spec.nextFireAfter cal due = .ok next) : spec.next cal due = next := by
  rw [AgentScheduleSpec.next, h]

theorem fireTx_of_not_current (next : Option Int) (stale : Bool) (id : String) (t : AgentTables)
    (h : ((t.agents.row a.id).filter (fun b => b.enabled && !b.paused)).bind AgentRow.scheduleNextAt ≠ some due) :
    fireTx cal a spec due next stale quiet now id t = .ok (none, t) := by
  rw [fireTx, if_pos h]

theorem fire_of_not_ready (id : String) (h : ∀ a spec due quiet, ¬ Ready cal s agentId seen now a spec due quiet) :
    (exec cal s (.fire agentId seen now id)).2 = s := by
  cases hrow : s.tables.agents.row agentId with
  | none => simp only [exec, hrow]
  | some a =>
    have hid : a.id = agentId := Keyed.key_of_row hrow
    simp only [exec, hrow]
    cases htrigger : a.trigger with
    | error e => simp only [fireDueSchedule]
    | ok trigger =>
      cases trigger with
      | none => simp only [fireDueSchedule]
      | some spec =>
        cases hdue : seen.filter (fun due => decide (due ≤ now)) with
        | none => simp only [fireDueSchedule, hdue]
        | some due =>
          obtain ⟨hseen, hcome⟩ := Option.filter_eq_some_iff.1 hdue
          cases hnext : spec.nextFireAfter cal due with
          | error e => simp only [fireDueSchedule, hdue, hnext]
          | ok next =>
            cases hquiet : spec.isQuietAt cal due with
            | error e => simp only [fireDueSchedule, hdue, hnext, hquiet]
            | ok quiet =>
              simp only [fireDueSchedule, hdue, hnext, hquiet]
              rw [Calls.transact_of_ok (fireTx_of_not_current next _ id s.tables ?_)]
              · rfl
              · -- were the due instant current, the fire would be ready
                intro hcur
                have hrow' : s.tables.agents.row ({ a with scheduleNextAt := seen } : AgentRow).id = some a := by
                  rw [← hrow, ← hid]
                rw [hrow'] at hcur
                obtain ⟨b, hb, hcurrent⟩ := Option.bind_eq_some_iff.1 hcur
                obtain ⟨hb, hactive⟩ := Option.filter_eq_some_iff.1 hb
                cases hb
                exact h a spec due quiet ⟨hrow, htrigger, hactive, hcurrent, hseen, of_decide_eq_true hcome,
                  by rw [hnext, next_of_ok hnext], hquiet⟩

theorem fire_of_ready (id : String) (h : Ready cal s agentId seen now a spec due quiet) :
    (exec cal s (.fire agentId seen now id)).2 = { s with
      tables := (dbResult (Calls.transact (fireTx cal { a with scheduleNextAt := seen } spec due (spec.next cal due)
        (spec.isStale due now) quiet now id) s.tables)).2 } := by
  have hdue : seen.filter (fun due => decide (due ≤ now)) = some due := by
    rw [h.seen, Option.filter_some, if_pos (decide_eq_true h.come)]
  have htrigger := h.trigger
  simp [exec, h.row, fireDueSchedule, htrigger, hdue, h.next, h.quiet]

variable {id : String}

theorem written_of_fireTx (h : Ready cal s agentId seen now a spec due quiet) {reply : Option String} {t : AgentTables}
    (hbody : fireTx cal { a with scheduleNextAt := seen } spec due (spec.next cal due) (spec.isStale due now) quiet
      now id s.tables = .ok (reply, t))
    :
    Written cal s { s with tables := t } a spec due now quiet id := by
  have hid : a.id = agentId := Keyed.key_of_row h.row
  have hcurrent : ((s.tables.agents.row a.id).filter (fun b => b.enabled && !b.paused)).bind
      AgentRow.scheduleNextAt = some due := by
    rw [hid, h.row, Option.filter_some, if_pos h.active, Option.bind_some, h.current]
  have hreason : skipReason (spec.isStale due now) quiet (overlaps s.tables a.id spec.overlap) =
      decision s.tables a.id spec due now quiet := rfl
  simp only [fireTx, hcurrent, ne_eq, not_true_eq_false, if_false, hreason] at hbody
  split at hbody
  · cases hbody
  · next t₁ hmail =>
    split at hbody
    · cases hbody
    · next fires hfires =>
      cases hbody
      by_cases hnone : decision s.tables a.id spec due now quiet = none
      · rw [hnone, Option.isNone_none, if_pos rfl] at hmail
        obtain ⟨hsource, hinsert, hruns⟩ := insertMessage?_eq_some hmail
        obtain ⟨hagents, hfires₁⟩ := insertMessage?_frame hmail
        rw [hfires₁] at hfires
        exact ⟨rfl, hruns, by rw [hagents], hfires, .inl ⟨hnone, hsource, hinsert⟩⟩
      · rw [if_neg (by simpa using hnone)] at hmail
        cases hmail
        exact ⟨rfl, rfl, rfl, hfires, .inr ⟨hnone, rfl⟩⟩

theorem written_of_ready (id : String) (h : Ready cal s agentId seen now a spec due quiet) :
    (exec cal s (.fire agentId seen now id)).2 = s ∨
      Written cal s (exec cal s (.fire agentId seen now id)).2 a spec due now quiet id := by
  rw [fire_of_ready id h]
  rcases dbResult_transact_cases (fireTx cal { a with scheduleNextAt := seen } spec due (spec.next cal due)
      (spec.isStale due now) quiet now id) s.tables with heq | ⟨reply, hbody⟩
  · exact .inl (by rw [heq])
  · exact .inr (written_of_fireTx h hbody)

/-! ## The invariant -/

structure SInv (cal : Calendar) (agents : Keyed AgentRow.id (fun _ => True)) (s : AgentSystem) : Prop where
  trigger : ∀ i, (s.tables.agents.row i).map AgentRow.trigger = (agents.row i).map AgentRow.trigger
  follows : ∀ i a a' spec, agents.row i = some a → s.tables.agents.row i = some a' → a.trigger = .ok (some spec) →
    Recurrence.Follows (spec.next cal) a.scheduleNextAt (dues s.tables i) a'.scheduleNextAt
  single : ∀ i, scheduledWaiting s.tables i ≤ 1
  fired : ∀ j m, s.tables.messages.row j = some m → ∃ due ∈ dues s.tables m.agentId,
    m.sourceEventId = some (toString due)

theorem sinv_start : SInv cal agents (start agents) := by
  constructor
  · intro i
    rfl
  · intro i a a' spec ha ha' htrigger
    rw [show (start agents).tables.agents = agents from rfl, ha] at ha'
    cases ha'
    exact .nil _
  · intro i
    exact Nat.zero_le 1
  · intro j m hm
    cases hm

structure Unfired (s s' : AgentSystem) : Prop where
  fires : s'.tables.fires = s.tables.fires
  agents : ∀ i, (s'.tables.agents.row i).map (fun a => (a.trigger, a.scheduleNextAt)) =
    (s.tables.agents.row i).map (fun a => (a.trigger, a.scheduleNextAt))
  single : ∀ i, scheduledWaiting s'.tables i ≤ scheduledWaiting s.tables i
  messages : ∀ j m', s'.tables.messages.row j = some m' → ∃ m, s.tables.messages.row j = some m ∧ SameSource m m'

theorem SInv.unfired {s' : AgentSystem} (h : SInv cal agents s) (hu : Unfired s s') : SInv cal agents s' := by
  have hrow : ∀ i a', s'.tables.agents.row i = some a' → ∃ a, s.tables.agents.row i = some a ∧
      a'.trigger = a.trigger ∧ a'.scheduleNextAt = a.scheduleNextAt := by
    intro i a' ha'
    have hi := hu.agents i
    rw [ha', Option.map_some] at hi
    obtain ⟨a, ha, heq⟩ := Option.map_eq_some_iff.1 hi.symm
    exact ⟨a, ha, (Prod.mk.inj heq).1.symm, (Prod.mk.inj heq).2.symm⟩
  have hdues : ∀ i, dues s'.tables i = dues s.tables i := fun i => by rw [dues, hu.fires, dues]
  constructor
  · intro i
    rw [← h.trigger i]
    have hi := congrArg (Option.map Prod.fst) (hu.agents i)
    rwa [Option.map_map, Option.map_map] at hi
  · intro i a a' spec ha ha' htrigger
    obtain ⟨a₁, ha₁, -, hnext⟩ := hrow i a' ha'
    rw [hdues, hnext]
    exact h.follows i a a₁ spec ha ha₁ htrigger
  · intro i
    exact (hu.single i).trans (h.single i)
  · intro j m' hm'
    obtain ⟨m, hm, hsource⟩ := hu.messages j m' hm'
    obtain ⟨due, hdue, hevent⟩ := h.fired j m hm
    exact ⟨due, by rw [hdues, hsource.agentId]; exact hdue, by rw [hsource.sourceEventId, hevent]⟩

/-! ## The other calls -/

theorem unfired_of_eq {s' : AgentSystem} (hfires : s'.tables.fires = s.tables.fires)
    (hmessages : s'.tables.messages = s.tables.messages)
    (hagents : ∀ i, (s'.tables.agents.row i).map (fun a => (a.trigger, a.scheduleNextAt)) =
      (s.tables.agents.row i).map (fun a => (a.trigger, a.scheduleNextAt))) : Unfired s s' :=
  ⟨hfires, hagents, fun i => by rw [scheduledWaiting, hmessages, scheduledWaiting],
    fun j m hm => ⟨m, hmessages ▸ hm, ⟨rfl, rfl, rfl⟩⟩⟩

theorem unfired_claimDue (s : AgentSystem) (id : String) (now : Int) :
    Unfired s (AgentSystem.exec s (.claimDue id now)).2 := by
  have hclaim : (AgentSystem.exec s (.claimDue id now)).2 = { s with tables := (AgentStore.claimDue id now s.tables).2 } :=
    rfl
  rw [hclaim, AgentStore.claimDue]
  split
  · exact unfired_of_eq rfl rfl (fun i => Keyed.map_row_update _ _ _ _ fun _ => rfl)
  · exact unfired_of_eq rfl rfl (fun _ => rfl)

theorem unfired_insertRun (s : AgentSystem) (agentId : String) (items : List String) (version : Option Nat)
    (now : Int) (checkpoint : Except String String) (id : String) :
    Unfired s (AgentSystem.exec s (.insertRun agentId items version now checkpoint id)).2 := by
  cases hcheckpoint : checkpoint with
  | error e => exact unfired_of_eq rfl rfl (fun _ => rfl)
  | ok checkpointJson =>
    cases hinsert : s.tables.runs.insert? (newRun id agentId items.head? version now checkpointJson) trivial with
    | none | some runs =>
      simp only [AgentSystem.exec, insertRunForMailbox, hinsert]
      exact unfired_of_eq rfl rfl (fun _ => rfl)

theorem scheduledFor_delivered (agentId runId : String) (now : Int) (takes : AgentMessageRow → Bool)
    (m : AgentMessageRow) : scheduledFor agentId ((deliverChange runId now takes).set m) = false := by
  simp [scheduledFor, AgentMessageRow.waiting, deliverChange]

theorem countP_acknowledge_le {agentId runId i : String} {now : Int} : ∀ {ids : List String}
    {ms ms' : Keyed AgentMessageRow.id AgentMessageRow.Ok}, acknowledge agentId runId now ids ms = .ok ms' →
      ms'.rows.countP (scheduledFor i) ≤ ms.rows.countP (scheduledFor i)
  | [], ms, ms', h => by
    cases h
    exact Nat.le_refl _
  | id :: ids, ms, ms', h => by
    unfold acknowledge at h
    split at h
    · refine (countP_acknowledge_le h).trans (ms.countP_update_le id _ fun m _ hm => ?_)
      rw [scheduledFor_delivered] at hm
      cases hm
    · cases h

theorem completeMailboxRun_frame (c : AgentRunCompletion) (t : AgentTables) :
    (completeMailboxRun c t).2.fires = t.fires ∧
      ∀ i, ((completeMailboxRun c t).2.agents.row i).map (fun a => (a.trigger, a.scheduleNextAt)) =
        (t.agents.row i).map (fun a => (a.trigger, a.scheduleNextAt)) := by
  unfold completeMailboxRun
  split
  · exact ⟨rfl, fun _ => rfl⟩
  · next checkpointJson _ =>
    rcases dbResult_transact_cases (completeTx c checkpointJson) t with heq | ⟨reply, hbody⟩
    · rw [heq]
      exact ⟨rfl, fun _ => rfl⟩
    · generalize (dbResult (Calls.transact (completeTx c checkpointJson) t)).2 = t' at hbody
      unfold completeTx at hbody
      split at hbody
      · split at hbody
        · cases hbody
        · cases hbody
          exact ⟨rfl, fun i => Keyed.map_row_update _ _ _ _ fun _ => rfl⟩
      · cases hbody

theorem unfired_complete (s : AgentSystem) (c : AgentRunCompletion) :
    Unfired s (AgentSystem.exec s (.complete c)).2 := by
  obtain ⟨hfires, hagents⟩ := completeMailboxRun_frame c s.tables
  have hcases := complete_cases c s.tables
  rw [exec_complete]
  generalize (completeMailboxRun c s.tables).2 = t at hfires hagents hcases ⊢
  rcases hcases with rfl | ⟨checkpointJson, r, -, -, -, hack⟩
  · exact unfired_of_eq rfl rfl (fun _ => rfl)
  · refine ⟨hfires, hagents, fun i => countP_acknowledge_le hack, fun j m' hm' => ?_⟩
    rcases row_acknowledge j hack with ⟨heq, -⟩ | ⟨-, m, hm, -, -, hnew⟩
    · exact ⟨m', heq ▸ hm', ⟨rfl, rfl, rfl⟩⟩
    · rw [hnew] at hm'
      cases hm'
      exact ⟨m, hm, ⟨rfl, rfl, rfl⟩⟩

theorem unfired_reconcile (s : AgentSystem) (now : Int) : Unfired s (AgentSystem.exec s (.reconcile now)).2 :=
  unfired_of_eq rfl rfl (fun _ => Keyed.map_row_updateAll _ _ _ fun _ => rfl)

/-! ## A fire that is written -/

theorem scheduledWaiting_of_overlaps {t : AgentTables} {policy : AgentOverlapPolicy}
    (h : overlaps t agentId policy = false) : scheduledWaiting t agentId = 0 := by
  cases policy with
  | skip => simpa using (Bool.or_eq_false_iff.1 h).2
  | bufferOne => simpa [overlaps] using h

theorem dues_written {s' : AgentSystem} (h : Written cal s s' a spec due now quiet id) (i : String) :
    dues s'.tables i = dues s.tables i ++ if a.id = i then [due] else [] := by
  rw [dues, Keyed.rows_insert? h.fires, List.filter_append, List.map_append, dues]
  congr 1
  by_cases hi : a.id = i <;> simp [newFire, hi]

theorem scheduleNextAt_advance (a : AgentRow) (due : Int) (next : Option Int) (queued : Bool) (now : Int) :
    ((advanceChange due next queued now).set a).scheduleNextAt = next := rfl

theorem SInv.written {s' : AgentSystem} (h : SInv cal agents s) (hready : Ready cal s agentId seen now a spec due quiet)
    (hw : Written cal s s' a spec due now quiet id) : SInv cal agents s' := by
  have hid : a.id = agentId := Keyed.key_of_row hready.row
  constructor
  · intro i
    rw [hw.agents, Keyed.map_row_update _ _ _ _ fun _ => rfl]
    exact h.trigger i
  · intro i b b' spec' hb hb' htrigger
    rw [dues_written hw]
    by_cases hi : a.id = i
    · -- the agent of the fire: its due instant is recorded, the one after it is due now
      subst hi
      rw [hid] at hb
      have hstart := h.follows agentId b a spec' hb hready.row htrigger
      have hsame := h.trigger agentId
      rw [hready.row, hb, Option.map_some, Option.map_some, hready.trigger, htrigger] at hsame
      obtain rfl : spec = spec' := Option.some.inj (Except.ok.inj (Option.some.inj hsame))
      rw [hready.current] at hstart
      rw [hw.agents, hid, Keyed.row_update_of_changed hready.row (by simp [advanceChange, hready.current])] at hb'
      cases hb'
      rw [if_pos rfl, hid, scheduleNextAt_advance]
      exact hstart.snoc
    · rw [hw.agents, Keyed.row_update_of_ne _ (Ne.symm hi)] at hb'
      rw [if_neg hi, List.append_nil]
      exact h.follows i b b' spec' hb hb' htrigger
  · intro i
    rcases hw.messages with ⟨hnone, -, hinsert⟩ | ⟨-, hsame⟩
    · rw [scheduledWaiting, Keyed.rows_insert? hinsert, List.countP_append]
      by_cases hi : a.id = i
      · subst hi
        -- a message is queued only where none is undelivered
        have hzero : scheduledWaiting s.tables a.id = 0 :=
          scheduledWaiting_of_overlaps (skipReason_eq_none.1 hnone).2.2
        rw [scheduledWaiting] at hzero
        rw [hzero]
        exact (Nat.zero_add _).le.trans (List.countP_le_length)
      · have hother : [scheduledMessage cal a spec due now id].countP (scheduledFor i) = 0 := by
          simp [scheduledFor, scheduledMessage, hi]
        rw [hother, Nat.add_zero]
        exact h.single i
    · rw [scheduledWaiting, hsame]
      exact h.single i
  · intro j m hm
    rw [dues_written hw]
    have hold : ∀ m, s.tables.messages.row j = some m → ∃ due' ∈ dues s.tables m.agentId ++
        (if a.id = m.agentId then [due] else []), m.sourceEventId = some (toString due') := by
      intro m hm
      obtain ⟨due', hdue', hevent⟩ := h.fired j m hm
      exact ⟨due', List.mem_append_left _ hdue', hevent⟩
    rcases hw.messages with ⟨-, -, hinsert⟩ | ⟨-, hsame⟩
    · rw [(Keyed.insert?_eq_some hinsert).2] at hm
      rcases Option.or_eq_some_iff.1 hm with hm | ⟨-, hnew⟩
      · exact hold m hm
      · split at hnew
        · cases hnew
          exact ⟨due, List.mem_append_right _ (by simp [scheduledMessage]), rfl⟩
        · cases hnew
    · exact hold m (hsame ▸ hm)

theorem SInv.exec (h : SInv cal agents s) (c : ScheduleCall) : SInv cal agents (exec cal s c).2 := by
  cases c with
  | fire agentId seen now id =>
    by_cases hready : ∃ a spec due quiet, Ready cal s agentId seen now a spec due quiet
    · obtain ⟨a, spec, due, quiet, hready⟩ := hready
      rcases written_of_ready id hready with heq | hw
      · rw [heq]
        exact h
      · exact h.written hready hw
    · rw [fire_of_not_ready id fun a spec due quiet hr => hready ⟨a, spec, due, quiet, hr⟩]
      exact h
  | claimDue id now => exact h.unfired (unfired_claimDue s id now)
  | insertRun agentId items version now checkpoint id =>
    exact h.unfired (unfired_insertRun s agentId items version now checkpoint id)
  | complete c => exact h.unfired (unfired_complete s c)
  | reconcile now => exact h.unfired (unfired_reconcile s now)

theorem increasing_next (cal : Calendar) (spec : AgentScheduleSpec) : Recurrence.Increasing (spec.next cal) := by
  intro d e h
  unfold AgentScheduleSpec.next at h
  split at h
  · cases h
  · next next hnext =>
    subst h
    unfold AgentScheduleSpec.nextFireAfter at hnext
    cases hvalid : spec.validate cal with
    | error e => rw [hvalid] at hnext; cases hnext
    | ok u =>
      rw [hvalid] at hnext
      by_cases hd : cal.valid d = true
      · simp only [hd, if_true] at hnext
        exact cal.increasing spec.cron spec.timezone d e (Except.ok.inj hnext)
      · simp only [hd] at hnext
        cases hnext

theorem SInv.notMem_dues (h : SInv cal agents s) (hready : Ready cal s agentId seen now a spec due quiet) :
    due ∉ dues s.tables agentId := by
  have hi := h.trigger agentId
  rw [hready.row, Option.map_some] at hi
  obtain ⟨b, hb, htrigger⟩ := Option.map_eq_some_iff.1 hi.symm
  have hfollows := h.follows agentId b a spec hb hready.row (htrigger.trans hready.trigger)
  rw [hready.current] at hfollows
  exact fun hmem => lt_irrefl _ (hfollows.lt_tip (increasing_next cal spec) hmem)

theorem SInv.written_of_fresh (h : SInv cal agents s) (hready : Ready cal s agentId seen now a spec due quiet)
    (hfresh : s.tables.messages.row id = none) :
    Written cal s (Schedules.exec cal s (.fire agentId seen now id)).2 a spec due now quiet id := by
  have hid : a.id = agentId := Keyed.key_of_row hready.row
  have hnotMem := h.notMem_dues hready
  have hcurrent : ((s.tables.agents.row a.id).filter (fun b => b.enabled && !b.paused)).bind
      AgentRow.scheduleNextAt = some due := by
    rw [hid, hready.row, Option.filter_some, if_pos hready.active, Option.bind_some, hready.current]
  have hsource : sourceTaken s.tables (scheduledMessage cal { a with scheduleNextAt := seen } spec due now id) = false := by
    refine Option.isSome_eq_false_iff.2 (Option.isNone_iff_eq_none.2 (List.find?_eq_none.2 fun m hm => ?_))
    obtain ⟨due', hdue', hevent⟩ := h.fired m.id m (Keyed.row_iff.2 ⟨hm, rfl⟩)
    simp only [scheduledMessage, Bool.and_eq_true, beq_iff_eq, not_and]
    rintro ⟨hagent, -⟩ heq
    rw [hevent] at heq
    obtain rfl : due' = due := Int.repr_inj.1 (Option.some.inj heq)
    rw [hagent, hid] at hdue'
    exact hnotMem hdue'
  have hfires : ∀ reason, ∃ fires, s.tables.fires.insert? (newFire a.id due reason id now) trivial = some fires := by
    intro reason
    refine Option.ne_none_iff_exists'.1 fun hnone => ?_
    obtain ⟨f, hf⟩ := Option.isSome_iff_exists.1 (Keyed.insert?_eq_none.1 hnone)
    obtain ⟨hmem, hkey⟩ := Keyed.row_iff.1 hf
    obtain ⟨hagent, hdue⟩ := Prod.mk.inj hkey
    have hagent' : f.agentId = agentId := hagent.trans hid
    have hdue' : f.dueAt = due := hdue
    exact hnotMem (List.mem_map.2 ⟨f, List.mem_filter.2 ⟨hmem, by simp [hagent']⟩, hdue'⟩)
  have hbody : ∃ reply t, fireTx cal { a with scheduleNextAt := seen } spec due (spec.next cal due)
      (spec.isStale due now) quiet now id s.tables = .ok (reply, t) := by
    simp only [fireTx, hcurrent, ne_eq, not_true_eq_false, if_false]
    obtain ⟨fires, hfires⟩ := hfires (skipReason (spec.isStale due now) quiet (overlaps s.tables a.id spec.overlap))
    split
    · next hmail =>
      -- the message is fresh, and its source too
      split at hmail
      · obtain ⟨t, ht⟩ := insertMessage?_of_free ⟨rfl⟩ hsource hfresh
        rw [ht] at hmail
        cases hmail
      · cases hmail
    · next t hmail =>
      have hsame : t.fires = s.tables.fires := by
        split at hmail
        · exact (insertMessage?_frame hmail).2
        · rw [Option.some.inj hmail]
      rw [hsame, hfires]
      exact ⟨_, _, rfl⟩
  obtain ⟨reply, t, hbody⟩ := hbody
  rw [fire_of_ready id hready, Calls.transact_of_ok hbody]
  exact written_of_fireTx hready hbody

theorem overlaps_skip_iff : overlaps s.tables agentId .skip = false ↔ ¬ Excluded s agentId .skip := by
  simp [overlaps, Excluded, scheduledWaiting]

theorem overlaps_bufferOne_iff (h : ∀ m ∈ s.tables.messages.rows, scheduledFor agentId m = true → Free s m.id) :
    overlaps s.tables agentId .bufferOne = false ↔ ¬ Excluded s agentId .bufferOne := by
  have hnone : overlaps s.tables agentId .bufferOne = false ↔
      ∀ m ∈ s.tables.messages.rows, ¬ scheduledFor agentId m = true := by
    simp [overlaps, scheduledWaiting]
  rw [hnone]
  constructor
  · rintro hnone ⟨m, hm, hsched, -⟩
    exact hnone m hm hsched
  · exact fun hexcluded m hm hsched => hexcluded ⟨m, hm, hsched, h m hm hsched⟩

theorem newFire_status {reason : Option SkipReason} :
    (newFire agentId due reason id now).status = .queued ↔ reason = none := by
  cases reason <;> simp [newFire]

theorem fired_of_written {s' : AgentSystem} (hready : Ready cal s agentId seen now a spec due quiet)
    (hw : Written cal s s' a spec due now quiet id) (hfree : spec.isStale due now = false → quiet = false →
      spec.overlap = .bufferOne → ∀ m ∈ s.tables.messages.rows, scheduledFor agentId m = true → Free s m.id) :
    Fired s s' agentId spec due now quiet := by
  obtain rfl : a.id = agentId := Keyed.key_of_row hready.row
  refine ⟨_, Keyed.rows_insert? hw.fires, rfl, rfl, ?_, ?_⟩
  · rcases hw.messages with ⟨hnone, -, hinsert⟩ | ⟨hsome, hsame⟩
    · have hrow : s'.tables.messages.row id = some (scheduledMessage cal a spec due now id) := by
        obtain ⟨hfresh, hrow⟩ := Keyed.insert?_eq_some hinsert
        rw [hrow, show s.tables.messages.row id = none from hfresh, Option.none_or]
        exact if_pos rfl
      refine .inl ⟨newFire_status.2 hnone, scheduledMessage cal a spec due now id, ?_, hrow, ?_, rfl⟩
      · rw [newFire, hnone]
        rfl
      · simp [newFire, scheduledFor, scheduledMessage, AgentMessageRow.waiting]
    · have hisNone : (decision s.tables a.id spec due now quiet).isNone = false :=
        Option.isNone_eq_false_iff.2 (Option.ne_none_iff_isSome.1 hsome)
      exact .inr ⟨⟨by rw [newFire, hisNone]; rfl, by rw [newFire, hisNone]; rfl⟩, hsame⟩
  · rw [newFire_status, decision, skipReason_eq_none]
    refine and_congr_right fun hstale => and_congr_right fun hquiet => ?_
    cases hpolicy : spec.overlap with
    | skip => exact overlaps_skip_iff
    | bufferOne => exact overlaps_bufferOne_iff (hfree hstale hquiet hpolicy)

theorem eq_of_countP_le_one {α : Type} {p : α → Bool} {l : List α} (h : l.countP p ≤ 1) {x y : α} (hx : x ∈ l)
    (hpx : p x = true) (hy : y ∈ l) (hpy : p y = true) : x = y := by
  rw [List.countP_eq_length_filter] at h
  have hx' := List.mem_filter.2 ⟨hx, hpx⟩
  have hy' := List.mem_filter.2 ⟨hy, hpy⟩
  match hl : l.filter p with
  | [] => rw [hl] at hx'; cases hx'
  | [z] => rw [hl] at hx' hy'; exact (List.mem_singleton.1 hx').trans (List.mem_singleton.1 hy').symm
  | _ :: _ :: _ => rw [hl] at h; simp at h

theorem free_of_fired {s' : AgentSystem} (hready : Ready cal s agentId seen now a spec due false)
    (hw : Written cal s s' a spec due now false id) (hsingle : scheduledWaiting s.tables agentId ≤ 1)
    (hstale : spec.isStale due now = false) (hpolicy : spec.overlap = .bufferOne)
    (hfired : Fired s s' agentId spec due now false) {m : AgentMessageRow} (hm : m ∈ s.tables.messages.rows)
    (hsched : scheduledFor agentId m = true) : Free s m.id := by
  obtain rfl : a.id = agentId := Keyed.key_of_row hready.row
  by_contra hexecuting
  obtain ⟨f, hrows, -, -, -, hstatus⟩ := hfired
  have hexcluded : ¬ Excluded s a.id spec.overlap := by
    rw [hpolicy]
    rintro ⟨m', hm', hsched', hfree⟩
    rw [eq_of_countP_le_one hsingle hm' hsched' hm hsched] at hfree
    exact hexecuting hfree
  have hqueued := hstatus.2 ⟨hstale, rfl, hexcluded⟩
  -- the record the code wrote says it was skipped
  rw [Keyed.rows_insert? hw.fires] at hrows
  obtain rfl := List.singleton_inj.1 (List.append_cancel_left hrows)
  have hnone := newFire_status.1 hqueued
  have hzero := scheduledWaiting_of_overlaps (skipReason_eq_none.1 hnone).2.2
  exact (List.countP_eq_zero.1 hzero) m hm hsched

theorem sinv_run (cal : Calendar) (agents : Keyed AgentRow.id (fun _ => True)) (calls : List ScheduleCall) :
    SInv cal agents (run cal agents calls) := by
  have hstep : ∀ s c, SInv cal agents s → SInv cal agents (exec cal s c).2 := fun s c h => h.exec c
  exact Calls.after_invariant hstep sinv_start calls

theorem run_snoc (cal : Calendar) (agents : Keyed AgentRow.id (fun _ => True)) (calls : List ScheduleCall)
    (c : ScheduleCall) : run cal agents (calls ++ [c]) = (exec cal (run cal agents calls) c).2 :=
  Calls.after_snoc _ _ _ _

theorem exec_fires {c : ScheduleCall} (h : ∀ agentId seen now id, c = .fire agentId seen now id →
    ∀ a spec due quiet, ¬ Ready cal s agentId seen now a spec due quiet) :
    (exec cal s c).2.tables.fires = s.tables.fires := by
  cases c with
  | fire agentId seen now id => rw [fire_of_not_ready id (h agentId seen now id rfl)]
  | claimDue id now => exact (unfired_claimDue s id now).fires
  | insertRun agentId items version now checkpoint id =>
    exact (unfired_insertRun s agentId items version now checkpoint id).fires
  | complete c => exact (unfired_complete s c).fires
  | reconcile now => exact (unfired_reconcile s now).fires

/-- **A schedule is punctual exactly over the runs in which no fire of a buffering schedule finds the message of its
last fire executing.** -/
theorem schedule_punctual_iff (cal : Calendar) (agents : Keyed AgentRow.id (fun _ => True))
    (calls : List ScheduleCall) :
    Punctual cal agents calls ↔ Calls.Guarded (exec cal) (Unbuffered cal) (start agents) calls := by
  constructor
  · rintro hpunctual pre c post hcalls
    cases c with
    | fire agentId seen now id =>
      intro hfresh a spec due m hready hstale hpolicy hm hsched
      have hfired := hpunctual.fired pre agentId seen now id post hcalls hfresh a spec due false hready
      rw [run_snoc] at hfired
      have hinv := sinv_run cal agents pre
      exact free_of_fired hready (hinv.written_of_fresh hready hfresh) (hinv.single agentId) hstale hpolicy hfired hm
        hsched
    | claimDue id now | insertRun agentId items version now checkpoint id | complete c => trivial
    | reconcile now => trivial
  · intro hguarded
    constructor
    · intro pre post _ i a a' spec ha ha' htrigger
      have hfollows := (sinv_run cal agents pre).follows i a a' spec ha ha' htrigger
      exact ⟨hfollows, hfollows.pairwise (increasing_next cal spec)⟩
    · intro pre agentId seen now id post hcalls hfresh a spec due quiet hready
      have hcall := hguarded pre _ post hcalls
      rw [run_snoc]
      refine fired_of_written hready ((sinv_run cal agents pre).written_of_fresh hready hfresh) ?_
      intro hstale hquiet hpolicy m hm hsched
      subst hquiet
      exact hcall hfresh a spec due m hready hstale hpolicy hm hsched
    · intro pre c post _ hnot
      rw [run_snoc]
      exact exec_fires hnot
    · intro pre post _ i
      exact (sinv_run cal agents pre).single i

/-! ## A dropped fire -/

def bufferedSpec : AgentScheduleSpec := ⟨"* * * * *", "UTC", .bufferOne, 3600, none, none⟩

def bufferedAgent : AgentRow :=
  { sampleAgent with trigger := .ok (some bufferedSpec), scheduleNextAt := some 0 }

def bufferedAgents : Keyed AgentRow.id (fun _ => True) := ⟨[bufferedAgent], by simp, fun _ _ => trivial⟩

def droppedFireCalls : List ScheduleCall :=
  [.fire "a" (some 0) 0 "m", .claimDue "a" 0, .insertRun "a" ["m"] (some 1) 0 (.ok "null") "r",
    .fire "a" (some 60) 60 "m'"]

theorem executing_fire_dropped : ¬ Punctual minuteCalendar bufferedAgents droppedFireCalls := by
  intro h
  have hstate : (run minuteCalendar bufferedAgents (droppedFireCalls.take 3)).tables.messages.rows =
      [scheduledMessage minuteCalendar bufferedAgent bufferedSpec 0 0 "m"] := by decide
  have hexecuting : Executing (run minuteCalendar bufferedAgents (droppedFireCalls.take 3))
      (newRun "r" "a" (some "m") (some 1) 0 "null") "m" := ⟨by decide, rfl, by decide⟩
  have hready : Ready minuteCalendar (run minuteCalendar bufferedAgents (droppedFireCalls.take 3)) "a" (some 60) 60
      { bufferedAgent with nextRunAt := some 1, lastRunStatus := some .running, updatedAt := 1, scheduleNextAt := some 60 }
      bufferedSpec 60 false :=
    ⟨rfl, rfl, rfl, rfl, rfl, le_refl 60, rfl, rfl⟩
  obtain ⟨f, hrows, -, -, -, hstatus⟩ :=
    h.fired (droppedFireCalls.take 3) "a" (some 60) 60 "m'" [] rfl (by decide) _ _ _ _ hready
  have hexcluded : ¬ Excluded (run minuteCalendar bufferedAgents (droppedFireCalls.take 3)) "a" .bufferOne := by
    rintro ⟨m, hm, -, hfree⟩
    rw [hstate, List.mem_singleton] at hm
    subst hm
    exact hfree _ hexecuting
  have hqueued := hstatus.2 ⟨by decide, rfl, hexcluded⟩
  have hfires : (run minuteCalendar bufferedAgents droppedFireCalls).tables.fires.rows =
      (run minuteCalendar bufferedAgents (droppedFireCalls.take 3)).tables.fires.rows ++
        [newFire "a" 60 (some .overlap) "m'" 60] := by decide
  obtain rfl := List.singleton_inj.1 (List.append_cancel_left (hrows.symm.trans hfires))
  exact absurd hqueued (by decide)

end Schedules

end Execlaw
