import Execlaw.Agents
/-!
# AgentMailbox — who takes a message, and who acknowledges it

Supervisors claim an agent, read its pending messages, and insert a run for them some awaits later; the run completes,
or a restart interrupts it.  `AgentSystem` runs the tables beside the messages each run was inserted for.
-/
namespace Execlaw

open Table

inductive AgentCall
  | enqueue (agentId : String) (event : AgentSourceEvent) (availableAt now : Int) (newId : String)
  | correct (agentId : String) (event : AgentSourceEvent) (supersedesEventId : String) (availableAt now : Int)
      (newId : String)
  | claimDue (id : String) (now : Int)
  | insertRun (agentId : String) (items : List String) (version : Option Nat) (now : Int)
      (checkpoint : Except String String) (id : String)
  | complete (completion : AgentRunCompletion)
  | deliver (ids : List String) (runId : String) (now : Int)
  | reconcile (now : Int)

inductive AgentReply
  | enqueued (mailboxId : String) (inserted : Bool)
  | claimed (agent : Option AgentRow)
  | started (runId : String)
  | reconciled (count : Nat)
  | fired (mailboxId : Option String)
  | done

structure AgentSystem where
  tables : AgentTables
  taken : List (String × String)

namespace AgentSystem

open AgentStore

def start (agents : Keyed AgentRow.id (fun _ => True)) : AgentSystem := ⟨⟨agents, .empty, .empty, .empty⟩, []⟩

/-- **One call**; a run is inserted for the messages its supervisor read, the first of which is its mailbox id. -/
def exec (s : AgentSystem) : AgentCall → Except AgentError AgentReply × AgentSystem
  | .enqueue agentId event availableAt now newId =>
    let called := enqueueTriggeredEventAt agentId event availableAt now newId s.tables
    (called.1.map (fun p => .enqueued p.1 p.2), { s with tables := called.2 })
  | .correct agentId event supersedesEventId availableAt now newId =>
    let called := enqueueTriggeredCorrection agentId event supersedesEventId availableAt now newId s.tables
    (called.1.map (fun p => .enqueued p.1 p.2), { s with tables := called.2 })
  | .claimDue id now =>
    let called := claimDue id now s.tables
    (.ok (.claimed called.1), { s with tables := called.2 })
  | .insertRun agentId items version now checkpoint id =>
    match insertRunForMailbox agentId items.head? version now checkpoint id s.tables with
    | (.error e, t) => (.error e, { s with tables := t })
    | (.ok runId, t) => (.ok (.started runId), ⟨t, s.taken ++ items.map (fun item => (runId, item))⟩)
  | .complete completion =>
    let called := completeMailboxRun completion s.tables
    (called.1.map (fun _ => .done), { s with tables := called.2 })
  | .deliver ids runId now => (.ok .done, { s with tables := deliver ids runId now s.tables })
  | .reconcile now =>
    let called := reconcileInterruptedRuns now s.tables
    (.ok (.reconciled called.1), { s with tables := called.2 })

def run (agents : Keyed AgentRow.id (fun _ => True)) (calls : List AgentCall) : AgentSystem :=
  Calls.after exec (start agents) calls

/-! ## What should hold -/

def Executing (s : AgentSystem) (r : AgentRunRow) (item : String) : Prop :=
  s.tables.runs.row r.id = some r ∧ r.status = .running ∧ (r.id, item) ∈ s.taken

structure Orderly (s : AgentSystem) : Prop where
  oneRunning : ∀ r ∈ s.tables.runs.rows, ∀ r' ∈ s.tables.runs.rows, r.status = .running → r'.status = .running →
    r.agentId = r'.agentId → r = r'
  acknowledged : ∀ m ∈ s.tables.messages.rows, m.deliveredAt.isSome = true → ∃ r status,
    m.resultRunId = some r.id ∧ s.tables.runs.row r.id = some r ∧ r.agentId = m.agentId ∧ r.status = .completed status
  sourcedOnce : ∀ m ∈ s.tables.messages.rows, ∀ m' ∈ s.tables.messages.rows, m.agentId = m'.agentId →
    m.sourceKind = m'.sourceKind → m.sourceEventId = m'.sourceEventId → m.sourceEventId.isSome = true → m = m'
  current : ∀ m ∈ s.tables.messages.rows, m.supersededBy.isSome = true → m.deliveredAt = none

/-- **The mailbox over a run**: orderly in every state, one acknowledgement a message, and the messages of an
interrupted run pending again. -/
structure Sound (agents : Keyed AgentRow.id (fun _ => True)) (calls : List AgentCall) : Prop where
  orderly : ∀ pre post, calls = pre ++ post → Orderly (run agents pre)
  once : ∀ pre mid post, calls = pre ++ mid ++ post → ∀ item m, (run agents pre).tables.messages.row item = some m →
    m.deliveredAt.isSome = true → (run agents (pre ++ mid)).tables.messages.row item = some m
  interrupted : ∀ pre now post, calls = pre ++ .reconcile now :: post → ∀ r item, Executing (run agents pre) r item →
    ∃ m, (run agents (pre ++ [.reconcile now])).tables.messages.row item = some m ∧
      ∀ later, m.availableAt ≤ later → ∃ bound, m ∈ pendingMessagesAt r.agentId bound later
        (run agents (pre ++ [.reconcile now])).tables

/-! ## When it holds -/

def Pending (s : AgentSystem) (agentId item : String) : Prop :=
  ∃ m, s.tables.messages.row item = some m ∧ m.agentId = agentId ∧ m.waiting = true

def Deliverable (s : AgentSystem) (runId item : String) : Prop :=
  ∀ m, s.tables.messages.row item = some m → m.waiting = true ∧ (∀ r, ¬ Executing s r item) ∧
    ∃ r status, s.tables.runs.row runId = some r ∧ r.agentId = m.agentId ∧ r.status = .completed status

/-- **The calls the code does not check**: a run is inserted while none of its agent is running and its messages are
still pending, it acknowledges messages it was inserted for, no correction supersedes a message whose run is running,
and `deliver` names pending messages and a run that completed. -/
def Checked (s : AgentSystem) : AgentCall → Prop
  | .insertRun agentId items _ _ _ _ =>
    running s.tables agentId = false ∧ ∀ item ∈ items, Pending s agentId item
  | .correct agentId event supersedesEventId _ _ _ =>
    ∀ r item m, Executing s r item → s.tables.messages.row item = some m →
      ¬ (m.agentId = agentId ∧ m.sourceKind = event.sourceKind ∧ m.sourceEventId = some supersedesEventId)
  | .complete c => ∀ item ∈ c.mailboxIds, (c.runId, item) ∈ s.taken
  | .deliver ids runId _ => ∀ item ∈ ids, Deliverable s runId item
  | .enqueue .. | .claimDue .. | .reconcile .. => True

/-! ## The invariant -/

/-- What the checked calls keep: `Orderly`, row by row, and the messages of a running run waiting. -/
structure Inv (s : AgentSystem) : Prop where
  one : ∀ i j r r', s.tables.runs.row i = some r → s.tables.runs.row j = some r' → r.status = .running →
    r'.status = .running → r.agentId = r'.agentId → i = j
  known : ∀ p ∈ s.taken, (s.tables.runs.row p.1).isSome = true
  held : ∀ p ∈ s.taken, ∀ r, s.tables.runs.row p.1 = some r → r.status = .running → s.Pending r.agentId p.2
  acked : ∀ i m run, s.tables.messages.row i = some m → m.resultRunId = some run → ∃ r status,
    s.tables.runs.row run = some r ∧ r.agentId = m.agentId ∧ r.status = .completed status
  source : ∀ i j m m', s.tables.messages.row i = some m → s.tables.messages.row j = some m' →
    m.agentId = m'.agentId → m.sourceKind = m'.sourceKind → m.sourceEventId = m'.sourceEventId →
    m.sourceEventId.isSome = true → i = j
  clean : ∀ i m, s.tables.messages.row i = some m → m.supersededBy.isSome = true → m.deliveredAt = none

theorem inv_start (agents : Keyed AgentRow.id (fun _ => True)) : Inv (start agents) := by
  constructor
  · intro i j r r' hr
    cases hr
  · intro p hp
    cases hp
  · intro p hp
    cases hp
  · intro i m run hm
    cases hm
  · intro i j m m' hm
    cases hm
  · intro i m hm
    cases hm

theorem Inv.orderly {s : AgentSystem} (h : Inv s) : Orderly s := by
  constructor
  · intro r hr r' hr' hrun hrun' hagent
    have hrow := Keyed.row_iff.2 ⟨hr, rfl⟩
    have hrow' := Keyed.row_iff.2 ⟨hr', rfl⟩
    have hid := h.one r.id r'.id r r' hrow hrow' hrun hrun' hagent
    rw [hid, hrow'] at hrow
    exact (Option.some.inj hrow).symm
  · intro m hm hdelivered
    have hrow := Keyed.row_iff.2 ⟨hm, rfl⟩
    have hresult : m.resultRunId.isSome = true := (Keyed.ok_of_row hrow).acknowledged ▸ hdelivered
    obtain ⟨run, hrun⟩ := Option.isSome_iff_exists.1 hresult
    obtain ⟨r, status, hr, hagent, hstatus⟩ := h.acked m.id m run hrow hrun
    have hid := Keyed.key_of_row hr
    exact ⟨r, status, by rw [hrun, hid], by rw [hid]; exact hr, hagent, hstatus⟩
  · intro m hm m' hm' hagent hkind hevent hsome
    have hrow := Keyed.row_iff.2 ⟨hm, rfl⟩
    have hrow' := Keyed.row_iff.2 ⟨hm', rfl⟩
    have hid := h.source m.id m'.id m m' hrow hrow' hagent hkind hevent hsome
    rw [hid, hrow'] at hrow
    exact (Option.some.inj hrow).symm
  · intro m hm hsuper
    exact h.clean m.id m (Keyed.row_iff.2 ⟨hm, rfl⟩) hsuper

/-! ## Messages -/

def Free (s : AgentSystem) (item : String) : Prop := ∀ r, ¬ Executing s r item

def AckedBy (s : AgentSystem) (m : AgentMessageRow) : Prop :=
  ∀ run, m.resultRunId = some run → ∃ r status,
    s.tables.runs.row run = some r ∧ r.agentId = m.agentId ∧ r.status = .completed status

structure SameSource (m m' : AgentMessageRow) : Prop where
  agentId : m'.agentId = m.agentId
  sourceKind : m'.sourceKind = m.sourceKind
  sourceEventId : m'.sourceEventId = m.sourceEventId

structure Altered (s : AgentSystem) (item : String) (m m' : AgentMessageRow) : Prop where
  undelivered : m.deliveredAt = none
  free : Free s item
  source : SameSource m m'
  clean : m'.supersededBy.isSome = true → m'.deliveredAt = none
  acked : AckedBy s m'

def Remailed (s : AgentSystem) (ms : Keyed AgentMessageRow.id AgentMessageRow.Ok) : Prop :=
  ∀ i, ms.row i = s.tables.messages.row i ∨
    ∃ m m', s.tables.messages.row i = some m ∧ ms.row i = some m' ∧ Altered s i m m'

variable {ms : Keyed AgentMessageRow.id AgentMessageRow.Ok} {i : String}

theorem Remailed.back {s : AgentSystem} (h : Remailed s ms) {m' : AgentMessageRow} (hm : ms.row i = some m') :
    ∃ m, s.tables.messages.row i = some m ∧ SameSource m m' ∧ (m' = m ∨ Altered s i m m') := by
  rcases h i with heq | ⟨m, m₁, hm₀, hm₁, haltered⟩
  · exact ⟨m', heq ▸ hm, ⟨rfl, rfl, rfl⟩, .inl rfl⟩
  · rw [hm] at hm₁
    cases hm₁
    exact ⟨m, hm₀, haltered.source, .inr haltered⟩

variable {m : AgentMessageRow}

theorem Remailed.kept {s : AgentSystem} (h : Remailed s ms) (hm : s.tables.messages.row i = some m)
    (hd : m.deliveredAt.isSome = true) : ms.row i = some m := by
  rcases h i with heq | ⟨m₀, m', hm₀, -, haltered⟩
  · rw [heq, hm]
  · rw [hm] at hm₀
    cases hm₀
    rw [haltered.undelivered] at hd
    cases hd

theorem Inv.remailed {s s' : AgentSystem} (h : Inv s) (hruns : s'.tables.runs = s.tables.runs)
    (htaken : s'.taken = s.taken) (hmail : Remailed s s'.tables.messages) : Inv s' := by
  constructor
  · rw [hruns]
    exact h.one
  · rw [hruns, htaken]
    exact h.known
  · rw [hruns, htaken]
    intro p hp r hr hrunning
    obtain ⟨m, hm, hagent, hwaiting⟩ := h.held p hp r hr hrunning
    rcases hmail p.2 with heq | ⟨m₀, m', -, -, haltered⟩
    · exact ⟨m, heq.trans hm, hagent, hwaiting⟩
    · have hid : r.id = p.1 := Keyed.key_of_row hr
      exact absurd ⟨hid ▸ hr, hrunning, hid ▸ hp⟩ (haltered.free r)
  · rw [hruns]
    intro i m' run hm hrun
    obtain ⟨m, hm₀, -, rfl | haltered⟩ := hmail.back hm
    · exact h.acked i m' run hm₀ hrun
    · exact haltered.acked run hrun
  · intro i j m m' hm hm' hagent hkind hevent hsome
    obtain ⟨m₀, hm₀, hsource, -⟩ := hmail.back hm
    obtain ⟨m₁, hm₁, hsource', -⟩ := hmail.back hm'
    refine h.source i j m₀ m₁ hm₀ hm₁ ?_ ?_ ?_ ?_
    · rw [← hsource.agentId, ← hsource'.agentId, hagent]
    · rw [← hsource.sourceKind, ← hsource'.sourceKind, hkind]
    · rw [← hsource.sourceEventId, ← hsource'.sourceEventId, hevent]
    · rw [← hsource.sourceEventId, hsome]
  · intro i m' hm hsuper
    obtain ⟨m, hm₀, -, rfl | haltered⟩ := hmail.back hm
    · exact h.clean i m' hm₀ hsuper
    · exact haltered.clean hsuper

theorem Inv.of_eq {s s' : AgentSystem} (h : Inv s) (hruns : s'.tables.runs = s.tables.runs)
    (hmessages : s'.tables.messages = s.tables.messages) (htaken : s'.taken = s.taken) : Inv s' :=
  h.remailed hruns htaken (fun _ => .inl (by rw [hmessages]))

variable {hm : m.Ok} {t t' : AgentTables}

theorem insertMessage?_eq_some (h : insertMessage? m hm t = some t') :
    sourceTaken t m = false ∧ t.messages.insert? m hm = some t'.messages ∧ t'.runs = t.runs := by
  unfold insertMessage? at h
  split at h
  · cases h
  · next hfree =>
    obtain ⟨messages, hinsert, rfl⟩ := Option.map_eq_some_iff.1 h
    exact ⟨Bool.eq_false_iff.2 hfree, hinsert, rfl⟩

theorem insertMessage?_frame (h : insertMessage? m hm t = some t') : t'.agents = t.agents ∧ t'.fires = t.fires := by
  unfold insertMessage? at h
  split at h
  · cases h
  · obtain ⟨messages, -, rfl⟩ := Option.map_eq_some_iff.1 h
    exact ⟨rfl, rfl⟩

variable {t : AgentTables}

theorem insertMessage?_of_free (hm : m.Ok) (hsource : sourceTaken t m = false) (hid : t.messages.row m.id = none) :
    ∃ t', insertMessage? m hm t = some t' := by
  cases hinsert : t.messages.insert? m hm with
  | none =>
    have hsome := Keyed.insert?_eq_none.1 hinsert
    rw [hid] at hsome
    cases hsome
  | some messages => exact ⟨{ t with messages := messages }, by simp [insertMessage?, hsource, hinsert]⟩

theorem ne_of_sourceTaken {m m' : AgentMessageRow} (h : sourceTaken t m = false) (hm : t.messages.row i = some m')
    (hagent : m'.agentId = m.agentId) (hkind : m'.sourceKind = m.sourceKind)
    (hevent : m'.sourceEventId = m.sourceEventId) : m.sourceEventId = none := by
  cases hid : m.sourceEventId with
  | none => rfl
  | some eventId =>
    rw [sourceTaken, hid, Option.any_some, Option.isSome_eq_false_iff, Option.isNone_iff_eq_none, sourced,
      List.find?_eq_none] at h
    refine absurd ?_ (h m' (Keyed.row_iff.1 hm).1)
    simp [hagent, hkind, hevent, hid]

theorem Inv.posted {s s' : AgentSystem} (h : Inv s) (hinsert : insertMessage? m hm s.tables = some s'.tables)
    (htaken : s'.taken = s.taken) (hsuper : m.supersededBy = none) (hrun : m.resultRunId = none) : Inv s' := by
  obtain ⟨hfree, hmessages, hruns⟩ := insertMessage?_eq_some hinsert
  obtain ⟨hnone, hrow⟩ := Keyed.insert?_eq_some hmessages
  -- a message of the new table is the new one, or was there
  have hback : ∀ i m', s'.tables.messages.row i = some m' →
      s.tables.messages.row i = some m' ∨ i = m.id ∧ m' = m := by
    intro i m' hm'
    rw [hrow] at hm'
    rcases Option.or_eq_some_iff.1 hm' with hold | ⟨-, hnew⟩
    · exact .inl hold
    · split at hnew
      · next hid => exact .inr ⟨hid.symm, (Option.some.inj hnew).symm⟩
      · cases hnew
  constructor
  · rw [hruns]
    exact h.one
  · rw [hruns, htaken]
    exact h.known
  · rw [hruns, htaken]
    intro p hp r hr hrunning
    obtain ⟨m', hm', hagent, hwaiting⟩ := h.held p hp r hr hrunning
    exact ⟨m', by rw [hrow, hm', Option.some_or], hagent, hwaiting⟩
  · rw [hruns]
    intro i m' run hm' hresult
    rcases hback i m' hm' with hold | ⟨-, rfl⟩
    · exact h.acked i m' run hold hresult
    · rw [hrun] at hresult
      cases hresult
  · intro i j m₁ m₂ hm₁ hm₂ hagent hkind hevent hsome
    rcases hback i m₁ hm₁ with hold₁ | ⟨rfl, rfl⟩ <;> rcases hback j m₂ hm₂ with hold₂ | ⟨rfl, rfl⟩
    · exact h.source i j m₁ m₂ hold₁ hold₂ hagent hkind hevent hsome
    · rw [hevent, ne_of_sourceTaken hfree hold₁ hagent hkind hevent] at hsome
      cases hsome
    · rw [ne_of_sourceTaken hfree hold₂ hagent.symm hkind.symm hevent.symm] at hsome
      cases hsome
    · rfl
  · intro i m' hm' hs
    rcases hback i m' hm' with hold | ⟨-, rfl⟩
    · exact h.clean i m' hold hs
    · rw [hsuper] at hs
      cases hs

theorem waiting_iff : m.waiting = true ↔ m.deliveredAt = none ∧ m.supersededBy = none := by
  simp [AgentMessageRow.waiting]

theorem remailed_superseded {s : AgentSystem} (h : Inv s) (agentId kind eventId newId : String)
    (hfree : ∀ r item m, Executing s r item → s.tables.messages.row item = some m →
      ¬ (m.agentId = agentId ∧ m.sourceKind = kind ∧ m.sourceEventId = some eventId)) :
    Remailed s (s.tables.messages.updateAll (supersedeChange agentId kind eventId newId)) := by
  intro i
  rcases Keyed.row_updateAll_cases s.tables.messages (supersedeChange agentId kind eventId newId) i with
    heq | ⟨m, hm, htakes, hset⟩
  · exact .inl heq
  · simp only [supersedeChange, Bool.and_eq_true, beq_iff_eq] at htakes
    obtain ⟨⟨⟨hagent, hkind⟩, hevent⟩, hwaiting⟩ := htakes
    obtain ⟨hundelivered, -⟩ := waiting_iff.1 hwaiting
    refine .inr ⟨m, _, hm, hset, hundelivered, ?_, ⟨rfl, rfl, rfl⟩, fun _ => hundelivered, ?_⟩
    · exact fun r hr => hfree r i m hr hm ⟨hagent, hkind, hevent⟩
    · exact fun run hrun => h.acked i m run hm hrun

theorem row_deliver (runId : String) (now : Int) (i : String) : ∀ (ids : List String) (t : AgentTables),
    (deliver ids runId now t).messages.row i =
      if i ∈ ids then (t.messages.row i).map (deliverChange runId now fun _ => true).set else t.messages.row i
  | [], _ => by simp [deliver]
  | id :: ids, t => by
    have hstep := row_deliver runId now i ids
      { t with messages := t.messages.update id (deliverChange runId now fun _ => true) }
    have hfold : deliver (id :: ids) runId now t = { deliver ids runId now
      { t with messages := t.messages.update id (deliverChange runId now fun _ => true) } with } := rfl
    rw [hfold, hstep]
    by_cases hi : i = id
    · subst hi
      cases hm : t.messages.row i <;> simp [hm, Change.apply, deliverChange]
    · simp [hi, Keyed.row_update_of_ne _ hi]

theorem remailed_delivered {s : AgentSystem} {ids : List String} {runId : String} (now : Int)
    (h : ∀ item ∈ ids, Deliverable s runId item) : Remailed s (deliver ids runId now s.tables).messages := by
  intro i
  rw [row_deliver]
  split
  · next hi =>
    cases hm : s.tables.messages.row i with
    | none => exact .inl rfl
    | some m =>
      obtain ⟨hwaiting, hfree, r, status, hr, hagent, hstatus⟩ := h i hi m hm
      obtain ⟨hundelivered, hsuper⟩ := waiting_iff.1 hwaiting
      refine .inr ⟨m, _, rfl, rfl, hundelivered, hfree, ⟨rfl, rfl, rfl⟩, ?_, ?_⟩
      · intro hs
        simp [deliverChange, hsuper] at hs
      · rintro run hrun
        obtain rfl : runId = run := Option.some.inj hrun
        exact ⟨r, status, hr, hagent, hstatus⟩
  · exact .inl rfl

theorem row_acknowledge {agentId runId : String} {now : Int} (i : String) : ∀ {ids : List String}
    {ms ms' : Keyed AgentMessageRow.id AgentMessageRow.Ok}, acknowledge agentId runId now ids ms = .ok ms' →
      (ms'.row i = ms.row i ∧ i ∉ ids) ∨ i ∈ ids ∧ ∃ m, ms.row i = some m ∧ m.agentId = agentId ∧
        m.deliveredAt = none ∧ ms'.row i = some ((deliverChange runId now (acknowledges agentId)).set m)
  | [], ms, ms', h => by
    cases h
    exact .inl ⟨rfl, List.not_mem_nil⟩
  | id :: ids, ms, ms', h => by
    unfold acknowledge at h
    split at h
    · next hchanged =>
      obtain ⟨m, hm, htakes⟩ := Keyed.changed_iff.1 hchanged
      have hset := Keyed.row_update_of_changed hm htakes
      simp only [deliverChange, acknowledges, Bool.and_eq_true, beq_iff_eq, Option.isNone_iff_eq_none] at htakes
      rcases row_acknowledge i h with ⟨heq, hi⟩ | ⟨hi, m', hm', hagent, hundelivered, hnew⟩
      · by_cases hid : i = id
        · subst hid
          exact .inr ⟨List.mem_cons_self, m, hm, htakes.1, htakes.2, heq.trans hset⟩
        · exact .inl ⟨heq.trans (Keyed.row_update_of_ne _ hid _), by simp [hid, hi]⟩
      · by_cases hid : i = id
        · -- the message would have been acknowledged before
          subst hid
          rw [hset] at hm'
          cases hm'
          cases hundelivered
        · rw [Keyed.row_update_of_ne _ hid] at hm'
          exact .inr ⟨List.mem_cons_of_mem _ hi, m', hm', hagent, hundelivered, hnew⟩
    · cases h

def Stopped (runs runs' : Keyed AgentRunRow.id (fun _ => True)) : Prop :=
  ∀ i, runs'.row i = runs.row i ∨ ∃ r r', runs.row i = some r ∧ runs'.row i = some r' ∧ r.status = .running ∧
    r'.status ≠ .running ∧ r'.agentId = r.agentId

variable {r : AgentRunRow}

theorem Stopped.running {runs runs' : Keyed AgentRunRow.id (fun _ => True)} (h : Stopped runs runs')
    (hr : runs'.row i = some r) (hrunning : r.status = .running) : runs.row i = some r := by
  rcases h i with heq | ⟨r₀, r', -, hr', -, hstopped, -⟩
  · rw [← heq, hr]
  · rw [hr'] at hr
    cases hr
    exact absurd hrunning hstopped

theorem Inv.stopped {s s' : AgentSystem} (h : Inv s) (hmessages : s'.tables.messages = s.tables.messages)
    (htaken : s'.taken = s.taken) (hruns : Stopped s.tables.runs s'.tables.runs) : Inv s' := by
  constructor
  · intro i j r r' hr hr' hrunning hrunning'
    exact h.one i j r r' (hruns.running hr hrunning) (hruns.running hr' hrunning') hrunning hrunning'
  · rw [htaken]
    intro p hp
    have hknown := h.known p hp
    rcases hruns p.1 with heq | ⟨r, r', hr, hr', -⟩
    · rw [heq, hknown]
    · rw [hr']
      rfl
  · rw [htaken]
    intro p hp r hr hrunning
    obtain ⟨m, hm, hpending⟩ := h.held p hp r (hruns.running hr hrunning) hrunning
    exact ⟨m, hmessages ▸ hm, hpending⟩
  · rw [hmessages]
    intro i m run hm hresult
    obtain ⟨r, status, hr, hagent, hstatus⟩ := h.acked i m run hm hresult
    rcases hruns run with heq | ⟨r₀, r', hr₀, -, hrunning, -⟩
    · exact ⟨r, status, heq.trans hr, hagent, hstatus⟩
    · rw [hr] at hr₀
      cases hr₀
      rw [hstatus] at hrunning
      cases hrunning
  · rw [hmessages]
    exact h.source
  · rw [hmessages]
    exact h.clean

theorem stopped_reconciled (runs : Keyed AgentRunRow.id (fun _ => True)) (now : Int) :
    Stopped runs (runs.updateAll (interruptChange now)) := by
  intro i
  rcases Keyed.row_updateAll_cases runs (interruptChange now) i with heq | ⟨r, hr, htakes, hset⟩
  · exact .inl heq
  · exact .inr ⟨r, _, hr, hset, by simpa [interruptChange] using htakes, nofun, rfl⟩

theorem Inv.started {s s' : AgentSystem} (h : Inv s) {run : AgentRunRow} {items : List String}
    (hinsert : s.tables.runs.insert? run trivial = some s'.tables.runs)
    (hmessages : s'.tables.messages = s.tables.messages)
    (htaken : s'.taken = s.taken ++ items.map (fun item => (run.id, item)))
    (hidle : AgentStore.running s.tables run.agentId = false) (hpending : ∀ item ∈ items, Pending s run.agentId item) :
    Inv s' := by
  obtain ⟨hnone, hrow⟩ := Keyed.insert?_eq_some hinsert
  have hback : ∀ i r, s'.tables.runs.row i = some r → s.tables.runs.row i = some r ∨ i = run.id ∧ r = run := by
    intro i r hr
    rw [hrow] at hr
    rcases Option.or_eq_some_iff.1 hr with hold | ⟨-, hnew⟩
    · exact .inl hold
    · split at hnew
      · next hid => exact .inr ⟨hid.symm, (Option.some.inj hnew).symm⟩
      · cases hnew
  have hfirst : ∀ i r, s.tables.runs.row i = some r → r.status = .running → r.agentId ≠ run.agentId := by
    intro i r hr hrunning hagent
    have hany := List.any_eq_false.1 hidle r (Keyed.row_iff.1 hr).1
    simp [hagent, hrunning] at hany
  constructor
  · intro i j r r' hr hr' hrunning hrunning' hagent
    rcases hback i r hr with hold | ⟨rfl, rfl⟩ <;> rcases hback j r' hr' with hold' | ⟨rfl, rfl⟩
    · exact h.one i j r r' hold hold' hrunning hrunning' hagent
    · exact absurd hagent (hfirst i r hold hrunning)
    · exact absurd hagent.symm (hfirst j r' hold' hrunning')
    · rfl
  · rw [htaken]
    intro p hp
    rw [hrow]
    rcases List.mem_append.1 hp with hold | hnew
    · obtain ⟨r, hr⟩ := Option.isSome_iff_exists.1 (h.known p hold)
      rw [hr, Option.some_or]
      rfl
    · obtain ⟨item, -, rfl⟩ := List.mem_map.1 hnew
      simp
  · rw [htaken]
    intro p hp r hr hrunning
    rcases List.mem_append.1 hp with hold | hnew
    · rcases hback p.1 r hr with hrold | ⟨hid, -⟩
      · obtain ⟨m, hm, hm'⟩ := h.held p hold r hrold hrunning
        exact ⟨m, hmessages ▸ hm, hm'⟩
      · have hknown := h.known p hold
        rw [hid, hnone] at hknown
        cases hknown
    · obtain ⟨item, hitem, rfl⟩ := List.mem_map.1 hnew
      rcases hback run.id r hr with hrold | ⟨-, rfl⟩
      · rw [hnone] at hrold
        cases hrold
      · obtain ⟨m, hm, hm'⟩ := hpending item hitem
        exact ⟨m, hmessages ▸ hm, hm'⟩
  · rw [hmessages]
    intro i m runId hm hresult
    obtain ⟨r, status, hr, hagent, hstatus⟩ := h.acked i m runId hm hresult
    exact ⟨r, status, by rw [hrow, hr, Option.some_or], hagent, hstatus⟩
  · rw [hmessages]
    exact h.source
  · rw [hmessages]
    exact h.clean

theorem dbResult_transact_cases {α : Type} (f : AgentTables → Except DbError (α × AgentTables)) (t : AgentTables) :
    (dbResult (Calls.transact f t)).2 = t ∨ ∃ a, f t = .ok (a, (dbResult (Calls.transact f t)).2) := by
  rcases Calls.transact_cases f t with ⟨e, -, htransact⟩ | ⟨a, t', hbody, htransact⟩
  · rw [htransact]
    exact .inl rfl
  · rw [htransact]
    exact .inr ⟨a, hbody⟩

theorem map_same_tables {α β : Type} {x : Except DbError α} {f : α → β} {b : β}
    (h : x.map (fun a => (f a, t)) = .ok (b, t')) : t' = t := by
  cases x with
  | error e => cases h
  | ok a => exact (Prod.mk.inj (Except.ok.inj h)).2.symm

theorem enqueue_cases (agentId : String) (event : AgentSourceEvent) (availableAt now : Int) (newId : String)
    (t : AgentTables) : (enqueueTriggeredEventAt agentId event availableAt now newId t).2 = t ∨
      ∃ version posted, insertMessage? (newMessage newId agentId event version availableAt now) ⟨rfl⟩ t = some posted ∧
        (enqueueTriggeredEventAt agentId event availableAt now newId t).2.runs = posted.runs ∧
        (enqueueTriggeredEventAt agentId event availableAt now newId t).2.messages = posted.messages := by
  unfold enqueueTriggeredEventAt
  split
  · exact .inl rfl
  · rcases dbResult_transact_cases (enqueueTx agentId event availableAt now newId) t with heq | ⟨reply, hbody⟩
    · exact .inl heq
    · generalize (dbResult (Calls.transact (enqueueTx agentId event availableAt now newId) t)).2 = t' at hbody
      unfold enqueueTx at hbody
      split at hbody
      · cases hbody
      · next a ha =>
        split at hbody
        · rw [map_same_tables hbody]
          exact .inl rfl
        · next posted hposted =>
          cases hbody
          exact .inr ⟨a.definitionVersion, posted, hposted, rfl, rfl⟩

theorem correct_cases (agentId : String) (event : AgentSourceEvent) (supersedesEventId : String)
    (availableAt now : Int) (newId : String) (t : AgentTables) :
    (enqueueTriggeredCorrection agentId event supersedesEventId availableAt now newId t).2 = t ∨
      ∃ version posted, insertMessage? (newMessage newId agentId event version availableAt now) ⟨rfl⟩ t = some posted ∧
        (enqueueTriggeredCorrection agentId event supersedesEventId availableAt now newId t).2.runs = posted.runs ∧
        (enqueueTriggeredCorrection agentId event supersedesEventId availableAt now newId t).2.messages =
          posted.messages.updateAll (supersedeChange agentId event.sourceKind supersedesEventId newId) := by
  unfold enqueueTriggeredCorrection
  split
  · exact .inl rfl
  · rcases dbResult_transact_cases (correctTx agentId event supersedesEventId availableAt now newId) t with
      heq | ⟨reply, hbody⟩
    · exact .inl heq
    · generalize (dbResult (Calls.transact (correctTx agentId event supersedesEventId availableAt now newId) t)).2 = t'
        at hbody
      unfold correctTx at hbody
      split at hbody
      · cases hbody
      · next a ha =>
        split at hbody
        · rw [map_same_tables hbody]
          exact .inl rfl
        · next posted hposted =>
          cases hbody
          exact .inr ⟨a.definitionVersion, posted, hposted, rfl, rfl⟩

theorem claimDue_frame (id : String) (now : Int) (t : AgentTables) :
    (AgentStore.claimDue id now t).2.runs = t.runs ∧ (AgentStore.claimDue id now t).2.messages = t.messages := by
  unfold AgentStore.claimDue
  split <;> exact ⟨rfl, rfl⟩

theorem complete_cases (c : AgentRunCompletion) (t : AgentTables) : (completeMailboxRun c t).2 = t ∨
    ∃ checkpointJson r, t.runs.row c.runId = some r ∧ (finishChange c checkpointJson).takes r = true ∧
      (completeMailboxRun c t).2.runs = t.runs.update c.runId (finishChange c checkpointJson) ∧
      acknowledge c.agentId c.runId c.now c.mailboxIds t.messages = .ok (completeMailboxRun c t).2.messages := by
  unfold completeMailboxRun
  split
  · exact .inl rfl
  · next checkpointJson hcheckpoint =>
    rcases dbResult_transact_cases (completeTx c checkpointJson) t with heq | ⟨reply, hbody⟩
    · exact .inl heq
    · generalize (dbResult (Calls.transact (completeTx c checkpointJson) t)).2 = t' at hbody
      unfold completeTx at hbody
      split at hbody
      · next hchanged =>
        obtain ⟨r, hr, htakes⟩ := Keyed.changed_iff.1 hchanged
        split at hbody
        · cases hbody
        · next messages hmessages =>
          cases hbody
          exact .inr ⟨checkpointJson, r, hr, htakes, rfl, hmessages⟩
      · cases hbody

variable {c : AgentRunCompletion} {checkpointJson : String}

theorem finishChange_takes :
    (finishChange c checkpointJson).takes r = true ↔ r.agentId = c.agentId ∧ r.status = .running := by
  simp [finishChange]

theorem stopped_finished {runs : Keyed AgentRunRow.id (fun _ => True)} (checkpointJson : String) :
    Stopped runs (runs.update c.runId (finishChange c checkpointJson)) := by
  intro i
  cases hr : runs.row i with
  | none => exact .inl (Keyed.row_update_eq_none hr)
  | some r =>
    rcases Keyed.row_update_cases hr with heq | ⟨-, htakes, hset⟩
    · exact .inl heq
    · exact .inr ⟨r, _, rfl, hset, (finishChange_takes.1 htakes).2, nofun, rfl⟩

def finished (s : AgentSystem) (c : AgentRunCompletion) (checkpointJson : String) : AgentSystem :=
  { s with tables := { s.tables with runs := s.tables.runs.update c.runId (finishChange c checkpointJson) } }

theorem remailed_acknowledged {s : AgentSystem} (h : Inv s) (hr : s.tables.runs.row c.runId = some r)
    (htakes : (finishChange c checkpointJson).takes r = true)
    (hitems : ∀ item ∈ c.mailboxIds, (c.runId, item) ∈ s.taken)
    (hack : acknowledge c.agentId c.runId c.now c.mailboxIds s.tables.messages = .ok ms) :
    Remailed (s.finished c checkpointJson) ms := by
  obtain ⟨hagent, hrunning⟩ := finishChange_takes.1 htakes
  have hfinished : (s.finished c checkpointJson).tables.runs.row c.runId = some ((finishChange c checkpointJson).set r) :=
    Keyed.row_update_of_changed hr htakes
  intro i
  rcases row_acknowledge i hack with ⟨heq, -⟩ | ⟨hi, m, hm, hmagent, hundelivered, hnew⟩
  · exact .inl heq
  · obtain ⟨m', hm', -, hwaiting⟩ := h.held (c.runId, i) (hitems i hi) r hr hrunning
    rw [hm] at hm'
    cases hm'
    refine .inr ⟨m, _, hm, hnew, hundelivered, ?_, ⟨rfl, rfl, rfl⟩, ?_, ?_⟩
    · -- a running run that holds the message is of this agent, whose only running run is finished
      rintro q ⟨hq, hqrunning, hqtaken⟩
      have hqold : s.tables.runs.row q.id = some q := (stopped_finished checkpointJson).running hq hqrunning
      obtain ⟨m', hm', hqagent, -⟩ := h.held (q.id, i) hqtaken q hqold hqrunning
      rw [hm] at hm'
      cases hm'
      have hid := h.one q.id c.runId q r hqold hr hqrunning hrunning (by rw [← hqagent, hmagent, hagent])
      rw [hid, hfinished] at hq
      cases hq
      cases hqrunning
    · intro hs
      obtain ⟨-, hsuper⟩ := waiting_iff.1 hwaiting
      simp [deliverChange, hsuper] at hs
    · rintro run hrun
      obtain rfl : c.runId = run := Option.some.inj hrun
      exact ⟨_, c.status, hfinished, hagent.trans hmagent.symm, rfl⟩

theorem insertRun_cases (agentId : String) (items : List String) (version : Option Nat) (now : Int)
    (checkpoint : Except String String) (id : String) (s : AgentSystem) :
    (exec s (.insertRun agentId items version now checkpoint id)).2 = s ∨
      ∃ checkpointJson, s.tables.runs.insert? (newRun id agentId items.head? version now checkpointJson) trivial =
          some (exec s (.insertRun agentId items version now checkpoint id)).2.tables.runs ∧
        (exec s (.insertRun agentId items version now checkpoint id)).2.tables.messages = s.tables.messages ∧
        (exec s (.insertRun agentId items version now checkpoint id)).2.taken =
          s.taken ++ items.map (fun item => (id, item)) := by
  cases hcheckpoint : checkpoint with
  | error e => exact .inl rfl
  | ok checkpointJson =>
    cases hinsert : s.tables.runs.insert? (newRun id agentId items.head? version now checkpointJson) trivial with
    | none =>
      simp only [exec, insertRunForMailbox, hinsert]
      exact .inl trivial
    | some runs =>
      simp only [exec, insertRunForMailbox, hinsert]
      exact .inr ⟨checkpointJson, hinsert, trivial, trivial⟩

def Kept (ms ms' : Keyed AgentMessageRow.id AgentMessageRow.Ok) : Prop :=
  ∀ i m, ms.row i = some m → m.deliveredAt.isSome = true → ms'.row i = some m

theorem Kept.of_eq {ms ms' : Keyed AgentMessageRow.id AgentMessageRow.Ok} (h : ms' = ms) : Kept ms ms' :=
  fun i m hm _ => by rw [h, hm]

theorem kept_posted (h : insertMessage? m hm t = some t') : Kept t.messages t'.messages := by
  obtain ⟨-, hrow⟩ := Keyed.insert?_eq_some (insertMessage?_eq_some h).2.1
  exact fun i m hm _ => by rw [hrow, hm, Option.some_or]

theorem Inv.enqueue {s : AgentSystem} (h : Inv s) (agentId : String) (event : AgentSourceEvent) (availableAt now : Int)
    (newId : String) (ht : (enqueueTriggeredEventAt agentId event availableAt now newId s.tables).2 = t) :
    Inv ⟨t, s.taken⟩ ∧ Kept s.tables.messages t.messages := by
  have hcases := enqueue_cases agentId event availableAt now newId s.tables
  rw [ht] at hcases
  rcases hcases with rfl | ⟨version, posted, hposted, hruns, hmessages⟩
  · exact ⟨h, .of_eq rfl⟩
  · have hmid : Inv ⟨posted, s.taken⟩ := h.posted hposted rfl rfl rfl
    exact ⟨hmid.of_eq hruns hmessages rfl, hmessages ▸ kept_posted hposted⟩

theorem Inv.correct {s : AgentSystem} (h : Inv s) {agentId : String} {event : AgentSourceEvent}
    {supersedesEventId : String} {availableAt now : Int} {newId : String}
    (hc : Checked s (.correct agentId event supersedesEventId availableAt now newId))
    (ht : (enqueueTriggeredCorrection agentId event supersedesEventId availableAt now newId s.tables).2 = t) :
    Inv ⟨t, s.taken⟩ ∧ Kept s.tables.messages t.messages := by
  have hcases := correct_cases agentId event supersedesEventId availableAt now newId s.tables
  rw [ht] at hcases
  rcases hcases with rfl | ⟨version, posted, hposted, hruns, hmessages⟩
  · exact ⟨h, .of_eq rfl⟩
  · have hmid : Inv ⟨posted, s.taken⟩ := h.posted hposted rfl rfl rfl
    obtain ⟨-, hinsert, hsame⟩ := insertMessage?_eq_some hposted
    obtain ⟨-, hrow⟩ := Keyed.insert?_eq_some hinsert
    have hfree : ∀ r item m, Executing ⟨posted, s.taken⟩ r item → posted.messages.row item = some m →
        ¬ (m.agentId = agentId ∧ m.sourceKind = event.sourceKind ∧ m.sourceEventId = some supersedesEventId) := by
      -- a message a running run holds was there before the correction
      rintro r item m ⟨hr, hrunning, htaken⟩ hm
      rw [hsame] at hr
      obtain ⟨m', hm', -⟩ := h.held (r.id, item) htaken r hr hrunning
      rw [hrow, hm', Option.some_or] at hm
      obtain rfl := Option.some.inj hm
      exact hc r item m' ⟨hr, hrunning, htaken⟩ hm'
    have hmail : Remailed ⟨posted, s.taken⟩ t.messages :=
      hmessages ▸ remailed_superseded hmid agentId event.sourceKind supersedesEventId newId hfree
    exact ⟨hmid.remailed hruns rfl hmail, fun i m hm hd => hmail.kept (kept_posted hposted i m hm hd) hd⟩

theorem Inv.complete {s : AgentSystem} (h : Inv s) (hc : Checked s (.complete c))
    (ht : (completeMailboxRun c s.tables).2 = t) : Inv ⟨t, s.taken⟩ ∧ Kept s.tables.messages t.messages := by
  have hcases := complete_cases c s.tables
  rw [ht] at hcases
  rcases hcases with rfl | ⟨checkpointJson, r, hr, htakes, hruns, hack⟩
  · exact ⟨h, .of_eq rfl⟩
  · have hmid : Inv (s.finished c checkpointJson) := h.stopped rfl rfl (stopped_finished checkpointJson)
    have hmail : Remailed (s.finished c checkpointJson) t.messages := remailed_acknowledged h hr htakes hc hack
    exact ⟨hmid.remailed hruns rfl hmail, fun i m hm hd => hmail.kept hm hd⟩

theorem exec_enqueue (s : AgentSystem) (agentId : String) (event : AgentSourceEvent) (availableAt now : Int)
    (newId : String) : (exec s (.enqueue agentId event availableAt now newId)).2 =
      ⟨(enqueueTriggeredEventAt agentId event availableAt now newId s.tables).2, s.taken⟩ := rfl

theorem exec_correct (s : AgentSystem) (agentId : String) (event : AgentSourceEvent) (supersedesEventId : String)
    (availableAt now : Int) (newId : String) :
    (exec s (.correct agentId event supersedesEventId availableAt now newId)).2 =
      ⟨(enqueueTriggeredCorrection agentId event supersedesEventId availableAt now newId s.tables).2, s.taken⟩ := rfl

theorem exec_complete (s : AgentSystem) (c : AgentRunCompletion) :
    (exec s (.complete c)).2 = ⟨(completeMailboxRun c s.tables).2, s.taken⟩ := rfl

theorem Inv.exec {s : AgentSystem} (h : Inv s) {c : AgentCall} (hc : Checked s c) :
    Inv (exec s c).2 ∧ Kept s.tables.messages (exec s c).2.tables.messages := by
  cases c with
  | enqueue agentId event availableAt now newId =>
    rw [exec_enqueue]
    generalize ht : (enqueueTriggeredEventAt agentId event availableAt now newId s.tables).2 = t
    exact h.enqueue agentId event availableAt now newId ht
  | correct agentId event supersedesEventId availableAt now newId =>
    rw [exec_correct]
    generalize ht : (enqueueTriggeredCorrection agentId event supersedesEventId availableAt now newId s.tables).2 = t
    exact h.correct hc ht
  | claimDue id now =>
    obtain ⟨hruns, hmessages⟩ := claimDue_frame id now s.tables
    exact ⟨h.of_eq hruns hmessages rfl, .of_eq hmessages⟩
  | insertRun agentId items version now checkpoint id =>
    rcases insertRun_cases agentId items version now checkpoint id s with
      heq | ⟨checkpointJson, hinsert, hmessages, htaken⟩
    · rw [heq]
      exact ⟨h, .of_eq rfl⟩
    · exact ⟨h.started hinsert hmessages htaken hc.1 hc.2, .of_eq hmessages⟩
  | complete c =>
    rw [exec_complete]
    generalize ht : (completeMailboxRun c s.tables).2 = t
    exact h.complete hc ht
  | deliver ids runId now =>
    have hmail := remailed_delivered now hc
    exact ⟨h.remailed rfl rfl hmail, fun i m hm hd => hmail.kept hm hd⟩
  | reconcile now => exact ⟨h.stopped rfl rfl (stopped_reconciled s.tables.runs now), .of_eq rfl⟩

theorem mem_pendingMessagesAt {item : String} (hm : t.messages.row item = some m) (hwaiting : m.waiting = true)
    {later : Int} (hdue : m.availableAt ≤ later) : m ∈ pendingMessagesAt m.agentId t.messages.rows.length later t := by
  have hsorted : (orderBy (fun m : AgentMessageRow => toLex (m.createdAt, m.id))
      (t.messages.rows.filter fun m' => m'.agentId == m.agentId && m'.waiting && decide (m'.availableAt ≤ later))).length
        ≤ t.messages.rows.length := by
    rw [orderBy, List.length_insertionSort]
    exact List.length_filter_le ..
  rw [pendingMessagesAt, List.take_of_length_le hsorted, mem_orderBy, List.mem_filter]
  exact ⟨(Keyed.row_iff.1 hm).1, by simp [hwaiting, hdue]⟩

theorem inv_run {agents : Keyed AgentRow.id (fun _ => True)} {calls : List AgentCall}
    (h : Calls.Guarded exec Checked (start agents) calls) : Inv (run agents calls) :=
  h.invariant (fun _ _ hs hc => (hs.exec hc).1) (inv_start agents)

theorem reconciled_pending {s : AgentSystem} (h : Inv s) (now : Int) {item : String} (hr : Executing s r item) :
    ∃ m, (exec s (.reconcile now)).2.tables.messages.row item = some m ∧
      ∀ later, m.availableAt ≤ later →
        ∃ bound, m ∈ pendingMessagesAt r.agentId bound later (exec s (.reconcile now)).2.tables := by
  obtain ⟨hrow, hrunning, htaken⟩ := hr
  obtain ⟨m, hm, hagent, hwaiting⟩ := h.held (r.id, item) htaken r hrow hrunning
  refine ⟨m, hm, fun later hdue => ⟨s.tables.messages.rows.length, ?_⟩⟩
  rw [← hagent]
  exact mem_pendingMessagesAt (t := (exec s (.reconcile now)).2.tables) hm hwaiting hdue

/-- **The mailbox is sound over every run of checked calls.** -/
theorem mailbox_sound (agents : Keyed AgentRow.id (fun _ => True)) (calls : List AgentCall)
    (h : Calls.Guarded exec Checked (start agents) calls) : Sound agents calls := by
  constructor
  · rintro pre post rfl
    exact (inv_run h.of_append).orderly
  · rintro pre mid post rfl item m hm hd
    have hmid : Calls.Guarded exec Checked (run agents pre) mid := h.of_append.later
    have hkept := hmid.invariant (I := fun s => Inv s ∧ s.tables.messages.row item = some m)
      (fun s c hs hc => ⟨(hs.1.exec hc).1, (hs.1.exec hc).2 item m hs.2 hd⟩) ⟨inv_run h.of_append.of_append, hm⟩
    rw [run, Calls.after_append]
    exact hkept.2
  · rintro pre now post rfl r item hr
    rw [run, Calls.after_snoc]
    exact reconciled_pending (inv_run h.of_append) now hr

/-! ## Examples -/

def sampleAgent : AgentRow where
  id := "a"
  trigger := .ok none
  enabled := true
  paused := false
  nextRunAt := none
  lastRunAt := none
  lastRunStatus := none
  lastError := none
  updatedAt := 0
  definitionVersion := 1
  scheduleNextAt := none

def sampleAgents : Keyed AgentRow.id (fun _ => True) := ⟨[sampleAgent], by simp, fun _ _ => trivial⟩

def sampleEvent : AgentSourceEvent := ⟨"mail", "e", 0, "c", "u", "hi"⟩

def sampleCompletion (runId : String) (items : List String) : AgentRunCompletion :=
  ⟨"a", runId, .success, none, 2, none, none, none, none, .ok "\x7b\x7d", items⟩

def sampleCalls : List AgentCall :=
  [.enqueue "a" sampleEvent 0 0 "m", .claimDue "a" 0, .insertRun "a" ["m"] (some 1) 1 (.ok "\x7b\x7d") "r",
    .complete (sampleCompletion "r" ["m"]), .reconcile 3]

theorem mailbox_sound_sample : Sound sampleAgents sampleCalls :=
  mailbox_sound sampleAgents sampleCalls (by
    have hmessage : (run sampleAgents [.enqueue "a" sampleEvent 0 0 "m", .claimDue "a" 0]).tables.messages.row "m" =
        some (newMessage "m" "a" sampleEvent 1 0 0) := by decide
    refine Calls.guarded_cons.2 ⟨trivial, Calls.guarded_cons.2 ⟨trivial, Calls.guarded_cons.2 ⟨⟨by decide, ?_⟩, ?_⟩⟩⟩
    · intro item hitem
      obtain rfl := List.mem_singleton.1 hitem
      exact ⟨_, hmessage, rfl, rfl⟩
    · refine Calls.guarded_cons.2 ⟨?_, Calls.guarded_cons.2 ⟨trivial, fun pre c post h => ?_⟩⟩
      · intro item hitem
        obtain rfl := List.mem_singleton.1 hitem
        decide
      · cases pre <;> cases h)

def overlappingClaims : List AgentCall :=
  [.claimDue "a" 0, .claimDue "a" 0, .insertRun "a" [] none 1 (.ok "\x7b\x7d") "r",
    .insertRun "a" [] none 1 (.ok "\x7b\x7d") "r'"]

theorem overlapping_claims_run_twice :
    (AgentStore.claimDue "a" 0 (run sampleAgents [.claimDue "a" 0]).tables).1.isSome = true ∧
      ¬ Sound sampleAgents overlappingClaims := by
  refine ⟨by decide, fun h => ?_⟩
  have hone := (h.orderly overlappingClaims [] (List.append_nil _).symm).oneRunning
  have hrows : (run sampleAgents overlappingClaims).tables.runs.rows =
      [newRun "r" "a" none none 1 "\x7b\x7d", newRun "r'" "a" none none 1 "\x7b\x7d"] := by decide
  rw [hrows] at hone
  have heq := hone (newRun "r" "a" none none 1 "\x7b\x7d") (by simp) (newRun "r'" "a" none none 1 "\x7b\x7d") (by simp)
    rfl rfl rfl
  exact absurd (congrArg AgentRunRow.id heq) (by decide)

end AgentSystem

end Execlaw
