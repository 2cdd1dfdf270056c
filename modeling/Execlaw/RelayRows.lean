import Execlaw.Relay
/-!
# RelayRows — what one step does to the tables

A step of the system writes at most one outbox row, and for a reason the action names; a takeover withdraws several.
The ownership tables are written by the ownership store's calls alone.
-/
namespace Execlaw

/-! ## What a step does to the outbox -/

section Rows

variable {J : Type} {env : Env J} {s s' : System J} {a : Action J}

/-- **Why a row changed its status**: every way one step can. -/
inductive Cause (env : Env J) (s : System J) (rec : OutboxRec) : Action J → OutboxStatus → Prop
  | claimed {r : Nat} {nowTs : Int} {row : OutboxRow} {rest : List OutboxRow} {n : Nat}
      (at_row : s.relays r = .scanning nowTs (row :: rest) n) (id : row.id = some rec.id) (free : rec.claimable nowTs) :
      Cause env s rec (.claimNext r) .inFlight
  | delivered {r : Nat} {job : Job} {receipt : Option String} {context : String}
      (at_row : s.relays r = .working job (.settling (.delivered receipt) context)) (id : job.id = rec.id) :
      Cause env s rec (.settle r) .delivered
  | doubted {r : Nat} {job : Job} {reason context : String}
      (at_row : s.relays r = .working job (.settling (.unknown reason) context)) (id : job.id = rec.id)
      (flying : rec.status = .inFlight) : Cause env s rec (.settle r) .unknown
  | failed {r : Nat} {job : Job} {error context : String}
      (at_row : s.relays r = .working job (.settling (.failure error) context)) (id : job.id = rec.id) :
      Cause env s rec (.settle r) (rec.afterFailure (env.relay r).maxAttempts)
  | undispatched {r : Nat} {job : Job} {context : String}
      (at_row : s.relays r = .working job (.settling .noDispatcher context)) (id : job.id = rec.id) :
      Cause env s rec (.settle r) (rec.afterFailure 1)
  | authorized {actor reason : String} (unsure : rec.status = .unknown) :
      Cause env s rec (.authorizeUnknownRetry rec.id actor reason) .pending
  | confirmed {actor receipt : String} (unsure : rec.status = .unknown) :
      Cause env s rec (.confirmUnknownDelivered rec.id actor receipt) .delivered
  | redriven {actor reason : String} (dead : rec.status = .deadLetter) :
      Cause env s rec (.redriveDeadLetter rec.id actor reason) .pending

def Action.scope? (env : Env J) : Action J → Option String
  | .assignAgent conversationId channel recipient _ | .takeover conversationId channel recipient
  | .recordOperatorAction conversationId channel recipient _ _ _ | .handback conversationId channel recipient _ =>
    some (env.scopeKey conversationId channel recipient)
  | _ => none

/-- **What one step does to the outbox**: nothing to the database or, by the ownership store, nothing to the outbox; one
row written for a cause; one row stored; a takeover's withdrawal. -/
inductive OutboxStep (env : Env J) (s : System J) : Action J → Db → Prop
  | quiet {a : Action J} {db' : Db} (same : db' = s.db) : OutboxStep env s a db'
  | handed {a : Action J} {db' : Db} (call : (a.scope? env).isSome = true) (outbox : db'.outbox = s.db.outbox)
      (seq : db'.outboxSeq = s.db.outboxSeq) : OutboxStep env s a db'
  | wrote {a : Action J} {rec rec' : OutboxRec} {db' : Db} (writes : s.db.Writes rec rec' db')
      (cause : Cause env s rec a rec'.status) : OutboxStep env s a db'
  | stored {a : Action J} {rec : OutboxRec} {db' : Db} (enqueues : a.scope? env = none)
      (inserts : s.db.Inserts rec db') (owned : rec.Owned s.db) : OutboxStep env s a db'
  | withdrew {conversationId channel recipient key : String} {db' : Db}
      (key_eq : key = env.scopeKey conversationId channel recipient) (seq : db'.outboxSeq = s.db.outboxSeq)
      (ids : db'.outbox.map OutboxRec.id = s.db.outbox.map OutboxRec.id)
      (effect : ∀ j, db'.effect j = (s.db.effect j).map
        (fun r => if r.withdrawn key (s.db.nextGeneration key) then r.withdraw else r)) :
      OutboxStep env s (.takeover conversationId channel recipient) db'

def Relay.rows : Relay → List OutboxRow
  | .idle _ => []
  | .scanning _ rest _ => rest
  | .working job _ => job.row :: job.rest

/-- **What holds of every reachable state**: ids are unique and none is past the sequence, and a row in a relay's hands
is a row of the table, of the same kind; only a sink that can be asked is asked. -/
structure System.Coherent (env : Env J) (s : System J) : Prop where
  nodup : (s.db.outbox.map OutboxRec.id).Nodup
  le_seq : ∀ id ∈ s.db.outbox.map OutboxRec.id, id ≤ s.db.outboxSeq
  held : ∀ r row, row ∈ (s.relays r).rows → ∃ rec, row.id = some rec.id ∧ s.db.effect rec.id = some rec ∧
    rec.effectKind = row.effectKind
  job : ∀ r job phase, s.relays r = .working job phase → job.row.id = some job.id
  lookup : ∀ r job e, s.relays r = .working job (.reconciling e) →
    (env.relay r).registry job.row.effectKind = some .statusLookup

variable {r : Nat}

theorem System.Coherent.effect_job (h : s.Coherent env) {job : Job} {phase : Phase}
    (hr : s.relays r = .working job phase) :
    ∃ rec, rec.id = job.id ∧ s.db.effect job.id = some rec ∧ rec.effectKind = job.row.effectKind := by
  obtain ⟨rec, hid, heff, hkind⟩ := h.held r job.row (by rw [hr]; exact List.mem_cons_self)
  have hjob : rec.id = job.id := by
    have := h.job r job phase hr
    rw [hid] at this
    exact Option.some.inj this
  exact ⟨rec, hjob, hjob ▸ heff, hkind⟩

variable {rec : OutboxRec}

theorem effect_of_mem {db : Db} (hnd : (db.outbox.map OutboxRec.id).Nodup) (h : rec ∈ db.outbox) :
    db.effect rec.id = some rec := Table.byKey_eq_of_mem hnd h

theorem settle_outbox (h : s.Coherent env) {job : Job} {outcome : Outcome} {context : String}
    (hr : s.relays r = .working job (.settling outcome context)) :
    OutboxStep env s (.settle r) (s.settle env r job context outcome).db := by
  obtain ⟨rec, hid, heff, -⟩ := h.effect_job hr
  cases outcome with
  | delivered receipt =>
    obtain ⟨db', hres, hw⟩ := markDeliveredWithReceipt_eq heff receipt s.clock
    simp only [System.settle, hres, System.settled]
    exact .wrote hw (.delivered hr hid.symm)
  | failure error =>
    obtain ⟨db', hres, hw⟩ :=
      recordFailure_eq heff error (env.relay r).maxAttempts (backoffSecs job.row) s.clock
    simp only [System.settle, hres, System.settled]
    exact .wrote hw (by rw [status_fail]; exact .failed hr hid.symm)
  | unknown reason =>
    by_cases hst : rec.status = .inFlight
    · obtain ⟨db', rec', hres, hw, hst'⟩ := markUnknown_inFlight heff hst reason s.clock
      simp only [System.settle, hres, System.settled]
      exact .wrote hw (by rw [hst']; exact .doubted hr hid.symm hst)
    · have hne : (s.db.effect job.id).map OutboxRec.status ≠ some .inFlight := by
        rw [heff, Option.map_some, ne_eq, Option.some.injEq]
        exact hst
      have hres := markUnknown_settled hne reason s.clock
      simp only [System.settle, hres, System.settled]
      exact .quiet rfl
  | noDispatcher =>
    obtain ⟨db', hres, hw⟩ :=
      recordFailure_eq heff s!"no dispatcher for '{job.row.effectKind}'" 1 0 s.clock
    simp only [System.settle, hres]
    exact .wrote hw (by rw [status_fail]; exact .undispatched hr hid.symm)

theorem claimNext_outbox {nowTs : Int} {row : OutboxRow} {rest : List OutboxRow} {n : Nat}
    (hr : s.relays r = .scanning nowTs (row :: rest) n) :
    OutboxStep env s (.claimNext r) (s.claimNext env r nowTs row rest n).db := by
  unfold System.claimNext
  cases hid : row.id with
  | none => exact .quiet rfl
  | some id =>
    rcases claimWithLease_cases id s!"relay:{(env.relay r).pid}:{nowTs}" nowTs 120 s.db with
      hres | ⟨rec, rec', db', hres, rfl, hw, hc, hst⟩
    · simp only [hres]
      exact .quiet rfl
    · simp only [hres]
      exact .wrote hw (by rw [hst]; exact .claimed hr hid hc)

theorem call_db (s : System J) {α : Type} (note : α → List (Entry J)) (res : Except DbError α × Db) :
    (s.call note res).db = res.2 := by
  obtain ⟨x, db⟩ := res
  cases x <;> rfl

theorem decided_outbox {id : Int} {old new : OutboxStatus} {res : Except DbError Unit × Db}
    (h : DecidesEffect id s.db old new res) (hcause : ∀ rec, rec.id = id → rec.status = old → Cause env s rec a new)
    (note : Unit → List (Entry J)) : OutboxStep env s a (s.call note res).db := by
  rw [call_db]
  rcases h with ⟨e, rfl⟩ | ⟨rec, rec', db', rfl, hid, hw, hst, rfl⟩
  · exact .quiet rfl
  · exact .wrote hw (hcause rec hid hst)

theorem proceed_db (env : Env J) (s : System J) (r : Nat) (job : Job) : (s.proceed env r job).db = s.db := by
  unfold System.proceed
  repeat' split
  all_goals rfl

theorem dispatchReturned_db (env : Env J) (s : System J) (r : Nat) (job : Job) (result : DispatchResult) :
    (s.dispatchReturned env r job result).db = s.db := by
  unfold System.dispatchReturned
  repeat' split
  all_goals rfl

theorem reconcileReturned_db (s : System J) (r : Nat) (job : Job) (error : Option String)
    (result : Except String ReconciliationResult) : (s.reconcileReturned r job error result).db = s.db := by
  unfold System.reconcileReturned
  split <;> rfl

theorem RelayStep.outbox (h : RelayStep env s r a s') (hs : s.Coherent env) : OutboxStep env s a s'.db := by
  cases h with
  | claimNext hr => exact claimNext_outbox hr
  | settle hr => exact settle_outbox hs hr
  | proceed hr => exact .quiet (by rw [proceed_db])
  | dispatchReturned hr result => exact .quiet (by rw [dispatchReturned_db])
  | reconcileReturned hr result => exact .quiet (by rw [reconcileReturned_db])
  | beginDrain | finishDrain | crash => exact .quiet rfl

theorem exec_outbox (hs : s.Coherent env) (h : s.exec env a = some s') : OutboxStep env s a s'.db := by
  cases a with
  | setClock now =>
    cases h
    exact .quiet rfl
  | beginDrain r | claimNext r | finishDrain r | proceed r | dispatchReturned r result | reconcileReturned r result
  | settle r | crash r => exact (exec_relay rfl h).outbox hs
  | enqueue row =>
    cases h
    rw [call_db]
    rcases enqueue_cases row s.clock s.db with hdb | ⟨rec, hins, hown⟩
    · exact .quiet hdb
    · exact .stored rfl hins hown
  | enqueueIdempotent row =>
    cases h
    rw [call_db]
    rcases enqueueIdempotentGuarded_cases row none s.clock s.db with hdb | ⟨rec, hins, hown⟩
    · exact .quiet hdb
    · exact .stored rfl hins hown
  | enqueueForAgent row key agentId generation =>
    cases h
    rw [call_db]
    rcases enqueueIdempotentGuarded_cases row (some ⟨key, agentId, generation⟩) s.clock s.db with
      hdb | ⟨rec, hins, hown⟩
    · exact .quiet hdb
    · exact .stored rfl hins hown
  | authorizeUnknownRetry id actor reason =>
    cases h
    exact decided_outbox (authorizeUnknownRetry_cases ..) (fun rec hid hst => hid ▸ .authorized hst) _
  | confirmUnknownDelivered id actor receipt =>
    cases h
    exact decided_outbox (confirmUnknownDelivered_cases ..) (fun rec hid hst => hid ▸ .confirmed hst) _
  | redriveDeadLetter id actor reason =>
    cases h
    exact decided_outbox (redriveDeadLetter_cases ..) (fun rec hid hst => hid ▸ .redriven hst) _
  | assignAgent conversationId channel recipient agentId =>
    cases h
    rw [call_db]
    rcases assignAgent_cases (env.scopeKey conversationId channel recipient) conversationId agentId s.clock s.db with
      ⟨own, -, hres⟩ | ⟨-, hres⟩
    · exact .handed rfl (by rw [hres]) (by rw [hres])
    · exact .handed rfl (by rw [hres]) (by rw [hres])
  | takeover conversationId channel recipient =>
    cases h
    rw [call_db]
    generalize hkey : env.scopeKey conversationId channel recipient = key
    cases hlog : s.db.takeoverLogged key with
    | true =>
      rw [takeover_refused conversationId s.clock hlog]
      exact .quiet rfl
    | false =>
      obtain ⟨db', hres, hhands, heff⟩ := takeover_ok conversationId s.clock hlog
      rw [hres]
      exact .withdrew hkey.symm hhands.seq hhands.ids heff
  | recordOperatorAction conversationId channel recipient eventId seq payload =>
    cases h
    unfold System.recordOperatorAction
    rw [call_db]
    rcases recordOperatorAction_cases env.json (env.scopeKey conversationId channel recipient) eventId seq payload
      s.clock s.db with ⟨res, hres, -⟩ | ⟨own, encoded, -, -, -, hres⟩
    · exact .handed rfl (by rw [hres]) (by rw [hres])
    · exact .handed rfl (by rw [hres]) (by rw [hres])
  | handback conversationId channel recipient generation =>
    cases h
    rw [call_db]
    rcases handbackWithContext_cases env.json (env.scopeKey conversationId channel recipient) generation s.clock s.db
      with ⟨e, hres⟩ | ⟨res, db', hres⟩
    · exact .handed rfl (by rw [hres]) (by rw [hres])
    · obtain ⟨own, payload, -, -, -, -, hhands, hout⟩ := handbackWithContext_ok hres
      exact .handed rfl (by rw [hres, hout]) (by rw [hres, hhands.seq])

theorem retrying_of_afterFailure {budget : Nat} (h : rec.afterFailure budget = .pending) :
    rec.retrying budget = true := by
  unfold OutboxRec.afterFailure at h
  split at h
  · assumption
  · cases h

def Action.Releases (id : Int) (a : Action J) : Prop :=
  (∃ actor reason, a = .authorizeUnknownRetry id actor reason) ∨ ∃ actor reason, a = .redriveDeadLetter id actor reason

theorem Cause.to_pending (h : Cause env s rec a .pending) :
    (∃ r job outcome context budget, a = .settle r ∧ s.relays r = .working job (.settling outcome context) ∧
      job.id = rec.id ∧ rec.retrying budget = true ∧
      ((∃ error, outcome = .failure error ∧ budget = (env.relay r).maxAttempts) ∨
        (outcome = .noDispatcher ∧ budget = 1))) ∨ a.Releases rec.id := by
  generalize hst : OutboxStatus.pending = st at h
  cases h with
  | failed hr hid =>
    exact .inl ⟨_, _, _, _, _, rfl, hr, hid, retrying_of_afterFailure hst.symm, .inl ⟨_, rfl, rfl⟩⟩
  | undispatched hr hid =>
    exact .inl ⟨_, _, _, _, _, rfl, hr, hid, retrying_of_afterFailure hst.symm, .inr ⟨rfl, rfl⟩⟩
  | authorized => exact .inr (.inl ⟨_, _, rfl⟩)
  | redriven => exact .inr (.inr ⟨_, _, rfl⟩)
  | claimed | delivered | doubted | confirmed => cases hst

theorem releases_history {id : Int} (ha : a.Releases id) (h : s.exec env a = some s') :
    s'.db = s.db ∨ s'.history = .released id :: s.history := by
  rcases ha with ⟨actor, reason, rfl⟩ | ⟨actor, reason, rfl⟩
  · cases h
    rcases authorizeUnknownRetry_cases id actor reason s.clock s.db with ⟨e, hres⟩ | ⟨_, _, db', hres, -⟩
    · exact .inl (by rw [call_db, hres])
    · exact .inr (by rw [hres]; rfl)
  · cases h
    rcases redriveDeadLetter_cases id actor reason s.clock s.db with ⟨e, hres⟩ | ⟨_, _, db', hres, -⟩
    · exact .inl (by rw [call_db, hres])
    · exact .inr (by rw [hres]; rfl)

theorem status_withdraw (rec : OutboxRec) : rec.withdraw.status = .failed ∨ rec.withdraw.status = .unknown := by
  unfold OutboxRec.withdraw
  by_cases h : rec.status = .pending <;> simp [h]

variable {db db' : Db}

theorem nodup_append (hout : db'.outbox = db.outbox ++ [rec]) (hid : rec.id = db.outboxSeq + 1)
    (hseq : db'.outboxSeq = db.outboxSeq + 1) (hle : ∀ id ∈ db.outbox.map OutboxRec.id, id ≤ db.outboxSeq)
    (hnd : (db.outbox.map OutboxRec.id).Nodup) :
    (db'.outbox.map OutboxRec.id).Nodup ∧ ∀ id ∈ db'.outbox.map OutboxRec.id, id ≤ db'.outboxSeq := by
  rw [hout, List.map_append, List.map_singleton, hid, hseq]
  constructor
  · refine hnd.append (List.nodup_singleton _) ?_
    intro id hid hnew
    have := hle id hid
    rw [List.mem_singleton] at hnew
    omega
  · intro id hid
    rcases List.mem_append.1 hid with hid | hid
    · have := hle id hid
      omega
    · exact le_of_eq (List.mem_singleton.1 hid)

theorem effect_append (hout : db'.outbox = db.outbox ++ [rec]) (hid : rec.id = db.outboxSeq + 1)
    (hle : ∀ id ∈ db.outbox.map OutboxRec.id, id ≤ db.outboxSeq) (j : Int) :
    db'.effect j = if j = rec.id then some rec else db.effect j := by
  unfold Db.effect
  rw [hout, Table.byKey_append, Table.byKey_cons]
  by_cases hj : j = rec.id
  · have hnone : Table.byKey OutboxRec.id j db.outbox = none := by
      rw [Table.byKey_eq_none]
      intro hmem
      have := hle j hmem
      omega
    rw [hnone, if_pos hj.symm, if_pos hj]
    rfl
  · rw [if_neg (Ne.symm hj), if_neg hj]
    exact Option.or_none

theorem nodup_inserts (h : db.Inserts rec db') (hle : ∀ id ∈ db.outbox.map OutboxRec.id, id ≤ db.outboxSeq)
    (hnd : (db.outbox.map OutboxRec.id).Nodup) :
    (db'.outbox.map OutboxRec.id).Nodup ∧ ∀ id ∈ db'.outbox.map OutboxRec.id, id ≤ db'.outboxSeq :=
  nodup_append h.outbox h.id h.seq hle hnd

theorem effect_inserts (h : db.Inserts rec db') (hle : ∀ id ∈ db.outbox.map OutboxRec.id, id ≤ db.outboxSeq) (j : Int) :
    db'.effect j = if j = rec.id then some rec else db.effect j := effect_append h.outbox h.id hle j

theorem OutboxStep.scopes {db' : Db} (h : OutboxStep env s a db') (ha : a.scope? env = none) :
    db'.ownership = s.db.ownership ∧ db'.handoffEvents = s.db.handoffEvents := by
  cases h with
  | quiet hsame => exact ⟨by rw [hsame], by rw [hsame]⟩
  | wrote hw => exact ⟨hw.ownership, hw.handoffs⟩
  | stored _ hins => exact ⟨hins.ownership, hins.handoffs⟩
  | handed hcall =>
    rw [ha] at hcall
    cases hcall
  | withdrew => cases ha

theorem OutboxStep.effect {db' : Db} (h : OutboxStep env s a db') (hs : s.Coherent env)
    (hrec : s.db.effect rec.id = some rec) : ∃ rec', db'.effect rec.id = some rec' ∧ rec.SameEffect rec' ∧
      (rec' = rec ∨ Cause env s rec a rec'.status ∨
        ∃ conversationId channel recipient key, a = .takeover conversationId channel recipient ∧
          key = env.scopeKey conversationId channel recipient ∧ rec' = rec.withdraw ∧
          rec.withdrawn key (s.db.nextGeneration key) = true) := by
  cases h with
  | quiet hsame => exact ⟨rec, by rw [hsame, hrec], .refl rec, .inl rfl⟩
  | handed _ hout hseq =>
    refine ⟨rec, ?_, .refl rec, .inl rfl⟩
    unfold Db.effect at hrec ⊢
    rw [hout, hrec]
  | @wrote _ r r' _ hw hcause =>
    by_cases hid : rec.id = r.id
    · have heq : rec = r := by
        have hfound := hw.found
        rw [← hid, hrec] at hfound
        exact Option.some.inj hfound
      subst heq
      exact ⟨r', hw.written, hw.same, .inr (.inl hcause)⟩
    · exact ⟨rec, by rw [hw.others _ hid, hrec], .refl rec, .inl rfl⟩
  | @stored _ r _ _ hins hown =>
    refine ⟨rec, ?_, .refl rec, .inl rfl⟩
    have hmem : rec.id ∈ s.db.outbox.map OutboxRec.id := List.mem_map_of_mem (Table.mem_of_byKey hrec)
    have hne : rec.id ≠ r.id := by
      have := hs.le_seq _ hmem
      rw [hins.id]
      omega
    rw [effect_inserts hins hs.le_seq, if_neg hne, hrec]
  | @withdrew conversationId channel recipient key _ hkey hseq hids heff =>
    rw [heff, hrec, Option.map_some]
    by_cases hwd : rec.withdrawn key (s.db.nextGeneration key) = true
    · rw [if_pos hwd]
      exact ⟨_, rfl, ⟨rfl, rfl, rfl, rfl⟩, .inr (.inr ⟨_, _, _, key, rfl, hkey, rfl, hwd⟩)⟩
    · rw [if_neg hwd]
      exact ⟨rec, rfl, .refl rec, .inl rfl⟩

theorem OutboxStep.fresh {db' : Db} (h : OutboxStep env s a db') (hs : s.Coherent env) {i : Int} {rec' : OutboxRec}
    (hnone : s.db.effect i = none) (hrec' : db'.effect i = some rec') : a.scope? env = none ∧ rec'.Owned s.db := by
  cases h with
  | quiet hsame =>
    rw [hsame, hnone] at hrec'
    cases hrec'
  | handed _ hout =>
    unfold Db.effect at hnone hrec'
    rw [hout, hnone] at hrec'
    cases hrec'
  | @wrote _ r r' _ hw _ =>
    have hne : i ≠ r.id := by
      rintro rfl
      rw [hw.found] at hnone
      cases hnone
    rw [hw.others i hne, hnone] at hrec'
    cases hrec'
  | @stored _ r _ hcall hins hown =>
    rw [effect_inserts hins hs.le_seq] at hrec'
    split at hrec'
    · cases hrec'
      exact ⟨hcall, hown⟩
    · rw [hnone] at hrec'
      cases hrec'
  | withdrew _ _ _ heff =>
    rw [heff, hnone] at hrec'
    cases hrec'

end Rows

/-! ## What a step does to the ownership -/

section Scopes

variable {J : Type} {env : Env J} {s s' : System J} {a : Action J}

def actionEvent (key eventId : String) (generation : Nat) (conversationSeq : Int) (payloadJson : String) (now : Int) :
    HandoffEvent :=
  { scopeKey := key, generation := generation, eventKind := .operatorAction, eventId := eventId
    conversationSeq := some conversationSeq, payloadJson := payloadJson, occurredAt := now }

/-- **The steps of the ownership store**: a call without effect, or one of its four writes on the scope `key`. -/
inductive ScopeStep (env : Env J) (s : System J) (key : String) : Action J → System J → Prop
  | refused {a : Action J} : ScopeStep env s key a s
  | assigned {conversationId channel recipient agentId : String} (free : s.db.owner key = none) :
      ScopeStep env s key (.assignAgent conversationId channel recipient agentId)
        { s with
          db := { s.db with ownership := s.db.ownership ++ [agentRow key conversationId agentId s.clock] }
          history := .assigned key :: s.history }
  | tookOver {conversationId channel recipient : String} {db' : Db} (fresh : s.db.takeoverLogged key = false)
      (hands : s.db.Hands key (some (controllerRow key conversationId s.clock (s.db.owner key)))
        (takeoverEvent key (s.db.nextGeneration key) s.clock) db')
      (effect : ∀ j, db'.effect j = (s.db.effect j).map
        (fun r => if r.withdrawn key (s.db.nextGeneration key) then r.withdraw else r)) :
      ScopeStep env s key (.takeover conversationId channel recipient)
        { s with db := db', history := .tookOver key (s.db.nextGeneration key) :: s.history }
  | acted {conversationId channel recipient eventId : String} {seq : Int} {payload : J} {own : OwnershipRow}
      {encoded : String} (json : env.json.toString payload = .ok encoded) (owner : s.db.owner key = some own)
      (controller : own.ownerKind = .controller) :
      ScopeStep env s key (.recordOperatorAction conversationId channel recipient eventId seq payload)
        { s with
          db := { s.db with
            handoffEvents := s.db.handoffEvents ++ [actionEvent key eventId own.generation seq encoded s.clock] }
          history := .acted key eventId seq payload encoded :: s.history }
  | handedBack {conversationId channel recipient payload : String} {own : OwnershipRow} {db' : Db}
      (owner : s.db.owner key = some own) (controller : own.ownerKind = .controller)
      (hands : s.db.Hands key (own.previousAgentId.map (fun agentId => own.restored agentId s.clock))
        (handbackEvent key own.generation payload s.clock) db') :
      ScopeStep env s key (.handback conversationId channel recipient own.generation)
        { s with db := db', history := .handedBack key own.generation own.previousAgentId :: s.history }

theorem exec_scope {key : String} (ha : a.scope? env = some key) (h : s.exec env a = some s') :
    ScopeStep env s key a s' := by
  cases a with
  | assignAgent conversationId channel recipient agentId =>
    cases h
    cases ha
    rcases assignAgent_cases (env.scopeKey conversationId channel recipient) conversationId agentId s.clock s.db with
      ⟨own, hown, hres⟩ | ⟨hnone, hres⟩
    · simp only [hres, System.call, hown]
      exact .refused
    · simp only [hres, System.call, hnone]
      exact .assigned hnone
  | takeover conversationId channel recipient =>
    cases h
    cases ha
    cases hlog : s.db.takeoverLogged (env.scopeKey conversationId channel recipient) with
    | true =>
      simp only [takeover_refused conversationId s.clock hlog, System.call]
      exact .refused
    | false =>
      obtain ⟨db', hres, hhands, heff⟩ := takeover_ok conversationId s.clock hlog
      simp only [hres, System.call, generation_controllerRow]
      exact .tookOver hlog hhands heff
  | recordOperatorAction conversationId channel recipient eventId seq payload =>
    cases h
    cases ha
    unfold System.recordOperatorAction
    rcases recordOperatorAction_cases env.json (env.scopeKey conversationId channel recipient) eventId seq payload
      s.clock s.db with ⟨res, hres, hnot⟩ | ⟨own, encoded, henc, hown, hcon, hres⟩
    · rw [hres]
      cases res with
      | error e => exact .refused
      | ok inserted =>
        cases inserted with
        | true => exact absurd rfl hnot
        | false => exact .refused
    · simp only [hres, System.call, henc]
      exact .acted henc hown hcon
  | handback conversationId channel recipient generation =>
    cases h
    cases ha
    rcases handbackWithContext_cases env.json (env.scopeKey conversationId channel recipient) generation s.clock s.db
      with ⟨e, hres⟩ | ⟨res, db', hres⟩
    · simp only [hres, System.call]
      exact .refused
    · obtain ⟨own, payload, hown, hcon, rfl, hval, hhands, -⟩ := handbackWithContext_ok hres
      simp only [hres, System.call, hval]
      exact .handedBack hown hcon hhands
  | _ => cases ha

end Scopes

end Execlaw
